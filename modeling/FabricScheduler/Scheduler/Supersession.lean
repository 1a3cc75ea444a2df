import FabricScheduler.Library.Ascent
import FabricScheduler.Scheduler.Store

/-!
# Where supersession leads

A supersession points the unresolved plans of one request at the latest plan of another,
whichever requests it is given. Where every plan it points is older than the plan it points
at, the links lead to ever newer plans and end.
-/

namespace FabricScheduler

namespace SchedulerState

variable {st st' : SchedulerState} {k k' : PlacementPlanId}

/-- The plan under one id is superseded by the plan under another. -/
def SupersededBy (st : SchedulerState) (k k' : PlacementPlanId) : Prop :=
  ∃ p, st.plans.find? k = some p ∧ p.supersededBy = k' ∧ k' ≠ ⟨0⟩

/-- Every superseded plan refers to an existing plan with a larger id, following the
references from any plan ends at a plan without a successor, and no plan comes back to
itself. -/
structure SupersessionEnds (st : SchedulerState) : Prop where
  newer : ∀ k p, st.plans.find? k = some p → p.supersededBy ≠ ⟨0⟩ →
    ∃ q, st.plans.find? p.supersededBy = some q ∧ p.planId < q.planId
  ends : ∀ k p, st.plans.find? k = some p → ∃ k' q,
    Relation.ReflTransGen st.SupersededBy k k' ∧ st.plans.find? k' = some q ∧
      q.supersededBy = ⟨0⟩
  acyclic : ∀ k, ¬Relation.TransGen st.SupersededBy k k

/-- The references lead up to plans in store, and so does the index a supersession reads. -/
structure Linked (st : SchedulerState) : Prop where
  newer : ∀ k k', st.SupersededBy k k' → k < k' ∧ k' ∈ st.plans.keys
  latest : ∀ request k, st.latestPlanByRequest.find? request = some k → k ∈ st.plans.keys

theorem linked_initial (config : SchedulerConfig) : (initial config).Linked where
  newer _ _ h := by
    obtain ⟨_, hp, _⟩ := h
    cases hp
  latest _ _ h := by cases h

theorem Linked.supersessionEnds (h : st.Linked) (hdurable : st.Durable) :
    st.SupersessionEnds where
  newer k p hp hne := by
    obtain ⟨hlt, hmem⟩ := h.newer k _ ⟨p, hp, rfl, hne⟩
    obtain ⟨q, hq⟩ := OrderedMap.mem_keys_iff.mp hmem
    refine ⟨q, hq, ?_⟩
    rw [(hdurable.plans k p hp).1, (hdurable.plans _ q hq).1]
    exact hlt
  ends k p hp := by
    obtain ⟨k', hreach, hmem, hend⟩ := Ascent.exists_end (P := fun k => k ∈ st.plans.keys)
      (fun a b hab => (h.newer a b hab).1) (fun a b hab => (h.newer a b hab).2)
      (OrderedMap.mem_keys_iff.mpr ⟨p, hp⟩)
    obtain ⟨q, hq⟩ := OrderedMap.mem_keys_iff.mp hmem
    refine ⟨k', q, hreach, hq, ?_⟩
    by_contra hne
    exact hend _ ⟨q, hq, rfl, hne⟩
  acyclic := Ascent.acyclic fun a b hab => (h.newer a b hab).1

/-- Rewriting a plan without touching its successor adds no reference. -/
private theorem supersededBy_of_withPlan {j : PlacementPlanId} {p q : PlacementPlan}
    (hp : st.plans.find? j = some p) (hsame : q.supersededBy = p.supersededBy)
    (h : (st.withPlan j q).SupersededBy k k') : st.SupersededBy k k' := by
  obtain ⟨r, hr, hlink, hne⟩ := h
  rw [find?_withPlan] at hr
  split at hr
  · rename_i hk
    obtain rfl := Option.some.inj hr
    exact ⟨p, hk ▸ hp, hsame ▸ hlink, hne⟩
  · exact ⟨r, hr, hlink, hne⟩

/-- What the fencing loop refers to: as before, or as its edit has it. -/
private theorem supersededBy_of_forcePlans {when : PlacementPlan → Bool}
    {edit : PlacementPlan → PlacementPlan} {dst : PlacementLifecycleState}
    (h : (st.forcePlans when edit dst).SupersededBy k k') :
    st.SupersededBy k k' ∨ ∃ p, st.plans.find? k = some p ∧ when p = true ∧
      (edit p).supersededBy = k' ∧ k' ≠ ⟨0⟩ := by
  obtain ⟨q, hq, hlink, hne⟩ := h
  obtain ⟨ordinal, hk⟩ := st.find?_forcePlans when edit dst k
  rw [hk] at hq
  obtain ⟨p, hp, rfl⟩ := Option.map_eq_some_iff.mp hq
  cases hw : when p with
  | true =>
      rw [hw, if_pos rfl, PlacementPlan.forceState_eq] at hlink
      exact Or.inr ⟨p, hp, hw, hlink, hne⟩
  | false =>
      rw [hw, if_neg Bool.false_ne_true] at hlink
      exact Or.inl ⟨p, hp, hlink, hne⟩

/-- A loop that edits no successor adds no reference. -/
private theorem supersededBy_of_forced {when : PlacementPlan → Bool}
    {dst : PlacementLifecycleState} (h : (st.forcePlans when id dst).SupersededBy k k') :
    st.SupersededBy k k' := by
  rcases supersededBy_of_forcePlans h with hold | ⟨p, hp, _, hlink, hne⟩
  · exact hold
  · exact ⟨p, hp, hlink, hne⟩

/-- A pass stores its plan without a successor. -/
private theorem supersededBy_of_scheduled {request : SchedulingRequest} {views : ScheduleViews}
    {snapshot : List Candidate}
    (h : (st.scheduleSecond request views snapshot).2.SupersededBy k k') :
    st.SupersededBy k k' := by
  cases hrank : rankSnapshot st.rankOptions request views snapshot with
  | nil =>
      rw [scheduleSecond_of_nil hrank] at h
      exact h
  | cons winner others =>
      rw [scheduleSecond_of_cons hrank] at h
      obtain ⟨q, hq, hlink, hne⟩ := h
      rw [OrderedMap.find?_emplace] at hq
      split at hq
      · rename_i hk
        obtain rfl := Option.some.inj hq
        cases hnext : st.plans.find? ⟨st.nextPlanId⟩ with
        | some p =>
            rw [hnext] at hlink
            exact ⟨p, hk ▸ hnext, hlink, hne⟩
        | none =>
            rw [hnext] at hlink
            exact absurd hlink.symm hne
      · exact ⟨q, hq, hlink, hne⟩

/-- A supersession points the unresolved plans of one request at the latest plan of another. -/
private theorem supersededBy_of_supersede {oldRequest newRequest : SchedulingRequestId}
    {reason : Bytes} (h : (st.supersede oldRequest newRequest reason).SupersededBy k k') :
    st.SupersededBy k k' ∨ ∃ p, st.plans.find? k = some p ∧ p.requestId = oldRequest ∧
      p.state.isTerminal = false ∧ st.latestPlanByRequest.find? newRequest = some k' ∧
      k' ≠ ⟨0⟩ := by
  rcases supersededBy_of_forcePlans h with hold | ⟨p, hp, hwhen, hlink, hne⟩
  · exact Or.inl hold
  · obtain ⟨hrequest, hstate⟩ := Bool.and_eq_true_iff.mp hwhen
    refine Or.inr ⟨p, hp, of_decide_eq_true hrequest, by simpa using hstate, ?_, hne⟩
    cases hlatest : st.latestPlanByRequest.find? newRequest with
    | none =>
        rw [hlatest] at hlink
        exact absurd hlink.symm hne
    | some newer =>
        rw [hlatest] at hlink
        exact congrArg some hlink

/-- An unresolved plan of the old request comes to refer to the latest plan of the new one. -/
private theorem supersededBy_supersede {oldRequest newRequest : SchedulingRequestId}
    {p : PlacementPlan} {newer : PlacementPlanId} (reason : Bytes)
    (hp : st.plans.find? k = some p) (hrequest : p.requestId = oldRequest)
    (hstate : p.state.isTerminal = false)
    (hlatest : st.latestPlanByRequest.find? newRequest = some newer) :
    ∃ q, (st.supersede oldRequest newRequest reason).plans.find? k = some q ∧
      q.planId = p.planId ∧ q.supersededBy = newer := by
  obtain ⟨ordinal, hforced⟩ := st.find?_forcePlans
    (fun plan => plan.requestId = oldRequest && !plan.state.isTerminal)
    (fun plan => { plan with
      supersededBy := (st.latestPlanByRequest.find? newRequest).getD ⟨0⟩
      supersessionReason := reason }) .superseded k
  rw [hp, Option.map_some, if_pos (by simp [hrequest, hstate])] at hforced
  refine ⟨_, hforced, ?_, ?_⟩
  · rw [PlacementPlan.forceState_eq]
  · rw [PlacementPlan.forceState_eq]
    exact congrArg (Option.getD · ⟨0⟩) hlatest

/-- A change drops no plan. -/
private theorem Changed.mem_keys (hc : st.Changed st') (h : k ∈ st.plans.keys) :
    k ∈ st'.plans.keys := by
  obtain ⟨p, hp⟩ := OrderedMap.mem_keys_iff.mp h
  obtain ⟨q, hq, _⟩ := hc.carries k p hp
  exact OrderedMap.mem_keys_iff.mpr ⟨q, hq⟩

/-- The index a supersession reads only ever names plans in store. -/
private theorem Linked.latest_changed (h : st.Linked) (hc : st.Changed st')
    (request : SchedulingRequestId)
    (hk : st'.latestPlanByRequest.find? request = some k) : k ∈ st'.plans.keys := by
  rcases hc.keys_cases with ⟨hkeys, _, hlatest⟩ | ⟨request', views, snapshot, rfl⟩
  · rw [hkeys]
    exact h.latest request k (hlatest ▸ hk)
  · cases hrank : rankSnapshot st.rankOptions request' views snapshot with
    | nil =>
        rw [scheduleSecond_of_nil hrank] at hk ⊢
        exact h.latest request k hk
    | cons winner others =>
        have hmem := fun j (hj : j ∈ st.plans.keys) => hc.mem_keys hj
        rw [scheduleSecond_of_cons hrank] at hk hmem ⊢
        rw [OrderedMap.find?_insert] at hk
        split at hk
        · obtain rfl := Option.some.inj hk
          exact OrderedMap.mem_keys_iff.mpr ⟨_, (OrderedMap.find?_emplace ..).trans (if_pos rfl)⟩
        · exact hmem k (h.latest request k hk)

/-- A recovery from a snapshot keeps the references, and its index names recovered plans. -/
theorem Linked.restore {st₀ : SchedulerState} (h : st₀.Linked) (hdurable : st₀.Durable)
    (st : SchedulerState) : (st.restore st₀.snapshot).Linked := by
  have hkeys := hdurable.keys_restore st
  rw [hdurable.restore_eq st] at hkeys ⊢
  refine ⟨fun k k' hlink => ?_, fun request k hk => ?_⟩
  · rw [hkeys]
    exact h.newer k k' (supersededBy_of_forced hlink)
  · obtain ⟨p, hp, _, hid⟩ := ((find?_rebuildLatest hdurable.sorted request).2 k hk).1
    obtain ⟨j, hj⟩ := OrderedMap.mem_values_iff.mp hp
    rw [hkeys, ← hid, (hdurable.plans j p hj).1]
    exact OrderedMap.mem_keys_iff.mpr ⟨p, hj⟩

end SchedulerState

namespace System

variable {config : SchedulerConfig} {s t : System} {a : Action}
  {es : List (TransitionSystem.Step System Action)}

/-- Every plan the step supersedes is older than the plan it points it at. -/
def SupersedesOlder (s : System) : Action → Prop
  | .supersede oldRequest newRequest _ => ∀ p ∈ s.sched.plans.values,
      p.requestId = oldRequest → p.state.isTerminal = false →
      ∀ newer ∈ s.sched.latestPlanByRequest.find? newRequest, newer ≠ ⟨0⟩ → p.planId < newer
  | _ => True

instance (s : System) (a : Action) : Decidable (s.SupersedesOlder a) :=
  match a with
  | .supersede _ _ _ => inferInstanceAs (Decidable (∀ p ∈ _, _ → _ → ∀ newer ∈ _, _ → _))
  | .setEpoch _ | .fenceWorker _ | .fenceSource _ | .ingestCandidate _ | .scheduleBegin _
  | .scheduleFinish _ _ | .commitBegin _ | .brokerCommit _ _ | .commitFinish _
  | .brokerRelease _ _ | .handoffBegin _ | .authorize _ _ | .handoffFinish _ | .unwind _
  | .revalidate _ _ | .cancel _ | .snapshot | .restore _ => isTrue trivial

/-- Only a supersession makes a plan refer to another. -/
private theorem Stepped.supersededBy_cases (hstep : Stepped s a t) (hno : s.NoRestore a)
    {k k' : PlacementPlanId} (h : t.sched.SupersededBy k k') :
    s.sched.SupersededBy k k' ∨ ∃ oldRequest newRequest reason p,
      a = .supersede oldRequest newRequest reason ∧ s.sched.plans.find? k = some p ∧
        p.requestId = oldRequest ∧ p.state.isTerminal = false ∧
        s.sched.latestPlanByRequest.find? newRequest = some k' ∧ k' ≠ ⟨0⟩ := by
  cases hstep with
  | supersede oldRequest newRequest reason =>
      rcases SchedulerState.supersededBy_of_supersede h with
        hold | ⟨p, hp, hrequest, hstate, hlatest, hne⟩
      · exact Or.inl hold
      · exact Or.inr ⟨oldRequest, newRequest, reason, p, rfl, hp, hrequest, hstate, hlatest, hne⟩
  | setEpoch epoch =>
      change (s.sched.setEpoch epoch).2.SupersededBy k k' at h
      rcases s.sched.setEpoch_cases epoch with ⟨_, hsame⟩ | ⟨_, hadvanced⟩
      · rw [hsame] at h
        exact Or.inl h
      · rw [hadvanced] at h
        exact Or.inl (SchedulerState.supersededBy_of_forced h)
  | cancel requestId => exact Or.inl (SchedulerState.supersededBy_of_forced h)
  | scheduled => exact Or.inl (SchedulerState.supersededBy_of_scheduled h)
  | commitAsks hp | handoffAsks hp =>
      exact Or.inl (SchedulerState.supersededBy_of_withPlan hp (by rfl) h)
  | commitGranted _ hp => exact Or.inl (SchedulerState.supersededBy_of_withPlan hp (by rfl) h)
  | commitDenied _ hp | handoffDenied _ hp | handoffLaunches _ hp =>
      refine Or.inl (SchedulerState.supersededBy_of_withPlan hp ?_ h)
      rw [PlacementPlan.forceState_eq]
  | revalidate planId current =>
      change (s.sched.revalidate planId current).2.SupersededBy k k' at h
      rcases s.sched.revalidate_cases planId current with ⟨_, hsame⟩ | ⟨p, hp, _, hforced⟩
      · rw [hsame] at h
        exact Or.inl h
      · rw [hforced] at h
        refine Or.inl (SchedulerState.supersededBy_of_withPlan hp ?_ h)
        rw [PlacementPlan.forceState_eq]
  | restore => exact hno.elim
  | _ => exact Or.inl h

/-- A step that points no plan at an older one keeps the references leading up. -/
private theorem Stepped.linked (hstep : Stepped s a t) (hno : s.NoRestore a)
    (holder : s.SupersedesOlder a) (hdurable : s.sched.Durable) (h : s.sched.Linked) :
    t.sched.Linked := by
  have hc := hstep.changed_of_noRestore hno
  refine ⟨fun k k' hlink => ?_, fun request k hk => h.latest_changed hc request hk⟩
  rcases hstep.supersededBy_cases hno hlink with
    hold | ⟨oldRequest, newRequest, reason, p, rfl, hp, hrequest, hstate, hlatest, hne⟩
  · obtain ⟨hlt, hmem⟩ := h.newer k k' hold
    exact ⟨hlt, hc.mem_keys hmem⟩
  · have hlt := holder p (OrderedMap.mem_values_iff.mpr ⟨k, hp⟩) hrequest hstate k' hlatest hne
    rw [(hdurable.plans k p hp).1] at hlt
    exact ⟨hlt, hc.mem_keys (h.latest newRequest k' hlatest)⟩

/-- Where every supersession so far pointed older plans at newer ones, references lead up. -/
private theorem linked_of_reachable (h : (scheduler config).Reachable
    (fun s a => RestoresOwn s a ∧ SupersedesOlder s a) s) : s.sched.Linked := by
  refine (invariant_of_permitted h (fun _ _ hP => hP.1) SchedulerState.Linked
    (SchedulerState.linked_initial config) ?_ ?_).1
  · rintro u a v ⟨_, holder⟩ hn hno hdurable _ hu
    exact (stepped_of_step hn).linked hno holder hdurable hu
  · exact fun u st₀ _ hdurable hst₀ => hst₀.restore hdurable u.sched

/-- A step after which every superseded plan refers to a newer one pointed no plan at an
older one. -/
private theorem Stepped.supersedesOlder (hstep : Stepped s a t) (hdurable : t.sched.Durable)
    (h : t.sched.SupersessionEnds) : s.SupersedesOlder a := by
  cases a with
  | supersede oldRequest newRequest reason =>
      intro p hp hrequest hstate newer hlatest hne
      obtain ⟨k, hk⟩ := OrderedMap.mem_values_iff.mp hp
      cases hstep
      obtain ⟨q, hq, hid, hlink⟩ :=
        SchedulerState.supersededBy_supersede reason hk hrequest hstate hlatest
      obtain ⟨r, hr, hlt⟩ := h.newer k q hq (hlink ▸ hne)
      rw [(hdurable.plans _ r hr).1, hlink, hid] at hlt
      exact hlt
  | _ => trivial

/-- In a run whose recoveries read back its own snapshots supersession leads to newer plans
and ends in every state exactly when every supersession points plans at a newer one. -/
theorem supersession_ends_iff (h : (scheduler config).Run RestoresOwn (initial config) es t) :
    (∀ e ∈ es, e.tgt.sched.SupersessionEnds) ↔ ∀ e ∈ es, e.src.SupersedesOlder e.act := by
  have hdurable : ∀ e ∈ es, e.tgt.sched.Durable := fun e he =>
    (recoverable (h.reachable_tgt rfl he)).durable
  constructor
  · intro hall e he
    obtain ⟨_, _, _, _, _, hn, _⟩ := h.of_mem he
    exact (stepped_of_step hn).supersedesOlder (hdurable e he) (hall e he)
  · intro hall e he
    have hreach := (h.strengthen SupersedesOlder hall).reachable_tgt rfl he
    exact (linked_of_reachable hreach).supersessionEnds (hdurable e he)

/-- The plan of one request is superseded by the later plan of another. -/
theorem supersession_ends_forward : ∃ es t,
    (scheduler Sample.config).Run RestoresOwn (initial Sample.config) es t ∧
    (t.sched.plans.find? ⟨1⟩).map PlacementPlan.supersededBy = some ⟨2⟩ ∧
    ∀ e ∈ es, e.tgt.sched.SupersessionEnds := by
  have hrun : (after Sample.config (fun s a => NoRestore s a ∧ SupersedesOlder s a)
      (Sample.scheduling ++ [.scheduleBegin (Sample.request ⟨2⟩),
        .scheduleFinish 1 (.pure none none), .supersede ⟨1⟩ ⟨2⟩ []])).map
      (fun t => (t.sched.plans.find? ⟨1⟩).map PlacementPlan.supersededBy) =
      some (some ⟨2⟩) := by decide +kernel
  obtain ⟨es, t, hr, _, hobs⟩ := exists_run_of_after hrun
  have hown := hr.mono fun s a h => RestoresOwn.of_noRestore s a h.1
  refine ⟨es, t, hown, hobs, (supersession_ends_iff hown).mpr ?_⟩
  intro e he
  obtain ⟨_, _, _, _, hP, _⟩ := hr.of_mem he
  exact hP.2

/-- A request that supersedes itself has a plan that supersedes itself. -/
theorem superseded_by_itself : ¬∀ config es t,
    (scheduler config).Run NoRestore (initial config) es t → t.sched.SupersessionEnds := by
  intro h
  have hrun : (after Sample.config NoRestore (Sample.scheduling ++ [.supersede ⟨1⟩ ⟨1⟩ []])).map
      (fun t => (t.sched.plans.find? ⟨1⟩).map PlacementPlan.supersededBy) =
      some (some ⟨1⟩) := by decide +kernel
  obtain ⟨es, t, hr, _, hobs⟩ := exists_run_of_after hrun
  obtain ⟨p, hp, hlink⟩ := Option.map_eq_some_iff.mp hobs
  exact (h _ es t hr).acyclic ⟨1⟩ (.single ⟨p, hp, hlink, by decide⟩)

end System

end FabricScheduler
