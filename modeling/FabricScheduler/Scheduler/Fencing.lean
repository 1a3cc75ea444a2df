import FabricScheduler.Scheduler.Commitment

/-!
# Fencing and cancellation defeat calls in flight

A plan that an epoch change has fenced never gets on its way to execution again, and a
plan of a cancelled request never asks for resources again. Commits and handoffs of such
plans fail whenever their last section runs, however many sections they were through.
-/

namespace FabricScheduler

namespace PlacementPlan

/-- `q` is the plan `p` after changes other than a recovery. The claims are left out: a
commit rewrites them with those it submitted. -/
structure Carried (p q : PlacementPlan) : Prop where
  planId : q.planId = p.planId
  requestId : q.requestId = p.requestId
  selectedCandidate : q.selectedCandidate = p.selectedCandidate
  selectedCandidateGeneration :
    q.selectedCandidateGeneration = p.selectedCandidateGeneration
  authorityGeneration : q.authorityGeneration = p.authorityGeneration
  unresolved : q.state.isUnresolved = true → p.state.isUnresolved = true
  evident : p.Evident → q.Evident

theorem Carried.refl (p : PlacementPlan) : p.Carried p := ⟨rfl, rfl, rfl, rfl, rfl, id, id⟩

theorem Carried.trans {p q r : PlacementPlan} (h : p.Carried q) (h' : q.Carried r) :
    p.Carried r where
  planId := h'.planId.trans h.planId
  requestId := h'.requestId.trans h.requestId
  selectedCandidate := h'.selectedCandidate.trans h.selectedCandidate
  selectedCandidateGeneration :=
    h'.selectedCandidateGeneration.trans h.selectedCandidateGeneration
  authorityGeneration := h'.authorityGeneration.trans h.authorityGeneration
  unresolved hu := h.unresolved (h'.unresolved hu)
  evident he := h'.evident (h.evident he)

theorem SameDecision.carried {p q : PlacementPlan} (h : p.SameDecision q)
    (hu : q.state.isUnresolved = true → p.state.isUnresolved = true)
    (he : p.Evident → q.Evident) : p.Carried q :=
  ⟨h.planId, h.requestId, h.selectedCandidate, h.selectedCandidateGeneration,
    h.authorityGeneration, hu, he⟩

theorem Displaced.carried {p q : PlacementPlan} (h : p.Displaced q) : p.Carried q := by
  have hu := PlacementLifecycleState.isUnresolved_of_isDisplacement h.displacement
  refine h.toSameDecision.carried ?_ ?_
  · intro hq
    rw [hu] at hq
    cases hq
  · intro _ hq
    rw [PlacementLifecycleState.isUnresolved_of_isAuthoritative hq] at hu
    cases hu

end PlacementPlan

/-- Only plans whose resources have been asked for may become active. -/
theorem PlacementLifecycleState.isClaimed_of_canTransition_active
    {s : PlacementLifecycleState} (h : s.canTransition .active = true) :
    s.isClaimed = true := by
  cases s <;> first | rfl | cases h

namespace SchedulerState

variable {st st' : SchedulerState} {k : PlacementPlanId} {p : PlacementPlan}

/-- Every plan of the first state is carried over to the second. -/
def Carries (st st' : SchedulerState) : Prop :=
  ∀ k p, st.plans.find? k = some p → ∃ q, st'.plans.find? k = some q ∧ p.Carried q

private theorem carries_withPlan {q : PlacementPlan} (hp : st.plans.find? k = some p)
    (hq : p.Carried q) : st.Carries (st.withPlan k q) := by
  intro k' p' hp'
  by_cases hk : k = k'
  · subst hk
    obtain rfl := Option.some.inj (hp.symm.trans hp')
    exact ⟨q, find?_withPlan_self, hq⟩
  · exact ⟨p', (find?_withPlan_other hk).trans hp', .refl p'⟩

theorem carries_displaced {when : PlacementPlan → Prop}
    (hd : ∀ k, Displacement when (st.plans.find? k) (st'.plans.find? k)) :
    st.Carries st' := by
  intro k p hp
  have hk := hd k
  rw [hp] at hk
  generalize st'.plans.find? k = after at hk
  cases hk with
  | kept => exact ⟨p, rfl, .refl p⟩
  | displaced _ hdis => exact ⟨_, rfl, hdis.carried⟩

/-- Every change other than a recovery carries the stored plans over. -/
theorem Changed.carries (h : st.Changed st') : st.Carries st' := by
  cases h with
  | @advanced epoch => exact carries_displaced (st.displacement_advanced epoch)
  | scheduled request views snapshot =>
      intro k p hp
      rcases st.scheduleSecond_plans request views snapshot k with hk | ⟨hnone, _⟩
      · exact ⟨p, hk.trans hp, .refl p⟩
      · rw [hnone] at hp
        cases hp
  | @asked k p dst hp _ hstate =>
      refine carries_withPlan hp ((p.sameDecision_enter dst _).carried (fun _ => ?_) ?_)
      · rcases hstate with ⟨hs, _⟩ | ⟨hs, _⟩ <;> rw [hs] <;> rfl
      · intro he hauth
        rcases hstate with ⟨_, rfl⟩ | ⟨hs, rfl⟩
        · cases hauth
        · exact he (by rw [hs]; rfl)
  | @granted k p claims hp hfresh =>
      have hstate : p.state = .awaitingResourceCommit :=
        SchedulerState.state_of_not_commitStale hfresh
      exact carries_withPlan hp
        ⟨rfl, rfl, rfl, rfl, rfl, fun _ => by rw [hstate]; rfl, fun _ _ => rfl⟩
  | @launched k p hp _ hcan =>
      refine carries_withPlan hp ((p.sameDecision_forceState .active _).carried ?_ ?_)
      · exact fun _ => PlacementLifecycleState.isUnresolved_of_isClaimed
          (PlacementLifecycleState.isClaimed_of_canTransition_active hcan)
      · intro he _
        rw [PlacementPlan.forceState_hasCommitmentEvidence]
        exact he (PlacementLifecycleState.isAuthoritative_of_canTransition_active hcan)
  | @withdrawn k p hp =>
      exact carries_withPlan hp (p.displaced_forceState .revalidationRequired rfl _).carried
  | cancel requestId => exact carries_displaced (st.displacement_cancel requestId)
  | supersede oldRequest newRequest reason =>
      exact carries_displaced (st.displacement_supersede oldRequest newRequest reason)
  | _ => exact fun _ p hp => ⟨p, hp, .refl p⟩

end SchedulerState

namespace System

variable {config : SchedulerConfig} {s s' t : System} {a : Action} {k : PlacementPlanId}
  {c : Nat} {es fs : List (TransitionSystem.Step System Action)}

theorem Stepped.changed_of_noRestore (h : Stepped s a t) (hno : s.NoRestore a) :
    s.sched.Changed t.sched := by
  rcases h.changed with ⟨persisted, rfl, _⟩ | h
  · exact hno.elim
  · exact h

/-- A plan is carried along a run without recovery. -/
theorem carries_of_run (h : (scheduler config).Run NoRestore s es t) :
    s.sched.Carries t.sched := by
  refine h.stable (fun u => s.sched.Carries u.sched) ?_ fun k p hp => ⟨p, hp, .refl p⟩
  intro u a v hno hn hu k p hp
  obtain ⟨q, hq, hcarried⟩ := hu k p hp
  obtain ⟨r, hr, hcarried'⟩ :=
    ((stepped_of_step hn).changed_of_noRestore hno).carries k q hq
  exact ⟨r, hr, hcarried.trans hcarried'⟩

/-- A plan appears only at the end of a scheduling pass, which builds it from the candidates
the pass was suspended with and leaves the other plans as they were. -/
theorem Stepped.stored (h : Stepped s a t) (hno : s.NoRestore a) {q : PlacementPlan}
    (hnone : s.sched.plans.find? k = none) (hq : t.sched.plans.find? k = some q) :
    ∃ n request snapshot, s.pending n = some (.scheduling request snapshot) ∧
      SchedulerState.Created s.sched request snapshot q ∧
      (∀ k', k' ≠ k → t.sched.plans.find? k' = s.sched.plans.find? k') ∧
      ∃ views, a = .scheduleFinish n views := by
  have hkept : t.sched.plans.find? k ≠ none := by
    rw [hq]
    exact nofun
  have hwritten : ∀ {planId p r}, s.sched.plans.find? planId = some p →
      t.sched = s.sched.withPlan planId r → t.sched.plans.find? k = none := by
    intro planId p r hp ht
    have hk : planId ≠ k := by
      rintro rfl
      rw [hnone] at hp
      cases hp
    rw [ht, SchedulerState.find?_withPlan_other hk, hnone]
  cases h with
  | @scheduled n request snapshot hc views decision =>
      rcases s.sched.scheduleSecond_plans request views snapshot k with
        hk | ⟨_, rfl, r, hr, hk⟩
      · exact absurd (hk.trans hnone) hkept
      · obtain rfl := Option.some.inj (hk.symm.trans hq)
        refine ⟨n, request, snapshot, hc, hr, ?_, views, rfl⟩
        intro k' hk'
        rcases s.sched.scheduleSecond_plans request views snapshot k' with h | ⟨_, hnext, _⟩
        · exact h
        · exact absurd hnext hk'
  | setEpoch epoch =>
      exact absurd (hnone ▸ s.sched.displacement_setEpoch epoch k).eq_none hkept
  | cancel requestId =>
      exact absurd (hnone ▸ s.sched.displacement_cancel requestId k).eq_none hkept
  | supersede oldRequest newRequest reason =>
      exact absurd
        (hnone ▸ s.sched.displacement_supersede oldRequest newRequest reason k).eq_none hkept
  | revalidate planId current =>
      exact absurd (hnone ▸ s.sched.displacement_revalidate planId current k).eq_none hkept
  | commitAsks hp | commitDenied _ hp | commitGranted _ hp | handoffAsks hp
  | handoffDenied _ hp | handoffLaunches _ hp =>
      exact absurd (hwritten hp rfl) hkept
  | restore => exact hno.elim
  | _ => exact absurd hnone hkept

/-- What logs the return of a handoff past its first section. -/
theorem Stepped.of_handoffReturned (h : Stepped s a t) {out : ExecutionHandoff}
    (hin : Event.handoffReturned c k out ∈ s.since t) :
    a = .handoffFinish c ∧ ∃ answer, s.pending c = some (.launching k answer) ∧
      (out.authorized = false ∨ s.sched.plans.find? k = none ∨
        ∃ p, s.sched.plans.find? k = some p ∧ ¬s.sched.handoffStale p ∧
          p.state.canTransition .active = true) := by
  cases h with
  | handoffVanished hc hp =>
      cases List.mem_singleton.mp (since_continued .. ▸ hin)
      exact ⟨rfl, _, hc, Or.inr (Or.inl hp)⟩
  | handoffFenced hc =>
      cases List.mem_singleton.mp (since_continued .. ▸ hin)
      exact ⟨rfl, _, hc, Or.inl rfl⟩
  | handoffDenied hc _ _ hanswer =>
      cases List.mem_singleton.mp (since_continued .. ▸ hin)
      exact ⟨rfl, _, hc, Or.inl hanswer⟩
  | handoffLaunches hc hp hfresh _ hcan =>
      cases List.mem_singleton.mp (since_continued .. ▸ hin)
      exact ⟨rfl, _, hc, Or.inr (Or.inr ⟨_, hp, hfresh, hcan⟩)⟩
  | _ =>
      simp only [since_whole, since_begun, since_continued, List.mem_cons, List.not_mem_nil,
        or_false, reduceCtorEq] at hin

/-- A handoff returns an authorization only in a step that finds its plan on its way to
execution and makes it active. -/
theorem launches_of_handoffReturned (h : (scheduler config).Reachable NoRestore s)
    (hstep : Stepped s a t) {out : ExecutionHandoff}
    (hin : Event.handoffReturned c k out ∈ s.since t) (hout : out.authorized = true) :
    ∃ p, s.sched.plans.find? k = some p ∧ ¬s.sched.handoffStale p ∧
      p.state.canTransition .active = true := by
  obtain ⟨_, answer, hc, hfail | hnone | hlaunches⟩ := hstep.of_handoffReturned hin
  · exact absurd (hfail.symm.trans hout) Bool.false_ne_true
  · obtain ⟨p, hp⟩ := exists_plan_of_launching h hc
    rw [hnone] at hp
    cases hp
  · exact hlaunches

/-- No call on the plan that returned between the two states has succeeded. -/
structure Defeated (s t : System) (k : PlacementPlanId) : Prop where
  commits : ∀ c out, Event.commitReturned c k out ∈ s.since t ∨
    Event.commitRefused c k out ∈ s.since t → out.succeeded = false
  handoffs : ∀ c out, Event.handoffReturned c k out ∈ s.since t ∨
    Event.handoffRefused c k out ∈ s.since t → out.authorized = false

/-- Calls on a plan whose resources may not be asked for are defeated. -/
theorem defeated_of_not_isClaimed (hs : (scheduler config).Reachable NoRestore s)
    (h : (scheduler config).Run NoRestore s es t)
    (hidle : ∀ e ∈ es, ∀ p, e.src.sched.plans.find? k = some p →
      p.state.isClaimed = false) : s.Defeated t k where
  commits c out hin := by
    rcases hin with hin | hin
    · obtain ⟨before, e, after, rfl, hr, _, hstep, _, hlogs⟩ := exists_logs h hin
      have hreach := hs.run hr
      cases hout : out.succeeded with
      | false => rfl
      | true =>
          obtain ⟨_, _, ⟨p, hp, hstate⟩, _⟩ :=
            commitsPlan_of_commitReturned hreach hstep hlogs hout
          have hclaimed := hidle e (List.mem_append_right _ (List.mem_cons_self ..)) p hp
          rw [hstate] at hclaimed
          cases hclaimed
    · exact (refusedOnly (hs.run h) (mem_log_of_mem_since hin)).failed
  handoffs c out hin := by
    rcases hin with hin | hin
    · obtain ⟨before, e, after, rfl, hr, _, hstep, _, hlogs⟩ := exists_logs h hin
      have hreach := hs.run hr
      cases hout : out.authorized with
      | false => rfl
      | true =>
          obtain ⟨p, hp, _, hcan⟩ := launches_of_handoffReturned hreach hstep hlogs hout
          have hclaimed := hidle e (List.mem_append_right _ (List.mem_cons_self ..)) p hp
          rw [PlacementLifecycleState.isClaimed_of_canTransition_active hcan] at hclaimed
          cases hclaimed
    · exact handoffRefused_not_authorized (hs.run h) (mem_log_of_mem_since hin)

/-- A plan that is not on its way to execution never gets there again, and the calls on it
are defeated. -/
theorem fenced_of_not_isUnresolved (hs : (scheduler config).Reachable NoRestore s)
    (h : (scheduler config).Run NoRestore s es t) {p : PlacementPlan}
    (hp : s.sched.plans.find? k = some p) (hu : p.state.isUnresolved = false) :
    (∃ q, t.sched.plans.find? k = some q ∧ q.state.isUnresolved = false) ∧
      s.Defeated t k := by
  have hstays : ∀ {gs u}, (scheduler config).Run NoRestore s gs u →
      ∃ q, u.sched.plans.find? k = some q ∧ q.state.isUnresolved = false := by
    intro gs u hgs
    obtain ⟨q, hq, hcarried⟩ := carries_of_run hgs k p hp
    refine ⟨q, hq, ?_⟩
    by_contra hne
    rw [hcarried.unresolved (Bool.not_eq_false _ ▸ hne)] at hu
    cases hu
  refine ⟨hstays h, defeated_of_not_isClaimed hs h ?_⟩
  intro e he q hq
  obtain ⟨before, _, _, hbefore, _⟩ := h.of_mem he
  obtain ⟨q', hq', hu'⟩ := hstays hbefore
  obtain rfl := Option.some.inj (hq.symm.trans hq')
  exact PlacementLifecycleState.isClaimed_of_not_isUnresolved hu'

/-- In every reachable state, recoveries from any value included, the plans on their way to
execution carry the current authority and epoch; and without recovery, once the epoch has
advanced, a plan stored at that moment never gets on its way to execution again and the
calls on it are defeated. -/
theorem epoch_fences (config : SchedulerConfig) :
    (∀ s, (scheduler config).Reachable (fun _ _ => True) s →
      ∀ k p, s.sched.plans.find? k = some p → p.state.isUnresolved = true →
        p.authorityGeneration = s.sched.authority ∧ p.coordinatorEpoch = s.sched.epoch) ∧
    ∀ es s epoch s' fs t, (scheduler config).Run NoRestore (initial config) es s →
      s.step (.setEpoch epoch) = some s' → s'.sched.epoch ≠ s.sched.epoch →
      (scheduler config).Run NoRestore s' fs t → ∀ k p, s.sched.plans.find? k = some p →
        (∃ q, t.sched.plans.find? k = some q ∧ q.state.isUnresolved = false) ∧
          s'.Defeated t k := by
  constructor
  · intro s h
    exact (current_of_reachable h).authority
  · intro es s epoch s' fs t hr hset hne hr' k p hp
    have hno : s.NoRestore (.setEpoch epoch) := trivial
    have hreach : (scheduler config).Reachable NoRestore s' :=
      (reachable_of_run hr).next hno hset
    obtain ⟨q, hq, _⟩ := ((stepped_of_step hset).changed_of_noRestore hno).carries k p hp
    refine fenced_of_not_isUnresolved hreach hr' hq ?_
    obtain rfl := Option.some.inj hset
    rcases s.sched.setEpoch_cases epoch with ⟨_, h⟩ | ⟨_, h⟩
    · exact absurd (congrArg SchedulerState.epoch h) hne
    · exact SchedulerState.isUnresolved_advanced (h ▸ hq)

/-- A commit suspended with a granted token while the epoch advances. -/
theorem epoch_fences_suspended : ∃ s s' fs t,
    (scheduler Sample.config).Reachable NoRestore s ∧
    Sample.stateOf ⟨1⟩ s = some .awaitingResourceCommit ∧ s.step (.setEpoch ⟨2⟩) = some s' ∧
    (scheduler Sample.config).Run NoRestore s' fs t ∧
    fs.map TransitionSystem.Step.act = [.commitFinish 1, .brokerRelease 1 true] ∧
    s'.Defeated t ⟨1⟩ := by
  have hsettling : (after Sample.config NoRestore Sample.settling).map
      (fun s => (s.sched.epoch, Sample.stateOf ⟨1⟩ s)) =
      some (⟨1⟩, some .awaitingResourceCommit) := by decide +kernel
  have hfenced : (after Sample.config NoRestore (Sample.settling ++
      [.setEpoch ⟨2⟩, .commitFinish 1, .brokerRelease 1 true])).map (Sample.stateOf ⟨1⟩) =
      some (some .revalidationRequired) := by decide +kernel
  obtain ⟨es, s, fs, t, hr, hr', _, hact, hs, _⟩ := exists_runs_of_after hsettling hfenced
  obtain ⟨s', gs, _, hset, hrun, hgs⟩ := hr'.uncons hact
  obtain ⟨hepoch, hstate⟩ := Prod.mk.injEq .. ▸ hs
  obtain ⟨p, hp, _⟩ := Option.map_eq_some_iff.mp hstate
  have hne : s'.sched.epoch ≠ s.sched.epoch := by
    obtain rfl := Option.some.inj hset
    rcases s.sched.setEpoch_cases ⟨2⟩ with ⟨hle, _⟩ | ⟨hlt, h⟩
    · rw [hepoch] at hle
      exact absurd hle (by decide)
    · change (s.sched.setEpoch ⟨2⟩).2.epoch ≠ s.sched.epoch
      rw [h]
      exact hlt.ne'
  exact ⟨s, s', gs, t, reachable_of_run hr, hstate, hset, hrun, hgs,
    ((epoch_fences Sample.config).2 es s ⟨2⟩ s' gs t hr hset hne hrun ⟨1⟩ p hp).2⟩

/-- After a cancellation the calls on plans of its request are defeated, those in flight
and those on later plans included, and a token granted to a commit that had not already
succeeded is given back by the time its call is over. -/
theorem cancellation_wins (h : (scheduler config).Run NoRestore (initial config) es s)
    {requestId : SchedulingRequestId} (hcancel : s.step (.cancel requestId) = some s')
    (h' : (scheduler config).Run NoRestore s' fs t) {p : PlacementPlan}
    (hp : t.sched.plans.find? k = some p) (hrequest : p.requestId = requestId) :
    s'.Defeated t k ∧
      ∀ c claims answer, Event.brokerCommit c k claims answer ∈ t.log →
        answer.succeeded = true → answer.commitmentToken ≠ [] →
        (∀ out, Event.commitReturned c k out ∈ s'.log → out.succeeded = false) →
        t.pending c = none → Event.brokerRelease c k answer.commitmentToken ∈ t.log := by
  have hno : s.NoRestore (.cancel requestId) := trivial
  have hreach : (scheduler config).Reachable NoRestore s' :=
    (reachable_of_run h).next hno hcancel
  have hdefeated : s'.Defeated t k := by
    refine defeated_of_not_isClaimed hreach h' ?_
    intro e he q hq
    obtain ⟨before, after, rfl, hbefore, hno, hn, hafter⟩ := h'.of_mem he
    have hrest := (TransitionSystem.Run.nil.snoc hno hn).append hafter
    obtain ⟨r, hr, hcarried⟩ := carries_of_run hrest k q hq
    obtain rfl := Option.some.inj (hp.symm.trans hr)
    have hmem : requestId ∈ e.src.sched.cancelledRequests := by
      refine hbefore.stable (fun u => requestId ∈ u.sched.cancelledRequests) ?_ ?_
      · intro u a v hno hn hu
        exact ((stepped_of_step hn).changed_of_noRestore hno).cancelledRequests_subset hu
      · obtain rfl := Option.some.inj hcancel
        exact Finset.mem_insert_self requestId s.sched.cancelledRequests
    by_contra hclaimed
    refine (current_of_reachable (hreach.run hbefore)).uncancelled k q hq
      (Bool.not_eq_false _ ▸ hclaimed) ?_
    rwa [← hcarried.requestId, hrequest]
  refine ⟨hdefeated, ?_⟩
  intro c claims answer he hs htoken hbefore hover
  have hlost : ∀ out, Event.commitReturned c k out ∈ t.log → out.succeeded = false := by
    intro out hout
    rw [log_eq_append_since (log_prefix_of_run h')] at hout
    rcases List.mem_append.mp hout with hout | hout
    · exact hbefore out hout
    · exact hdefeated.commits c out (Or.inl hout)
  obtain ⟨L, htracks, hL⟩ := exists_ledger (hreach.run h') k
  refine htracks.released_of_over hL he hs htoken hlost ?_
  intro call hc
  rw [hover] at hc
  cases hc

/-- A commit suspended with a granted token while its request is cancelled. -/
theorem cancellation_wins_suspended : ∃ s s' fs t,
    (scheduler Sample.config).Reachable NoRestore s ∧
    Sample.stateOf ⟨1⟩ s = some .awaitingResourceCommit ∧ s.step (.cancel ⟨1⟩) = some s' ∧
    (scheduler Sample.config).Run NoRestore s' fs t ∧
    fs.map TransitionSystem.Step.act = [.commitFinish 1, .brokerRelease 1 true] ∧
    s'.Defeated t ⟨1⟩ ∧ t.log.countP (Event.isReleaseOf [1]) = 1 := by
  have hsettling : (after Sample.config NoRestore Sample.settling).map (Sample.stateOf ⟨1⟩) =
      some (some .awaitingResourceCommit) := by decide +kernel
  have hcancelled : (after Sample.config NoRestore (Sample.settling ++
      [.cancel ⟨1⟩, .commitFinish 1, .brokerRelease 1 true])).map
      (fun t => ((t.sched.plans.find? ⟨1⟩).map PlacementPlan.requestId,
        t.log.countP (Event.isReleaseOf [1]))) = some (some ⟨1⟩, 1) := by decide +kernel
  obtain ⟨es, s, fs, t, hr, hr', _, hact, hs, ht⟩ := exists_runs_of_after hsettling hcancelled
  obtain ⟨s', gs, _, hcancel, hrun, hgs⟩ := hr'.uncons hact
  obtain ⟨hplan, hcount⟩ := Prod.mk.injEq .. ▸ ht
  obtain ⟨p, hp, hrequest⟩ := Option.map_eq_some_iff.mp hplan
  exact ⟨s, s', gs, t, reachable_of_run hr, hs, hcancel, hrun, hgs,
    (cancellation_wins hr hcancel hrun hp hrequest).1, hcount⟩

end System

end FabricScheduler
