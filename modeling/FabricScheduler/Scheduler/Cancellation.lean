import FabricScheduler.Scheduler.Execution
import FabricScheduler.Scheduler.Steps

/-!
# What a cancellation stops

A cancellation ends the plans its request has. Commit and handoff ask whether the request
is cancelled, a scheduling pass and a revalidation do not, and these two are the only ways
in which a cancelled request has a plan that is not over.
-/

namespace FabricScheduler

namespace SchedulerState

variable {st st' : SchedulerState}

/-- Every plan of a cancelled request is over. -/
def CancelledOver (st : SchedulerState) : Prop :=
  ∀ k p, st.plans.find? k = some p → p.requestId ∈ st.cancelledRequests →
    p.state.isTerminal = true

theorem cancelledOver_initial (config : SchedulerConfig) : (initial config).CancelledOver := by
  intro k p hp
  cases hp

theorem CancelledOver.displaced {when : PlacementPlan → Prop} (h : st.CancelledOver)
    (hcancelled : st'.cancelledRequests = st.cancelledRequests)
    (hwhen : ∀ p, when p → p.state.isTerminal = false)
    (hd : ∀ k, Displacement when (st.plans.find? k) (st'.plans.find? k)) :
    st'.CancelledOver := by
  intro k q hq hmem
  have hk := hd k
  rw [hcancelled] at hmem
  rw [hq] at hk
  generalize hp : st.plans.find? k = before at hk
  cases hk with
  | kept => exact h k q hp hmem
  | @displaced p _ hw hdis =>
      have hterminal := h k p hp (hdis.requestId ▸ hmem)
      rw [hwhen p hw] at hterminal
      cases hterminal

/-- Rewriting a plan of a request that is not cancelled. -/
theorem CancelledOver.withPlan {k : PlacementPlanId} {p q : PlacementPlan}
    (h : st.CancelledOver) (hrequest : q.requestId = p.requestId)
    (hp : p.requestId ∉ st.cancelledRequests) : (st.withPlan k q).CancelledOver := by
  intro k' r hr hmem
  rw [find?_withPlan] at hr
  split at hr
  · obtain rfl := Option.some.inj hr
    exact absurd (hrequest ▸ hmem) hp
  · exact h k' r hr hmem

theorem CancelledOver.cancel (h : st.CancelledOver) (requestId : SchedulingRequestId) :
    (st.cancel requestId).CancelledOver := by
  intro k q hq hmem
  rcases forcePlans_cases hq with hstate | ⟨hkept, hwhen⟩
  · rw [hstate]
    rfl
  · rcases Finset.mem_insert.mp hmem with hrequest | hmem
    · simpa [hrequest] using hwhen
    · exact h k q hkept hmem

end SchedulerState

namespace System

variable {config : SchedulerConfig} {s t : System} {a : Action}

/-- The step starts no work for a cancelled request: a scheduling pass whose request is
cancelled finds no eligible candidate or no free plan id, and a revalidation of a plan of a
cancelled request finds no generation diverging. -/
def StartsNoCancelled (s : System) : Action → Prop
  | .scheduleFinish c views => ∀ request snapshot,
      s.pending c = some (.scheduling request snapshot) →
      request.requestId ∈ s.sched.cancelledRequests →
      rankSnapshot s.sched.rankOptions request views snapshot = [] ∨
        s.sched.plans.find? ⟨s.sched.nextPlanId⟩ ≠ none
  | .revalidate planId current => ∀ p, s.sched.plans.find? planId = some p →
      p.requestId ∈ s.sched.cancelledRequests → p.generations = current
  | _ => True

instance (s : System) (a : Action) : Decidable (s.StartsNoCancelled a) :=
  match a with
  | .scheduleFinish c views =>
      match h : s.pending c with
      | some (.scheduling request snapshot) =>
          decidable_of_iff (request.requestId ∈ s.sched.cancelledRequests →
              rankSnapshot s.sched.rankOptions request views snapshot = [] ∨
                s.sched.plans.find? ⟨s.sched.nextPlanId⟩ ≠ none) <| by
            simp [StartsNoCancelled, h]
      | none | some (.committing _ _) | some (.settling _ _ _) | some (.releasing _ _ _)
      | some (.authorizing _ _) | some (.launching _ _) => isTrue <| by simp [StartsNoCancelled, h]
  | .revalidate planId current =>
      match h : s.sched.plans.find? planId with
      | some p => decidable_of_iff (p.requestId ∈ s.sched.cancelledRequests →
          p.generations = current) <| by simp [StartsNoCancelled, h]
      | none => isTrue <| by simp [StartsNoCancelled, h]
  | .setEpoch _ | .fenceWorker _ | .fenceSource _ | .ingestCandidate _ | .scheduleBegin _
  | .commitBegin _ | .brokerCommit _ _ | .commitFinish _ | .brokerRelease _ _
  | .handoffBegin _ | .authorize _ _ | .handoffFinish _ | .unwind _ | .cancel _
  | .supersede _ _ _ | .snapshot | .restore _ => isTrue trivial

/-- A step that starts no work for a cancelled request leaves its plans over. -/
theorem Stepped.cancelledOver (hstep : Stepped s a t) (hno : s.NoRestore a)
    (hstarts : s.StartsNoCancelled a) (h : s.sched.CancelledOver) : t.sched.CancelledOver := by
  cases hstep with
  | setEpoch epoch =>
      refine h.displaced ?_ (fun _ => id) (s.sched.displacement_setEpoch epoch)
      rcases s.sched.setEpoch_cases epoch with ⟨_, h⟩ | ⟨_, h⟩
      · exact congrArg SchedulerState.cancelledRequests h
      · exact (congrArg SchedulerState.cancelledRequests h).trans rfl
  | supersede oldRequest newRequest reason =>
      exact h.displaced rfl (fun _ => id)
        (s.sched.displacement_supersede oldRequest newRequest reason)
  | cancel requestId => exact h.cancel requestId
  | @scheduled c request snapshot hc views decision =>
      intro k q hq hmem
      change q.requestId ∈ (s.sched.scheduleSecond request views snapshot).2.cancelledRequests
        at hmem
      have hframe := s.sched.scheduleSecond_frame request views snapshot
      rw [(congrArg SchedulerState.cancelledRequests hframe :)] at hmem
      rcases s.sched.scheduleSecond_plans request views snapshot k with hk | ⟨hfree, rfl, r, hr, hk⟩
      · exact h k q (hk.symm.trans hq) hmem
      · obtain rfl := Option.some.inj (hk.symm.trans hq)
        rcases hstarts request snapshot hc (hr.requestId ▸ hmem) with hnil | htaken
        · rw [SchedulerState.scheduleSecond_of_nil hnil] at hk
          exact absurd (hfree.symm.trans hk) nofun
        · exact absurd hfree htaken
  | commitAsks _ _ hcancel => exact h.withPlan rfl hcancel
  | commitDenied _ _ hfresh =>
      exact h.withPlan (PlacementPlan.sameDecision_forceState ..).requestId
        fun hmem => hfresh (Or.inl hmem)
  | commitGranted _ _ hfresh => exact h.withPlan rfl fun hmem => hfresh (Or.inl hmem)
  | handoffAsks _ _ hcancel => exact h.withPlan rfl hcancel
  | handoffDenied _ _ hfresh | handoffLaunches _ _ hfresh =>
      exact h.withPlan (PlacementPlan.sameDecision_forceState ..).requestId
        fun hmem => hfresh (Or.inl hmem)
  | revalidate planId current =>
      rcases s.sched.revalidate_cases planId current with ⟨_, hsame⟩ | ⟨p, hp, hne, hforced⟩
      · change (s.sched.revalidate planId current).2.CancelledOver
        rw [hsame]
        exact h
      · change (s.sched.revalidate planId current).2.CancelledOver
        rw [hforced]
        exact h.withPlan (PlacementPlan.sameDecision_forceState ..).requestId
          fun hmem => hne (hstarts p hp hmem)
  | restore => exact hno.elim
  | _ => exact h

/-- A step that leaves the plans of cancelled requests over starts no work for one. -/
theorem Stepped.startsNoCancelled (hstep : Stepped s a t) (h : t.sched.CancelledOver) :
    s.StartsNoCancelled a := by
  cases a with
  | scheduleFinish c views =>
      intro request snapshot hc hmem
      by_contra hnot
      obtain ⟨hrank, hfree⟩ := not_or.mp hnot
      cases hstep with
      | scheduled hc' views decision =>
          cases hc.symm.trans hc'
          obtain ⟨p, hp, hcreated, _, hkept⟩ :=
            SchedulerState.exists_created hrank (not_not.mp hfree)
          have hterminal := h _ _ hp (hkept ▸ hcreated.requestId ▸ hmem)
          rw [hcreated.ready] at hterminal
          cases hterminal
  | revalidate planId current =>
      intro p hp hmem
      by_contra hne
      cases hstep with
      | revalidate =>
          rcases s.sched.revalidate_cases planId current with ⟨hsame, _⟩ | ⟨q, hq, _, hforced⟩
          · exact hne (hsame p hp)
          · obtain rfl := Option.some.inj (hp.symm.trans hq)
            change (s.sched.revalidate planId current).2.CancelledOver at h
            rw [hforced] at h
            have hterminal := h planId _ SchedulerState.find?_withPlan_self
              ((p.sameDecision_forceState .revalidationRequired _).requestId ▸ hmem)
            rw [PlacementPlan.forceState_state] at hterminal
            cases hterminal
  | _ => trivial

/-- In a run without recovery the plans of cancelled requests are over in every state
exactly when no step starts work for a cancelled request. -/
theorem cancelled_over_iff {es : List (TransitionSystem.Step System Action)}
    (h : (scheduler config).Run NoRestore (initial config) es t) :
    (∀ e ∈ es, e.tgt.sched.CancelledOver) ↔ ∀ e ∈ es, e.src.StartsNoCancelled e.act :=
  h.forall_tgt_iff (fun s => s.sched.CancelledOver) (fun e => e.src.StartsNoCancelled e.act)
    (SchedulerState.cancelledOver_initial config)
    (fun _ hno hn hstarts hover => (stepped_of_step hn).cancelledOver hno hstarts hover)
    (fun _ _ hn hover => (stepped_of_step hn).startsNoCancelled hover)

/-- The plan of a scheduled request is over once the request is cancelled, and a later
pass for another request changes nothing about that. -/
theorem cancelled_over_scheduled : ∃ es t,
    (scheduler Sample.config).Run NoRestore (initial Sample.config) es t ∧
    Sample.stateOf ⟨1⟩ t = some .cancelled ∧ Sample.stateOf ⟨2⟩ t = some .planReady ∧
    ∀ e ∈ es, e.tgt.sched.CancelledOver := by
  have hrun : (after Sample.config (fun s a => NoRestore s a ∧ StartsNoCancelled s a)
      (Sample.scheduling ++ [.cancel ⟨1⟩, .scheduleBegin (Sample.request ⟨2⟩),
        .scheduleFinish 1 (.pure none none)])).map
      (fun t => (Sample.stateOf ⟨1⟩ t, Sample.stateOf ⟨2⟩ t)) =
      some (some .cancelled, some .planReady) := by decide +kernel
  obtain ⟨es, t, hr, _, hobs⟩ := exists_run_of_after hrun
  obtain ⟨hover, hready⟩ := Prod.mk.injEq .. ▸ hobs
  have hno := hr.mono fun _ _ h => h.1
  refine ⟨es, t, hno, hover, hready, (cancelled_over_iff hno).mpr ?_⟩
  intro e he
  obtain ⟨_, _, _, _, hP, _⟩ := hr.of_mem he
  exact hP.2

/-- A request that is scheduled after its cancellation has a plan that is ready. -/
theorem cancelled_then_scheduled : ¬∀ config es t,
    (scheduler config).Run NoRestore (initial config) es t → t.sched.CancelledOver := by
  intro h
  have hrun : (after Sample.config NoRestore (.cancel ⟨1⟩ :: Sample.scheduling)).map
      (fun t => (Sample.stateOf ⟨1⟩ t, (t.sched.plans.find? ⟨1⟩).map PlacementPlan.requestId,
        decide (⟨1⟩ ∈ t.sched.cancelledRequests))) =
      some (some .planReady, some ⟨1⟩, true) := by decide +kernel
  obtain ⟨es, t, hr, _, hobs⟩ := exists_run_of_after hrun
  obtain ⟨hstate, hobs⟩ := Prod.mk.injEq .. ▸ hobs
  obtain ⟨hrequest, hmem⟩ := Prod.mk.injEq .. ▸ hobs
  obtain ⟨p, hp, hready⟩ := Option.map_eq_some_iff.mp hstate
  rw [hp, Option.map_some, Option.some.injEq] at hrequest
  have hterminal := h _ es t hr ⟨1⟩ p hp (hrequest ▸ of_decide_eq_true hmem)
  rw [hready] at hterminal
  cases hterminal

end System

end FabricScheduler
