import FabricScheduler.Scheduler.Steps

/-!
# Authority and cancellation

Plans on their way to execution carry the current authority and epoch, and those whose
resources have been asked for belong to no cancelled request. Both hold after every
step, a recovery from any saved value included.
-/

namespace FabricScheduler

namespace PlacementLifecycleState

/-- The states of a plan whose resources have been asked for. -/
def isClaimed : PlacementLifecycleState → Bool
  | .awaitingResourceCommit | .committed | .awaitingExecution | .active => true
  | _ => false

theorem isUnresolved_of_isClaimed {s : PlacementLifecycleState} (h : s.isClaimed = true) :
    s.isUnresolved = true := by
  cases s <;> first | rfl | cases h

theorem isClaimed_of_not_isUnresolved {s : PlacementLifecycleState}
    (h : s.isUnresolved = false) : s.isClaimed = false := by
  cases s <;> first | rfl | cases h

end PlacementLifecycleState

namespace SchedulerState

/-- Plans on their way to execution are current. -/
structure Current (st : SchedulerState) : Prop where
  authority : ∀ k p, st.plans.find? k = some p → p.state.isUnresolved = true →
    p.authorityGeneration = st.authority ∧ p.coordinatorEpoch = st.epoch
  uncancelled : ∀ k p, st.plans.find? k = some p → p.state.isClaimed = true →
    p.requestId ∉ st.cancelledRequests

theorem current_initial (config : SchedulerConfig) : (initial config).Current where
  authority _ _ hp := by cases hp
  uncancelled _ _ hp := by cases hp

/-- A state none of whose plans is on its way to execution is current. -/
theorem current_of_not_isUnresolved {st : SchedulerState}
    (h : ∀ k p, st.plans.find? k = some p → p.state.isUnresolved = false) : st.Current where
  authority k p hp hu := by
    rw [h k p hp] at hu
    cases hu
  uncancelled k p hp hc := by
    have hu := PlacementLifecycleState.isUnresolved_of_isClaimed hc
    rw [h k p hp] at hu
    cases hu

/-- Rewriting one plan keeps the state current when the plan it leaves is. -/
theorem Current.withPlan {st : SchedulerState} (h : st.Current) {k : PlacementPlanId}
    {q : PlacementPlan}
    (hauth : q.state.isUnresolved = true →
      q.authorityGeneration = st.authority ∧ q.coordinatorEpoch = st.epoch)
    (hcancel : q.state.isClaimed = true → q.requestId ∉ st.cancelledRequests) :
    (st.withPlan k q).Current where
  authority k' p hp hu := by
    rw [find?_withPlan] at hp
    split at hp
    · rw [← Option.some.inj hp] at hu ⊢
      exact hauth hu
    · exact h.authority k' p hp hu
  uncancelled k' p hp hc := by
    rw [find?_withPlan] at hp
    split at hp
    · rw [← Option.some.inj hp] at hc ⊢
      exact hcancel hc
    · exact h.uncancelled k' p hp hc

/-- Displacing plans keeps the state current. -/
theorem Current.displaced {st st' : SchedulerState} (h : st.Current)
    {when : PlacementPlan → Prop}
    (hd : ∀ k, Displacement when (st.plans.find? k) (st'.plans.find? k))
    (hauth : st'.authority = st.authority) (hepoch : st'.epoch = st.epoch)
    (hcancel : ∀ k p, st'.plans.find? k = some p → p.state.isClaimed = true →
      p.requestId ∉ st.cancelledRequests → p.requestId ∉ st'.cancelledRequests) :
    st'.Current := by
  have hkept : ∀ k p, st'.plans.find? k = some p → p.state.isUnresolved = true →
      st.plans.find? k = some p := by
    intro k p hp hu
    have hk := hd k
    rw [hp] at hk
    generalize hb : st.plans.find? k = b at hk
    cases hk with
    | kept => rfl
    | displaced _ hdis =>
        rw [PlacementLifecycleState.isUnresolved_of_isDisplacement hdis.displacement] at hu
        cases hu
  refine ⟨?_, ?_⟩
  · intro k p hp hu
    rw [hauth, hepoch]
    exact h.authority k p (hkept k p hp hu) hu
  · intro k p hp hc
    have hu := PlacementLifecycleState.isUnresolved_of_isClaimed hc
    exact hcancel k p hp hc (h.uncancelled k p (hkept k p hp hu) hc)

private theorem current_withdrawn {st : SchedulerState} (h : st.Current)
    {k : PlacementPlanId} (p : PlacementPlan) :
    (st.withPlan k (p.forceState .revalidationRequired st.nextEventOrdinal)).Current := by
  refine h.withPlan ?_ ?_
  · intro hu
    rw [PlacementPlan.forceState_state] at hu
    cases hu
  · intro hc
    rw [PlacementPlan.forceState_state] at hc
    cases hc

private theorem current_scheduled {st : SchedulerState} (h : st.Current)
    (request : SchedulingRequest) (views : ScheduleViews) (snapshot : List Candidate) :
    (st.scheduleSecond request views snapshot).2.Current := by
  have hframe := st.scheduleSecond_frame request views snapshot
  have hepoch := (congrArg SchedulerState.epoch hframe :)
  have hauth := (congrArg SchedulerState.authority hframe :)
  have hcancel := (congrArg SchedulerState.cancelledRequests hframe :)
  refine ⟨?_, ?_⟩
  · intro k p hp hu
    rw [hauth, hepoch]
    rcases st.scheduleSecond_plans request views snapshot k with hk | ⟨_, _, q, hq, hk⟩
    · exact h.authority k p (hk ▸ hp) hu
    · obtain rfl := Option.some.inj (hk.symm.trans hp)
      exact ⟨hq.authority, hq.epoch⟩
  · intro k p hp hc
    rw [hcancel]
    rcases st.scheduleSecond_plans request views snapshot k with hk | ⟨_, _, q, hq, hk⟩
    · exact h.uncancelled k p (hk ▸ hp) hc
    · obtain rfl := Option.some.inj (hk.symm.trans hp)
      rw [hq.ready] at hc
      cases hc

private theorem current_cancel {st : SchedulerState} (h : st.Current)
    (requestId : SchedulingRequestId) : (st.cancel requestId).Current := by
  refine h.displaced (st.displacement_cancel requestId) rfl rfl ?_
  intro k p hp hc hmem
  rcases forcePlans_cases hp with hstate | ⟨_, hw⟩
  · rw [hstate] at hc
    cases hc
  · have hterm : p.state.isTerminal = false := by
      cases hs : p.state <;> rw [hs] at hc <;> first | rfl | cases hc
    have hne : p.requestId ≠ requestId := by
      intro he
      simp [he, hterm] at hw
    change p.requestId ∉ insert requestId st.cancelledRequests
    rw [Finset.mem_insert, not_or]
    exact ⟨hne, hmem⟩

/-- Every step but a recovery keeps the state current. -/
theorem Current.changed {st st' : SchedulerState} (h : st.Current) (hc : st.Changed st') :
    st'.Current := by
  cases hc with
  | same => exact h
  | ticked => exact ⟨h.authority, h.uncancelled⟩
  | advanced => exact current_of_not_isUnresolved fun _ _ => isUnresolved_advanced
  | fenceWorker => exact ⟨h.authority, h.uncancelled⟩
  | fenceSource => exact ⟨h.authority, h.uncancelled⟩
  | ingested => exact ⟨h.authority, h.uncancelled⟩
  | scheduled request views snapshot => exact current_scheduled h request views snapshot
  | @asked k p dst hp hcancel hstate =>
      have hu : p.state.isUnresolved = true := by
        rcases hstate with ⟨hs, _⟩ | ⟨hs, _⟩ <;> rw [hs] <;> rfl
      exact h.withPlan (fun _ => h.authority _ p hp hu) (fun _ => hcancel)
  | @granted k p claims hp hfresh =>
      have hstate : p.state = .awaitingResourceCommit :=
        SchedulerState.state_of_not_commitStale hfresh
      have hu : p.state.isUnresolved = true := by
        rw [hstate]
        rfl
      exact h.withPlan (fun _ => h.authority _ p hp hu)
        (fun _ hmem => hfresh (Or.inl hmem))
  | @launched k p hp hfresh hcan =>
      have hd := p.sameDecision_forceState .active st.nextEventOrdinal
      have hu : p.state.isUnresolved = true := by
        cases hs : p.state <;> rw [hs] at hcan <;> first | rfl | cases hcan
      refine h.withPlan ?_ ?_
      · intro _
        rw [hd.authorityGeneration, hd.coordinatorEpoch]
        exact h.authority _ p hp hu
      · intro _
        rw [hd.requestId]
        exact fun hmem => hfresh (Or.inl hmem)
  | withdrawn => exact current_withdrawn h _
  | cancel requestId => exact current_cancel h requestId
  | supersede oldRequest newRequest reason =>
      exact h.displaced (st.displacement_supersede oldRequest newRequest reason) rfl rfl
        (fun _ _ _ _ hmem => hmem)

/-- The second section of a commit is late only when the plan awaits its resources no
more. -/
theorem Current.ne_of_commitStale {st : SchedulerState} (h : st.Current) {k : PlacementPlanId}
    {p : PlacementPlan} (hp : st.plans.find? k = some p) (hstale : st.commitStale p) :
    p.state ≠ .awaitingResourceCommit := by
  intro hs
  rcases hstale with hcancel | hauth | hstate
  · exact h.uncancelled k p hp (by rw [hs]; rfl) hcancel
  · exact hauth (h.authority k p hp (by rw [hs]; rfl)).1
  · exact hstate hs

/-- The second section of a handoff is fenced only when the plan awaits its execution no
more. -/
theorem Current.ne_of_handoffStale {st : SchedulerState} (h : st.Current)
    {k : PlacementPlanId} {p : PlacementPlan} (hp : st.plans.find? k = some p)
    (hstale : st.handoffStale p) : p.state ≠ .awaitingExecution := by
  intro hs
  rcases hstale with hcancel | hauth
  · exact h.uncancelled k p hp (by rw [hs]; rfl) hcancel
  · exact hauth (h.authority k p hp (by rw [hs]; rfl)).1

/-- A recovery leaves a current state whatever it reads. -/
theorem current_restore (st : SchedulerState) (persisted : Persisted) :
    (st.restore persisted).Current :=
  current_of_not_isUnresolved fun _ _ => isUnresolved_restore

/-- The requests cancelled so far stay cancelled. -/
theorem Changed.cancelledRequests_subset {st st' : SchedulerState} (h : st.Changed st') :
    st.cancelledRequests ⊆ st'.cancelledRequests := by
  cases h with
  | scheduled request views snapshot =>
      have hframe := st.scheduleSecond_frame request views snapshot
      exact (congrArg SchedulerState.cancelledRequests hframe :).ge
  | cancel requestId => exact Finset.subset_insert requestId st.cancelledRequests
  | _ => exact Finset.Subset.refl _

/-- The authority moves with the epoch, and the epoch only forward. -/
theorem Changed.authority_cases {st st' : SchedulerState} (h : st.Changed st') :
    (st'.epoch = st.epoch ∧ st'.authority = st.authority) ∨
      (st.epoch < st'.epoch ∧ st'.authority = st.authority.next) := by
  cases h with
  | advanced h => exact Or.inr ⟨h, rfl⟩
  | scheduled request views snapshot =>
      have hframe := st.scheduleSecond_frame request views snapshot
      exact Or.inl ⟨(congrArg SchedulerState.epoch hframe :),
        (congrArg SchedulerState.authority hframe :)⟩
  | _ => exact Or.inl ⟨rfl, rfl⟩

/-- Where the epoch moves, no plan stays on its way to execution. -/
theorem Changed.isUnresolved_of_epoch_ne {st st' : SchedulerState} (h : st.Changed st')
    (hne : st'.epoch ≠ st.epoch) {k : PlacementPlanId} {p : PlacementPlan}
    (hp : st'.plans.find? k = some p) : p.state.isUnresolved = false := by
  cases h with
  | advanced => exact isUnresolved_advanced hp
  | scheduled request views snapshot =>
      have hframe := st.scheduleSecond_frame request views snapshot
      exact absurd (congrArg SchedulerState.epoch hframe :) hne
  | _ => exact absurd rfl hne

/-- The epoch never moves backward. -/
theorem Changed.epoch_le {st st' : SchedulerState} (h : st.Changed st') :
    st.epoch ≤ st'.epoch := by
  rcases h.authority_cases with ⟨hepoch, _⟩ | ⟨hlt, _⟩
  · exact hepoch.ge
  · exact hlt.le

end SchedulerState

namespace System

variable {config : SchedulerConfig}

theorem reachable_of_run {P : System → Action → Prop} {t : System}
    {es : List (TransitionSystem.Step System Action)}
    (h : (scheduler config).Run P (initial config) es t) :
    (scheduler config).Reachable P t := ⟨initial config, es, rfl, h⟩

/-- Plans on their way to execution are current in every reachable state, recoveries
included. -/
theorem current_of_reachable {s : System} {P : System → Action → Prop}
    (h : (scheduler config).Reachable P s) : s.sched.Current := by
  refine h.invariant (fun s => s.sched.Current) ?_ ?_
  · rintro s rfl
    exact SchedulerState.current_initial config
  · intro s a t _ hn hs
    rcases (stepped_of_step hn).changed with ⟨persisted, _, h⟩ | h
    · rw [h]
      exact s.sched.current_restore persisted
    · exact hs.changed h

end System

end FabricScheduler
