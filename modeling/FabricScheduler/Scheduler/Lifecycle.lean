import FabricScheduler.Scheduler.Execution
import FabricScheduler.Scheduler.Simulation

/-!
# Which lifecycle changes a run makes

Every section but two consults the transition table or first tests for a terminal state.
A stale revalidation and a refused handoff force `REVALIDATION_REQUIRED` untested, and
these are the only ways in which a run leaves the table.
-/

namespace FabricScheduler

namespace System

/-- Every stored plan is kept and its state changes as the transition table allows. -/
def KeepsTable (s t : System) : Prop :=
  ∀ k p, s.sched.plans.find? k = some p →
    ∃ q, t.sched.plans.find? k = some q ∧ p.state.canTransition q.state = true

/-- No step forces a terminal plan to be revalidated: a revalidation that finds a
generation diverging finds its plan not terminal, and so does a handoff that the execution
fabric refused and that is neither cancelled nor fenced. -/
def ForcesNoTerminal (s : System) : Action → Prop
  | .revalidate planId current => ∀ p, s.sched.plans.find? planId = some p →
      p.generations ≠ current → p.state.isTerminal = false
  | .handoffFinish c => ∀ planId h p, s.pending c = some (.launching planId h) →
      s.sched.plans.find? planId = some p → h.authorized = false →
      p.requestId ∉ s.sched.cancelledRequests →
      p.authorityGeneration = s.sched.authority → p.state.isTerminal = false
  | _ => True

variable {config : SchedulerConfig} {s t : System} {a : Action}

/-- Without a recovery no stored plan is still in its initial state. -/
theorem state_ne_requested (h : (scheduler config).Reachable NoRestore s)
    {k : PlacementPlanId} {p : PlacementPlan} (hp : s.sched.plans.find? k = some p) :
    p.state ≠ .requested := by
  intro hs
  obtain ⟨L, htracks, hL⟩ := exists_ledger h k
  have hstage := hL.stage p (htracks.plan.symm.trans hp)
  rw [hs] at hstage
  exact hstage

private theorem keepsTable_same (hplans : ∀ k, t.sched.plans.find? k = s.sched.plans.find? k) :
    s.KeepsTable t := by
  intro k p hp
  exact ⟨p, (hplans k).trans hp, PlacementLifecycleState.canTransition_self _⟩

private theorem keepsTable_withPlan {planId : PlacementPlanId} {p q : PlacementPlan}
    (hp : s.sched.plans.find? planId = some p)
    (hplans : t.sched = s.sched.withPlan planId q)
    (hcan : p.state.canTransition q.state = true) : s.KeepsTable t := by
  intro k r hr
  rw [hplans]
  simp only [SchedulerState.find?_withPlan]
  split
  · rename_i hk
    rw [hk, hp] at hr
    obtain rfl := Option.some.inj hr
    exact ⟨q, rfl, hcan⟩
  · exact ⟨r, hr, PlacementLifecycleState.canTransition_self _⟩

private theorem keepsTable_displaced {when : PlacementPlan → Prop}
    (hrequested : ∀ k p, s.sched.plans.find? k = some p → p.state ≠ .requested)
    (hwhen : ∀ p, when p → p.state.isTerminal = false)
    (hd : ∀ k, Displacement when (s.sched.plans.find? k) (t.sched.plans.find? k)) :
    s.KeepsTable t := by
  intro k p hp
  have hk := hd k
  have hne := hrequested k p hp
  rw [hp] at hk
  generalize t.sched.plans.find? k = after at hk
  cases hk with
  | kept => exact ⟨p, rfl, PlacementLifecycleState.canTransition_self _⟩
  | @displaced _ q hw hdis =>
      exact ⟨q, rfl, PlacementLifecycleState.canTransition_of_isDisplacement hne (hwhen p hw)
        hdis.displacement⟩

/-- A step keeps to the table when it forces no terminal plan. -/
theorem Stepped.keepsTable (hstep : Stepped s a t) (hno : NoRestore s a)
    (hrequested : ∀ k p, s.sched.plans.find? k = some p → p.state ≠ .requested)
    (hforces : s.ForcesNoTerminal a) : s.KeepsTable t := by
  cases hstep with
  | setEpoch epoch =>
      exact keepsTable_displaced hrequested (fun _ => id) (s.sched.displacement_setEpoch epoch)
  | cancel requestId =>
      exact keepsTable_displaced hrequested (fun _ => id) (s.sched.displacement_cancel requestId)
  | supersede oldRequest newRequest reason =>
      exact keepsTable_displaced hrequested (fun _ => id)
        (s.sched.displacement_supersede oldRequest newRequest reason)
  | @scheduled c request snapshot hc views decision =>
      intro k p hp
      rcases s.sched.scheduleSecond_plans request views snapshot k with hk | ⟨hnone, _⟩
      · exact ⟨p, hk.trans hp, PlacementLifecycleState.canTransition_self _⟩
      · rw [hnone] at hp
        cases hp
  | commitAsks hp hstate => exact keepsTable_withPlan hp rfl (by rw [hstate]; rfl)
  | @commitDenied c planId claims answer out p _ hp hfresh =>
      have hstate : p.state = .awaitingResourceCommit :=
        SchedulerState.state_of_not_commitStale hfresh
      refine keepsTable_withPlan hp rfl ?_
      rw [PlacementPlan.forceState_state, hstate]
      rfl
  | @commitGranted c planId claims answer p _ hp hfresh =>
      have hstate : p.state = .awaitingResourceCommit :=
        SchedulerState.state_of_not_commitStale hfresh
      exact keepsTable_withPlan hp rfl (by rw [hstate]; rfl)
  | handoffAsks hp hstate => exact keepsTable_withPlan hp rfl (by rw [hstate]; rfl)
  | @handoffDenied c planId h p hc hp hfresh hanswer =>
      have hterm := hforces planId h p hc hp hanswer (fun hmem => hfresh (Or.inl hmem))
        (by_contra fun hne => hfresh (Or.inr hne))
      refine keepsTable_withPlan hp rfl ?_
      rw [PlacementPlan.forceState_state]
      exact PlacementLifecycleState.canTransition_of_isDisplacement (hrequested _ p hp) hterm rfl
  | handoffLaunches _ hp _ _ hcan =>
      exact keepsTable_withPlan hp rfl (by rw [PlacementPlan.forceState_state]; exact hcan)
  | revalidate planId current =>
      rcases s.sched.revalidate_cases planId current with ⟨_, h⟩ | ⟨p, hp, hg, h⟩
      · exact keepsTable_same fun k => congrArg (fun st => st.plans.find? k) h
      · refine keepsTable_withPlan hp h ?_
        rw [PlacementPlan.forceState_state]
        exact PlacementLifecycleState.canTransition_of_isDisplacement (hrequested _ p hp)
          (hforces p hp hg) rfl
  | restore => exact hno.elim
  | _ => exact keepsTable_same fun _ => rfl

/-- A step that keeps to the table forces no terminal plan. -/
theorem Stepped.forcesNoTerminal (hstep : Stepped s a t) (hkeeps : s.KeepsTable t) :
    s.ForcesNoTerminal a := by
  have hforced : ∀ {planId : PlacementPlanId} {p : PlacementPlan},
      s.sched.plans.find? planId = some p →
      t.sched.plans.find? planId =
        some (p.forceState .revalidationRequired s.sched.nextEventOrdinal) →
      p.state.isTerminal = false := by
    intro planId p hp ht
    obtain ⟨q, hq, hcan⟩ := hkeeps planId p hp
    obtain rfl := Option.some.inj (ht.symm.trans hq)
    rw [PlacementPlan.forceState_state] at hcan
    by_contra hterm
    have hcontra := PlacementLifecycleState.isTerminal_of_canTransition hcan
      (Bool.not_eq_false _ ▸ hterm)
    cases hcontra
  cases a with
  | revalidate planId current =>
      intro p hp hg
      cases hstep with
      | revalidate =>
          rcases s.sched.revalidate_cases planId current with ⟨hsame, _⟩ | ⟨r, hr, _, h⟩
          · exact absurd (hsame p hp) hg
          · obtain rfl := Option.some.inj (hr.symm.trans hp)
            refine hforced hp ?_
            change (s.sched.revalidate planId current).2.plans.find? planId = _
            rw [h, SchedulerState.find?_withPlan_self]
  | handoffFinish c =>
      intro planId h p hc hp hanswer hcancel hauth
      have hfresh : ¬s.sched.handoffStale p := by
        rintro (hmem | hne)
        · exact hcancel hmem
        · exact hne hauth
      have hsame : ∀ {planId' h'}, s.pending c = some (.launching planId' h') →
          planId' = planId ∧ h' = h := by
        intro planId' h' hc'
        have he := Option.some.inj (hc'.symm.trans hc)
        cases he
        exact ⟨rfl, rfl⟩
      cases hstep with
      | handoffVanished hc' hp' =>
          obtain ⟨rfl, rfl⟩ := hsame hc'
          rw [hp] at hp'
          cases hp'
      | handoffFenced hc' hp' hstale =>
          obtain ⟨rfl, rfl⟩ := hsame hc'
          obtain rfl := Option.some.inj (hp.symm.trans hp')
          exact absurd hstale hfresh
      | handoffDenied hc' hp' =>
          obtain ⟨rfl, rfl⟩ := hsame hc'
          obtain rfl := Option.some.inj (hp.symm.trans hp')
          exact hforced hp SchedulerState.find?_withPlan_self
      | handoffLaunches hc' _ _ hanswer' =>
          obtain ⟨rfl, rfl⟩ := hsame hc'
          rw [hanswer] at hanswer'
          cases hanswer'
      | handoffThrows hc' _ _ hanswer' =>
          obtain ⟨rfl, rfl⟩ := hsame hc'
          rw [hanswer] at hanswer'
          cases hanswer'
  | _ => trivial

/-- A plan that is terminal at some point of the run is terminal at every later point. -/
def StaysTerminal (config : SchedulerConfig) (es : List (TransitionSystem.Step System Action))
    (t : System) : Prop :=
  ∀ es₁ es₂ es₃ s₁ s₂, es = es₁ ++ es₂ ++ es₃ →
    (scheduler config).Run NoRestore (initial config) es₁ s₁ →
    (scheduler config).Run NoRestore s₁ es₂ s₂ → (scheduler config).Run NoRestore s₂ es₃ t →
    ∀ k p, s₁.sched.plans.find? k = some p → p.state.isTerminal = true →
      ∃ q, s₂.sched.plans.find? k = some q ∧ q.state.isTerminal = true

private theorem staysTerminal {es : List (TransitionSystem.Step System Action)}
    (hforces : ∀ e ∈ es, e.src.ForcesNoTerminal e.act) : StaysTerminal config es t := by
  rintro es₁ es₂ es₃ s₁ s₂ rfl hr₁ hr₂ hr₃ k p hp hterm
  have hr := hr₂.strengthen ForcesNoTerminal fun e he =>
    hforces e (List.mem_append_left _ (List.mem_append_right _ he))
  have hend := hr.stable (fun u => (scheduler config).Reachable NoRestore u ∧
    ∃ q, u.sched.plans.find? k = some q ∧ q.state.isTerminal = true) ?_
    ⟨reachable_of_run hr₁, p, hp, hterm⟩
  · exact hend.2
  · rintro u a v ⟨hno, hforce⟩ hn ⟨hreach, q, hq, hqterm⟩
    have hstep := stepped_of_step hn
    obtain ⟨q', hq', hcan⟩ :=
      hstep.keepsTable hno (fun _ _ hp => state_ne_requested hreach hp) hforce k q hq
    exact ⟨hreach.next hno hn, q', hq',
      PlacementLifecycleState.isTerminal_of_canTransition hcan hqterm⟩

/-- In a run without recovery every change of a stored plan's state is one the transition
table allows, and terminal plans stay terminal, exactly when no step forces a terminal
plan to be revalidated. -/
theorem lifecycle_kept_iff {es : List (TransitionSystem.Step System Action)}
    (h : (scheduler config).Run NoRestore (initial config) es t) :
    ((∀ e ∈ es, e.src.KeepsTable e.tgt) ∧ StaysTerminal config es t) ↔
      ∀ e ∈ es, e.src.ForcesNoTerminal e.act := by
  constructor
  · rintro ⟨hkeeps, _⟩ e he
    obtain ⟨_, _, _, _, _, hn, _⟩ := h.of_mem he
    exact (stepped_of_step hn).forcesNoTerminal (hkeeps e he)
  · intro hforces
    refine ⟨?_, staysTerminal hforces⟩
    intro e he
    obtain ⟨before, _, _, hr, hno, hn, _⟩ := h.of_mem he
    exact (stepped_of_step hn).keepsTable hno
      (fun _ _ hp => state_ne_requested (reachable_of_run hr) hp) (hforces e he)

/-- A schedule followed by a cancellation keeps to the table. -/
theorem lifecycle_kept_cancelled : ∃ es t,
    (scheduler Sample.config).Run NoRestore (initial Sample.config) es t ∧
    es.map TransitionSystem.Step.act = Sample.scheduling ++ [.cancel ⟨1⟩] ∧
    (∀ e ∈ es, e.src.KeepsTable e.tgt) ∧ StaysTerminal Sample.config es t := by
  have hrun : (after Sample.config NoRestore (Sample.scheduling ++ [.cancel ⟨1⟩])).map
      (Sample.stateOf ⟨1⟩) = some (some .cancelled) := by decide +kernel
  obtain ⟨es, t, hr, hact, _⟩ := exists_run_of_after hrun
  refine ⟨es, t, hr, hact, (lifecycle_kept_iff hr).mpr ?_⟩
  intro e he
  have hmem : e.act ∈ Sample.scheduling ++ [.cancel ⟨1⟩] := hact ▸ List.mem_map_of_mem he
  simp only [Sample.scheduling, List.cons_append, List.nil_append, List.mem_cons,
    List.not_mem_nil, or_false] at hmem
  rcases hmem with h | h | h | h <;> rw [h] <;> trivial

/-- A cancelled plan that is revalidated against a diverging fingerprint leaves its
terminal state. -/
theorem lifecycle_left_revalidated : ¬∀ config es t,
    (scheduler config).Run NoRestore (initial config) es t →
      (∀ e ∈ es, e.src.KeepsTable e.tgt) ∧ StaysTerminal config es t := by
  intro h
  have hcancelled : (after Sample.config NoRestore (Sample.scheduling ++ [.cancel ⟨1⟩])).map
      (Sample.stateOf ⟨1⟩) = some (some .cancelled) := by decide +kernel
  have hrevived : (after Sample.config NoRestore ((Sample.scheduling ++ [.cancel ⟨1⟩]) ++
      [.revalidate ⟨1⟩ Sample.divergent])).map (Sample.stateOf ⟨1⟩) =
      some (some .revalidationRequired) := by decide +kernel
  obtain ⟨es, u, fs, t, hr, hr', _, _, hu, ht⟩ := exists_runs_of_after hcancelled hrevived
  obtain ⟨p, hp, hpstate⟩ := Option.map_eq_some_iff.mp hu
  obtain ⟨q, hq, hqstate⟩ := Option.map_eq_some_iff.mp ht
  obtain ⟨_, hstays⟩ := h Sample.config (es ++ fs) t (hr.append hr')
  obtain ⟨q', hq', hterm⟩ := hstays es fs [] u t (by rw [List.append_nil]) hr hr' .nil
    ⟨1⟩ p hp (by rw [hpstate]; rfl)
  obtain rfl := Option.some.inj (hq.symm.trans hq')
  rw [hqstate] at hterm
  cases hterm

end System

end FabricScheduler
