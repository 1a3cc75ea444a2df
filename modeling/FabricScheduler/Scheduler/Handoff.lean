import FabricScheduler.Scheduler.Execution
import FabricScheduler.Scheduler.History

/-!
# A handoff that finds its plan moved

While the execution fabric is asked, other operations may move the plan. The second
section of a handoff tests the cancellation and the authority but not the state, so a plan
that was superseded or has to be revalidated is met by a writer meant for a plan that
still awaits its execution.
-/

namespace FabricScheduler

/-- Only a plan that awaits its execution, or is active already, may become active. -/
theorem PlacementLifecycleState.canTransition_active_iff {s : PlacementLifecycleState} :
    s.canTransition .active = true ↔ s = .awaitingExecution ∨ s = .active := by
  cases s <;> decide

namespace System

/-- The plan awaits its execution under the current authority. -/
def Awaits (s : System) (k : PlacementPlanId) : Prop :=
  ∃ p, s.sched.plans.find? k = some p ∧ p.state = .awaitingExecution ∧
    p.authorityGeneration = s.sched.authority

/-- The lifecycle state of a stored plan. -/
def stateAt (s : System) (k : PlacementPlanId) : Option PlacementLifecycleState :=
  (s.sched.plans.find? k).map PlacementPlan.state

/-- The end of a handoff keeps to the staleness rule: it refuses a plan that no longer
awaits its execution and leaves its state, and it grants only by making the plan active. -/
structure SettlesHandoff (s t : System) (c : Nat) (k : PlacementPlanId) : Prop where
  refused : ¬s.Awaits k →
    (∃ out, out.authorized = false ∧ t.log = s.log ++ [.handoffReturned c k out]) ∧
      t.stateAt k = s.stateAt k
  launched : ∀ out, t.log = s.log ++ [.handoffReturned c k out] → out.authorized = true →
    s.stateAt k ≠ some .active ∧ t.stateAt k = some .active

/-- The second section of a handoff finds its plan cancelled or fenced, or still awaiting
its execution, or refused by the fabric and to be revalidated already. -/
def FindsAwaiting (s : System) (k : PlacementPlanId) (h : ExecutionHandoff) : Prop :=
  ∀ p, s.sched.plans.find? k = some p →
    s.sched.handoffStale p ∨ p.state = .awaitingExecution ∨
      (h.authorized = false ∧ p.state = .revalidationRequired)

variable {config : SchedulerConfig} {s t : System} {c : Nat} {k : PlacementPlanId}
  {h : ExecutionHandoff} {p : PlacementPlan}

private theorem stateAt_eq (hp : s.sched.plans.find? k = some p) :
    s.stateAt k = some p.state := by
  rw [stateAt, hp, Option.map_some]

private theorem awaits_iff (hp : s.sched.plans.find? k = some p)
    (hfresh : ¬s.sched.handoffStale p) : s.Awaits k ↔ p.state = .awaitingExecution := by
  constructor
  · rintro ⟨q, hq, hstate, _⟩
    obtain rfl := Option.some.inj (hp.symm.trans hq)
    exact hstate
  · intro hstate
    exact ⟨p, hp, hstate, by_contra fun hne => hfresh (Or.inr hne)⟩

private theorem returned_inj {out out' : ExecutionHandoff}
    (hlog : s.log ++ [Event.handoffReturned c k out] =
      s.log ++ [.handoffReturned c k out']) : out = out' := by
  have hevent := List.singleton_inj.mp (List.append_cancel_left hlog)
  cases hevent
  rfl

private theorem findsAwaiting_iff (hp : s.sched.plans.find? k = some p) :
    s.FindsAwaiting k h ↔ s.sched.handoffStale p ∨ p.state = .awaitingExecution ∨
      (h.authorized = false ∧ p.state = .revalidationRequired) := by
  constructor
  · exact fun hfinds => hfinds p hp
  · intro hcases q hq
    obtain rfl := Option.some.inj (hp.symm.trans hq)
    exact hcases

/-- The refusal of a fenced plan keeps to the rule. -/
private theorem settlesHandoff_fenced : s.SettlesHandoff (s.continued c s.sched none
    [.handoffReturned c k { h with authorized := false }]) c k := by
  refine ⟨fun _ => ⟨⟨_, rfl, rfl⟩, rfl⟩, ?_⟩
  intro out hlog hgranted
  rw [← returned_inj hlog] at hgranted
  cases hgranted

/-- The refusal by the fabric sends the plan to revalidation, whatever became of it. -/
private theorem settlesHandoff_denied_iff (hp : s.sched.plans.find? k = some p)
    (hfresh : ¬s.sched.handoffStale p) (hanswer : h.authorized = false) :
    s.SettlesHandoff (s.continued c (s.sched.withPlan k
      (p.forceState .revalidationRequired s.sched.nextEventOrdinal)) none
      [.handoffReturned c k h]) c k ↔
    p.state = .awaitingExecution ∨ p.state = .revalidationRequired := by
  have hstate : (s.continued c (s.sched.withPlan k
      (p.forceState .revalidationRequired s.sched.nextEventOrdinal)) none
      [.handoffReturned c k h]).stateAt k = some .revalidationRequired := by
    rw [stateAt_eq SchedulerState.find?_withPlan_self, PlacementPlan.forceState_state]
  constructor
  · intro hsettles
    by_cases hawaits : p.state = .awaitingExecution
    · exact Or.inl hawaits
    · have hkept := (hsettles.refused (mt (awaits_iff hp hfresh).mp hawaits)).2
      rw [hstate, stateAt_eq hp] at hkept
      exact Or.inr (Option.some.inj hkept).symm
  · intro hcases
    constructor
    · intro hmoved
      refine ⟨⟨h, hanswer, rfl⟩, ?_⟩
      rcases hcases with hawaits | hrevalidation
      · exact absurd ((awaits_iff hp hfresh).mpr hawaits) hmoved
      · rw [hstate, stateAt_eq hp, hrevalidation]
    · intro out hlog hgranted
      rw [← returned_inj hlog, hanswer] at hgranted
      cases hgranted

/-- The launch is that of a plan that awaits it. -/
private theorem settlesHandoff_launched_iff (hp : s.sched.plans.find? k = some p)
    (hfresh : ¬s.sched.handoffStale p) (hanswer : h.authorized = true) :
    s.SettlesHandoff (s.continued c (s.sched.withPlan k
      (p.forceState .active s.sched.nextEventOrdinal)) none [.handoffReturned c k h]) c k ↔
    p.state = .awaitingExecution := by
  constructor
  · intro hsettles
    by_contra hawaits
    obtain ⟨⟨out, hout, hlog⟩, _⟩ :=
      hsettles.refused (mt (awaits_iff hp hfresh).mp hawaits)
    rw [← returned_inj hlog, hanswer] at hout
    cases hout
  · intro hawaits
    refine ⟨fun hmoved => absurd ((awaits_iff hp hfresh).mpr hawaits) hmoved, ?_⟩
    intro out _ _
    constructor
    · rw [stateAt_eq hp, hawaits]
      decide
    · rw [stateAt_eq SchedulerState.find?_withPlan_self, PlacementPlan.forceState_state]

/-- A handoff that throws does not refuse. -/
private theorem not_settlesHandoff_thrown {sched : SchedulerState} {e : Option FabricError}
    (hmoved : ¬s.Awaits k) :
    ¬s.SettlesHandoff (s.continued c sched none [.handoffThrew c k e]) c k := by
  intro hsettles
  obtain ⟨⟨out, _, hlog⟩, _⟩ := hsettles.refused hmoved
  cases List.singleton_inj.mp (List.append_cancel_left hlog)

/-- The end of a handoff of a stored plan keeps to the staleness rule exactly when it
finds the plan awaiting. -/
theorem settlesHandoff_iff (hp : s.sched.plans.find? k = some p)
    (hc : s.pending c = some (.launching k h)) (hstep : Stepped s (.handoffFinish c) t) :
    s.SettlesHandoff t c k ↔ s.FindsAwaiting k h := by
  rw [findsAwaiting_iff hp]
  cases hstep with
  | @handoffVanished _ k' h' hc' hp' =>
      cases hc.symm.trans hc'
      cases hp.symm.trans hp'
  | @handoffFenced _ k' h' p' hc' hp' hstale =>
      cases hc.symm.trans hc'
      cases hp.symm.trans hp'
      exact iff_of_true settlesHandoff_fenced (Or.inl hstale)
  | @handoffDenied _ k' h' p' hc' hp' hfresh hanswer =>
      cases hc.symm.trans hc'
      cases hp.symm.trans hp'
      rw [settlesHandoff_denied_iff hp hfresh hanswer]
      simp only [hfresh, hanswer, false_or, true_and]
  | @handoffLaunches _ k' h' p' hc' hp' hfresh hanswer hcan =>
      cases hc.symm.trans hc'
      cases hp.symm.trans hp'
      rw [settlesHandoff_launched_iff hp hfresh hanswer]
      simp only [hfresh, hanswer, false_or, Bool.true_eq_false, false_and, or_false]
  | @handoffThrows _ k' h' p' hc' hp' hfresh hanswer hcan e =>
      cases hc.symm.trans hc'
      cases hp.symm.trans hp'
      have hnot := mt PlacementLifecycleState.canTransition_active_iff.mpr
        (Bool.eq_false_iff.mp hcan)
      have hawaits : p.state ≠ .awaitingExecution := fun hstate => hnot (Or.inl hstate)
      refine iff_of_false (not_settlesHandoff_thrown (mt (awaits_iff hp hfresh).mp hawaits)) ?_
      simp only [hfresh, hanswer, hawaits, false_or, Bool.true_eq_false, false_and,
        not_false_eq_true]

/-- In a run without recovery every handoff that gets to its second section keeps to the
staleness rule exactly when it finds its plan awaiting. -/
theorem settlesHandoff_iff_of_run {es : List (TransitionSystem.Step System Action)}
    (hrun : (scheduler config).Run NoRestore (initial config) es t) :
    ∀ e ∈ es, ∀ c k h, e.act = .handoffFinish c →
      e.src.pending c = some (.launching k h) →
      (e.src.SettlesHandoff e.tgt c k ↔ e.src.FindsAwaiting k h) := by
  intro e he c k h hact hc
  obtain ⟨before, _, _, hbefore, _, hn, _⟩ := hrun.of_mem he
  rw [hact] at hn
  obtain ⟨p, hp⟩ := exists_plan_of_launching ⟨_, before, rfl, hbefore⟩ hc
  exact settlesHandoff_iff hp hc (stepped_of_step hn)

end System

namespace Sample

/-- The plan is committed by call 1, and its handoff by call 2 has the fabric's answer. -/
def authorized : List Action :=
  committing ++ [.handoffBegin ⟨1⟩, .authorize 2 authorization]

/-- The handoff that call 2 is about to end. -/
def launch (s : System) : Option (PlacementPlanId × ExecutionHandoff) :=
  match s.pending 2 with
  | some (.launching k h) => some (k, h)
  | _ => none

theorem pending_of_launch {s : System} {k : PlacementPlanId} {h : ExecutionHandoff}
    (hlaunch : launch s = some (k, h)) : s.pending 2 = some (.launching k h) := by
  unfold launch at hlaunch
  split at hlaunch
  · rename_i hc
    rw [hc]
    cases hlaunch
    rfl
  · cases hlaunch

end Sample

namespace System

/-- An authorized handoff makes its plan active. -/
theorem settlesHandoff_authorized : ∃ u t : System,
    u.SettlesHandoff t 2 ⟨1⟩ ∧ u.stateAt ⟨1⟩ = some .awaitingExecution ∧
      t.stateAt ⟨1⟩ = some .active := by
  have hbefore : (after Sample.config NoRestore Sample.authorized).map
      (fun s => (s.stateAt ⟨1⟩, Sample.launch s)) =
      some (some .awaitingExecution, some (⟨1⟩, Sample.authorization)) := by decide +kernel
  have hafter : (after Sample.config NoRestore (Sample.authorized ++ [.handoffFinish 2])).map
      (stateAt · ⟨1⟩) = some (some .active) := by decide +kernel
  obtain ⟨es, u, fs, t, hr, hr', _, hfs, hu, ht⟩ := exists_runs_of_after hbefore hafter
  obtain ⟨hstate, hlaunch⟩ := Prod.mk.injEq .. ▸ hu
  obtain ⟨v, gs, _, hn, hgs, hnil⟩ := hr'.uncons hfs
  obtain rfl := List.map_eq_nil_iff.mp hnil
  obtain rfl := hgs.eq_of_nil
  have hno : u.NoRestore (.handoffFinish 2) := trivial
  refine ⟨u, v, (settlesHandoff_iff_of_run (hr.snoc hno hn) ⟨u, _, v⟩
    (List.mem_append_right _ (List.mem_singleton_self _)) 2 ⟨1⟩ Sample.authorization rfl
    (Sample.pending_of_launch hlaunch)).mpr ?_, hstate, ht⟩
  intro p hp
  rw [stateAt, hp] at hstate
  exact Or.inr (Or.inl (Option.some.inj hstate))

/-- A plan that is superseded while the fabric authorizes it: the handoff throws. -/
theorem not_settlesHandoff : ¬∀ config es t,
    (scheduler config).Run NoRestore (initial config) es t →
    ∀ e ∈ es, ∀ c k h, e.act = .handoffFinish c → e.src.pending c = some (.launching k h) →
      e.src.SettlesHandoff e.tgt c k := by
  intro hall
  have hbefore : (after Sample.config NoRestore
      (Sample.authorized ++ [.supersede ⟨1⟩ ⟨2⟩ []])).map
      (fun s => ((s.sched.plans.find? ⟨1⟩).map fun p =>
        (p.state, decide (s.sched.handoffStale p)), Sample.launch s)) =
      some (some (.superseded, false), some (⟨1⟩, Sample.authorization)) := by decide +kernel
  have hafter : (after Sample.config NoRestore
      ((Sample.authorized ++ [.supersede ⟨1⟩ ⟨2⟩ []]) ++ [.handoffFinish 2])).map
      (stateAt · ⟨1⟩) = some (some .superseded) := by decide +kernel
  obtain ⟨es, u, fs, t, hr, hr', _, hfs, hu, _⟩ := exists_runs_of_after hbefore hafter
  obtain ⟨hplan, hlaunch⟩ := Prod.mk.injEq .. ▸ hu
  have hc := Sample.pending_of_launch hlaunch
  obtain ⟨v, _, _, hn, _, _⟩ := hr'.uncons hfs
  obtain ⟨p, hp, hobs⟩ := Option.map_eq_some_iff.mp hplan
  obtain ⟨hstate, hstale⟩ := Prod.mk.injEq .. ▸ hobs
  have hno : u.NoRestore (.handoffFinish 2) := trivial
  have hsettles := hall _ _ v (hr.snoc hno hn) ⟨u, _, v⟩
    (List.mem_append_right _ (List.mem_singleton_self _)) 2 ⟨1⟩ Sample.authorization rfl hc
  rcases (settlesHandoff_iff hp hc (stepped_of_step hn)).mp hsettles p hp with
    hstale' | hawaits | ⟨hrefused, _⟩
  · exact of_decide_eq_false hstale hstale'
  · rw [hstate] at hawaits
    cases hawaits
  · cases hrefused

end System

end FabricScheduler
