import FabricScheduler.Scheduler.Advance
import FabricScheduler.Scheduler.Handoff
import FabricScheduler.Scheduler.Lifecycle
import FabricScheduler.Scheduler.Restoration

/-!
# What stays on record

A stored plan is a decision on record. Operations move it through its lifecycle, mark it as
superseded or as committed, and append to its history; everything else it was stored with
stays. As long as no terminal plan is forced, each of its moves leads further along the
lifecycle, so that its history is complete: the bound on a history is out of reach.
-/

namespace FabricScheduler

namespace PlacementLifecycleState

/-- How far along the lifecycle a state is. -/
def depth : PlacementLifecycleState → Nat
  | .requested => 0
  | .discovering => 1
  | .filtering => 2
  | .ranking => 3
  | .planReady => 4
  | .awaitingResourceCommit => 5
  | .committed => 6
  | .awaitingExecution => 7
  | .active => 8
  | .revalidationRequired => 9
  | .superseded | .cancelled | .failed => 10
  | .retired => 11

/-- A legal transition to a state further along. -/
def Proceeds (src dst : PlacementLifecycleState) : Prop :=
  src.Moves dst ∧ src.depth < dst.depth

instance (src dst : PlacementLifecycleState) : Decidable (src.Proceeds dst) :=
  inferInstanceAs (Decidable (_ ∧ _))

theorem depth_lt_maxPlanHistory (s : PlacementLifecycleState) : s.depth < maxPlanHistory := by
  cases s <;> decide

/-- A plan that is not terminal proceeds when it is displaced. -/
theorem proceeds_of_isDisplacement {s t : PlacementLifecycleState} (hs : s ≠ .requested)
    (hterm : s.isTerminal = false) (ht : t.isDisplacement = true) (hne : s ≠ t) :
    s.Proceeds t := by
  refine ⟨⟨hne, canTransition_of_isDisplacement hs hterm ht⟩, ?_⟩
  cases t <;> cases ht <;> cases s <;> first | decide | exact absurd rfl hne | cases hterm

end PlacementLifecycleState

namespace PlacementPlan

variable {F C : Prop} {p q r : PlacementPlan} {dst : PlacementLifecycleState}

/-- What a step does to a stored plan; a transition proceeds unless the step forces a terminal
plan, and a commit submits the claims of the plan. -/
inductive Rewrite (F C : Prop) (p : PlacementPlan) : PlacementPlan → Prop
  | kept : Rewrite F C p p
  | entered {dst : PlacementLifecycleState} (ordinal : UInt64) (h : p.state.Proceeds dst) :
      Rewrite F C p (p.enter dst ordinal)
  | forced {dst : PlacementLifecycleState} (ordinal : UInt64)
      (h : F → p.state ≠ dst → p.state.Proceeds dst) : Rewrite F C p (p.forceState dst ordinal)
  | superseded (newer : PlacementPlanId) (reason : Bytes) (ordinal : UInt64)
      (h : p.state.Proceeds .superseded) :
      Rewrite F C p ({ p with supersededBy := newer, supersessionReason := reason }.forceState
        .superseded ordinal)
  | committed {claims : List ResourceClaim} (ordinal : UInt64) (hclaims : C → claims = p.claims)
      (h : p.state.Proceeds .committed) :
      Rewrite F C p (SchedulerState.committedPlan p claims ordinal)

/-- `q` is the decision `p` at a later time. -/
structure Preserved (p q : PlacementPlan) : Prop where
  facts : q = { p with
    state := q.state
    stateHistory := q.stateHistory
    supersededBy := q.supersededBy
    supersessionReason := q.supersessionReason
    hasCommitmentEvidence := q.hasCommitmentEvidence }
  history : p.stateHistory <+: q.stateHistory
  evidence : p.hasCommitmentEvidence = true → q.hasCommitmentEvidence = true

theorem Preserved.refl (p : PlacementPlan) : p.Preserved p := ⟨rfl, List.prefix_refl _, id⟩

theorem Preserved.trans (h : p.Preserved q) (h' : q.Preserved r) : p.Preserved r := by
  refine ⟨?_, h.history.trans h'.history, h'.evidence ∘ h.evidence⟩
  rw [h'.facts, h.facts]

theorem prefix_enter (p : PlacementPlan) (dst : PlacementLifecycleState) (ordinal : UInt64) :
    p.stateHistory <+: (p.enter dst ordinal).stateHistory := by
  unfold enter
  split
  · exact List.prefix_append _ _
  · exact List.prefix_refl _

theorem preserved_forceState (p : PlacementPlan) (dst : PlacementLifecycleState)
    (ordinal : UInt64) : p.Preserved (p.forceState dst ordinal) := by
  unfold forceState
  split
  · exact .refl p
  · exact ⟨rfl, p.prefix_enter dst ordinal, id⟩

/-- A rewrite leaves the decision. -/
theorem Rewrite.preserved (h : Rewrite F C p q) (hC : C) : p.Preserved q := by
  cases h with
  | kept => exact .refl p
  | entered ordinal => exact ⟨rfl, p.prefix_enter _ ordinal, id⟩
  | forced ordinal => exact p.preserved_forceState _ ordinal
  | superseded newer reason ordinal =>
      have hmarked : p.Preserved { p with supersededBy := newer, supersessionReason := reason } :=
        ⟨rfl, List.prefix_refl _, id⟩
      exact hmarked.trans (preserved_forceState _ .superseded ordinal)
  | committed ordinal hclaims =>
      obtain rfl := hclaims hC
      exact ⟨rfl, p.prefix_enter .committed ordinal, fun _ => rfl⟩

/-- The history of the plan is all that has become of it since it was built. -/
structure Complete (p : PlacementPlan) : Prop where
  trail : Trail PlacementLifecycleState.Proceeds .requested p.entered p.state
  started : p.state ≠ .requested

/-- A complete history has one entry at most for each state on the way. -/
theorem Complete.length_le (h : p.Complete) : p.stateHistory.length ≤ p.state.depth := by
  have hle := h.trail.length_le PlacementLifecycleState.depth fun _ _ hr => hr.2
  rwa [entered, List.length_map, PlacementLifecycleState.depth, Nat.zero_add] at hle

theorem Complete.lt_maxPlanHistory (h : p.Complete) : p.stateHistory.length < maxPlanHistory :=
  h.length_le.trans_lt p.state.depth_lt_maxPlanHistory

theorem entered_enter (h : p.stateHistory.length < maxPlanHistory) (ordinal : UInt64) :
    (p.enter dst ordinal).entered = p.entered ++ [dst] := by
  simp only [entered, enter, if_pos h, List.map_append, List.map_cons, List.map_nil]

theorem Complete.enter (h : p.Complete) (hto : p.state.Proceeds dst) (ordinal : UInt64) :
    (p.enter dst ordinal).Complete where
  trail := by
    rw [entered_enter h.lt_maxPlanHistory]
    exact h.trail.snoc hto
  started := by
    rintro rfl
    exact absurd hto.2 (Nat.not_lt_zero _)

theorem Complete.forceState (h : p.Complete) (hto : p.state ≠ dst → p.state.Proceeds dst)
    (ordinal : UInt64) : (p.forceState dst ordinal).Complete := by
  unfold PlacementPlan.forceState
  split
  · exact h
  · rename_i hne
    exact h.enter (hto hne) ordinal

/-- A rewrite that forces no terminal plan leaves the history complete. -/
theorem Rewrite.complete (h : Rewrite F C p q) (hF : F) (hp : p.Complete) : q.Complete := by
  cases h with
  | kept => exact hp
  | entered ordinal hto => exact hp.enter hto ordinal
  | forced ordinal hto => exact hp.forceState (hto hF) ordinal
  | superseded newer reason ordinal hto =>
      have hmarked : { p with supersededBy := newer, supersessionReason := reason }.Complete :=
        ⟨hp.trail, hp.started⟩
      exact hmarked.forceState (fun _ => hto) ordinal
  | committed ordinal _ hto =>
      have hentered := hp.enter hto ordinal
      exact ⟨hentered.trail, hentered.started⟩

end PlacementPlan

namespace SchedulerState

variable {st : SchedulerState} {k planId : PlacementPlanId} {p q : PlacementPlan} {F C : Prop}

private theorem rewrite_withPlan (hp : st.plans.find? k = some p)
    (h : ∀ p', st.plans.find? planId = some p' → planId = k → p'.Rewrite F C q) :
    ∃ r, (st.withPlan planId q).plans.find? k = some r ∧ p.Rewrite F C r := by
  by_cases hk : planId = k
  · subst hk
    exact ⟨q, find?_withPlan_self, h p hp rfl⟩
  · exact ⟨p, (find?_withPlan_other hk).trans hp, .kept⟩

private theorem rewrite_forcePlans {when : PlacementPlan → Bool}
    {edit : PlacementPlan → PlacementPlan} {dst : PlacementLifecycleState}
    (hp : st.plans.find? k = some p)
    (h : when p = true → ∀ ordinal, p.Rewrite F C ((edit p).forceState dst ordinal)) :
    ∃ r, (st.forcePlans when edit dst).plans.find? k = some r ∧ p.Rewrite F C r := by
  obtain ⟨ordinal, hfind⟩ := st.find?_forcePlans when edit dst k
  rw [hp, Option.map_some] at hfind
  refine ⟨_, hfind, ?_⟩
  split
  · rename_i hwhen
    exact h hwhen ordinal
  · exact .kept

/-- The plan a pass stores has been through the pipeline and nothing else. -/
theorem complete_storedPlan (st : SchedulerState) (request : SchedulingRequest)
    (views : ScheduleViews) (snapshot : List Candidate) (winner : RankedEntry)
    (others : List RankedEntry) :
    (st.storedPlan request views snapshot winner others).Complete := by
  have hentered : (st.storedPlan request views snapshot winner others).entered =
      [.discovering, .filtering, .ranking, .planReady] := rfl
  refine ⟨?_, nofun⟩
  rw [hentered]
  exact ⟨by decide, rfl⟩

theorem complete_of_scheduled {request : SchedulingRequest} {views : ScheduleViews}
    {snapshot : List Candidate} (hnone : st.plans.find? k = none)
    (hq : (st.scheduleSecond request views snapshot).2.plans.find? k = some q) :
    q.Complete := by
  cases hrank : rankSnapshot st.rankOptions request views snapshot with
  | nil =>
      rw [scheduleSecond_of_nil hrank] at hq
      cases hnone.symm.trans hq
  | cons winner others =>
      rw [scheduleSecond_of_cons hrank] at hq
      simp only [OrderedMap.find?_emplace] at hq
      split at hq
      · rename_i hk
        rw [← hk, hnone] at hq
        obtain rfl := Option.some.inj hq
        exact complete_storedPlan ..
      · cases hnone.symm.trans hq

end SchedulerState

namespace System

variable {config : SchedulerConfig} {s t : System} {a : Action} {k : PlacementPlanId}
  {p : PlacementPlan} {es : List (TransitionSystem.Step System Action)}

/-- The claims a commit of the plan has submitted are those of the plan. -/
def ClaimsOwn (s : System) (k : PlacementPlanId) (p : PlacementPlan) : Prop :=
  ∀ c claims answer, s.pending c = some (.settling k claims answer) → claims = p.claims

/-- What a step does to a stored plan. -/
theorem Stepped.rewrite (h : Stepped s a t) (hno : s.NoRestore a)
    (hp : s.sched.plans.find? k = some p) (hstarted : p.state ≠ .requested) :
    ∃ q, t.sched.plans.find? k = some q ∧
      p.Rewrite (s.ForcesNoTerminal a) (s.ClaimsOwn k p) q := by
  have hopen : ∀ {dst : PlacementLifecycleState}, dst.isDisplacement = true →
      p.state.isTerminal = false → p.state ≠ dst → p.state.Proceeds dst :=
    fun hdst hterm hne =>
      PlacementLifecycleState.proceeds_of_isDisplacement hstarted hterm hdst hne
  cases h with
  | setEpoch epoch =>
      rcases s.sched.setEpoch_cases epoch with ⟨_, heq⟩ | ⟨_, heq⟩
      · exact ⟨p, (congrArg (fun st => st.plans.find? k) heq).trans hp, .kept⟩
      · change ∃ q, (s.sched.setEpoch epoch).2.plans.find? k = some q ∧ _
        rw [heq]
        refine SchedulerState.rewrite_forcePlans hp fun hwhen ordinal => .forced ordinal fun _ => ?_
        exact hopen rfl (by simpa using hwhen)
  | cancel requestId =>
      refine SchedulerState.rewrite_forcePlans hp fun hwhen ordinal => .forced ordinal fun _ => ?_
      exact hopen rfl (by simpa using (Bool.and_eq_true_iff.mp hwhen).2)
  | supersede oldRequest newRequest reason =>
      refine SchedulerState.rewrite_forcePlans hp fun hwhen ordinal => .superseded _ _ ordinal ?_
      have hterm : p.state.isTerminal = false := by simpa using (Bool.and_eq_true_iff.mp hwhen).2
      refine hopen rfl hterm fun hsuperseded => ?_
      rw [hsuperseded] at hterm
      cases hterm
  | @scheduled c request snapshot hc views decision =>
      rcases s.sched.scheduleSecond_plans request views snapshot k with hk | ⟨hnone, _⟩
      · exact ⟨p, hk.trans hp, .kept⟩
      · rw [hnone] at hp
        cases hp
  | @commitAsks planId p' hp' hstate =>
      refine SchedulerState.rewrite_withPlan hp fun r hr hk => ?_
      obtain rfl := Option.some.inj (hr.symm.trans hp')
      exact .entered _ (by rw [hstate]; decide)
  | @commitDenied c planId claims answer out p' hc hp' hfresh =>
      have hstate : p'.state = .awaitingResourceCommit :=
        SchedulerState.state_of_not_commitStale hfresh
      refine SchedulerState.rewrite_withPlan hp fun r hr hk => ?_
      obtain rfl := Option.some.inj (hr.symm.trans hp')
      exact .forced _ fun _ _ => by rw [hstate]; decide
  | @commitGranted c planId claims answer p' hc hp' hfresh =>
      have hstate : p'.state = .awaitingResourceCommit :=
        SchedulerState.state_of_not_commitStale hfresh
      refine SchedulerState.rewrite_withPlan hp fun r hr hk => ?_
      subst hk
      obtain rfl := Option.some.inj (hr.symm.trans hp')
      obtain rfl := Option.some.inj (hp.symm.trans hp')
      exact .committed _ (fun hown => hown c claims answer hc) (by rw [hstate]; decide)
  | @handoffAsks planId p' hp' hstate =>
      refine SchedulerState.rewrite_withPlan hp fun r hr hk => ?_
      obtain rfl := Option.some.inj (hr.symm.trans hp')
      exact .entered _ (by rw [hstate]; decide)
  | @handoffDenied c planId x p' hc hp' hfresh hanswer =>
      refine SchedulerState.rewrite_withPlan hp fun r hr hk => ?_
      subst hk
      obtain rfl := Option.some.inj (hr.symm.trans hp')
      obtain rfl := Option.some.inj (hp.symm.trans hp')
      refine .forced _ fun hforces => hopen rfl (hforces planId x p hc hp hanswer ?_ ?_)
      · exact fun hmem => hfresh (Or.inl hmem)
      · exact by_contra fun hne => hfresh (Or.inr hne)
  | @handoffLaunches c planId x p' hc hp' hfresh hanswer hcan =>
      refine SchedulerState.rewrite_withPlan hp fun r hr hk => ?_
      obtain rfl := Option.some.inj (hr.symm.trans hp')
      refine .forced _ fun _ hne => ?_
      rcases PlacementLifecycleState.canTransition_active_iff.mp hcan with hstate | hstate
      · rw [hstate]
        decide
      · exact absurd hstate hne
  | revalidate planId current =>
      rcases s.sched.revalidate_cases planId current with ⟨_, heq⟩ | ⟨p', hp', hmoved, heq⟩
      · exact ⟨p, (congrArg (fun st => st.plans.find? k) heq).trans hp, .kept⟩
      · change ∃ q, (s.sched.revalidate planId current).2.plans.find? k = some q ∧ _
        rw [heq]
        refine SchedulerState.rewrite_withPlan hp fun r hr hk => ?_
        obtain rfl := Option.some.inj (hr.symm.trans hp')
        subst hk
        obtain rfl := Option.some.inj (hp.symm.trans hp')
        exact .forced _ fun hforces => hopen rfl (hforces p hp hmoved)
  | restore => exact hno.elim
  | _ => exact ⟨p, hp, .kept⟩

theorem claimsOwn (h : (scheduler config).Reachable NoRestore s)
    (hp : s.sched.plans.find? k = some p) : s.ClaimsOwn k p := by
  intro c claims answer hc
  obtain ⟨L, htracks, hL⟩ := exists_ledger h k
  refine hL.claims p (htracks.plan ▸ hp) claims ?_
  rw [htracks.settling hc]
  rfl

/-- A stored plan is never patched: along every run, and across a recovery from the state the
run ends in, it keeps everything it was stored with, its history only grows, and it loses no
evidence of its commitment. -/
theorem decision_preserved (hs : (scheduler config).Reachable NoRestore s)
    (h : (scheduler config).Run NoRestore s es t) (hp : s.sched.plans.find? k = some p) :
    ∃ q, t.sched.plans.find? k = some q ∧ p.Preserved q ∧
      ∀ st : SchedulerState, ∃ r,
        (st.restore t.sched.snapshot).plans.find? k = some r ∧ p.Preserved r := by
  have hstable : (scheduler config).Reachable NoRestore t ∧
      ∃ q, t.sched.plans.find? k = some q ∧ p.Preserved q := by
    refine h.stable (fun u => (scheduler config).Reachable NoRestore u ∧
      ∃ q, u.sched.plans.find? k = some q ∧ p.Preserved q) ?_ ⟨hs, p, hp, .refl p⟩
    rintro u a v hno hn ⟨hu, q, hq, hpreserved⟩
    obtain ⟨r, hr, hrewrite⟩ :=
      (stepped_of_step hn).rewrite hno hq (state_ne_requested hu hq)
    exact ⟨hu.next hno hn, r, hr, hpreserved.trans (hrewrite.preserved (claimsOwn hu hq))⟩
  obtain ⟨ht, q, hq, hpreserved⟩ := hstable
  refine ⟨q, hq, hpreserved, fun st => ?_⟩
  have hdurable := (recoverable (ht.mono RestoresOwn.of_noRestore)).durable
  obtain ⟨ordinal, hr⟩ := hdurable.find?_restore st hq
  refine ⟨_, hr, ?_⟩
  split
  · exact hpreserved
  · exact hpreserved.trans (q.preserved_forceState .revalidationRequired ordinal)

/-- A plan is committed, launched and cancelled, and still the plan that was stored. -/
theorem decision_preserved_cancelled : ∃ s t fs p q,
    (scheduler Sample.config).Reachable NoRestore s ∧
    (scheduler Sample.config).Run NoRestore s fs t ∧
    s.sched.plans.find? ⟨1⟩ = some p ∧ p.state = .planReady ∧
    t.sched.plans.find? ⟨1⟩ = some q ∧ q.state = .cancelled ∧ p.Preserved q := by
  have hready : (after Sample.config NoRestore Sample.scheduling).map (Sample.stateOf ⟨1⟩) =
      some (some .planReady) := by decide +kernel
  have hcancelled : (after Sample.config NoRestore (Sample.scheduling ++
      [.commitBegin ⟨1⟩, .brokerCommit 1 (Sample.grant [1]), .commitFinish 1, .handoffBegin ⟨1⟩,
        .authorize 2 Sample.authorization, .handoffFinish 2, .cancel ⟨1⟩])).map
      (Sample.stateOf ⟨1⟩) = some (some .cancelled) := by decide +kernel
  obtain ⟨es, s, fs, t, hr, hr', _, _, hs, ht⟩ := exists_runs_of_after hready hcancelled
  obtain ⟨p, hp, hpstate⟩ := Option.map_eq_some_iff.mp hs
  obtain ⟨q, hq, hpreserved, _⟩ := decision_preserved (reachable_of_run hr) hr' hp
  obtain ⟨r, hstored, hrstate⟩ := Option.map_eq_some_iff.mp ht
  obtain rfl := Option.some.inj (hstored.symm.trans hq)
  exact ⟨s, t, fs, p, r, reachable_of_run hr, hr', hp, hpstate, hq, hrstate, hpreserved⟩

end System

end FabricScheduler
