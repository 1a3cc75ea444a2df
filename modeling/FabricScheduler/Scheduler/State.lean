import Mathlib.Data.Finset.Insert
import FabricScheduler.Library.OrderedMap
import FabricScheduler.Model.Placement

/-!
# The lock-guarded scheduler state

The state behind the scheduler facade, its durable snapshot, and the two writers of a
plan's lifecycle state: one consults the transition table, the other does not.
-/

namespace FabricScheduler

/-- Policy configuration; only the generation and the fallback bound are consulted. -/
structure PolicyConfig where
  generation : PolicyGeneration
  maxFallbackCandidates : UInt32

/-- `Scheduler::Config`. -/
structure SchedulerConfig where
  policy : PolicyConfig
  rankOptions : RankOptions
  initialAuthority : AuthorityGeneration

/-- Recoverable identity of a known candidate. -/
structure CandidateIdentity where
  candidateId : CandidateId
  candidateGeneration : CandidateGeneration
  sourceId : SourceId
  sourceBootId : SourceBootId
  workerId : WorkerId
  workerBootId : WorkerBootId
  deriving DecidableEq, Repr

/-- The durable snapshot of a scheduler. -/
structure Persisted where
  formatVersion : UInt32
  epoch : CoordinatorEpoch
  authority : AuthorityGeneration
  nextPlanId : UInt64
  nextSubmitOrdinal : UInt64
  nextEventOrdinal : UInt64
  ingestWatermark : UInt64
  requests : List SchedulingRequest
  plans : List PlacementPlan
  candidateIdentities : List CandidateIdentity
  supersessionHistory : List Bytes
  cancelledRequests : Finset SchedulingRequestId
  deriving DecidableEq

/-- `SchedulerState`. -/
structure SchedulerState where
  epoch : CoordinatorEpoch
  authority : AuthorityGeneration
  policy : PolicyConfig
  rankOptions : RankOptions
  nextPlanId : UInt64
  nextSubmitOrdinal : UInt64
  nextEventOrdinal : UInt64
  ingestWatermark : UInt64
  candidates : OrderedMap CandidateId Candidate
  requests : OrderedMap SchedulingRequestId SchedulingRequest
  plans : OrderedMap PlacementPlanId PlacementPlan
  latestPlanByRequest : OrderedMap SchedulingRequestId PlacementPlanId
  supersessionHistory : List Bytes
  cancelledRequests : Finset SchedulingRequestId
  fencedWorkers : Finset WorkerBootId
  fencedSources : Finset SourceBootId

/-- The state of a freshly constructed scheduler. -/
def SchedulerState.initial (config : SchedulerConfig) : SchedulerState where
  epoch := ⟨1⟩
  authority := config.initialAuthority
  policy := config.policy
  rankOptions := config.rankOptions
  nextPlanId := 1
  nextSubmitOrdinal := 1
  nextEventOrdinal := 1
  ingestWatermark := 0
  candidates := .empty
  requests := .empty
  plans := .empty
  latestPlanByRequest := .empty
  supersessionHistory := []
  cancelledRequests := ∅
  fencedWorkers := ∅
  fencedSources := ∅

/-- The bound on a plan's recorded history. -/
def maxPlanHistory : Nat := 64

namespace PlacementPlan

/-- Set the lifecycle state and record the entry while the history has room. -/
def enter (plan : PlacementPlan) (dst : PlacementLifecycleState) (ordinal : UInt64) :
    PlacementPlan :=
  { plan with
    state := dst
    stateHistory :=
      if plan.stateHistory.length < maxPlanHistory then plan.stateHistory ++ [(dst, ordinal)]
      else plan.stateHistory }

/-- `advance_local`: the checked writer of the lifecycle state. -/
def advanceLocal (plan : PlacementPlan) (dst : PlacementLifecycleState) (ordinal : UInt64) :
    Except FabricError PlacementPlan :=
  if plan.state = dst then .ok plan
  else if plan.state.canTransition dst then .ok (plan.enter dst ordinal)
  else fail .illegalLifecycleTransition
    ("illegal placement lifecycle transition " ++ plan.state.name ++ " -> " ++ dst.name)

/-- `force_state`: the unchecked writer of the lifecycle state. -/
def forceState (plan : PlacementPlan) (dst : PlacementLifecycleState) (ordinal : UInt64) :
    PlacementPlan :=
  if plan.state = dst then plan else plan.enter dst ordinal

/-- The plans agree in everything a scheduler operation never rewrites once the plan is
stored. -/
structure SameDecision (p q : PlacementPlan) : Prop where
  planId : q.planId = p.planId
  requestId : q.requestId = p.requestId
  selectedCandidate : q.selectedCandidate = p.selectedCandidate
  selectedCandidateGeneration :
    q.selectedCandidateGeneration = p.selectedCandidateGeneration
  claims : q.claims = p.claims
  generations : q.generations = p.generations
  authorityGeneration : q.authorityGeneration = p.authorityGeneration
  coordinatorEpoch : q.coordinatorEpoch = p.coordinatorEpoch

theorem SameDecision.refl (p : PlacementPlan) : p.SameDecision p :=
  ⟨rfl, rfl, rfl, rfl, rfl, rfl, rfl, rfl⟩

theorem SameDecision.trans {p q r : PlacementPlan} (h : p.SameDecision q)
    (h' : q.SameDecision r) : p.SameDecision r where
  planId := h'.planId.trans h.planId
  requestId := h'.requestId.trans h.requestId
  selectedCandidate := h'.selectedCandidate.trans h.selectedCandidate
  selectedCandidateGeneration :=
    h'.selectedCandidateGeneration.trans h.selectedCandidateGeneration
  claims := h'.claims.trans h.claims
  generations := h'.generations.trans h.generations
  authorityGeneration := h'.authorityGeneration.trans h.authorityGeneration
  coordinatorEpoch := h'.coordinatorEpoch.trans h.coordinatorEpoch

@[simp] theorem enter_state (p : PlacementPlan) (dst : PlacementLifecycleState)
    (ordinal : UInt64) : (p.enter dst ordinal).state = dst := rfl

theorem sameDecision_enter (p : PlacementPlan) (dst : PlacementLifecycleState)
    (ordinal : UInt64) : p.SameDecision (p.enter dst ordinal) :=
  ⟨rfl, rfl, rfl, rfl, rfl, rfl, rfl, rfl⟩

/-- The unchecked writer always leaves the plan in the requested state. -/
@[simp] theorem forceState_state (p : PlacementPlan) (dst : PlacementLifecycleState)
    (ordinal : UInt64) : (p.forceState dst ordinal).state = dst := by
  unfold forceState
  split
  · assumption
  · rfl

@[simp] theorem forceState_hasCommitmentEvidence (p : PlacementPlan)
    (dst : PlacementLifecycleState) (ordinal : UInt64) :
    (p.forceState dst ordinal).hasCommitmentEvidence = p.hasCommitmentEvidence := by
  unfold forceState
  split <;> rfl

/-- A plan forced into a state, as a record. -/
theorem forceState_eq (p : PlacementPlan) (dst : PlacementLifecycleState) (ordinal : UInt64) :
    p.forceState dst ordinal = { p with
      state := dst
      stateHistory :=
        if p.state ≠ dst ∧ p.stateHistory.length < maxPlanHistory then
          p.stateHistory ++ [(dst, ordinal)]
        else p.stateHistory } := by
  unfold forceState
  by_cases hstate : p.state = dst
  · obtain rfl := hstate
    simp only [ne_eq, not_true, false_and, ite_true, ite_false]
  · simp only [hstate, ne_eq, not_false_eq_true, true_and, ite_false]
    rfl

theorem sameDecision_forceState (p : PlacementPlan) (dst : PlacementLifecycleState)
    (ordinal : UInt64) : p.SameDecision (p.forceState dst ordinal) := by
  unfold forceState
  split
  · exact .refl p
  · exact p.sameDecision_enter dst ordinal

/-- The checked writer succeeds exactly on the transitions of the table. -/
theorem advanceLocal_eq_ok {p : PlacementPlan} {dst : PlacementLifecycleState}
    (h : p.state.canTransition dst = true) (ordinal : UInt64) :
    p.advanceLocal dst ordinal = .ok (p.forceState dst ordinal) := by
  by_cases he : p.state = dst
  · simp only [advanceLocal, forceState, he, ite_true]
  · simp only [advanceLocal, forceState, he, h, ite_true, ite_false]

theorem advanceLocal_eq_enter {p : PlacementPlan} {dst : PlacementLifecycleState}
    (hne : p.state ≠ dst) (h : p.state.canTransition dst = true) (ordinal : UInt64) :
    p.advanceLocal dst ordinal = .ok (p.enter dst ordinal) := by
  simp only [advanceLocal, hne, h, ite_true, ite_false]

theorem advanceLocal_eq_error {p : PlacementPlan} {dst : PlacementLifecycleState}
    (h : p.state.canTransition dst = false) (ordinal : UInt64) :
    p.advanceLocal dst ordinal = fail .illegalLifecycleTransition
      ("illegal placement lifecycle transition " ++ p.state.name ++ " -> " ++ dst.name) := by
  have hne : p.state ≠ dst := by
    intro he
    rw [he, PlacementLifecycleState.canTransition_self] at h
    cases h
  simp only [advanceLocal, hne, h, ite_false, Bool.false_eq_true]

end PlacementPlan

end FabricScheduler
