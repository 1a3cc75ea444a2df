import FabricScheduler.Model.Ranking
import FabricScheduler.Model.Eligibility

/-!
# Placement plans and their guarded lifecycle

The lifecycle is an explicit transition table: forward transitions are linear through the
pipeline, terminal states absorb, and everything not listed is illegal.
-/

namespace FabricScheduler

/-- The lifecycle of a placement plan. -/
inductive PlacementLifecycleState
  | requested | discovering | filtering | ranking | planReady | awaitingResourceCommit
  | committed | awaitingExecution | active | revalidationRequired | superseded | cancelled
  | failed | retired
  deriving DecidableEq, Repr, Inhabited

namespace PlacementLifecycleState

instance : Enumeration PlacementLifecycleState where
  all := [.requested, .discovering, .filtering, .ranking, .planReady,
    .awaitingResourceCommit, .committed, .awaitingExecution, .active,
    .revalidationRequired, .superseded, .cancelled, .failed, .retired]
  nodup := by decide
  complete a := by cases a <;> decide

/-- The rendering used in error messages. -/
def name : PlacementLifecycleState → String
  | .requested => "REQUESTED"
  | .discovering => "DISCOVERING"
  | .filtering => "FILTERING"
  | .ranking => "RANKING"
  | .planReady => "PLAN_READY"
  | .awaitingResourceCommit => "AWAITING_RESOURCE_COMMIT"
  | .committed => "COMMITTED"
  | .awaitingExecution => "AWAITING_EXECUTION"
  | .active => "ACTIVE"
  | .revalidationRequired => "REVALIDATION_REQUIRED"
  | .superseded => "SUPERSEDED"
  | .cancelled => "CANCELLED"
  | .failed => "FAILED"
  | .retired => "RETIRED"

/-- The terminal states. -/
def isTerminal : PlacementLifecycleState → Bool
  | .superseded | .cancelled | .failed | .retired => true
  | _ => false

/-- The transition table `step`; a state may always keep itself. -/
def canTransition (src dst : PlacementLifecycleState) : Bool :=
  src == dst || match src, dst with
    | .requested, .discovering | .requested, .cancelled | .requested, .superseded
    | .requested, .failed => true
    | .discovering, .filtering | .discovering, .revalidationRequired
    | .discovering, .cancelled | .discovering, .superseded | .discovering, .failed => true
    | .filtering, .ranking | .filtering, .revalidationRequired | .filtering, .cancelled
    | .filtering, .superseded | .filtering, .failed => true
    | .ranking, .planReady | .ranking, .revalidationRequired | .ranking, .cancelled
    | .ranking, .superseded | .ranking, .failed => true
    | .planReady, .awaitingResourceCommit | .planReady, .revalidationRequired
    | .planReady, .cancelled | .planReady, .superseded | .planReady, .failed => true
    | .awaitingResourceCommit, .committed
    | .awaitingResourceCommit, .revalidationRequired
    | .awaitingResourceCommit, .cancelled | .awaitingResourceCommit, .superseded
    | .awaitingResourceCommit, .failed => true
    | .committed, .awaitingExecution | .committed, .revalidationRequired
    | .committed, .superseded | .committed, .failed | .committed, .cancelled => true
    | .awaitingExecution, .active | .awaitingExecution, .revalidationRequired
    | .awaitingExecution, .superseded | .awaitingExecution, .cancelled
    | .awaitingExecution, .failed => true
    | .active, .active | .active, .revalidationRequired | .active, .superseded
    | .active, .cancelled | .active, .failed | .active, .retired => true
    | .revalidationRequired, .planReady | .revalidationRequired, .filtering
    | .revalidationRequired, .ranking | .revalidationRequired, .awaitingResourceCommit
    | .revalidationRequired, .superseded | .revalidationRequired, .cancelled
    | .revalidationRequired, .failed | .revalidationRequired, .retired => true
    | .superseded, .retired | .cancelled, .retired | .failed, .retired => true
    | _, _ => false

@[simp] theorem canTransition_self (s : PlacementLifecycleState) :
    s.canTransition s = true := by
  cases s <;> rfl

/-- The only step out of a terminal state leads to `RETIRED`. -/
theorem isTerminal_of_canTransition {s t : PlacementLifecycleState}
    (h : s.canTransition t = true) (hs : s.isTerminal = true) : t.isTerminal = true := by
  cases s <;> cases hs <;> cases t <;> first | rfl | cases h

/-- `REVALIDATION_REQUIRED` is entered legally from the states past `REQUESTED` that are
not terminal, and from no others. -/
theorem canTransition_revalidationRequired {s : PlacementLifecycleState}
    (h : s ≠ .requested) :
    s.canTransition .revalidationRequired = true ↔ s.isTerminal = false := by
  cases s <;> first | exact absurd rfl h | decide

/-- The states of a plan that holds a commitment: `COMMITTED`, `AWAITING_EXECUTION` and
`ACTIVE`. -/
def isAuthoritative : PlacementLifecycleState → Bool
  | .committed | .awaitingExecution | .active => true
  | _ => false

/-- Only plans that hold a commitment may become active. -/
theorem isAuthoritative_of_canTransition_active {s : PlacementLifecycleState}
    (h : s.canTransition .active = true) : s.isAuthoritative = true := by
  cases s <;> first | rfl | cases h

end PlacementLifecycleState

/-- A resource-claim intent submitted to the resource broker. -/
structure ResourceClaim where
  resourceId : ResourceId
  resourceGeneration : ResourceGeneration
  kind : ResourceKind
  amount : UInt64
  provisional : Bool
  deriving DecidableEq, Repr

/-- One rejected alternative and its primary reason. -/
structure RejectedAlternative where
  candidateId : CandidateId
  candidateGeneration : CandidateGeneration
  status : EligibilityStatus
  reason : Bytes
  deriving DecidableEq, Repr

/-- The generations a plan depends on. Equality is `equal` of the source, which compares
every field. -/
structure GenerationFingerprint where
  topology : TopologyGeneration
  capacity : CapacityGeneration
  reservation : ReservationGeneration
  congestion : CongestionGeneration
  capability : CapabilityGeneration
  health : HealthGeneration
  residency : ResidencyGeneration
  communicationPlan : CommunicationPlanGeneration
  policy : PolicyGeneration
  resource : ResourceGeneration
  dependency : DependencyGeneration
  coordinatorEpoch : CoordinatorEpoch
  deriving DecidableEq, Repr, Inhabited

/-- The execution fabric's answer to a handoff. -/
structure ExecutionHandoff where
  executionId : ExecutionId
  executionGeneration : ExecutionGeneration
  attemptId : AttemptId
  attemptGeneration : AttemptGeneration
  authorityGeneration : AuthorityGeneration
  authorized : Bool
  deriving DecidableEq, Repr

/-- A placement plan. -/
structure PlacementPlan where
  planId : PlacementPlanId
  planGeneration : PlacementPlanGeneration
  requestId : SchedulingRequestId
  requestGeneration : SchedulingRequestGeneration
  selectedCandidate : CandidateId
  selectedCandidateGeneration : CandidateGeneration
  fallbackCandidates : List CandidateId
  bindings : List DeviceBinding
  claims : List ResourceClaim
  communicationPlan : CommunicationPlanGeneration
  communicationPlanId : Bytes
  movementBytes : UInt64
  movementSource : Bytes
  residencyPrerequisite : Bool
  selectedFactors : List (RankFactor Double)
  rejectedAlternatives : List RejectedAlternative
  generations : GenerationFingerprint
  policyGeneration : PolicyGeneration
  authorityGeneration : AuthorityGeneration
  state : PlacementLifecycleState
  stateHistory : List (PlacementLifecycleState × UInt64)
  coordinatorEpoch : CoordinatorEpoch
  supersededBy : PlacementPlanId
  supersessionReason : Bytes
  hasCommitmentEvidence : Bool
  deriving DecidableEq, Repr, Inhabited

/-- A plan that holds a commitment carries the evidence of it. -/
def PlacementPlan.Evident (p : PlacementPlan) : Prop :=
  p.state.isAuthoritative = true → p.hasCommitmentEvidence = true

/-- Outcome of a revalidation. -/
structure RevalidationResult where
  current : Bool
  changes : List Bytes
  resultingState : PlacementLifecycleState
  deriving DecidableEq, Repr

/-- `revalidate_plan`: one change is reported for each diverging generation. -/
def revalidatePlan (plan : PlacementPlan) (current : GenerationFingerprint) :
    RevalidationResult :=
  let g := plan.generations
  let change (moved : Bool) (what : String) : List Bytes := if moved then [text what] else []
  { current := g = current
    changes :=
      change (g.topology ≠ current.topology) "topology generation advanced" ++
      change (g.capacity ≠ current.capacity) "capacity generation advanced" ++
      change (g.reservation ≠ current.reservation) "reservation generation advanced" ++
      change (g.congestion ≠ current.congestion) "congestion generation advanced" ++
      change (g.capability ≠ current.capability) "capability generation advanced" ++
      change (g.health ≠ current.health) "health generation advanced" ++
      change (g.residency ≠ current.residency) "residency generation advanced" ++
      change (g.communicationPlan ≠ current.communicationPlan)
        "communication-plan generation advanced" ++
      change (g.policy ≠ current.policy) "policy generation advanced" ++
      change (g.resource ≠ current.resource) "resource generation advanced" ++
      change (g.dependency ≠ current.dependency) "dependency generation advanced" ++
      change (g.coordinatorEpoch ≠ current.coordinatorEpoch) "coordinator epoch advanced"
    resultingState := if g = current then plan.state else .revalidationRequired }

end FabricScheduler
