import Mathlib.Data.List.Sort
import FabricScheduler.Scheduler.State

/-!
# The critical sections of the scheduler operations

Every operation is given as the functions it computes while it holds the lock. An
operation that calls out with the lock dropped has two sections, and what it carries from
the first to the second is an argument of the second. A section returns its outcome and
the state it leaves, also when the outcome is a thrown error.
-/

namespace FabricScheduler

/-- The answer of a resource broker to a commit request. -/
structure ResourceCommitResult where
  succeeded : Bool
  commitmentToken : Bytes
  resourceGeneration : ResourceGeneration
  failureReason : Bytes
  provisional : Bool
  deriving DecidableEq, Repr

/-- The outcome of a scheduling pass. Without a produced plan the plan field is the
default-constructed one. -/
structure PlacementDecision where
  request : SchedulingRequest
  plan : PlacementPlan
  eligible : List CandidateId
  disqualified : List CandidateId
  rejections : List RejectedAlternative
  producedPlan : Bool
  summary : Bytes

/-- The views a scheduling pass consults while the lock is dropped, as each candidate
finds them, and the dependency view as the plan construction finds it. -/
structure ScheduleViews where
  dependency : Candidate → Option DependencyView
  policy : Candidate → Option PolicyVeto
  planDependency : Option DependencyView

/-- Views that answer alike throughout the pass. -/
def ScheduleViews.pure (dependency : Option DependencyView) (policy : Option PolicyVeto) :
    ScheduleViews := ⟨fun _ => dependency, fun _ => policy, dependency⟩

/-- One claim of a single unit on each bound resource. -/
def buildClaims (bindings : List DeviceBinding) : List ResourceClaim :=
  bindings.map fun b => ⟨b.resourceId, b.resourceGeneration, .accelerator, 1, true⟩

/-- The generations a plan built from a candidate depends on. -/
def makeFingerprint (c : Candidate) (req : SchedulingRequest) (dep : Option DependencyView)
    (epoch : CoordinatorEpoch) : GenerationFingerprint where
  topology := c.locality.topologyGeneration
  capacity := c.capacity.generation
  reservation := c.reservation.generation
  congestion := c.congestion.generation
  resource := match c.bindings with
    | [] => ⟨1⟩
    | b :: _ => b.resourceGeneration
  capability := match c.bindings with
    | [] => ⟨1⟩
    | b :: _ => b.capabilityGeneration
  health := c.health.generation
  residency := c.residency.residencyGeneration
  communicationPlan := c.communication.planGeneration
  policy := if req.demand.policyGeneration.isValid then req.demand.policyGeneration else ⟨1⟩
  dependency := match dep with
    | some d => d.generation
    | none => ⟨1⟩
  coordinatorEpoch := epoch

/-- An eligible candidate with its rank. -/
structure RankedEntry where
  rank : RankedCandidate Double
  candidate : Candidate

/-- The evaluation of one candidate of the snapshot: its rank, or why it is rejected. -/
def evaluateCandidate (options : RankOptions) (request : SchedulingRequest)
    (views : ScheduleViews) (cand : Candidate) : RankedEntry ⊕ RejectedAlternative :=
  let er := hardFilterEvaluate request cand (views.dependency cand) (views.policy cand)
  if er.eligible then .inl ⟨rankerEvaluate request cand options, cand⟩
  else .inr ⟨cand.candidateId, cand.candidateGeneration, er.status, er.reason⟩

/-- The eligible candidates of the snapshot in ranked order. -/
def rankSnapshot (options : RankOptions) (request : SchedulingRequest)
    (views : ScheduleViews) (snapshot : List Candidate) : List RankedEntry :=
  (snapshot.filterMap fun c => (evaluateCandidate options request views c).getLeft?)
    |>.insertionSort fun a b => rankComparator b.rank a.rank = false

/-- The rejected candidates of the snapshot in store order. -/
def rejectSnapshot (options : RankOptions) (request : SchedulingRequest)
    (views : ScheduleViews) (snapshot : List Candidate) : List RejectedAlternative :=
  snapshot.filterMap fun c => (evaluateCandidate options request views c).getRight?

namespace SchedulerState

/-- The loop shared by the fencing operations: every plan meeting `when` is edited and
forced into one state, and each forced plan consumes an event ordinal. -/
def forcePlans (st : SchedulerState) (when : PlacementPlan → Bool)
    (edit : PlacementPlan → PlacementPlan) (dst : PlacementLifecycleState) :
    SchedulerState :=
  let (ordinal, plans) := st.plans.pass
    (fun ordinal _ plan =>
      if when plan then (ordinal + 1, (edit plan).forceState dst ordinal)
      else (ordinal, plan))
    st.nextEventOrdinal
  { st with nextEventOrdinal := ordinal, plans }

/-- `Scheduler::set_epoch`. -/
def setEpoch (st : SchedulerState) (newEpoch : CoordinatorEpoch) :
    Except FabricError Unit × SchedulerState :=
  if st.epoch = newEpoch then (.ok (), st)
  else if newEpoch ≤ st.epoch then
    (fail .staleAuthority "coordinator epoch must not move backward", st)
  else
    (.ok (), { st with epoch := newEpoch, authority := st.authority.next }.forcePlans
      (fun plan => !plan.state.isTerminal) id .revalidationRequired)

/-- `Scheduler::ingest_candidate`. A same-id candidate may refresh only at a strictly
higher generation. -/
def ingestCandidate (st : SchedulerState) (candidate : Candidate) :
    Except FabricError Unit × SchedulerState :=
  if !candidate.candidateId.isValid then
    (fail .invalidArgument "candidate id missing", st)
  else if !candidate.candidateGeneration.isValid then
    (fail .invalidArgument "candidate generation missing", st)
  else if !candidate.sourceBootId.isValid then
    (fail .invalidArgument "candidate source boot id missing", st)
  else if !candidate.workerBootId.isValid then
    (fail .invalidArgument "candidate worker boot id missing", st)
  else if candidate.bindings = [] ∧ candidate.capacity.vramTotal = 0 then
    (fail .invalidArgument "candidate carries no binding or capacity evidence", st)
  else if candidate.workerBootId ∈ st.fencedWorkers then
    (fail .staleAuthority "candidate published by a fenced worker boot", st)
  else if candidate.sourceBootId ∈ st.fencedSources then
    (fail .staleAuthority "candidate published by a fenced source boot", st)
  else
    let accepted := { st with
      candidates := st.candidates.insert candidate.candidateId candidate
      ingestWatermark := st.ingestWatermark + 1 }
    match st.candidates.find? candidate.candidateId with
    | some held =>
        if candidate.candidateGeneration ≤ held.candidateGeneration then
          (fail .invalidArgument
            "duplicate or stale candidate id (must refresh at higher generation)", st)
        else (.ok (), accepted)
    | none => (.ok (), accepted)

/-- `Scheduler::fence_worker`. -/
def fenceWorker (st : SchedulerState) (bootId : WorkerBootId) : SchedulerState :=
  { st with fencedWorkers := insert bootId st.fencedWorkers }

/-- `Scheduler::fence_source`. -/
def fenceSource (st : SchedulerState) (bootId : SourceBootId) : SchedulerState :=
  { st with fencedSources := insert bootId st.fencedSources }

/-- The plan of a winning entry, before its lifecycle starts. -/
def buildPlan (st : SchedulerState) (request : SchedulingRequest) (views : ScheduleViews)
    (rejections : List RejectedAlternative) (winner : RankedEntry)
    (others : List RankedEntry) : PlacementPlan where
  planId := ⟨st.nextPlanId⟩
  planGeneration := ⟨1⟩
  requestId := request.requestId
  requestGeneration := request.generation
  selectedCandidate := winner.rank.candidateId
  selectedCandidateGeneration := winner.rank.candidateGeneration
  fallbackCandidates :=
    let maxFallback :=
      if 0 < st.policy.maxFallbackCandidates then st.policy.maxFallbackCandidates.toNat
      else others.length
    (others.take maxFallback).map fun e => e.rank.candidateId
  bindings := winner.candidate.bindings
  claims := buildClaims winner.candidate.bindings
  communicationPlan := winner.candidate.communication.planGeneration
  communicationPlanId := []
  movementBytes := winner.candidate.residency.moveBytes
  movementSource := winner.candidate.residency.moveSource
  residencyPrerequisite := false
  selectedFactors := winner.rank.factors
  rejectedAlternatives := rejections
  generations := makeFingerprint winner.candidate request views.planDependency st.epoch
  policyGeneration :=
    if request.demand.policyGeneration.isValid then request.demand.policyGeneration
    else st.policy.generation
  authorityGeneration := st.authority
  state := .requested
  stateHistory := []
  coordinatorEpoch := st.epoch
  supersededBy := ⟨0⟩
  supersessionReason := []
  hasCommitmentEvidence := false

/-- The pipeline a new plan passes through before it is stored. -/
def advancePipeline (plan : PlacementPlan) (ordinal : UInt64) :
    Except FabricError PlacementPlan := do
  let plan ← plan.advanceLocal .discovering ordinal
  let plan ← plan.advanceLocal .filtering (ordinal + 1)
  let plan ← plan.advanceLocal .ranking (ordinal + 2)
  plan.advanceLocal .planReady (ordinal + 3)

/-- First section of `Scheduler::schedule`: the candidate evidence it will evaluate. -/
def scheduleFirst (st : SchedulerState) : List Candidate := st.candidates.values

/-- Second section of `Scheduler::schedule`, entered with the candidates of the first.
The filter and the ranking in between read only the snapshot, the views and the fixed
rank options. -/
def scheduleSecond (st : SchedulerState) (request : SchedulingRequest)
    (views : ScheduleViews) (snapshot : List Candidate) :
    Except FabricError PlacementDecision × SchedulerState :=
  let eligible := rankSnapshot st.rankOptions request views snapshot
  let rejections := rejectSnapshot st.rankOptions request views snapshot
  let decision : PlacementDecision :=
    { request, plan := default, eligible := eligible.map fun e => e.rank.candidateId
      disqualified := rejections.map RejectedAlternative.candidateId, rejections
      producedPlan := false, summary := [] }
  match eligible with
  | winner :: others =>
      let draft := st.buildPlan request views rejections winner others
      let st := { st with nextPlanId := st.nextPlanId + 1 }
      match advancePipeline draft st.nextEventOrdinal with
      | .error e => (.error e, st)
      | .ok plan =>
          (.ok { decision with
              plan
              producedPlan := true
              summary := text "selected candidate " ++ decimal winner.rank.candidateId.value },
            { st with
              nextEventOrdinal := st.nextEventOrdinal + 4
              plans := st.plans.emplace plan.planId plan
              latestPlanByRequest :=
                st.latestPlanByRequest.insert request.requestId plan.planId })
  | [] =>
      (.ok { decision with
          summary :=
            if rejections = [] then text "no candidates"
            else text "all candidates hard-rejected" },
        { st with requests := st.requests.insert request.requestId request })

/-- A commit result that reports a failure. -/
def commitRefused (generation : ResourceGeneration) (reason : Bytes) :
    ResourceCommitResult := ⟨false, [], generation, reason, false⟩

/-- First section of `Scheduler::commit`: refused at once, or the claims to submit. -/
def commitFirst (st : SchedulerState) (planId : PlacementPlanId) :
    Except FabricError (ResourceCommitResult ⊕ List ResourceClaim) × SchedulerState :=
  match st.plans.find? planId with
  | none => (.ok (.inl (commitRefused ⟨1⟩ (text "unknown placement plan"))), st)
  | some plan =>
      if plan.state ≠ .planReady then
        (.ok (.inl (commitRefused ⟨1⟩ (text "placement plan is not PLAN_READY"))), st)
      else if plan.requestId ∈ st.cancelledRequests then
        (.ok (.inl (commitRefused ⟨1⟩ (text "request cancelled"))), st)
      else if plan.authorityGeneration ≠ st.authority then
        (.ok (.inl (commitRefused ⟨1⟩ (text "stale authority"))), st)
      else
        let bumped := { st with nextEventOrdinal := st.nextEventOrdinal + 1 }
        match plan.advanceLocal .awaitingResourceCommit st.nextEventOrdinal with
        | .error e => (.error e, bumped)
        | .ok moved =>
            (.ok (.inr plan.claims), { bumped with plans := st.plans.insert planId moved })

/-- The token to hand back to the broker once the lock is dropped. -/
def releaseToken (brokerResult : ResourceCommitResult) : Option Bytes :=
  if brokerResult.succeeded ∧ brokerResult.commitmentToken ≠ [] then
    some brokerResult.commitmentToken
  else none

/-- The staleness test of the second section of `Scheduler::commit`. -/
def commitStale (st : SchedulerState) (plan : PlacementPlan) : Prop :=
  plan.requestId ∈ st.cancelledRequests ∨ plan.authorityGeneration ≠ st.authority ∨
    plan.state ≠ .awaitingResourceCommit

instance (st : SchedulerState) (plan : PlacementPlan) : Decidable (st.commitStale plan) :=
  inferInstanceAs (Decidable (_ ∨ _ ∨ _))

/-- A commit that is not too late finds its plan awaiting its resources. -/
theorem state_of_not_commitStale {st : SchedulerState} {plan : PlacementPlan}
    (h : ¬st.commitStale plan) : plan.state = .awaitingResourceCommit := by
  by_contra hne
  exact h (Or.inr (Or.inr hne))

/-- Second section of `Scheduler::commit`, entered with the claims of the first and the
broker's answer: the result to return and the token to release before returning it. -/
def commitSecond (st : SchedulerState) (planId : PlacementPlanId)
    (claims : List ResourceClaim) (brokerResult : ResourceCommitResult) :
    Except FabricError (ResourceCommitResult × Option Bytes) × SchedulerState :=
  match st.plans.find? planId with
  | none =>
      (.ok (commitRefused brokerResult.resourceGeneration
        (text "plan vanished during commit"), releaseToken brokerResult), st)
  | some plan =>
      let bumped := { st with nextEventOrdinal := st.nextEventOrdinal + 1 }
      if st.commitStale plan then
        (.ok (commitRefused brokerResult.resourceGeneration
          (if brokerResult.succeeded then text "stale/cancelled after provisional commit"
            else text "no commitment"), releaseToken brokerResult), st)
      else if !brokerResult.succeeded then
        -- No false COMMITTED state: a fresh pass evaluates the fallback.
        match plan.advanceLocal .revalidationRequired st.nextEventOrdinal with
        | .error e => (.error e, bumped)
        | .ok moved =>
            (.ok (commitRefused brokerResult.resourceGeneration brokerResult.failureReason,
              none), { bumped with plans := st.plans.insert planId moved })
      else
        let evidenced := { plan with hasCommitmentEvidence := true }
        match evidenced.advanceLocal .committed st.nextEventOrdinal with
        | .error e => (.error e, { bumped with plans := st.plans.insert planId evidenced })
        | .ok moved =>
            (.ok (⟨true, brokerResult.commitmentToken, brokerResult.resourceGeneration, [],
              false⟩, none),
              { bumped with plans := st.plans.insert planId { moved with claims } })

/-- `make_unauthorized`. -/
def makeUnauthorized : ExecutionHandoff := ⟨⟨0⟩, ⟨0⟩, ⟨0⟩, ⟨0⟩, ⟨0⟩, false⟩

/-- First section of `Scheduler::handoff`: refused at once, or the plan to authorize. -/
def handoffFirst (st : SchedulerState) (planId : PlacementPlanId) :
    Except FabricError (ExecutionHandoff ⊕ PlacementPlan) × SchedulerState :=
  match st.plans.find? planId with
  | none => (.ok (.inl makeUnauthorized), st)
  | some plan =>
      if plan.state ≠ .committed then (.ok (.inl makeUnauthorized), st)
      else if plan.requestId ∈ st.cancelledRequests then (.ok (.inl makeUnauthorized), st)
      else if plan.authorityGeneration ≠ st.authority then
        (.ok (.inl makeUnauthorized), st)
      else
        let bumped := { st with nextEventOrdinal := st.nextEventOrdinal + 1 }
        match plan.advanceLocal .awaitingExecution st.nextEventOrdinal with
        | .error e => (.error e, bumped)
        | .ok moved =>
            (.ok (.inr plan), { bumped with plans := st.plans.insert planId moved })

/-- Second section of `Scheduler::handoff`, entered with the fabric's answer. -/
def handoffSecond (st : SchedulerState) (planId : PlacementPlanId) (h : ExecutionHandoff) :
    Except FabricError ExecutionHandoff × SchedulerState :=
  match st.plans.find? planId with
  | none => (.ok h, st)
  | some plan =>
      if plan.requestId ∈ st.cancelledRequests ∨ plan.authorityGeneration ≠ st.authority then
        (.ok { h with authorized := false }, st)
      else
        let bumped := { st with nextEventOrdinal := st.nextEventOrdinal + 1 }
        if h.authorized then
          -- The ordinal is consumed before the transition is checked.
          match plan.advanceLocal .active st.nextEventOrdinal with
          | .error e => (.error e, bumped)
          | .ok moved => (.ok h, { bumped with plans := st.plans.insert planId moved })
        else
          (.ok h, { bumped with
            plans := st.plans.insert planId
              (plan.forceState .revalidationRequired st.nextEventOrdinal) })

/-- `Scheduler::revalidate`. -/
def revalidate (st : SchedulerState) (planId : PlacementPlanId)
    (current : GenerationFingerprint) : Except FabricError RevalidationResult × SchedulerState :=
  match st.plans.find? planId with
  | none => (fail .unknownState "unknown placement plan", st)
  | some plan =>
      let res := revalidatePlan plan current
      if res.current then (.ok res, st)
      else
        (.ok res, { st with
          nextEventOrdinal := st.nextEventOrdinal + 1
          plans := st.plans.insert planId
            (plan.forceState .revalidationRequired st.nextEventOrdinal) })

/-- `Scheduler::cancel`. -/
def cancel (st : SchedulerState) (requestId : SchedulingRequestId) : SchedulerState :=
  { st with cancelledRequests := insert requestId st.cancelledRequests }.forcePlans
    (fun plan => plan.requestId = requestId && !plan.state.isTerminal) id .cancelled

/-- `Scheduler::supersede`. -/
def supersede (st : SchedulerState) (oldRequest newRequest : SchedulingRequestId)
    (reason : Bytes) : SchedulerState :=
  let newPlanId := (st.latestPlanByRequest.find? newRequest).getD ⟨0⟩
  let forced := st.forcePlans
    (fun plan => plan.requestId = oldRequest && !plan.state.isTerminal)
    (fun plan => { plan with supersededBy := newPlanId, supersessionReason := reason })
    .superseded
  { forced with
    supersessionHistory := st.supersessionHistory ++
      [text "request superseded: " ++ decimal oldRequest.value ++ text " by " ++
        decimal newRequest.value ++ text "; " ++ reason] }

/-- The identity of a candidate that is kept across recovery. -/
def identityOf (cand : Candidate) : CandidateIdentity :=
  ⟨cand.candidateId, cand.candidateGeneration, cand.sourceId, cand.sourceBootId,
    cand.workerId, cand.workerBootId⟩

/-- `Scheduler::snapshot`. -/
def snapshot (st : SchedulerState) : Persisted where
  formatVersion := 1
  epoch := st.epoch
  authority := st.authority
  nextPlanId := st.nextPlanId
  nextSubmitOrdinal := st.nextSubmitOrdinal
  nextEventOrdinal := st.nextEventOrdinal
  ingestWatermark := st.ingestWatermark
  requests := st.requests.values
  plans := st.plans.values
  candidateIdentities := st.candidates.values.map identityOf
  supersessionHistory := st.supersessionHistory
  cancelledRequests := st.cancelledRequests

/-- The latest-plan index rebuilt from a list of plans: the largest plan id of each
request. -/
def rebuildLatest (plans : List PlacementPlan) :
    OrderedMap SchedulingRequestId PlacementPlanId :=
  plans.foldl
    (fun latest plan =>
      match latest.find? plan.requestId with
      | none => latest.insert plan.requestId plan.planId
      | some held =>
          if held < plan.planId then latest.insert plan.requestId plan.planId else latest)
    .empty

/-- `Scheduler::restore`: evidence and fences are dropped, and every plan that is not
terminal must be revalidated. -/
def restore (st : SchedulerState) (p : Persisted) : SchedulerState :=
  { st with
    requests := .collect SchedulingRequest.requestId p.requests
    plans := .collect PlacementPlan.planId p.plans
    latestPlanByRequest := rebuildLatest p.plans
    epoch := p.epoch
    authority := p.authority
    nextPlanId := p.nextPlanId
    nextSubmitOrdinal := p.nextSubmitOrdinal
    nextEventOrdinal := p.nextEventOrdinal
    ingestWatermark := p.ingestWatermark
    supersessionHistory := p.supersessionHistory
    cancelledRequests := p.cancelledRequests
    candidates := .empty
    fencedWorkers := ∅
    fencedSources := ∅ }.forcePlans (fun plan => !plan.state.isTerminal) id
      .revalidationRequired

end SchedulerState

end FabricScheduler
