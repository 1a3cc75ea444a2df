import Mathlib.Logic.Function.Basic
import FabricScheduler.Scheduler.Execution

/-!
# The coordinator process

The reference coordinator serves one scheduler to any number of connection threads. A thread
that loses its connection fences its worker: in the scheduler, then in the live set the veto
of scheduling calls looks at, and then it moves the epoch on, reading it and writing it in
separate sections. The steps of different threads interleave freely. Greetings and
registrations touch nothing modelled here, and a fence may be of any boot.
-/

namespace FabricScheduler

/-- `LiveVeto`: the live fenced set as one consultation finds it. -/
def liveVeto (fenced : Finset WorkerBootId) : PolicyVeto where
  allows c := c.workerBootId ∉ fenced
  -- The set only grows, so the reason given for a veto finds the boot in it too.
  reason c := if c.workerBootId ∈ fenced then text "worker boot is fenced" else []

/-- `InMemoryBroker`. -/
structure InMemoryBroker where
  failNext : Bool
  nextToken : UInt64

/-- `InMemoryBroker::commit`. -/
def InMemoryBroker.commit (broker : InMemoryBroker) (claims : List ResourceClaim) :
    ResourceCommitResult × InMemoryBroker :=
  let generation := match claims with
    | [] => ⟨1⟩
    | claim :: _ => claim.resourceGeneration
  if broker.failNext then
    (⟨false, [], generation, text "capacity changed at commit time", false⟩,
      { broker with failNext := false })
  else
    (⟨true, text "tok-" ++ decimal (broker.nextToken + 1), generation, [], false⟩,
      { broker with nextToken := broker.nextToken + 1 })

/-- `CurrentAuthorityExec::authorize`: a plan is launchable only under the authority the
scheduler is issuing. -/
def currentAuthorityExec (st : SchedulerState) (plan : PlacementPlan) : ExecutionHandoff where
  executionId := ⟨0⟩
  executionGeneration := ⟨0⟩
  attemptId := ⟨0⟩
  attemptGeneration := ⟨0⟩
  authorityGeneration := plan.authorityGeneration
  authorized := plan.authorityGeneration = st.authority

/-- Where a call of `fence_worker_and_bump` stands. -/
inductive FenceStage
  /-- The boot is fenced in the scheduler. -/
  | fencing (boot : WorkerBootId)
  /-- The boot is in the live fenced set. -/
  | inserted (boot : WorkerBootId)
  /-- The epoch has been read. -/
  | read (boot : WorkerBootId) (cur : CoordinatorEpoch)
  deriving DecidableEq

/-- What a connection thread does next: it enters a section of the call it serves, or the
call's external owner answers. -/
inductive CoordinatorAction
  | publish (candidate : Candidate)
  | submitWorkload (request : SchedulingRequest)
  /-- `LiveVeto` is consulted about the next candidate of a scheduling call. -/
  | consult (call : Nat)
  | submitFinish (call : Nat)
  | commitRequest (planId : PlacementPlanId)
  | brokerCommit (call : Nat)
  | commitFinish (call : Nat)
  | brokerRelease (call : Nat)
  | executionHandoff (planId : PlacementPlanId)
  | authorize (call : Nat)
  | handoffFinish (call : Nat)
  | revalidate (planId : PlacementPlanId) (current : GenerationFingerprint)
  | cancel (requestId : SchedulingRequestId)
  | supersede (oldRequest newRequest : SchedulingRequestId)
  | save
  /-- `fence_worker_and_bump` is entered. -/
  | fenceWorker (boot : WorkerBootId)
  | fenceInsert (call : Nat)
  | fenceRead (call : Nat)
  /-- `fence_worker_and_bump` writes the epoch and returns. -/
  | fenceBump (call : Nat)

/-- The coordinator's shared state and its calls in flight. -/
structure Coordinator where
  system : System
  broker : InMemoryBroker
  /-- `LiveState::fenced`. -/
  fenced : Finset WorkerBootId
  /-- The calls of `fence_worker_and_bump`. -/
  fences : CallTable FenceStage
  /-- The live fenced set as each consultation of a scheduling call found it, in the order
  of its candidates. -/
  consulted : Nat → List (Finset WorkerBootId)
  /-- The boots for which `fence_worker_and_bump` has returned; a ghost. -/
  returned : Finset WorkerBootId

namespace Coordinator

/-- The coordinator before its first connection. -/
def initial (config : SchedulerConfig) : Coordinator where
  system := .initial config
  broker := ⟨false, 0⟩
  fenced := ∅
  fences := .empty
  consulted _ := []
  returned := ∅

/-- The live fenced set as the consultation about a candidate found it. -/
def sawFenced (snapshot : List Candidate) (consulted : List (Finset WorkerBootId))
    (c : Candidate) : Finset WorkerBootId :=
  match (snapshot.zip consulted).find? fun e => e.1.candidateId = c.candidateId with
  | some e => e.2
  | none => ∅

/-- The views a submission schedules with. -/
def liveViews (snapshot : List Candidate) (consulted : List (Finset WorkerBootId)) :
    ScheduleViews where
  dependency _ := some alwaysReadyDependency
  policy c := some (liveVeto (sawFenced snapshot consulted c))
  planDependency := some alwaysReadyDependency

/-- A section of a scheduler call is entered. -/
def serve (s : Coordinator) (a : Action) : Option Coordinator :=
  (s.system.step a).map fun system => { s with system }

/-- A call of `fence_worker_and_bump` moves on. -/
def resumeFence (s : Coordinator) (c : Nat) (stage : Option FenceStage) : Coordinator :=
  { s with fences := s.fences.resumed c stage }

/-- The step of an enabled action. -/
def step (s : Coordinator) : CoordinatorAction → Option Coordinator
  | .publish candidate => s.serve (.ingestCandidate candidate)
  | .submitWorkload request => s.serve (.scheduleBegin request)
  | .consult c =>
      match s.system.pending c with
      | some (.scheduling _ snapshot) =>
          if (s.consulted c).length < snapshot.length then
            some { s with
              consulted := Function.update s.consulted c (s.consulted c ++ [s.fenced]) }
          else none
      | _ => none
  | .submitFinish c =>
      match s.system.pending c with
      | some (.scheduling _ snapshot) =>
          if (s.consulted c).length = snapshot.length then
            s.serve (.scheduleFinish c (liveViews snapshot (s.consulted c)))
          else none
      | _ => none
  | .commitRequest planId => s.serve (.commitBegin planId)
  | .brokerCommit c =>
      match s.system.pending c with
      | some (.committing _ claims) =>
          let (answer, broker) := s.broker.commit claims
          { s with broker }.serve (.brokerCommit c answer)
      | _ => none
  | .commitFinish c => s.serve (.commitFinish c)
  | .brokerRelease c => s.serve (.brokerRelease c true)
  | .executionHandoff planId => s.serve (.handoffBegin planId)
  | .authorize c =>
      match s.system.pending c with
      | some (.authorizing _ plan) =>
          s.serve (.authorize c (currentAuthorityExec s.system.sched plan))
      | _ => none
  | .handoffFinish c => s.serve (.handoffFinish c)
  | .revalidate planId current => s.serve (.revalidate planId current)
  | .cancel requestId => s.serve (.cancel requestId)
  | .supersede oldRequest newRequest => s.serve (.supersede oldRequest newRequest [])
  | .save => s.serve .snapshot
  | .fenceWorker boot =>
      (s.serve (.fenceWorker boot)).map fun t =>
        { t with fences := t.fences.opened (some (.fencing boot)) }
  | .fenceInsert c =>
      match s.fences.pending c with
      | some (.fencing boot) =>
          some ({ s with fenced := insert boot s.fenced }.resumeFence c (some (.inserted boot)))
      | _ => none
  | .fenceRead c =>
      match s.fences.pending c with
      | some (.inserted boot) =>
          some (s.resumeFence c (some (.read boot s.system.sched.epoch)))
      | _ => none
  | .fenceBump c =>
      -- An error of `set_epoch` is swallowed.
      match s.fences.pending c with
      | some (.read boot cur) =>
          (s.serve (.setEpoch cur.next)).map fun t =>
            { t with returned := insert boot t.returned }.resumeFence c none
      | _ => none

end Coordinator

/-- The transition system of a coordinator. -/
def coordinator (config : SchedulerConfig) :
    TransitionSystem Coordinator CoordinatorAction where
  init s := s = .initial config
  next := Coordinator.step

end FabricScheduler
