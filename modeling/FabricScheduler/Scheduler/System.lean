import FabricScheduler.Library.CallTable
import FabricScheduler.Library.TransitionSystem
import FabricScheduler.Scheduler.Operations

/-!
# Concurrent calls on one scheduler

The scheduler with any number of calls in flight. Each lock-guarded section is one step,
each call of an external owner with the lock dropped is one step, and the steps of
different calls interleave freely. The log is a ghost: it records what crosses the
boundary to callers, brokers, execution fabrics and storage, in order.
-/

namespace FabricScheduler

/-- Where a call is suspended with the lock dropped, and what it carries over. -/
inductive Call
  /-- `schedule` evaluates its snapshot. -/
  | scheduling (request : SchedulingRequest) (snapshot : List Candidate)
  /-- `commit` is about to have the broker's answer. -/
  | committing (planId : PlacementPlanId) (claims : List ResourceClaim)
  /-- `commit` has the broker's answer and waits for the lock. -/
  | settling (planId : PlacementPlanId) (claims : List ResourceClaim)
      (answer : ResourceCommitResult)
  /-- `commit` is about to release a token before it returns. -/
  | releasing (planId : PlacementPlanId) (token : Bytes) (out : ResourceCommitResult)
  /-- `handoff` is about to have the execution fabric's answer. -/
  | authorizing (planId : PlacementPlanId) (plan : PlacementPlan)
  /-- `handoff` has the execution fabric's answer and waits for the lock. -/
  | launching (planId : PlacementPlanId) (handoff : ExecutionHandoff)

/-- What the log records. A throw without an error of the scheduler's own is the external
owner's exception passing through. -/
inductive Event
  | ingested (candidate : Candidate)
  | scheduleReturned (call : Nat) (decision : PlacementDecision)
  | scheduleThrew (call : Nat) (error : Option FabricError)
  /-- The first section of a commit returned. -/
  | commitRefused (call : Nat) (planId : PlacementPlanId) (out : ResourceCommitResult)
  | brokerCommit (call : Nat) (planId : PlacementPlanId) (claims : List ResourceClaim)
      (answer : ResourceCommitResult)
  | brokerRelease (call : Nat) (planId : PlacementPlanId) (token : Bytes)
  | commitReturned (call : Nat) (planId : PlacementPlanId) (out : ResourceCommitResult)
  | commitThrew (call : Nat) (planId : PlacementPlanId) (error : Option FabricError)
  /-- The first section of a handoff returned. -/
  | handoffRefused (call : Nat) (planId : PlacementPlanId) (out : ExecutionHandoff)
  | authorize (call : Nat) (planId : PlacementPlanId) (plan : PlacementPlan)
      (answer : ExecutionHandoff)
  | handoffReturned (call : Nat) (planId : PlacementPlanId) (out : ExecutionHandoff)
  | handoffThrew (call : Nat) (planId : PlacementPlanId) (error : Option FabricError)
  | saved (persisted : Persisted)

/-- The token a broker grants with the event. -/
def Event.grants? : Event → Option Bytes
  | .brokerCommit _ _ _ answer => if answer.succeeded then some answer.commitmentToken else none
  | _ => none

/-- The call an event belongs to. -/
def Event.call? : Event → Option Nat
  | .scheduleReturned c _ | .scheduleThrew c _ | .commitRefused c _ _ | .brokerCommit c _ _ _
  | .brokerRelease c _ _ | .commitReturned c _ _ | .commitThrew c _ _ | .handoffRefused c _ _
  | .authorize c _ _ _ | .handoffReturned c _ _ | .handoffThrew c _ _ => some c
  | .ingested _ | .saved _ => none

/-- The steps of a scheduler and of its environment. -/
inductive Action
  | setEpoch (epoch : CoordinatorEpoch)
  | fenceWorker (bootId : WorkerBootId)
  | fenceSource (bootId : SourceBootId)
  | ingestCandidate (candidate : Candidate)
  | scheduleBegin (request : SchedulingRequest)
  | scheduleFinish (call : Nat) (views : ScheduleViews)
  | commitBegin (planId : PlacementPlanId)
  | brokerCommit (call : Nat) (answer : ResourceCommitResult)
  | commitFinish (call : Nat)
  | brokerRelease (call : Nat) (returns : Bool)
  | handoffBegin (planId : PlacementPlanId)
  | authorize (call : Nat) (answer : ExecutionHandoff)
  | handoffFinish (call : Nat)
  /-- The external owner a call waits for throws. -/
  | unwind (call : Nat)
  | revalidate (planId : PlacementPlanId) (current : GenerationFingerprint)
  | cancel (requestId : SchedulingRequestId)
  | supersede (oldRequest newRequest : SchedulingRequestId) (reason : Bytes)
  | snapshot
  | restore (persisted : Persisted)

/-- A scheduler, its calls in flight, and the log. -/
structure System where
  sched : SchedulerState
  calls : CallTable Call
  log : List Event

namespace System

/-- A freshly constructed scheduler. -/
def initial (config : SchedulerConfig) : System := ⟨.initial config, .empty, []⟩

/-- An operation of a single section took effect. -/
def whole (s : System) (sched : SchedulerState) (events : List Event) : System :=
  ⟨sched, s.calls, s.log ++ events⟩

/-- The first section of an operation took effect; the call is suspended or over. -/
def begun (s : System) (sched : SchedulerState) (call : Option Call) (events : List Event) :
    System := ⟨sched, s.calls.opened call, s.log ++ events⟩

/-- A later part of a suspended call took effect; the call is suspended again or over. -/
def continued (s : System) (c : Nat) (sched : SchedulerState) (call : Option Call)
    (events : List Event) : System := ⟨sched, s.calls.resumed c call, s.log ++ events⟩

/-- What a call is suspended with. -/
def pending (s : System) (c : Nat) : Option Call := s.calls.pending c

/-- First section of `commit` as a step. -/
def commitBegin (s : System) (planId : PlacementPlanId) : System :=
  match s.sched.commitFirst planId with
  | (.ok (.inl out), st) => s.begun st none [.commitRefused s.calls.fresh planId out]
  | (.ok (.inr claims), st) => s.begun st (some (.committing planId claims)) []
  | (.error e, st) => s.begun st none [.commitThrew s.calls.fresh planId (some e)]

/-- Second section of `commit` as a step. -/
def commitFinish (s : System) (c : Nat) (planId : PlacementPlanId)
    (claims : List ResourceClaim) (answer : ResourceCommitResult) : System :=
  match s.sched.commitSecond planId claims answer with
  | (.ok (out, none), st) => s.continued c st none [.commitReturned c planId out]
  | (.ok (out, some token), st) => s.continued c st (some (.releasing planId token out)) []
  | (.error e, st) => s.continued c st none [.commitThrew c planId (some e)]

/-- First section of `handoff` as a step. -/
def handoffBegin (s : System) (planId : PlacementPlanId) : System :=
  match s.sched.handoffFirst planId with
  | (.ok (.inl out), st) => s.begun st none [.handoffRefused s.calls.fresh planId out]
  | (.ok (.inr plan), st) => s.begun st (some (.authorizing planId plan)) []
  | (.error e, st) => s.begun st none [.handoffThrew s.calls.fresh planId (some e)]

/-- Second section of `handoff` as a step. -/
def handoffFinish (s : System) (c : Nat) (planId : PlacementPlanId) (h : ExecutionHandoff) :
    System :=
  match s.sched.handoffSecond planId h with
  | (.ok out, st) => s.continued c st none [.handoffReturned c planId out]
  | (.error e, st) => s.continued c st none [.handoffThrew c planId (some e)]

/-- First section of `schedule` as a step; an invalid demand is thrown out before it. -/
def scheduleBegin (s : System) (request : SchedulingRequest) : System :=
  match request.demand.validate with
  | .ok _ => s.begun s.sched (some (.scheduling request s.sched.scheduleFirst)) []
  | .error e => s.begun s.sched none [.scheduleThrew s.calls.fresh (some e)]

/-- Second section of `schedule` as a step. -/
def scheduleFinish (s : System) (c : Nat) (request : SchedulingRequest)
    (snapshot : List Candidate) (views : ScheduleViews) : System :=
  match s.sched.scheduleSecond request views snapshot with
  | (.ok decision, st) => s.continued c st none [.scheduleReturned c decision]
  | (.error e, st) => s.continued c st none [.scheduleThrew c (some e)]

/-- `ingest_candidate` as a step; an accepted candidate is logged. -/
def ingestCandidate (s : System) (candidate : Candidate) : System :=
  match s.sched.ingestCandidate candidate with
  | (.ok _, st) => s.whole st [.ingested candidate]
  | (.error _, st) => s.whole st []

/-- The step of an enabled action. -/
def step (s : System) : Action → Option System
  | .setEpoch epoch => some (s.whole (s.sched.setEpoch epoch).2 [])
  | .fenceWorker bootId => some (s.whole (s.sched.fenceWorker bootId) [])
  | .fenceSource bootId => some (s.whole (s.sched.fenceSource bootId) [])
  | .ingestCandidate candidate => some (s.ingestCandidate candidate)
  | .scheduleBegin request => some (s.scheduleBegin request)
  | .scheduleFinish c views =>
      match s.pending c with
      | some (.scheduling request snapshot) => some (s.scheduleFinish c request snapshot views)
      | _ => none
  | .commitBegin planId => some (s.commitBegin planId)
  | .brokerCommit c answer =>
      match s.pending c with
      | some (.committing planId claims) =>
          some (s.continued c s.sched (some (.settling planId claims answer))
            [.brokerCommit c planId claims answer])
      | _ => none
  | .commitFinish c =>
      match s.pending c with
      | some (.settling planId claims answer) => some (s.commitFinish c planId claims answer)
      | _ => none
  | .brokerRelease c returns =>
      match s.pending c with
      | some (.releasing planId token out) =>
          some (s.continued c s.sched none [.brokerRelease c planId token,
            if returns then .commitReturned c planId out else .commitThrew c planId none])
      | _ => none
  | .handoffBegin planId => some (s.handoffBegin planId)
  | .authorize c answer =>
      match s.pending c with
      | some (.authorizing planId plan) =>
          some (s.continued c s.sched (some (.launching planId answer))
            [.authorize c planId plan answer])
      | _ => none
  | .handoffFinish c =>
      match s.pending c with
      | some (.launching planId h) => some (s.handoffFinish c planId h)
      | _ => none
  | .unwind c =>
      match s.pending c with
      | some (.scheduling _ _) => some (s.continued c s.sched none [.scheduleThrew c none])
      | some (.committing planId _) =>
          some (s.continued c s.sched none [.commitThrew c planId none])
      | some (.authorizing planId _) =>
          some (s.continued c s.sched none [.handoffThrew c planId none])
      | _ => none
  | .revalidate planId current => some (s.whole (s.sched.revalidate planId current).2 [])
  | .cancel requestId => some (s.whole (s.sched.cancel requestId) [])
  | .supersede oldRequest newRequest reason =>
      some (s.whole (s.sched.supersede oldRequest newRequest reason) [])
  | .snapshot => some (s.whole s.sched [.saved s.sched.snapshot])
  | .restore persisted => some (s.whole (s.sched.restore persisted) [])

/-- The tokens brokers have granted so far. -/
def granted (s : System) : List Bytes := s.log.filterMap Event.grants?

/-- The action is not a recovery. -/
def NoRestore (_ : System) : Action → Prop
  | .restore _ => False
  | _ => True

/-- A recovery only ever reads back what this scheduler saved. -/
def RestoresOwn (s : System) : Action → Prop
  | .restore persisted => Event.saved persisted ∈ s.log
  | _ => True

/-- No recovery, and brokers grant a fresh non-empty token on success. -/
def GrantsFresh (s : System) : Action → Prop
  | .restore _ => False
  | .brokerCommit _ answer => answer.succeeded = true →
      answer.commitmentToken ≠ [] ∧ answer.commitmentToken ∉ s.granted
  | _ => True

/-- Brokers return normally. -/
def BrokerReturns (s : System) : Action → Prop
  | .unwind c => ∀ planId claims, s.pending c ≠ some (.committing planId claims)
  | .brokerRelease _ returns => returns = true
  | _ => True

/-- Brokers return normally and grant a fresh non-empty token on success, and there is no
recovery. -/
def BrokerContract (s : System) (a : Action) : Prop := s.GrantsFresh a ∧ s.BrokerReturns a

end System

/-- The transition system of a scheduler constructed from a configuration. -/
def scheduler (config : SchedulerConfig) : TransitionSystem System Action where
  init s := s = .initial config
  next := System.step

end FabricScheduler
