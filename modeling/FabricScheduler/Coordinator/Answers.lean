import FabricScheduler.Coordinator.Fencing
import FabricScheduler.Persistence.Legibility
import FabricScheduler.Protocol.Channel
import FabricScheduler.Scheduler.Agreement
import FabricScheduler.Scheduler.Evidence

/-!
# The answers on the wire

What the coordinator answers is read by its controllers in functions of their own. A
controller hears of a placement, a commitment or a handoff what the scheduler returned, in
whatever chunks the answer arrives, or that the answer was too long to be sent.
-/

namespace FabricScheduler

open Decoder

/-- What `serve_connection` answers. -/
inductive Answer
  | epoch (epoch : CoordinatorEpoch) (candidateCount : UInt64)
  | registered
  /-- The type is that of the publication. -/
  | published (type : MessageType)
  | placement (decision : PlacementDecision)
  | commitment (out : ResourceCommitResult)
  | execution (out : ExecutionHandoff)
  | revalidation (out : RevalidationResult)
  | cancelled
  | superseded
  | saved
  | shutdown
  | error (e : FabricError)

/-- The number of an error code on the wire. -/
def ErrorCode.number : ErrorCode → UInt16
  | invalidArgument => 0
  | invalidDemand => 1
  | nonFinite => 3
  | overflow => 4
  | invalidCountRange => 7
  | impossibleDuration => 8
  | malformedLocalityConstraint => 9
  | illegalLifecycleTransition => 11
  | staleAuthority => 13
  | unknownState => 14
  | unsupportedVersion => 16
  | corruption => 17
  | protocolError => 18
  | malformedFrame => 19
  | oversizedFrame => 20
  | checksumMismatch => 21
  | truncation => 22

namespace Answer

/-- The answer as its handler writes it. -/
def message : Answer → Message
  | epoch current candidateCount => ⟨.hello, [putId current, putU64 candidateCount].flatten, 0⟩
  | registered => ⟨.register, putU8 1, 0⟩
  | published type => ⟨type, putU8 1, 0⟩
  | placement decision =>
      ⟨.placementPlan, [putBool decision.producedPlan, encodePlanRecord decision.plan,
        putString decision.summary].flatten, 0⟩
  | commitment out =>
      ⟨.commitResult, [putBool out.succeeded, putId out.resourceGeneration,
        putString out.commitmentToken, putString out.failureReason].flatten, 0⟩
  | execution out =>
      ⟨.executionResult, [putBool out.authorized, putId out.authorityGeneration].flatten, 0⟩
  | revalidation out =>
      ⟨.revalidate, [putBool out.current, putCount out.changes.length,
        out.changes.flatMap putString].flatten, 0⟩
  | cancelled => ⟨.cancel, putU8 0, 0⟩
  | superseded => ⟨.supersede, putU8 0, 0⟩
  | saved => ⟨.save, putU8 1, 0⟩
  | shutdown => ⟨.shutdown, [], 0⟩
  | error e => ⟨.error, [putU16 e.code.number, putString e.message].flatten, 0⟩

/-- The message that is sent: an answer too long for a frame is caught and reported. -/
def sent (answer : Answer) : Message :=
  match encodeFrame answer.message.type answer.message.payload answer.message.flags with
  | .ok _ => answer.message
  | .error e => (error e).message

end Answer

/-- `to_string` of a message type. -/
def MessageType.name : MessageType → Bytes
  | hello => text "HELLO"
  | register => text "REGISTER"
  | publishResource => text "PUBLISH_RESOURCE"
  | publishTopology => text "PUBLISH_TOPOLOGY"
  | publishCapacity => text "PUBLISH_CAPACITY"
  | publishReservationView => text "PUBLISH_RESERVATION_VIEW"
  | publishCongestion => text "PUBLISH_CONGESTION"
  | publishHealth => text "PUBLISH_HEALTH"
  | submitWorkload => text "SUBMIT_WORKLOAD"
  | queryPlacement => text "QUERY_PLACEMENT"
  | placementPlan => text "PLACEMENT_PLAN"
  | commitRequest => text "COMMIT_REQUEST"
  | commitResult => text "COMMIT_RESULT"
  | revalidate => text "REVALIDATE"
  | supersede => text "SUPERSEDE"
  | cancel => text "CANCEL"
  | executionHandoff => text "EXECUTION_HANDOFF"
  | executionResult => text "EXECUTION_RESULT"
  | save => text "SAVE"
  | shutdown => text "SHUTDOWN"
  | error => text "ERROR"
  | execute => text "EXECUTE"

/-- What a controller throws: an error of its own, or of what it calls. -/
inductive ControllerError
  | runtime (message : Bytes)
  | fabric (e : FabricError)

/-- The payload of `PLACEMENT_PLAN`. -/
def readPlacement : ByteReader (Bool × PlacementPlan × Bytes) := do
  let produced ← getBool
  let plan ← decodePlanRecord
  let summary ← getString
  return (produced, plan, summary)

/-- The payload of `COMMIT_RESULT`. -/
def readCommitment : ByteReader ResourceCommitResult := do
  let succeeded ← getBool
  let resourceGeneration ← getId
  let commitmentToken ← getString
  let failureReason ← getString
  return { succeeded, commitmentToken, resourceGeneration, failureReason, provisional := false }

/-- The payload of `EXECUTION_RESULT`. The other fields of the handoff stay as constructed. -/
def readExecution : ByteReader ExecutionHandoff := do
  let authorized ← getBool
  let authorityGeneration ← getId
  return { SchedulerState.makeUnauthorized with authorized, authorityGeneration }

/-- The answer to a call of a controller, which expects one type and reads its payload. -/
def expectAnswer {α : Type} (type : MessageType) (unexpected : Bytes)
    (reader : ByteReader α) (heard : MessageType × Bytes) : Except ControllerError α :=
  if heard.1 ≠ type then .error (.runtime unexpected)
  else
    match reader heard.2 with
    | .ok (a, _) => .ok a
    | .error e => .error (.fabric e)

/-- `submit_and_get_plan`, from the answer to its call on. -/
def submitAndGetPlan (heard : MessageType × Bytes) : Except ControllerError PlacementPlan := do
  let (produced, plan, summary) ← expectAnswer .placementPlan
    (text "expected PLACEMENT_PLAN, got " ++ heard.1.name) readPlacement heard
  if produced then return plan
  else throw (.runtime (text "no plan produced: " ++ summary))

/-- `commit_plan`, from the answer to its call on. -/
def commitPlan : MessageType × Bytes → Except ControllerError ResourceCommitResult :=
  expectAnswer .commitResult (text "expected COMMIT_RESULT") readCommitment

/-- `handoff_plan`, from the answer to its call on. -/
def handoffPlan : MessageType × Bytes → Except ControllerError ExecutionHandoff :=
  expectAnswer .executionResult (text "expected EXECUTION_RESULT") readExecution

/-- A call of a controller receives the frame of its answer and reads it. -/
def listen {α : Type} (controller : TcpChannel)
    (read : MessageType × Bytes → Except ControllerError α) : Except ControllerError α :=
  match recvFrame controller with
  | .ok (heard, _) => read heard
  | .error e => .error (.fabric e)

/-- The answer is what arrives at the controller, in chunks that need not respect it. -/
structure Arrives (answer : Answer) (controller : TcpChannel) : Prop where
  valid : controller.valid = true
  delivered : ∃ chunks : List Bytes, (∀ chunk ∈ chunks, chunk ≠ []) ∧
    chunks.flatten = answer.sent.frame ∧ controller.arrivals = chunks.map .bytes

section Hearing

variable {answer : Answer} {controller : TcpChannel} {α : Type}
  {read : MessageType × Bytes → Except ControllerError α}

/-- The answer fits a frame. -/
def Answer.Fits (answer : Answer) : Prop := answer.message.payload.length ≤ maxFramePayload

instance : DecidablePred Answer.Fits := fun answer =>
  inferInstanceAs (Decidable (answer.message.payload.length ≤ maxFramePayload))

theorem Answer.sent_of_fits (h : answer.Fits) : answer.sent = answer.message := by
  rw [sent, encodeFrame_ok.mpr ⟨h, rfl⟩]

theorem Answer.sent_of_not_fits (h : ¬answer.Fits) : answer.sent =
    (error ⟨.oversizedFrame, text "frame payload exceeds bound"⟩).message := by
  rw [sent, encodeFrame, if_pos (Nat.lt_of_not_le h)]
  rfl

/-- What is sent fits a frame. -/
theorem Answer.length_sent (answer : Answer) :
    answer.sent.payload.length ≤ maxFramePayload := by
  by_cases h : answer.Fits
  · rw [sent_of_fits h]
    exact h
  · rw [sent_of_not_fits h]
    decide +kernel

/-- A controller hears what was sent, however it arrives. -/
theorem Arrives.listen_eq (h : Arrives answer controller) :
    listen controller read = read (answer.sent.type, answer.sent.payload) := by
  obtain ⟨chunks, hchunks, hbytes, harrivals⟩ := h.delivered
  have hreceives : Receives [] answer.sent.frame controller :=
    receives_of_chunks h.valid hchunks hbytes (by rw [harrivals, List.append_nil])
  obtain ⟨rest, hrecv, _⟩ := (follows_recvFrame (.inl rfl) _ _ hreceives).1 _ _
    (reads_readFrame answer.length_sent answer.sent.type answer.sent.flags 0).run
  rw [listen, hrecv]

/-- The answer arrives byte by byte. -/
def Answer.bytewise (answer : Answer) : TcpChannel :=
  ⟨true, 0, [], (answer.sent.frame.map fun b => [b]).map .bytes⟩

theorem arrives_bytewise (answer : Answer) : Arrives answer answer.bytewise where
  valid := rfl
  delivered := by
    refine ⟨_, ?_, ?_, rfl⟩
    · intro chunk hchunk
      obtain ⟨b, _, rfl⟩ := List.mem_map.mp hchunk
      exact List.cons_ne_nil b []
    · rw [← List.flatMap_def, List.flatMap_singleton']

/-- An answer of the expected type is heard as what it says. -/
theorem expectAnswer_of_reads {type : MessageType} {payload : Bytes} {reader : ByteReader α}
    {a : α} (h : reader.Reads payload a) (unexpected : Bytes) :
    expectAnswer type unexpected reader (type, payload) = .ok a := by
  rw [expectAnswer, if_neg (not_not_intro rfl), h.run]

end Hearing

/-- The answer to a commit is one that `COMMIT_RESULT` tells in full. -/
structure ResourceCommitResult.Plain (out : ResourceCommitResult) : Prop where
  commitmentToken : out.commitmentToken.length ≤ maxString
  failureReason : out.failureReason.length ≤ maxString
  provisional : out.provisional = false

/-- The answer to a handoff is one that `EXECUTION_RESULT` tells in full. -/
def ExecutionHandoff.Plain (out : ExecutionHandoff) : Prop :=
  out = { SchedulerState.makeUnauthorized with
    authorized := out.authorized, authorityGeneration := out.authorityGeneration }

theorem reads_readPlacement {d : PlacementDecision} (hplan : d.plan.Encodable)
    (hsummary : d.summary.length ≤ maxString) :
    readPlacement.Reads (Answer.placement d).message.payload
      (d.producedPlan, d.plan, d.summary) :=
  .field (reads_getBool _) <| .field (reads_decPlan hplan) <|
    .field (reads_getString hsummary) <| reads_pure _

theorem submitAndGetPlan_of_reads {payload summary : Bytes} {produced : Bool}
    {plan : PlacementPlan} (h : readPlacement.Reads payload (produced, plan, summary)) :
    submitAndGetPlan (.placementPlan, payload) =
      if produced = true then .ok plan
      else .error (.runtime (text "no plan produced: " ++ summary)) := by
  rw [submitAndGetPlan, expectAnswer_of_reads h]
  rfl

theorem reads_readCommitment {out : ResourceCommitResult} (h : out.Plain) :
    readCommitment.Reads (Answer.commitment out).message.payload out := by
  have hout : (⟨out.succeeded, out.commitmentToken, out.resourceGeneration, out.failureReason,
      false⟩ : ResourceCommitResult) = out := by
    rw [← h.provisional]
  exact .field (reads_getBool _) <| .field (reads_getId _) <|
    .field (reads_getString h.commitmentToken) <| .field (reads_getString h.failureReason) <|
    hout ▸ reads_pure _

theorem reads_readExecution {out : ExecutionHandoff} (h : out.Plain) :
    readExecution.Reads (Answer.execution out).message.payload out :=
  .field (reads_getBool _) <| .field (reads_getId _) <| h ▸ reads_pure _

end FabricScheduler
