import FabricScheduler.Coordinator.Connection
import FabricScheduler.Persistence.RoundTrip
import FabricScheduler.Protocol.Channel

/-!
# The requests on the wire

What workers and controllers ask of the coordinator arrives as bytes, in chunks that need not
respect the frames. The thread of the connection serves the requests in the order in which
they were made, each once and as it was made, and finds the connection lost only after it has
received them all.
-/

namespace FabricScheduler

open Decoder

/-- The requests that `worker_main` and the controllers make of the coordinator. -/
inductive ClientRequest
  | hello (payload : Bytes)
  | register (workerId : WorkerId) (boot : WorkerBootId) (name : Bytes)
  | publishResource (candidate : Candidate)
  | submitWorkload (request : SchedulingRequest)
  | commitRequest (planId : PlacementPlanId)
  | executionHandoff (planId : PlacementPlanId)
  | shutdown

namespace ClientRequest

/-- The message of a request, as its client sends it. -/
def message : ClientRequest → Message
  | hello payload => ⟨.hello, payload, 0⟩
  | register workerId boot name =>
      ⟨.register, [putId workerId, putId boot, putString name].flatten, 0⟩
  | publishResource candidate => ⟨.publishResource, encodeCandidateRecord candidate, 0⟩
  | submitWorkload request => ⟨.submitWorkload, encodeRequestRecord request, 0⟩
  | commitRequest planId => ⟨.commitRequest, putId planId, 0⟩
  | executionHandoff planId => ⟨.executionHandoff, putId planId, 0⟩
  | shutdown => ⟨.shutdown, [], 0⟩

/-- The frame of the request. -/
def frame (r : ClientRequest) : Bytes := r.message.frame

/-- What the request is to the thread that serves it. -/
def received (r : ClientRequest) : MessageType × Bytes := (r.message.type, r.message.payload)

/-- The records of the request are within the bounds of their readers. -/
def Readable : ClientRequest → Prop
  | register _ _ name => name.length ≤ maxString
  | publishResource candidate => candidate.Encodable
  | submitWorkload request =>
      request.demand.validate = .ok () ∧ request.demand.StringsBounded
  | hello _ | commitRequest _ | executionHandoff _ | shutdown => True

/-- The request can be sent, and be read by the thread. -/
structure Sayable (r : ClientRequest) : Prop where
  bound : r.message.payload.length ≤ maxFramePayload
  readable : r.Readable

end ClientRequest

namespace Service

variable {config : SchedulerConfig} {s t : Service} {a : ServiceAction}

/-- The thread makes the call that a request asks for. -/
def make (s : Service) (type : MessageType) (call : CoordinatorAction) : Option Service :=
  (s.coordinator.step call).map fun coordinator =>
    { s with coordinator }.goto (.handling type
      (if call.isSuspended then some s.coordinator.system.calls.fresh else none))

/-- What the thread does with a request. The topology a request is pinned to is not sent. -/
def serve (s : Service) : ClientRequest → Option Service
  | .hello _ => some (s.goto (.handling .hello none))
  | .register _ boot _ =>
      some { s with thread := { s.thread with
        boot, hasBoot := true, stage := .handling .register none } }
  | .publishResource candidate => s.make .publishResource (.publish candidate)
  | .submitWorkload request => s.make .submitWorkload (.submitWorkload request.withoutTopology)
  | .commitRequest planId => s.make .commitRequest (.commitRequest planId)
  | .executionHandoff planId => s.make .executionHandoff (.executionHandoff planId)
  | .shutdown => some (s.goto (.handling .shutdown none))

theorem reads_readRegister (workerId : WorkerId) (boot : WorkerBootId) {name : Bytes}
    (h : name.length ≤ maxString) :
    readRegister.Reads [putId workerId, putId boot, putString name].flatten boot :=
  .field (d := getU64) (reads_getU64 workerId.value) <| .field (reads_getId boot) <|
    .field (reads_getString h) <| reads_pure boot

/-- A payload that is read as a call makes the call. -/
private theorem receive_of_reads {type : MessageType} {payload : Bytes} {call : HandlerCall}
    (h : (readCall type).Reads payload (some call)) (htype : type ≠ .register) :
    s.receive type payload = s.make type call.1 := by
  rw [receive, if_neg htype, h.run]
  rfl

/-- A request is handled as what it is. -/
theorem receive_message {r : ClientRequest} (h : r.Readable) :
    s.receive r.message.type r.message.payload = s.serve r := by
  cases r with
  | hello payload => rfl
  | register workerId boot name =>
      change s.receive .register _ = _
      rw [receive, if_pos rfl, ClientRequest.message, (reads_readRegister workerId boot h).run]
      rfl
  | publishResource candidate =>
      have hreads : (readCall .publishResource).Reads (encodeCandidateRecord candidate)
          (some ⟨.publish candidate, rfl⟩) :=
        (reads_decodeCandidateRecord h).last (reads_pure _)
      exact receive_of_reads hreads (by decide)
  | submitWorkload request =>
      have hreads : (readCall .submitWorkload).Reads (encodeRequestRecord request)
          (some ⟨.submitWorkload request.withoutTopology, rfl⟩) :=
        (reads_decRequest h.1 h.2).last (reads_pure _)
      exact receive_of_reads hreads (by decide)
  | commitRequest planId =>
      have hreads : (readCall .commitRequest).Reads (putId planId)
          (some ⟨.commitRequest planId, rfl⟩) := (reads_getId planId).last (reads_pure _)
      exact receive_of_reads hreads (by decide)
  | executionHandoff planId =>
      have hreads : (readCall .executionHandoff).Reads (putId planId)
          (some ⟨.executionHandoff planId, rfl⟩) := (reads_getId planId).last (reads_pure _)
      exact receive_of_reads hreads (by decide)
  | shutdown => rfl

end Service

/-- The thread of a connection with the channel it reads. -/
structure WireService where
  service : Service
  channel : TcpChannel

/-- What happens next: the thread enters `recv_frame`, or anything else happens. -/
inductive WireAction
  | recvFrame
  | shared (a : CoordinatorAction)
  | answer (throws : Bool)
  | stop
  | leave

/-- What the action is to the thread: `recv_frame` returns the frame it finds, or fails. -/
def WireAction.outcome (channel : TcpChannel) : WireAction → ServiceAction
  | recvFrame =>
      match FabricScheduler.recvFrame channel with
      | .ok ((type, payload), _) => .receive type payload
      | .error _ => .lose
  | shared a => .shared a
  | answer throws => .answer throws
  | stop => .stop
  | leave => .leave

/-- What the action leaves of the channel; after a failure the thread receives no more. -/
def WireAction.consumed (channel : TcpChannel) : WireAction → TcpChannel
  | recvFrame =>
      match FabricScheduler.recvFrame channel with
      | .ok (_, rest) => rest
      | .error _ => channel
  | _ => channel

namespace Sample

/-- A worker registers, asks for the epoch and dies; its bytes arrive one at a time. -/
def dyingWorker : List ClientRequest := [.register ⟨1⟩ ⟨1⟩ (text "A"), .hello []]

def dyingChunks : List Bytes := (dyingWorker.flatMap ClientRequest.frame).map fun b => [b]

def dyingChannel : TcpChannel := ⟨true, 0, [], dyingChunks.map .bytes⟩

def servingDying : List WireAction :=
  [.recvFrame, .answer false, .recvFrame, .answer false, .recvFrame, .shared (.fenceInsert 0),
    .shared (.fenceRead 0), .shared (.fenceBump 0), .leave]

end Sample

namespace WireService

/-- The step of an enabled action. -/
def step (u : WireService) (a : WireAction) : Option WireService :=
  (u.service.step (a.outcome u.channel)).map fun service => ⟨service, a.consumed u.channel⟩

end WireService

/-- The transition system of a coordinator with one of its connections and the bytes that
arrive over it. -/
def wireService (config : SchedulerConfig) (channel : TcpChannel) :
    TransitionSystem WireService WireAction where
  init u := u = ⟨.initial config, channel⟩
  next := WireService.step

/-- The frame that is handed to the thread. -/
def ServiceAction.frame? : ServiceAction → Option (MessageType × Bytes)
  | .receive type payload => some (type, payload)
  | _ => none

/-- A thread that leaves does not come back. -/
theorem Service.Stepped.isLeaving {s t : Service} {a : ServiceAction} (h : Stepped s a t)
    (hs : s.thread.stage.isLeaving = true) : t.thread.stage.isLeaving = true := by
  have hno : s.thread.stage.isLeaving = false → t.thread.stage.isLeaving = true := by
    rw [hs]
    exact fun h => Bool.noConfusion h
  cases h with
  | shared => exact hs
  | registering hstage | called _ hstage | moved _ hstage | fenced _ hstage => exact hno hstage
  | acknowledged hstage =>
      rw [hstage] at hs
      cases hs
  | left => rfl

theorem Service.stage_of_lose {s t : Service} (h : s.step .lose = some t) :
    s.thread.stage = .receiving ∧ t.thread.stage.isLeaving = true := by
  simp only [step] at h
  split at h
  · rename_i hstage
    refine ⟨hstage, ?_⟩
    split at h
    · obtain ⟨coordinator, _, rfl⟩ := Option.map_eq_some_iff.mp h
      rfl
    · obtain rfl := Option.some.inj h
      rfl
  · cases h

theorem Service.stage_of_receive {s t : Service} {type : MessageType} {payload : Bytes}
    (h : s.step (.receive type payload) = some t) :
    s.thread.stage = .receiving ∧ s.receive type payload = some t := by
  simp only [step] at h
  split at h
  · exact ⟨‹_›, h⟩
  · cases h

namespace WireService

variable {config : SchedulerConfig} {channel : TcpChannel} {u v : WireService} {a : WireAction}
  {es : List (TransitionSystem.Step WireService WireAction)} {tail : List Arrival}
  {requests rest : List ClientRequest} {r : ClientRequest} {after : Bytes}

/-- The thread receives nothing with the step, or a request it serves as what it is. -/
def ServesAs (e : TransitionSystem.Step WireService WireAction)
    (requests : List ClientRequest) : Prop :=
  ∀ type payload, e.act.outcome e.src.channel = .receive type payload →
    ∃ r ∈ requests, r.received = (type, payload) ∧
      e.src.service.serve r = some e.tgt.service

/-- What the steps are to the thread. -/
def outcomes (es : List (TransitionSystem.Step WireService WireAction)) :
    List ServiceAction := es.map fun e => e.act.outcome e.src.channel

/-- The next request is received as it was made. -/
theorem recvFrame_of_request (htail : Ended tail)
    (hbound : r.message.payload.length ≤ maxFramePayload)
    (h : Receives tail ((r :: rest).flatMap ClientRequest.frame ++ after) channel) :
    ∃ channel', recvFrame channel = .ok (r.received, channel') ∧
      Receives tail (rest.flatMap ClientRequest.frame ++ after) channel' := by
  rw [List.flatMap_cons, List.append_assoc] at h
  exact (follows_recvFrame htail _ _ h).1 _ _
    (reads_readFrame hbound r.message.type r.message.flags 0 _)

/-- How far the thread has come with what arrives: what it was handed are the first requests,
the others with what comes after them are still to be received, and it has lost the
connection only after the last one. -/
structure Serves (requests : List ClientRequest) (after : Bytes) (tail : List Arrival)
    (es : List (TransitionSystem.Step WireService WireAction)) (u : WireService)
    (done rest : List ClientRequest) : Prop where
  divides : requests = done ++ rest
  handed : (outcomes es).filterMap ServiceAction.frame? = done.map ClientRequest.received
  arrives : Receives tail (rest.flatMap ClientRequest.frame ++ after) u.channel
  lost : .lose ∈ outcomes es → rest = [] ∧ u.service.thread.stage.isLeaving = true

theorem outcomes_snoc : outcomes (es ++ [⟨u, a, v⟩]) = outcomes es ++ [a.outcome u.channel] := by
  rw [outcomes, List.map_append, List.map_singleton, outcomes]

/-- A step that receives nothing leaves what arrives. -/
theorem Serves.stepped_other {done : List ClientRequest}
    (h : Serves requests after tail es u done rest) (hn : u.step a = some v)
    (hframe : (a.outcome u.channel).frame? = none) (hlose : a.outcome u.channel ≠ .lose)
    (hchannel : a.consumed u.channel = u.channel) :
    Serves requests after tail (es ++ [⟨u, a, v⟩]) v done rest := by
  obtain ⟨service, hservice, rfl⟩ := Option.map_eq_some_iff.mp hn
  refine ⟨h.divides, ?_, ?_, ?_⟩
  · rw [outcomes_snoc, List.filterMap_append, h.handed, List.filterMap_cons, hframe,
      List.filterMap_nil, List.append_nil]
  · rw [hchannel]
    exact h.arrives
  · intro hin
    rw [outcomes_snoc, List.mem_append, List.mem_singleton] at hin
    obtain ⟨hrest, hleaving⟩ := h.lost (hin.resolve_right fun he => hlose he.symm)
    exact ⟨hrest, (Service.stepped_of_step hservice).isLeaving hleaving⟩

/-- `recv_frame` hands over the next request, or fails when there is none. -/
theorem Serves.stepped_recvFrame {done : List ClientRequest} (htail : Ended tail)
    (hafter : ∃ e, readFrame after = .error e)
    (hsay : ∀ r ∈ requests, r.Sayable)
    (h : Serves requests after tail es u done rest) (hn : u.step .recvFrame = some v) :
    (∃ r rest', rest = r :: rest' ∧ u.service.serve r = some v.service ∧
      WireAction.outcome u.channel .recvFrame = .receive r.message.type r.message.payload ∧
      Serves requests after tail (es ++ [⟨u, .recvFrame, v⟩]) v (done ++ [r]) rest') ∨
    rest = [] ∧ WireAction.outcome u.channel .recvFrame = .lose ∧
      Serves requests after tail (es ++ [⟨u, .recvFrame, v⟩]) v done [] := by
  obtain ⟨service, hservice, rfl⟩ := Option.map_eq_some_iff.mp hn
  cases rest with
  | nil =>
      obtain ⟨e, hafter⟩ := hafter
      obtain ⟨e', hrecv⟩ := (follows_recvFrame htail _ _ h.arrives).2 e hafter
      have houtcome : WireAction.outcome u.channel .recvFrame = .lose := by
        rw [WireAction.outcome, hrecv]
      rw [houtcome] at hservice
      refine Or.inr ⟨rfl, houtcome, h.divides, ?_, ?_, fun _ => ⟨rfl, ?_⟩⟩
      · rw [outcomes_snoc, List.filterMap_append, h.handed, houtcome]
        exact List.append_nil _
      · simp only [WireAction.consumed, hrecv]
        exact h.arrives
      · exact (Service.stage_of_lose hservice).2
  | cons r rest' =>
      have hr := hsay r (h.divides ▸ List.mem_append_right _ (List.mem_cons_self ..))
      obtain ⟨channel', hrecv, harrives⟩ := recvFrame_of_request htail hr.bound h.arrives
      have houtcome : WireAction.outcome u.channel .recvFrame =
          .receive r.message.type r.message.payload := by
        rw [WireAction.outcome, hrecv, ClientRequest.received]
      rw [houtcome] at hservice
      obtain ⟨hstage, hreceive⟩ := Service.stage_of_receive hservice
      rw [Service.receive_message hr.readable] at hreceive
      refine Or.inl ⟨r, rest', rfl, hreceive, houtcome, ?_, ?_, ?_, ?_⟩
      · rw [h.divides, List.append_assoc, List.singleton_append]
      · rw [outcomes_snoc, List.filterMap_append, h.handed, houtcome, List.map_append]
        rfl
      · simp only [WireAction.consumed, hrecv]
        exact harrives
      · intro hin
        rw [outcomes_snoc, houtcome, List.mem_append, List.mem_singleton] at hin
        obtain ⟨_, hleaving⟩ := h.lost (hin.resolve_right nofun)
        rw [hstage] at hleaving
        cases hleaving

theorem Serves.stepped {done : List ClientRequest} (htail : Ended tail)
    (hafter : ∃ e, readFrame after = .error e) (hsay : ∀ r ∈ requests, r.Sayable)
    (h : Serves requests after tail es u done rest) (hn : u.step a = some v) :
    ∃ done' rest', Serves requests after tail (es ++ [⟨u, a, v⟩]) v (done ++ done') rest' ∧
      ServesAs ⟨u, a, v⟩ (done ++ done') := by
  have hother : (a.outcome u.channel).frame? = none → a.outcome u.channel ≠ .lose →
      a.consumed u.channel = u.channel →
      ∃ done' rest', Serves requests after tail (es ++ [⟨u, a, v⟩]) v (done ++ done') rest' ∧
        ServesAs ⟨u, a, v⟩ (done ++ done') := by
    intro hframe hlose hchannel
    refine ⟨[], rest, ?_, ?_⟩
    · rw [List.append_nil]
      exact h.stepped_other hn hframe hlose hchannel
    · intro type payload he
      simp only [he, ServiceAction.frame?, reduceCtorEq] at hframe
  cases a with
  | recvFrame =>
      rcases h.stepped_recvFrame htail hafter hsay hn with
        ⟨r, rest', _, hserve, houtcome, hserves⟩ | ⟨_, houtcome, hserves⟩
      · refine ⟨[r], rest', hserves, ?_⟩
        intro type payload he
        obtain ⟨rfl, rfl⟩ := ServiceAction.receive.inj (houtcome.symm.trans he)
        exact ⟨r, List.mem_append_right _ (List.mem_singleton_self r), rfl, hserve⟩
      · refine ⟨[], [], ?_, ?_⟩
        · rw [List.append_nil]
          exact hserves
        · intro type payload he
          cases houtcome.symm.trans he
  | shared | answer | stop | leave => exact hother rfl nofun rfl

/-- The steps are those of the service whose thread is handed the frames. -/
theorem exists_run_service {P : WireService → WireAction → Prop}
    (h : (wireService config channel).Run P u es v) :
    ∃ fs, (FabricScheduler.service config).Run (fun _ _ => True) u.service fs v.service ∧
      fs.map TransitionSystem.Step.act = outcomes es := by
  refine h.traced (fun es v => ∃ fs, (FabricScheduler.service config).Run (fun _ _ => True)
    u.service fs v.service ∧ fs.map TransitionSystem.Step.act = outcomes es) ⟨[], .nil, rfl⟩ ?_
  rintro es v a w _ hn ⟨fs, hrun, hacts⟩
  obtain ⟨service, hservice, rfl⟩ := Option.map_eq_some_iff.mp hn
  refine ⟨_, hrun.snoc trivial hservice, ?_⟩
  rw [List.map_append, hacts, outcomes_snoc]
  rfl

end WireService

end FabricScheduler
