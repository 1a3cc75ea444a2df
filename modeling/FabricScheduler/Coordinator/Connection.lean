import FabricScheduler.Coordinator.Fencing
import FabricScheduler.Persistence.CandidateRecord
import FabricScheduler.Protocol.Frame

/-!
# Serving one connection

The thread of one connection, among all other threads of the coordinator. It keeps one boot
id, that of the last registration it could read, and fences that boot when it loses its
connection. A boot registered before it under another id stays at large.
-/

namespace FabricScheduler

/-- A call that a frame makes; no frame calls `fence_worker_and_bump`. -/
abbrev HandlerCall := { a : CoordinatorAction // a.fences = false }

/-- The payload of `REGISTER`. The worker id is not used, and its name only kept. -/
def readRegister : ByteReader WorkerBootId := do
  let _workerId ← getU64
  let boot ← getId
  let _name ← getString
  return boot

/-- The fingerprint in the payload of `REVALIDATE`. -/
def readFingerprint : ByteReader GenerationFingerprint := do
  let topology ← getId
  let capacity ← getId
  let reservation ← getId
  let congestion ← getId
  let capability ← getId
  let health ← getId
  let residency ← getId
  let communicationPlan ← getId
  let policy ← getId
  let resource ← getId
  let dependency ← getId
  let coordinatorEpoch ← getId
  return { topology, capacity, reservation, congestion, resource, capability, health, residency,
           communicationPlan, policy, dependency, coordinatorEpoch }

/-- The switch of `serve_connection`: the call a frame makes, as its payload is read. The
snapshot of `SAVE` depends on the state file and is left to the steps of the coordinator. -/
def readCall : MessageType → ByteReader (Option HandlerCall)
  | .publishResource | .publishCapacity | .publishCongestion | .publishHealth => do
      let candidate ← decodeCandidateRecord
      return some ⟨.publish candidate, rfl⟩
  | .submitWorkload => do
      let request ← decodeRequestRecord
      return some ⟨.submitWorkload request, rfl⟩
  | .commitRequest => do
      let planId ← getId
      return some ⟨.commitRequest planId, rfl⟩
  | .executionHandoff => do
      let planId ← getId
      return some ⟨.executionHandoff planId, rfl⟩
  | .revalidate => do
      let planId ← getId
      let current ← readFingerprint
      return some ⟨.revalidate planId current, rfl⟩
  | .cancel => do
      let requestId ← getId
      return some ⟨.cancel requestId, rfl⟩
  | .supersede => do
      let oldRequest ← getId
      let newRequest ← getId
      return some ⟨.supersede oldRequest newRequest, rfl⟩
  | .hello | .register | .save | .shutdown | .publishTopology | .publishReservationView
  | .queryPlacement | .placementPlan | .commitResult | .executionResult | .error
  | .execute => return none

/-- The call has sections after its first. -/
def CoordinatorAction.isSuspended : CoordinatorAction → Bool
  | .submitWorkload _ | .commitRequest _ | .executionHandoff _ => true
  | _ => false

/-- Where a thread stands in `serve_connection`. -/
inductive ServeStage
  /-- At the head of its loop or in `recv_frame`. -/
  | receiving
  /-- It handles a frame and may have a call in flight. -/
  | handling (type : MessageType) (call : Option Nat)
  /-- In `fence_worker_and_bump`, because `recv_frame` failed or for another reason. -/
  | fencing (call : Nat) (lost : Bool)
  | returned (lost : Bool)
  deriving DecidableEq

/-- The thread is done with its frames. -/
def ServeStage.isLeaving : ServeStage → Bool
  | .receiving | .handling _ _ => false
  | .fencing _ _ | .returned _ => true

/-- The local variables of `serve_connection`. -/
structure ConnectionThread where
  boot : WorkerBootId
  hasBoot : Bool
  /-- `TcpChannel::valid`; nothing the thread calls closes the channel. -/
  valid : Bool
  stage : ServeStage
  /-- The boots of the registrations that were processed to their end; a ghost. -/
  registered : Finset WorkerBootId

/-- The coordinator and one of its connection threads. -/
structure Service where
  coordinator : Coordinator
  thread : ConnectionThread

/-- What happens next: the thread moves on, or a section of a call is entered, be it of this
thread or of another. -/
inductive ServiceAction
  | shared (a : CoordinatorAction)
  /-- `recv_frame` returns a frame. -/
  | receive (type : MessageType) (payload : Bytes)
  /-- The handler of the frame ends: its answer is sent, or it throws. -/
  | answer (throws : Bool)
  /-- `recv_frame` fails. -/
  | lose
  /-- The coordinator is no longer running. -/
  | stop
  /-- `fence_worker_and_bump` has returned. -/
  | leave

namespace Service

/-- A connection is accepted. -/
def initial (config : SchedulerConfig) : Service where
  coordinator := .initial config
  thread := ⟨⟨0⟩, false, true, .receiving, ∅⟩

/-- The thread goes on at another stage. -/
def goto (s : Service) (stage : ServeStage) : Service :=
  { s with thread := { s.thread with stage } }

/-- The thread enters `fence_worker_and_bump`. -/
def fence (s : Service) (lost : Bool) : Option Service :=
  (s.coordinator.step (.fenceWorker s.thread.boot)).map fun coordinator =>
    { s with coordinator }.goto (.fencing s.coordinator.fences.fresh lost)

/-- The two `catch` blocks around the switch, which differ in the error they report. -/
def caught (s : Service) : Option Service :=
  if s.thread.valid then some (s.goto .receiving)
  else if s.thread.hasBoot then s.fence false
  else some (s.goto .receiving)

/-- A frame is handed to its handler. -/
def receive (s : Service) (type : MessageType) (payload : Bytes) : Option Service :=
  if type = .register then
    match readRegister payload with
    | .ok (boot, _) =>
        some { s with thread := { s.thread with
          boot, hasBoot := true, stage := .handling .register none } }
    | .error _ => s.caught
  else
    match readCall type payload with
    | .ok (some call, _) =>
        (s.coordinator.step call).map fun coordinator =>
          { s with coordinator }.goto (.handling type
            (if call.1.isSuspended then some s.coordinator.system.calls.fresh else none))
    | .ok (none, _) => some (s.goto (.handling type none))
    | .error _ => s.caught

/-- The handler of a frame ends. Its answer may fail to be sent whatever it was. -/
def answer (s : Service) (type : MessageType) (throws : Bool) : Option Service :=
  if throws then s.caught
  else
    match type with
    | .register =>
        some { s with thread := { s.thread with
          stage := .receiving, registered := insert s.thread.boot s.thread.registered } }
    | .shutdown => some (s.goto (.returned false))
    | _ => some (s.goto .receiving)

/-- The step of an enabled action. -/
def step (s : Service) : ServiceAction → Option Service
  | .shared a => (s.coordinator.step a).map fun coordinator => { s with coordinator }
  | .receive type payload =>
      match s.thread.stage with
      | .receiving => s.receive type payload
      | _ => none
  | .answer throws =>
      match s.thread.stage with
      | .handling type call =>
          if call.all fun c => (s.coordinator.system.pending c).isNone then s.answer type throws
          else none
      | _ => none
  | .lose =>
      match s.thread.stage with
      | .receiving =>
          if s.thread.hasBoot then s.fence true else some (s.goto (.returned true))
      | _ => none
  | .stop =>
      match s.thread.stage with
      | .receiving => some (s.goto (.returned false))
      | _ => none
  | .leave =>
      match s.thread.stage with
      | .fencing c lost =>
          if s.coordinator.fences.pending c = none then some (s.goto (.returned lost)) else none
      | _ => none

end Service

/-- The transition system of a coordinator with one of its connections. -/
def service (config : SchedulerConfig) : TransitionSystem Service ServiceAction where
  init s := s = .initial config
  next := Service.step

/-- The boot a registration sets, as soon as its payload is read. -/
def ServiceAction.boot? : ServiceAction → Option WorkerBootId
  | .receive .register payload =>
      match readRegister payload with
      | .ok (boot, _) => some boot
      | .error _ => none
  | _ => none

/-- The thread moves on and sets no boot. -/
def ServiceAction.isQuiet : ServiceAction → Bool
  | .shared _ => false
  | a => a.boot?.isNone

/-- A stage the thread enters without registering or fencing. -/
def ServeStage.Plain (hasBoot : Bool) : ServeStage → Prop
  | .receiving => True
  | .handling type _ => type ≠ .register
  | .fencing _ _ => False
  | .returned lost => lost = true → hasBoot = false

namespace Service

variable {config : SchedulerConfig} {s t : Service} {a : ServiceAction}

/-- What an enabled action does. -/
inductive Stepped (s : Service) : ServiceAction → Service → Prop
  | shared {a : CoordinatorAction} {coordinator : Coordinator}
      (hn : s.coordinator.step a = some coordinator) :
      Stepped s (.shared a) { s with coordinator }
  | registering {payload : Bytes} {boot : WorkerBootId}
      (hstage : s.thread.stage.isLeaving = false)
      (hboot : (ServiceAction.receive .register payload).boot? = some boot) :
      Stepped s (.receive .register payload) { s with thread := { s.thread with
        boot, hasBoot := true, stage := .handling .register none } }
  | acknowledged {call : Option Nat} (hstage : s.thread.stage = .handling .register call) :
      Stepped s (.answer false) { s with thread := { s.thread with
        stage := .receiving, registered := insert s.thread.boot s.thread.registered } }
  | called {a : ServiceAction} {call : HandlerCall} {coordinator : Coordinator}
      {stage : ServeStage} (hquiet : a.isQuiet = true)
      (hstage : s.thread.stage.isLeaving = false) (hplain : stage.Plain s.thread.hasBoot)
      (hn : s.coordinator.step call = some coordinator) :
      Stepped s a ({ s with coordinator }.goto stage)
  | moved {a : ServiceAction} {stage : ServeStage} (hquiet : a.isQuiet = true)
      (hstage : s.thread.stage.isLeaving = false) (hplain : stage.Plain s.thread.hasBoot) :
      Stepped s a (s.goto stage)
  | fenced {a : ServiceAction} {coordinator : Coordinator} {lost : Bool}
      (hquiet : a.isQuiet = true) (hstage : s.thread.stage.isLeaving = false)
      (hboot : s.thread.hasBoot = true)
      (hn : s.coordinator.step (.fenceWorker s.thread.boot) = some coordinator) :
      Stepped s a ({ s with coordinator }.goto (.fencing s.coordinator.fences.fresh lost))
  | left {c : Nat} {lost : Bool} (hstage : s.thread.stage = .fencing c lost)
      (hended : s.coordinator.fences.pending c = none) :
      Stepped s .leave (s.goto (.returned lost))

private theorem stepped_of_fence {lost : Bool} (h : s.fence lost = some t)
    (hquiet : a.isQuiet = true) (hstage : s.thread.stage.isLeaving = false)
    (hboot : s.thread.hasBoot = true) : Stepped s a t := by
  obtain ⟨coordinator, hn, rfl⟩ := Option.map_eq_some_iff.mp h
  exact .fenced hquiet hstage hboot hn

private theorem stepped_of_caught (h : s.caught = some t) (hquiet : a.isQuiet = true)
    (hstage : s.thread.stage.isLeaving = false) : Stepped s a t := by
  rw [caught] at h
  split at h
  · obtain rfl := Option.some.inj h
    exact .moved hquiet hstage trivial
  · split at h
    · rename_i hboot
      exact stepped_of_fence h hquiet hstage hboot
    · obtain rfl := Option.some.inj h
      exact .moved hquiet hstage trivial

private theorem stepped_of_receive {type : MessageType} {payload : Bytes}
    (h : s.receive type payload = some t) (hstage : s.thread.stage.isLeaving = false) :
    Stepped s (.receive type payload) t := by
  rw [receive] at h
  split at h
  · rename_i htype
    subst htype
    split at h
    · rename_i boot rest hread
      obtain rfl := Option.some.inj h
      exact .registering hstage (by rw [ServiceAction.boot?, hread])
    · rename_i e hread
      refine stepped_of_caught h ?_ hstage
      change Option.isNone _ = true
      rw [ServiceAction.boot?, hread]
      rfl
  · rename_i htype
    have hquiet : (ServiceAction.receive type payload).isQuiet = true := by
      cases type with
      | register => exact absurd rfl htype
      | _ => rfl
    split at h
    · obtain ⟨coordinator, hn, rfl⟩ := Option.map_eq_some_iff.mp h
      exact .called hquiet hstage htype hn
    · obtain rfl := Option.some.inj h
      exact .moved hquiet hstage htype
    · exact stepped_of_caught h hquiet hstage

private theorem stepped_of_answer {type : MessageType} {call : Option Nat} {throws : Bool}
    (h : s.answer type throws = some t) (hstage : s.thread.stage = .handling type call) :
    Stepped s (.answer throws) t := by
  have hleaving : s.thread.stage.isLeaving = false := by
    rw [hstage]
    rfl
  unfold answer at h
  split at h
  · exact stepped_of_caught h rfl hleaving
  · rename_i hthrows
    obtain rfl := Bool.eq_false_of_not_eq_true hthrows
    cases type with
    | register =>
        obtain rfl := Option.some.inj h
        exact .acknowledged hstage
    | shutdown =>
        obtain rfl := Option.some.inj h
        exact .moved rfl hleaving nofun
    | _ =>
        obtain rfl := Option.some.inj h
        exact .moved rfl hleaving trivial

theorem stepped_of_step (h : s.step a = some t) : Stepped s a t := by
  have hreceiving : ∀ hstage : s.thread.stage = .receiving, s.thread.stage.isLeaving = false :=
    fun hstage => hstage ▸ rfl
  cases a with
  | shared a =>
      obtain ⟨coordinator, hn, rfl⟩ := Option.map_eq_some_iff.mp h
      exact .shared hn
  | receive type payload =>
      simp only [step] at h
      split at h
      · rename_i hstage
        exact stepped_of_receive h (hreceiving hstage)
      · cases h
  | answer throws =>
      simp only [step] at h
      split at h
      · rename_i hstage
        split at h
        · exact stepped_of_answer h hstage
        · cases h
      · cases h
  | lose =>
      simp only [step] at h
      split at h
      · rename_i hstage
        split at h
        · rename_i hboot
          exact stepped_of_fence h rfl (hreceiving hstage) hboot
        · rename_i hboot
          obtain rfl := Option.some.inj h
          exact .moved rfl (hreceiving hstage) fun _ => Bool.eq_false_of_not_eq_true hboot
      · cases h
  | stop =>
      simp only [step] at h
      split at h
      · rename_i hstage
        obtain rfl := Option.some.inj h
        exact .moved rfl (hreceiving hstage) nofun
      · cases h
  | leave =>
      simp only [step] at h
      split at h
      · rename_i hstage
        split at h
        · rename_i hended
          obtain rfl := Option.some.inj h
          exact .left hstage hended
        · cases h
      · cases h

/-- A step of the service is none or one step of its coordinator. -/
theorem Stepped.coordinator_step (h : Stepped s a t) : t.coordinator = s.coordinator ∨
    ∃ b, s.coordinator.step b = some t.coordinator := by
  cases h with
  | shared hn | called _ _ _ hn | fenced _ _ _ hn => exact Or.inr ⟨_, hn⟩
  | registering | acknowledged | moved | left => exact Or.inl rfl

end Service

end FabricScheduler
