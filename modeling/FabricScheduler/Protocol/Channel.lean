import FabricScheduler.Protocol.Frame

/-!
# Frames over a connection

A connection takes the bytes of a frame in as many portions as it likes and hands bytes over
in chunks that need not respect frames. Sending repeats until every byte is taken, receiving
until every byte is there, so that the frames received are the frames sent, and a frame
whose bytes stop coming is not received.
-/

namespace FabricScheduler

open Decoder

/-- What a call of `recv` finds: bytes that have arrived, or a failure. When nothing is
left the peer has closed the connection. -/
inductive Arrival
  | bytes (chunk : Bytes)
  | failure
  deriving DecidableEq, Repr

/-- How many of the bytes it is offered each call of `send` takes; none when it fails. -/
structure Connection where
  taken : Nat → Nat → Option Nat
  taken_le : ∀ {call offered n}, taken call offered = some n → n ≤ offered

/-- Every call takes at least one of the bytes it is offered. -/
def Connection.Reliable (t : Connection) : Prop :=
  ∀ call offered, 0 < offered → ∃ n, 0 < n ∧ t.taken call offered = some n

/-- `TcpChannel`: whether its socket is open, the calls of `send` made and the bytes they
have put on the wire, and what is yet to arrive. -/
structure TcpChannel where
  valid : Bool
  calls : Nat
  wire : Bytes
  arrivals : List Arrival
  deriving DecidableEq, Repr

/-- An operation of a channel; a channel is not used again after an error. -/
abbrev ChannelM (α : Type) := StateT TcpChannel (Except FabricError) α

/-- The loop of `TcpChannel::send_all`. -/
def sendLoop (t : Connection) (data : Bytes) (c : TcpChannel) :
    Except FabricError (Unit × TcpChannel) :=
  if data = [] then .ok ((), c)
  else
    match t.taken c.calls data.length with
    | none => fail .protocolError "send failed"
    | some 0 => fail .protocolError "send returned 0"
    | some (n + 1) =>
        sendLoop t (data.drop (n + 1))
          { c with calls := c.calls + 1, wire := c.wire ++ data.take (n + 1) }
termination_by data.length
decreasing_by
  have hpos := List.length_pos_iff.mpr ‹data ≠ []›
  rw [List.length_drop]
  omega

/-- `TcpChannel::send_all`. -/
def sendAll (t : Connection) (data : Bytes) : ChannelM Unit := fun c =>
  if c.valid then sendLoop t data c
  else fail .protocolError "send on closed socket"

/-- The loop of `TcpChannel::recv_exact`, from the bytes still missing; nothing when the
connection is closed before they are there. -/
def recvLoop : Nat → List Arrival → Except FabricError (Option Bytes × List Arrival)
  | 0, arrivals => .ok (some [], arrivals)
  | _ + 1, [] => .ok (none, [])
  | _ + 1, .failure :: _ => fail .protocolError "recv failed"
  | _ + 1, .bytes [] :: rest => .ok (none, rest)
  | n + 1, .bytes (b :: chunk) :: rest =>
      if n < chunk.length then
        .ok (some (b :: chunk.take n), .bytes (chunk.drop n) :: rest)
      else
        match recvLoop (n - chunk.length) rest with
        | .ok (some more, rest) => .ok (some (b :: chunk ++ more), rest)
        | .ok (none, rest) => .ok (none, rest)
        | .error e => .error e

/-- `TcpChannel::recv_exact`. -/
def recvExact (n : Nat) : ChannelM (Option Bytes) := fun c =>
  if c.valid then
    match recvLoop n c.arrivals with
    | .ok (data, arrivals) => .ok (data, { c with arrivals })
    | .error e => .error e
  else fail .protocolError "recv on closed socket"

/-- The bytes of `recv_exact`, or the error of a caller that does not get them. -/
def recvOr (short : FabricError) (n : Nat) : ChannelM Bytes := do
  match ← recvExact n with
  | some data => return data
  | none => throw short

/-- `TcpChannel::send_frame`. -/
def sendFrame (t : Connection) (type : MessageType) (payload : Bytes) (flags : UInt8) :
    ChannelM Unit := do
  let frame ← encodeFrame type payload flags
  sendAll t frame

/-- The payload of a frame; nothing is received when there is none. -/
def recvPayload (payloadLen : UInt32) : ChannelM Bytes :=
  if 0 < payloadLen.toNat then
    recvOr ⟨.truncation, text "payload truncated"⟩ payloadLen.toNat
  else pure []

/-- `TcpChannel::recv_frame`. -/
def recvFrame : ChannelM (MessageType × Bytes) := do
  let hdr ← recvOr ⟨.protocolError, text "connection closed during header"⟩ frameHeaderSize
  let (h, _) ← (parseHeader hdr : Except _ _)
  let payload ← recvPayload h.payloadLen
  let digest ← recvOr ⟨.truncation, text "digest truncated"⟩ 8
  (checkDigest hdr payload digest : Except _ _)
  return (h.type, payload)

/-- A message as the caller of `send_frame` gives it. -/
structure Message where
  type : MessageType
  payload : Bytes
  flags : UInt8
  deriving DecidableEq, Repr

/-- Successive calls of `send_frame`. -/
def sendFrames (t : Connection) : List Message → ChannelM Unit
  | [] => return ()
  | m :: rest => do
      sendFrame t m.type m.payload m.flags
      sendFrames t rest

/-- Successive calls of `recv_frame`. -/
def recvFrames : Nat → ChannelM (List (MessageType × Bytes))
  | 0 => return []
  | n + 1 => do
      let m ← recvFrame
      let rest ← recvFrames n
      return m :: rest

section Receiving

variable {tail : List Arrival}

/-- The arrivals hand over these bytes in non-empty chunks, and then what is in the tail. -/
inductive Delivers (tail : List Arrival) : List Arrival → Bytes → Prop
  | done : Delivers tail tail []
  | chunk {b : UInt8} {chunk : Bytes} {arrivals : List Arrival} {bytes : Bytes} :
      Delivers tail arrivals bytes →
      Delivers tail (.bytes (b :: chunk) :: arrivals) (b :: chunk ++ bytes)

/-- The peer has closed the connection, or it has failed. -/
def Ended (tail : List Arrival) : Prop := tail = [] ∨ ∃ rest, tail = .failure :: rest

theorem Delivers.cons {arrivals : List Arrival} {bytes chunk : Bytes} (hne : chunk ≠ [])
    (h : Delivers tail arrivals bytes) :
    Delivers tail (.bytes chunk :: arrivals) (chunk ++ bytes) := by
  obtain ⟨b, chunk, rfl⟩ := List.exists_cons_of_ne_nil hne
  exact .chunk h

/-- However the bytes are cut into non-empty chunks, they are delivered. -/
theorem delivers_of_chunks {chunks : List Bytes} (h : ∀ chunk ∈ chunks, chunk ≠ []) :
    Delivers tail (chunks.map .bytes ++ tail) chunks.flatten := by
  induction chunks with
  | nil => exact .done
  | cons chunk chunks ih =>
      rw [List.forall_mem_cons] at h
      exact (ih h.2).cons h.1

/-- As many bytes as are there are received. -/
theorem Delivers.received {arrivals : List Arrival} {total : Bytes}
    (h : Delivers tail arrivals total) {n : Nat} (hn : n ≤ total.length) :
    ∃ rest, recvLoop n arrivals = .ok (some (total.take n), rest) ∧
      Delivers tail rest (total.drop n) := by
  induction h generalizing n with
  | done =>
      obtain rfl : n = 0 := by simpa using hn
      exact ⟨tail, by rw [recvLoop, List.take_zero], .done⟩
  | @chunk b chunk arrivals bytes h ih =>
      cases n with
      | zero => exact ⟨_, by rw [recvLoop, List.take_zero], .chunk h⟩
      | succ n =>
          rw [recvLoop]
          split
          · rename_i hlt
            have hne : chunk.drop n ≠ [] := by
              intro hnil
              have hlen := congrArg List.length hnil
              rw [List.length_drop, List.length_nil] at hlen
              omega
            refine ⟨.bytes (chunk.drop n) :: arrivals, ?_, ?_⟩
            · simp [List.take_append_of_le_length hlt.le]
            · simpa [List.drop_append_of_le_length hlt.le] using h.cons hne
          · rename_i hge
            have hle : n - chunk.length ≤ bytes.length := by
              rw [List.length_append, List.length_cons] at hn
              omega
            obtain ⟨rest, hloop, hrest⟩ := ih hle
            rw [hloop]
            refine ⟨rest, ?_, ?_⟩
            · simp [List.take_append, List.take_of_length_le (Nat.le_of_not_lt hge)]
            · simpa [List.drop_append, List.drop_eq_nil_of_le (Nat.le_of_not_lt hge)] using hrest

/-- Missing bytes are not received. -/
theorem Delivers.missing {arrivals : List Arrival} {total : Bytes}
    (h : Delivers tail arrivals total) (htail : Ended tail) {n : Nat} (hn : total.length < n) :
    (∃ rest, recvLoop n arrivals = .ok (none, rest)) ∨
      ∃ e, recvLoop n arrivals = .error e := by
  induction h generalizing n with
  | done =>
      obtain ⟨m, rfl⟩ := Nat.exists_eq_succ_of_ne_zero (Nat.ne_zero_of_lt hn)
      rcases htail with rfl | ⟨rest, rfl⟩
      · exact .inl ⟨[], rfl⟩
      · exact .inr ⟨_, rfl⟩
  | @chunk b chunk arrivals bytes h ih =>
      rw [List.length_append, List.length_cons] at hn
      obtain ⟨m, rfl⟩ := Nat.exists_eq_succ_of_ne_zero (Nat.ne_zero_of_lt hn)
      rw [recvLoop, if_neg (by omega)]
      rcases ih (by omega : bytes.length < m - chunk.length) with ⟨rest, hloop⟩ | ⟨e, hloop⟩
      · exact .inl ⟨rest, by rw [hloop]⟩
      · exact .inr ⟨e, by rw [hloop]⟩

/-- The channel is open and these bytes are delivered to it. -/
def Receives (tail : List Arrival) (bytes : Bytes) (c : TcpChannel) : Prop :=
  c.valid = true ∧ Delivers tail c.arrivals bytes

theorem follows_recvOr (htail : Ended tail) (short : FabricError) (n : Nat) :
    Follows (Receives tail) (recvOr short n) (exactly short n) := by
  rintro bytes c ⟨hvalid, hbytes⟩
  have hrun : recvOr short n c = (match recvLoop n c.arrivals with
      | .ok (some data, arrivals) => .ok (data, { c with arrivals })
      | .ok (none, _) => .error short
      | .error e => .error e) := by
    change ((recvExact n c).bind fun p => _) = _
    rw [recvExact, if_pos hvalid]
    rcases recvLoop n c.arrivals with e | ⟨_ | data, arrivals⟩ <;> rfl
  rw [exactly, hrun]
  split
  · rename_i hshort
    refine ⟨fun a rest h => (by cases h), fun e _ => ?_⟩
    rcases hbytes.missing htail hshort with ⟨rest, hloop⟩ | ⟨e', hloop⟩
    · exact ⟨short, by rw [hloop]⟩
    · exact ⟨e', by rw [hloop]⟩
  · rename_i hle
    obtain ⟨arrivals, hloop, hrest⟩ := hbytes.received (Nat.le_of_not_lt hle)
    refine ⟨fun a rest h => ?_, fun e h => (by cases h)⟩
    cases h
    exact ⟨{ c with arrivals }, by rw [hloop], hvalid, hrest⟩

theorem follows_recvPayload (htail : Ended tail) (len : UInt32) :
    Follows (Receives tail) (recvPayload len)
      (exactly ⟨.truncation, text "payload truncated"⟩ len.toNat) := by
  rw [recvPayload]
  split
  · exact follows_recvOr htail _ _
  · rename_i hzero
    have hexactly : exactly ⟨.truncation, text "payload truncated"⟩ len.toNat =
        (pure [] : ByteReader Bytes) := by
      funext s
      rw [Nat.eq_zero_of_not_pos hzero]
      rfl
    rw [hexactly]
    exact follows_pure []

/-- Receiving a frame is reading it off the bytes that are delivered. -/
theorem follows_recvFrame (htail : Ended tail) :
    Follows (Receives tail) recvFrame readFrame := by
  refine (follows_recvOr htail _ _).bind fun hdr => ?_
  refine (follows_lift (parseHeader hdr)).bind ?_
  rintro ⟨h, _⟩
  refine (follows_recvPayload htail _).bind fun payload => ?_
  refine (follows_recvOr htail _ _).bind fun digest => ?_
  exact (follows_lift (checkDigest hdr payload digest)).bind fun _ => follows_pure _

theorem follows_recvFrames (htail : Ended tail) (n : Nat) :
    Follows (Receives tail) (recvFrames n) (many readFrame n) := by
  induction n with
  | zero => exact follows_pure []
  | succ n ih =>
      exact (follows_recvFrame htail).bind fun m => ih.bind fun rest => follows_pure (m :: rest)

end Receiving

section Sending

variable {t : Connection}

/-- A reliable connection takes every byte it is offered, in order. -/
theorem sendLoop_ok (ht : t.Reliable) (data : Bytes) (c : TcpChannel) :
    ∃ calls, sendLoop t data c = .ok ((), { c with calls, wire := c.wire ++ data }) := by
  fun_induction sendLoop t data c with
  | case1 c => exact ⟨c.calls, by rw [List.append_nil]⟩
  | case2 data c hne hnone =>
      obtain ⟨n, _, hn⟩ := ht c.calls data.length (List.length_pos_iff.mpr hne)
      rw [hn] at hnone
      cases hnone
  | case3 data c hne hzero =>
      obtain ⟨n, hpos, hn⟩ := ht c.calls data.length (List.length_pos_iff.mpr hne)
      rw [hn, Option.some.injEq] at hzero
      omega
  | case4 data c hne n hn ih =>
      obtain ⟨calls, hsend⟩ := ih
      rw [hsend]
      exact ⟨calls, by rw [List.append_assoc, List.take_append_drop]⟩

/-- The bytes of a message on the wire. -/
def Message.frame (m : Message) : Bytes := frameBytes m.type m.flags 0 m.payload

/-- Sending messages puts their frames on the wire, one after the other. -/
theorem sendFrames_ok (ht : t.Reliable) {messages : List Message}
    (hbound : ∀ m ∈ messages, m.payload.length ≤ maxFramePayload) {c : TcpChannel}
    (hvalid : c.valid = true) :
    ∃ calls, sendFrames t messages c =
      .ok ((), { c with calls, wire := c.wire ++ messages.flatMap Message.frame }) := by
  induction messages generalizing c with
  | nil => exact ⟨c.calls, by rw [List.flatMap_nil, List.append_nil]; rfl⟩
  | cons m rest ih =>
      rw [List.forall_mem_cons] at hbound
      obtain ⟨calls, hsend⟩ := sendLoop_ok ht m.frame c
      have hframe : sendFrame t m.type m.payload m.flags c =
          .ok ((), { c with calls, wire := c.wire ++ m.frame }) := by
        rw [← hsend]
        change ((StateT.lift (encodeFrame m.type m.payload m.flags)) c).bind _ = _
        rw [encodeFrame_ok.mpr ⟨hbound.1, rfl⟩]
        exact if_pos hvalid
      obtain ⟨calls', hrest⟩ := @ih hbound.2 { c with calls, wire := c.wire ++ m.frame } hvalid
      refine ⟨calls', ?_⟩
      change (sendFrame t m.type m.payload m.flags c).bind _ = _
      rw [hframe, List.flatMap_cons, ← List.append_assoc]
      exact hrest

end Sending

/-- Open, with these bytes arriving in the given chunks and nothing else before the tail. -/
theorem receives_of_chunks {tail : List Arrival} {chunks : List Bytes} {bytes : Bytes}
    {c : TcpChannel} (hvalid : c.valid = true) (hchunks : ∀ chunk ∈ chunks, chunk ≠ [])
    (hbytes : chunks.flatten = bytes) (harrivals : c.arrivals = chunks.map .bytes ++ tail) :
    Receives tail bytes c := by
  refine ⟨hvalid, ?_⟩
  rw [harrivals, ← hbytes]
  exact delivers_of_chunks hchunks

/-- Reading the messages back off the bytes of their frames. -/
theorem reads_messages {messages : List Message}
    (hbound : ∀ m ∈ messages, m.payload.length ≤ maxFramePayload) :
    (many readFrame messages.length).Reads (messages.flatMap Message.frame)
      (messages.map fun m => (m.type, m.payload)) :=
  reads_many _ fun m hm => reads_readFrame (hbound m hm) m.type m.flags 0

/-- Messages sent one after the other are received as they were sent, whatever portions the
bytes are sent in and whatever non-empty chunks they arrive in, and nothing is left over.
When the stream is cut inside a frame, the messages before it are received and the call that
reads that frame fails. -/
theorem recvFrames_sendFrames {t : Connection} (ht : t.Reliable) {messages : List Message}
    (hbound : ∀ m ∈ messages, m.payload.length ≤ maxFramePayload) {sender : TcpChannel}
    (hsender : sender.valid = true) :
    (∃ sender', sendFrames t messages sender = .ok ((), sender') ∧
      sender'.wire = sender.wire ++ messages.flatMap Message.frame) ∧
    (∀ (chunks : List Bytes) (receiver : TcpChannel), receiver.valid = true →
      (∀ chunk ∈ chunks, chunk ≠ []) → chunks.flatten = messages.flatMap Message.frame →
      receiver.arrivals = chunks.map .bytes →
      ∃ receiver', recvFrames messages.length receiver =
          .ok (messages.map fun m => (m.type, m.payload), receiver') ∧
        receiver'.arrivals = []) ∧
    ∀ (before : List Message) (m : Message) (after : List Message) (n : Nat)
      (chunks : List Bytes) (tail : List Arrival) (receiver : TcpChannel),
      messages = before ++ m :: after → n < m.frame.length → receiver.valid = true →
      (∀ chunk ∈ chunks, chunk ≠ []) →
      chunks.flatten = before.flatMap Message.frame ++ m.frame.take n → Ended tail →
      receiver.arrivals = chunks.map .bytes ++ tail →
      ∃ receiver' e, recvFrames before.length receiver =
          .ok (before.map fun m => (m.type, m.payload), receiver') ∧
        recvFrame receiver' = .error e := by
  refine ⟨?_, ?_, ?_⟩
  · obtain ⟨calls, hsend⟩ := sendFrames_ok ht hbound hsender
    exact ⟨_, hsend, rfl⟩
  · intro chunks receiver hvalid hchunks hbytes harrivals
    have hreceives : Receives [] (messages.flatMap Message.frame) receiver :=
      receives_of_chunks hvalid hchunks hbytes (by rw [harrivals, List.append_nil])
    obtain ⟨receiver', hrecv, _, hrest⟩ := (follows_recvFrames (.inl rfl) messages.length
      _ _ hreceives).1 _ _ (reads_messages hbound).run
    refine ⟨receiver', hrecv, ?_⟩
    cases harr : receiver'.arrivals with
    | nil => rfl
    | cons a arrivals =>
        rw [harr] at hrest
        cases hrest
  · rintro before m after n chunks tail receiver rfl hn hvalid hchunks hbytes htail harrivals
    rw [List.forall_mem_append, List.forall_mem_cons] at hbound
    obtain ⟨hbefore, hm, _⟩ := hbound
    have hreceives := receives_of_chunks hvalid hchunks hbytes harrivals
    obtain ⟨receiver', hrecv, hrest⟩ := (follows_recvFrames htail before.length _ _
      hreceives).1 _ _ (reads_messages hbefore _)
    obtain ⟨e, hcut⟩ := readFrame_cut hm hn
    obtain ⟨e', hfail⟩ := (follows_recvFrame htail _ _ hrest).2 e hcut
    exact ⟨receiver', e', hrecv, hfail⟩

/-- The connection that takes one byte at a time. -/
def Connection.bytewise : Connection where
  taken := fun _ offered => some (min 1 offered)
  taken_le := by
    intro call offered n h
    cases h
    exact Nat.min_le_right 1 offered

theorem recvFrames_sendFrames_bytewise :
    ∃ receiver', recvFrames 2 ⟨true, 0, [],
        ((frameBytes .hello 0 0 [] ++ frameBytes .save 0 0 [7]).map fun b => [b]).map .bytes⟩ =
      .ok ([(.hello, []), (.save, [7])], receiver') ∧ receiver'.arrivals = [] := by
  have hreliable : Connection.bytewise.Reliable := fun call offered hpos =>
    ⟨1, Nat.one_pos, congrArg some (Nat.min_eq_left hpos)⟩
  refine (@recvFrames_sendFrames .bytewise hreliable [⟨.hello, [], 0⟩, ⟨.save, [7], 0⟩]
    (by decide) ⟨true, 0, [], []⟩ rfl).2.1 _ _ rfl ?_ ?_ rfl
  · intro chunk hchunk
    obtain ⟨b, _, rfl⟩ := List.mem_map.mp hchunk
    exact List.cons_ne_nil b []
  · rw [← List.flatMap_def, List.flatMap_singleton']
    simp [Message.frame]

end FabricScheduler
