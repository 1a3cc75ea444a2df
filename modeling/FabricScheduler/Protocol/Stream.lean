import FabricScheduler.Protocol.Channel

/-!
# What a stream of bytes says

Any bytes are frames and a rest that no frame stands in front of, in one way only. Whoever
receives the bytes receives these frames, in whatever chunks the bytes arrive, and nothing
after them.
-/

namespace FabricScheduler

open Decoder

/-- The bytes are the frames of these messages, with any flags and any reserved byte, and then
bytes that no frame stands in front of. -/
inductive Framed : List (MessageType × Bytes) → Bytes → Prop
  | rest {bytes : Bytes} (h : ∀ (type : MessageType) (flags reserved : UInt8)
      (payload after : Bytes), payload.length ≤ maxFramePayload →
      bytes ≠ frameBytes type flags reserved payload ++ after) : Framed [] bytes
  | frame {messages : List (MessageType × Bytes)} {after payload : Bytes} (type : MessageType)
      (flags reserved : UInt8) (hle : payload.length ≤ maxFramePayload)
      (h : Framed messages after) :
      Framed ((type, payload) :: messages) (frameBytes type flags reserved payload ++ after)

section Stream

variable {messages : List (MessageType × Bytes)} {bytes : Bytes} {tail : List Arrival}
  {receiver : TcpChannel}

/-- A frame that is read takes bytes. -/
theorem readFrame_shortens {s rest : Bytes} {m : MessageType × Bytes}
    (h : readFrame s = .ok (m, rest)) : rest.length < s.length := by
  obtain ⟨_, flags, reserved, rfl⟩ := readFrame_ok.mp h
  rw [frameBytes_eq, List.length_append, List.length_append, length_putU32]
  omega

/-- The frames of a stream are what is read off it one after the other. -/
theorem framed_iff_splits : Framed messages bytes ↔ ∃ last, Splits readFrame bytes messages last := by
  constructor
  · intro h
    induction h with
    | @rest bytes h =>
        cases hread : readFrame bytes with
        | error e => exact ⟨bytes, .stop hread⟩
        | ok p =>
            obtain ⟨hle, flags, reserved, heq⟩ := readFrame_ok.mp hread
            exact absurd heq (h p.1.1 flags reserved p.1.2 p.2 hle)
    | frame type flags reserved hle _ ih =>
        obtain ⟨last, hsplits⟩ := ih
        exact ⟨last, .next (readFrame_ok.mpr ⟨hle, flags, reserved, rfl⟩) hsplits⟩
  · rintro ⟨last, hsplits⟩
    induction hsplits with
    | stop hread =>
        refine .rest fun type flags reserved payload after hle heq => ?_
        rw [readFrame_ok.mpr ⟨hle, flags, reserved, heq⟩] at hread
        cases hread
    | next hread _ ih =>
        obtain ⟨hle, flags, reserved, rfl⟩ := readFrame_ok.mp hread
        exact .frame _ flags reserved hle ih

/-- The frames of a stream are received, and nothing after them. -/
theorem Receives.framed (h : Receives tail bytes receiver) (htail : Ended tail)
    (hframed : Framed messages bytes) (n : Nat) :
    (n ≤ messages.length → ∃ receiver', recvFrames n receiver = .ok (messages.take n, receiver')) ∧
      (messages.length < n → ∃ e, recvFrames n receiver = .error e) := by
  obtain ⟨last, hsplits⟩ := framed_iff_splits.mp hframed
  have hfollows := follows_recvFrames htail n bytes receiver h
  constructor
  · intro hn
    obtain ⟨rest, hmany, _⟩ := hsplits.many_ok hn
    obtain ⟨receiver', hrecv, _⟩ := hfollows.1 _ _ hmany
    exact ⟨receiver', hrecv⟩
  · intro hn
    obtain ⟨e, hmany⟩ := hsplits.many_error hn
    exact hfollows.2 e hmany

/-- Whatever bytes arrive before a connection ends, they are frames and a rest in one way only,
and whatever chunks they arrive in, these frames are received in their order and nothing after
them. -/
theorem stream_received (bytes : Bytes) : ∃ messages, Framed messages bytes ∧
    (∀ messages', Framed messages' bytes → messages' = messages) ∧
    ∀ (chunks : List Bytes) (tail : List Arrival) (receiver : TcpChannel),
      (∀ chunk ∈ chunks, chunk ≠ []) → chunks.flatten = bytes → Ended tail →
      receiver.valid = true → receiver.arrivals = chunks.map .bytes ++ tail → ∀ n,
        (n ≤ messages.length →
          ∃ receiver', recvFrames n receiver = .ok (messages.take n, receiver')) ∧
        (messages.length < n → ∃ e, recvFrames n receiver = .error e) := by
  obtain ⟨messages, last, hsplits⟩ := exists_splits (fun _ _ _ => readFrame_shortens) bytes
  refine ⟨messages, framed_iff_splits.mpr ⟨last, hsplits⟩, ?_, ?_⟩
  · intro messages' hframed
    obtain ⟨last', hsplits'⟩ := framed_iff_splits.mp hframed
    exact (hsplits'.unique hsplits).1
  · intro chunks tail receiver hchunks hbytes htail hvalid harrivals n
    have hreceives := receives_of_chunks hvalid hchunks hbytes harrivals
    exact hreceives.framed htail (framed_iff_splits.mpr ⟨last, hsplits⟩) n

end Stream

end FabricScheduler
