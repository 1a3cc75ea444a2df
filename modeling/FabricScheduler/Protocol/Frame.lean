import FabricScheduler.Persistence.File

/-!
# Frames

A frame is a header with the type and the length of its payload, the payload, and the
digest of both from the fifth byte on. A frame that was written is read back, and a frame
that differs from a written one in a byte other than those of the length is refused.
-/

namespace FabricScheduler

open Decoder

/-- `kFrameMagic`. -/
def frameMagic : UInt32 := 0x46414252

/-- `kFrameVersion`. -/
def frameVersion : UInt8 := 1

/-- `kFrameHeaderSize`. -/
def frameHeaderSize : Nat := 12

/-- `kMaxFramePayload`. -/
def maxFramePayload : Nat := 16 * 2 ^ 20

/-- The messages of the coordinator protocol. -/
inductive MessageType
  | hello | register | publishResource | publishTopology | publishCapacity
  | publishReservationView | publishCongestion | publishHealth | submitWorkload
  | queryPlacement | placementPlan | commitRequest | commitResult | revalidate | supersede
  | cancel | executionHandoff | executionResult | save | shutdown | error | execute
  deriving DecidableEq, Repr

instance : Enumeration MessageType where
  all := [.hello, .register, .publishResource, .publishTopology, .publishCapacity,
    .publishReservationView, .publishCongestion, .publishHealth, .submitWorkload,
    .queryPlacement, .placementPlan, .commitRequest, .commitResult, .revalidate, .supersede,
    .cancel, .executionHandoff, .executionResult, .save, .shutdown, .error, .execute]
  nodup := by decide
  complete a := by cases a <;> decide

/-- What a header says of its frame. -/
structure FrameHeader where
  type : MessageType
  payloadLen : UInt32
  flags : UInt8
  deriving DecidableEq, Repr

/-- The bytes of a header. -/
def frameHeader (h : FrameHeader) (reserved : UInt8) : Bytes :=
  [putU32 frameMagic, putU8 frameVersion, putEnum h.type, putU8 h.flags, putU8 reserved,
    putU32 h.payloadLen].flatten

/-- The header, the payload and the digest of both from the fifth byte on. -/
def frameBytes (type : MessageType) (flags reserved : UInt8) (payload : Bytes) : Bytes :=
  let out := frameHeader ⟨type, UInt32.ofNat payload.length, flags⟩ reserved ++ payload
  out ++ putU64 (fnv1a64Digest (out.drop 4))

/-- `FrameCodec::encode_frame`. -/
def encodeFrame (type : MessageType) (payload : Bytes) (flags : UInt8) :
    Except FabricError Bytes :=
  if maxFramePayload < payload.length then
    fail .oversizedFrame "frame payload exceeds bound"
  else .ok (frameBytes type flags 0 payload)

/-- `FrameCodec::check_payload_length`. -/
def checkPayloadLength (len : UInt32) : Except FabricError Unit :=
  if maxFramePayload < len.toNat then fail .oversizedFrame "frame payload exceeds bound"
  else .ok ()

/-- `FrameCodec::parse_header`, as the reader of the header's bytes. -/
def parseHeader : ByteReader FrameHeader := do
  let magic ← getU32
  ensure (magic = frameMagic) ⟨.malformedFrame, text "bad frame magic"⟩
  let version ← getU8
  ensure (version = frameVersion) ⟨.unsupportedVersion, text "unsupported frame version"⟩
  let code ← getU8
  let type ← known (Enumeration.ofCode? code.toNat)
    ⟨.malformedFrame, text "invalid message type"⟩
  let flags ← getU8
  let _reserved ← getU8
  let payloadLen ← getU32
  check (checkPayloadLength payloadLen)
  return { type, payloadLen, flags }

/-- `FrameCodec::check_digest`. -/
def checkDigest (header12 payload digest8 : Bytes) : Except FabricError Unit :=
  match getU64 digest8 with
  | .ok (stored, _) =>
      if fnv1a64Digest (header12.drop 4 ++ payload) = stored then .ok ()
      else fail .checksumMismatch "frame checksum mismatch"
  | .error e => .error e

/-- One frame off the bytes of a stream: the header, then as much payload as it says, then
the digest of both. -/
def readFrame : ByteReader (MessageType × Bytes) := do
  let hdr ← exactly ⟨.protocolError, text "connection closed during header"⟩ frameHeaderSize
  let (h, _) ← check (parseHeader hdr)
  let payload ← exactly ⟨.truncation, text "payload truncated"⟩ h.payloadLen.toNat
  let digest ← exactly ⟨.truncation, text "digest truncated"⟩ 8
  check (checkDigest hdr payload digest)
  return (h.type, payload)

@[simp] theorem length_frameHeader (h : FrameHeader) (reserved : UInt8) :
    (frameHeader h reserved).length = frameHeaderSize := by
  simp [frameHeader, putEnum, putU8, frameHeaderSize]

/-- The part of a frame that its digest covers starts with the version. -/
theorem drop_frameHeader (h : FrameHeader) (reserved : UInt8) (payload : Bytes) :
    (frameHeader h reserved ++ payload).drop 4 = (frameHeader h reserved).drop 4 ++ payload := by
  apply List.drop_append_of_le_length
  rw [length_frameHeader]
  decide

theorem toNat_payloadLen {payload : Bytes} (h : payload.length ≤ maxFramePayload) :
    (UInt32.ofNat payload.length).toNat = payload.length := by
  have hmax : maxFramePayload < 2 ^ 32 := by decide
  rw [UInt32.toNat_ofNat']
  exact Nat.mod_eq_of_lt (by omega)

/-- A header is accepted exactly when it is the header of a bounded payload, whatever its
reserved byte. -/
theorem parseHeader_ok {s rest : Bytes} {h : FrameHeader} :
    parseHeader s = .ok (h, rest) ↔
      h.payloadLen.toNat ≤ maxFramePayload ∧ ∃ reserved, s = frameHeader h reserved ++ rest := by
  simp only [parseHeader, bind_ok, ensure_ok, known_ok, check_ok, pure_ok, getU8_ok, getU32_ok]
  constructor
  · rintro ⟨magic, _, rfl, _, _, ⟨rfl, rfl⟩, version, _, rfl, _, _, ⟨rfl, rfl⟩, code, _, rfl,
      type, _, ⟨htype, rfl⟩, flags, _, rfl, reserved, _, rfl, len, _, rfl, _, _, ⟨hlen, rfl⟩,
      rfl, rfl⟩
    have henum : putEnum type = putU8 code := by
      rw [putEnum, Enumeration.code_of_ofCode? htype, UInt8.ofNat_toNat]
    have hle : ¬maxFramePayload < len.toNat := by
      intro hlt
      rw [checkPayloadLength, if_pos hlt] at hlen
      cases hlen
    exact ⟨Nat.le_of_not_lt hle, reserved, by simp [frameHeader, henum]⟩
  · rintro ⟨hle, reserved, rfl⟩
    have hcode := (Enumeration.code_lt h.type).trans (by decide : _ < 256)
    have htype : Enumeration.ofCode? (UInt8.ofNat (Enumeration.code h.type)).toNat =
        some h.type := by
      rw [UInt8.toNat_ofNat', Nat.mod_eq_of_lt hcode, Enumeration.ofCode?_code]
    have hlen : checkPayloadLength h.payloadLen = .ok () := if_neg (Nat.not_lt.mpr hle)
    refine ⟨_, _, ?_, (), _, ⟨rfl, rfl⟩, _, _, rfl, (), _, ⟨rfl, rfl⟩, _, _, rfl, h.type, _,
      ⟨htype, rfl⟩, h.flags, _, rfl, reserved, _, rfl, h.payloadLen, _, rfl, (), _,
      ⟨hlen, rfl⟩, rfl, rfl⟩
    simp [frameHeader, putEnum]

/-- A digest is accepted exactly when it starts with the digest of the header's part and
the payload. -/
theorem checkDigest_ok {hdr payload digest : Bytes} :
    checkDigest hdr payload digest = .ok () ↔
      ∃ rest, digest = putU64 (fnv1a64Digest (hdr.drop 4 ++ payload)) ++ rest := by
  constructor
  · intro hcheck
    rw [checkDigest] at hcheck
    split at hcheck
    · rename_i stored rest hstored
      split at hcheck
      · rename_i heq
        exact ⟨rest, heq ▸ getU64_ok.mp hstored⟩
      · cases hcheck
    · cases hcheck
  · rintro ⟨rest, rfl⟩
    rw [checkDigest, reads_getU64 _ rest]
    exact if_pos rfl

theorem encodeFrame_ok {type : MessageType} {payload frame : Bytes} {flags : UInt8} :
    encodeFrame type payload flags = .ok frame ↔
      payload.length ≤ maxFramePayload ∧ frame = frameBytes type flags 0 payload := by
  rw [encodeFrame]
  split
  · rename_i hlt
    constructor
    · intro h
      cases h
    · intro h
      omega
  · rename_i hle
    constructor
    · intro h
      cases h
      exact ⟨Nat.le_of_not_lt hle, rfl⟩
    · rintro ⟨_, rfl⟩
      rfl

/-- A frame is read exactly when it stands in front of the stream, with any reserved
byte. -/
theorem readFrame_ok {s rest payload : Bytes} {type : MessageType} :
    readFrame s = .ok ((type, payload), rest) ↔ payload.length ≤ maxFramePayload ∧
      ∃ flags reserved, s = frameBytes type flags reserved payload ++ rest := by
  simp only [readFrame, bind_ok, exactly_ok, check_ok, pure_ok, Prod.mk.injEq]
  constructor
  · rintro ⟨hdr, _, ⟨rfl, hhdr⟩, ⟨h, more⟩, _, ⟨hparse, rfl⟩, body, _, ⟨rfl, hbody⟩, digest, _,
      ⟨rfl, hdigest⟩, _, _, ⟨hcheck, rfl⟩, ⟨rfl, rfl⟩, rfl⟩
    obtain ⟨hle, reserved, rfl⟩ := parseHeader_ok.mp hparse
    obtain ⟨tail, rfl⟩ := checkDigest_ok.mp hcheck
    rw [List.length_append, length_frameHeader] at hhdr
    rw [List.length_append, length_putU64] at hdigest
    obtain rfl := List.length_eq_zero_iff.mp (by omega : more.length = 0)
    obtain rfl := List.length_eq_zero_iff.mp (by omega : tail.length = 0)
    have hlen : UInt32.ofNat body.length = h.payloadLen := by rw [hbody, UInt32.ofNat_toNat]
    refine ⟨hbody ▸ hle, h.flags, reserved, ?_⟩
    simp only [frameBytes, hlen, drop_frameHeader, List.append_assoc, List.append_nil]
  · rintro ⟨hle, flags, reserved, rfl⟩
    have hlen := toNat_payloadLen hle
    have hparse : parseHeader (frameHeader ⟨type, UInt32.ofNat payload.length, flags⟩ reserved) =
        .ok (⟨type, UInt32.ofNat payload.length, flags⟩, []) :=
      parseHeader_ok.mpr ⟨hlen.le.trans hle, reserved, (List.append_nil _).symm⟩
    refine ⟨_, _, ⟨?_, length_frameHeader _ reserved⟩, _, _, ⟨hparse, rfl⟩, payload, _,
      ⟨rfl, hlen.symm⟩, _, _, ⟨rfl, length_putU64 _⟩, (), _,
      ⟨checkDigest_ok.mpr ⟨[], (List.append_nil _).symm⟩, rfl⟩, ⟨rfl, rfl⟩, rfl⟩
    simp only [frameBytes, drop_frameHeader, List.append_assoc]

theorem reads_readFrame {payload : Bytes} (h : payload.length ≤ maxFramePayload)
    (type : MessageType) (flags reserved : UInt8) :
    readFrame.Reads (frameBytes type flags reserved payload) (type, payload) :=
  fun _ => readFrame_ok.mpr ⟨h, flags, reserved, rfl⟩

/-- A frame that was cut is not read. -/
theorem readFrame_cut {type : MessageType} {flags reserved : UInt8} {payload : Bytes} {n : Nat}
    (hle : payload.length ≤ maxFramePayload)
    (hn : n < (frameBytes type flags reserved payload).length) :
    ∃ e, readFrame ((frameBytes type flags reserved payload).take n) = .error e := by
  cases hread : readFrame ((frameBytes type flags reserved payload).take n) with
  | error e => exact ⟨e, rfl⟩
  | ok p =>
      obtain ⟨hle', flags', reserved', hcut⟩ := readFrame_ok.mp hread
      have hframe := List.take_append_drop n (frameBytes type flags reserved payload)
      rw [hcut, List.append_assoc] at hframe
      have hcut := readFrame_ok.mpr ⟨hle', flags', reserved', hframe.symm⟩
      rw [(reads_readFrame hle type flags reserved).run, Except.ok.injEq, Prod.mk.injEq] at hcut
      have hlen := congrArg List.length hcut.2
      rw [List.length_append, List.length_drop, List.length_nil] at hlen
      omega

section Tampering

variable {type type' : MessageType} {flags flags' reserved reserved' : UInt8}
  {payload payload' rest : Bytes}

/-- The part of a frame that its digest covers. -/
def digestSpan (type : MessageType) (flags reserved : UInt8) (payload : Bytes) : Bytes :=
  [putU8 frameVersion, putEnum type, putU8 flags, putU8 reserved].flatten ++
    (putU32 (UInt32.ofNat payload.length) ++ payload)

theorem length_digestSpan (type : MessageType) (flags reserved : UInt8) (payload : Bytes) :
    (digestSpan type flags reserved payload).length = 8 + payload.length := by
  simp [digestSpan, putEnum, putU8]
  omega

/-- A frame is its magic, the part its digest covers, and the digest. -/
theorem frameBytes_eq (type : MessageType) (flags reserved : UInt8) (payload : Bytes) :
    frameBytes type flags reserved payload = putU32 frameMagic ++
      (digestSpan type flags reserved payload ++
        putU64 (fnv1a64Digest (digestSpan type flags reserved payload))) := by
  have hout : frameHeader ⟨type, UInt32.ofNat payload.length, flags⟩ reserved ++ payload =
      putU32 frameMagic ++ digestSpan type flags reserved payload := by
    simp [frameHeader, digestSpan]
  rw [frameBytes, hout, List.drop_left' (length_putU32 _), List.append_assoc]

theorem length_frameBytes (type : MessageType) (flags reserved : UInt8) (payload : Bytes) :
    (frameBytes type flags reserved payload).length = 20 + payload.length := by
  simp only [frameBytes_eq, List.length_append, length_putU32, length_putU64, length_digestSpan]
  omega

theorem slice_span : ((frameBytes type flags reserved payload ++ rest).drop 4).take
    (8 + payload.length) = digestSpan type flags reserved payload := by
  rw [frameBytes_eq, List.append_assoc, List.drop_left' (length_putU32 _), List.append_assoc,
    List.take_left' (length_digestSpan ..)]

theorem slice_digest : ((frameBytes type flags reserved payload ++ rest).drop
    (12 + payload.length)).take 8 =
      putU64 (fnv1a64Digest (digestSpan type flags reserved payload)) := by
  have hlen : (putU32 frameMagic ++ digestSpan type flags reserved payload).length =
      12 + payload.length := by
    rw [List.length_append, length_digestSpan, length_putU32]
    omega
  rw [frameBytes_eq, ← List.append_assoc, List.append_assoc, List.drop_left' hlen,
    List.take_left' (length_putU64 _)]

theorem slice_length : ((frameBytes type flags reserved payload ++ rest).drop 8).take 4 =
    putU32 (UInt32.ofNat payload.length) := by
  have hlen : (putU32 frameMagic ++
      [putU8 frameVersion, putEnum type, putU8 flags, putU8 reserved].flatten).length = 8 := by
    simp [putEnum, putU8]
  rw [frameBytes_eq, digestSpan]
  simp only [List.append_assoc]
  rw [← List.append_assoc, List.drop_left' hlen, List.take_left' (length_putU32 _)]

/-- Frames that differ in exactly one byte, which is none of their length, are not both
well formed. -/
theorem not_differsAt_frameBytes {i : Nat} (hle : payload.length ≤ maxFramePayload)
    (hle' : payload'.length ≤ maxFramePayload) (hi : ¬(8 ≤ i ∧ i < 8 + 4)) :
    ¬DiffersAt i (frameBytes type flags reserved payload)
      (frameBytes type' flags' reserved' payload' ++ rest) := by
  intro h
  have hcount := h.slice_eq hi
  rw [← List.append_nil (frameBytes type flags reserved payload)] at h hcount
  rw [slice_length, slice_length] at hcount
  have hlen : payload.length = payload'.length := by
    rw [← toNat_payloadLen hle, ← toNat_payloadLen hle', putU32_injective hcount]
  have hrest : rest = [] := by
    have hlength := h.length
    rw [List.length_append, List.length_append, length_frameBytes, length_frameBytes,
      List.length_nil] at hlength
    exact List.length_eq_zero_iff.mp (by omega)
  subst hrest
  by_cases hspan : 4 ≤ i ∧ i < 4 + (8 + payload.length)
  · have hdigest : ¬(12 + payload.length ≤ i ∧ i < 12 + payload.length + 8) := by omega
    have hne := h.slice hspan
    have heq := h.slice_eq hdigest
    rw [hlen, slice_digest, ← hlen, slice_digest] at heq
    rw [slice_span, hlen, slice_span] at hne
    exact fnv1a64Digest_ne hne (putU64_injective heq)
  · have heq := h.slice_eq hspan
    rw [slice_span, hlen, slice_span] at heq
    apply h.differs
    rw [frameBytes_eq, frameBytes_eq, heq]

/-- The substitution of one byte of a frame, at a position that does not hold its length,
is detected; and the digest of any string changes with one byte. -/
theorem readFrame_altered :
    (∀ (i : Nat) (xs ys : Bytes), DiffersAt i xs ys → fnv1a64Digest xs ≠ fnv1a64Digest ys) ∧
    ∀ (type : MessageType) (payload : Bytes) (flags : UInt8) (frame altered : Bytes) (i : Nat),
      encodeFrame type payload flags = .ok frame → DiffersAt i frame altered →
      ¬(8 ≤ i ∧ i ≤ 11) → ∃ e, readFrame altered = .error e := by
  refine ⟨fun i xs ys h => fnv1a64Digest_ne h, ?_⟩
  intro type payload flags frame altered i hencode hdiffers hi
  obtain ⟨hle, rfl⟩ := encodeFrame_ok.mp hencode
  cases hread : readFrame altered with
  | error e => exact ⟨e, rfl⟩
  | ok p =>
      obtain ⟨hle', flags', reserved, rfl⟩ := readFrame_ok.mp hread
      exact absurd hdiffers (not_differsAt_frameBytes hle hle' (by omega))

/-- A changed byte of the payload of a saving request is detected. -/
theorem readFrame_altered_save :
    ∃ e, readFrame ((frameBytes .save 0 0 [7]).set 12 8) = .error e :=
  readFrame_altered.2 .save [7] 0 _ _ 12 (encodeFrame_ok.mpr ⟨by decide, rfl⟩)
    (differsAt_set (by decide +kernel) (by decide +kernel)) (by decide)

end Tampering

end FabricScheduler
