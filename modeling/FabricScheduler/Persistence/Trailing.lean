import FabricScheduler.Persistence.Tampering

/-!
# What may follow a file

A file has two ends. The records have to end with the payload, whose length the header tells,
and this is checked. The file ends with the digest, and nothing looks past it.
-/

namespace FabricScheduler

/-- The input is a header, the payload it announces and the digest, and nothing else. -/
def IsFile (input : Bytes) : Prop := ∃ version flags payload,
  payload.length ≤ maxPayload ∧ input = fileBytes version flags payload

section Trailing

variable {version : UInt32} {flags : UInt8} {payload rest garbage input t : Bytes}
  {p : Persisted}

/-- A file that is followed by anything is no file. -/
theorem isFile_append_iff (hle : payload.length ≤ maxPayload) :
    IsFile (fileBytes version flags payload ++ rest) ↔ rest = [] := by
  constructor
  · rintro ⟨version', flags', payload', hle', heq⟩
    have hcount : putU64 (UInt64.ofNat payload.length) =
        putU64 (UInt64.ofNat payload'.length) := by
      rw [← slice_fileLen, heq, ← List.append_nil (fileBytes version' flags' payload'),
        slice_fileLen]
    have hlen : payload.length = payload'.length := by
      rw [← toNat_fileLen hle, ← toNat_fileLen hle', putU64_injective hcount]
    have hlength := congrArg List.length heq
    rw [List.length_append, length_fileBytes, length_fileBytes] at hlength
    exact List.length_eq_zero_iff.mp (by omega)
  · rintro rfl
    exact ⟨version, flags, payload, hle, List.append_nil _⟩

/-- Records that leave a part of their payload unread are refused. -/
theorem persistLoad_garbage (hle : payload.length ≤ maxPayload)
    (h : loadPayload persistenceFormatVersion payload = .ok (p, garbage)) (hne : garbage ≠ []) :
    persistLoad (fileBytes persistenceFormatVersion flags payload ++ rest) =
      .error ⟨.corruption, text "trailing garbage in record"⟩ := by
  rw [persistLoad_fileBytes_append flags rest hle, Decoder.whole, h]
  cases garbage with
  | nil => exact absurd rfl hne
  | cons b bytes => rfl

/-- An input that loads, followed by anything, loads as before and is no file. -/
theorem persistLoad_append (h : persistLoad input = .ok p) (ht : t ≠ []) :
    persistLoad (input ++ t) = .ok p ∧ ¬IsFile (input ++ t) := by
  obtain ⟨payload, flags, rest, hle, rfl⟩ := persistLoad_ok h
  rw [persistLoad_fileBytes_append flags rest hle] at h
  rw [List.append_assoc, persistLoad_fileBytes_append flags (rest ++ t) hle,
    isFile_append_iff hle]
  exact ⟨h, fun hnil => ht (List.append_eq_nil_iff.mp hnil).2⟩

end Trailing

/-- The file of a fresh scheduler loads with a byte behind it. -/
theorem persistLoad_append_fresh : ∃ q,
    persistLoad (persistSave [] Sample.fresh ++ [0]) = .ok q ∧
      ¬IsFile (persistSave [] Sample.fresh ++ [0]) := by
  obtain ⟨q, hload⟩ := Sample.exists_loads_fresh
  exact ⟨q, persistLoad_append hload (List.cons_ne_nil 0 [])⟩

/-- What follows a file is not refused. -/
theorem not_persistLoad_append : ¬∀ (input t : Bytes) (p : Persisted),
    persistLoad input = .ok p → t ≠ [] → ∃ e, persistLoad (input ++ t) = .error e := by
  intro h
  obtain ⟨q, hload⟩ := Sample.exists_loads_fresh
  obtain ⟨e, herror⟩ := h _ [0] q hload (List.cons_ne_nil 0 [])
  have hloads : (persistLoad (persistSave [] Sample.fresh ++ [0])).toOption.isSome = true := by
    decide +kernel
  rw [herror] at hloads
  cases hloads

end FabricScheduler
