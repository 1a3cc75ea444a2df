import FabricScheduler.Persistence.Trailing

/-!
# Files that were cut short

The loader takes a file for as long as the header says it is. Bytes beyond that are not looked
at, and a file that ends before is refused as truncated, wherever it was cut.
-/

namespace FabricScheduler

open Decoder

section Truncation

variable {flags : UInt8} {payload rest input : Bytes} {p : Persisted} {n : Nat}

/-- The header of a file, the 17 bytes before its payload. -/
private def headerBytes (flags : UInt8) (payload : Bytes) : Bytes :=
  putU32 persistenceMagic ++ (putU32 persistenceFormatVersion ++ (putU8 flags ++
    (putU64 (UInt64.ofNat payload.length) ++ [])))

private theorem length_headerBytes : (headerBytes flags payload).length = 17 := by
  simp [headerBytes, putU8]

private theorem fileBytes_eq : fileBytes persistenceFormatVersion flags payload =
    headerBytes flags payload ++ (payload ++ putU64 (fnv1a64Digest payload)) := by
  simp only [fileBytes, headerBytes, List.append_assoc, List.append_nil]

/-- Less than a file is refused as truncated, in its header, its payload or its digest. -/
theorem loadFrame_take (hle : payload.length ≤ maxPayload)
    (hn : n < (fileBytes persistenceFormatVersion flags payload).length) :
    ∃ e, loadFrame ((fileBytes persistenceFormatVersion flags payload).take n) = .error e ∧
      e.code = .truncation := by
  rw [length_fileBytes] at hn
  by_cases hheader : n < 17
  · refine ⟨_, bind_error (exactly_short ?_ _) _, rfl⟩
    rw [List.length_take]
    omega
  have hlen := toNat_fileLen hle
  have hloads : loadHeader (headerBytes flags payload) =
      .ok ((persistenceFormatVersion, UInt64.ofNat payload.length), []) :=
    loadHeader_ok.mpr ⟨by decide, hlen.le.trans hle, flags, rfl⟩
  obtain ⟨m, rfl⟩ := Nat.exists_eq_add_of_le (Nat.le_of_not_lt hheader)
  have hcut : (fileBytes persistenceFormatVersion flags payload).take (17 + m) =
      headerBytes flags payload ++ (payload ++ putU64 (fnv1a64Digest payload)).take m := by
    rw [fileBytes_eq, ← length_headerBytes, List.take_length_add_append]
  rw [hcut, loadFrame, bind_eq (exactly_ok.mpr ⟨rfl, length_headerBytes⟩),
    bind_eq (check_ok.mpr ⟨hloads, rfl⟩)]
  dsimp only
  by_cases hpayload : m < payload.length
  · refine ⟨_, bind_error (exactly_short ?_ _) _, rfl⟩
    rw [hlen, List.length_take]
    omega
  obtain ⟨k, rfl⟩ := Nat.exists_eq_add_of_le (Nat.le_of_not_lt hpayload)
  rw [List.take_length_add_append, bind_eq (exactly_ok.mpr ⟨rfl, hlen.symm⟩)]
  refine ⟨_, bind_error (exactly_short ?_ _) _, rfl⟩
  rw [List.length_take]
  omega

/-- An input that loads is a file of some length and what follows it: from that length on every
part of the input loads alike, and every shorter part is refused as truncated. Of a saved state
all of the file is needed. -/
theorem persistLoad_take (h : persistLoad input = .ok p) : ∃ length ≤ input.length,
    (∀ n, length ≤ n → persistLoad (input.take n) = .ok p) ∧
    (∀ n < length, ∃ e, persistLoad (input.take n) = .error e ∧ e.code = .truncation) ∧
    ∀ cancelled q, input = persistSave cancelled q → (encPayload cancelled q).length < 2 ^ 64 →
      length = input.length := by
  obtain ⟨payload, flags, rest, hle, rfl⟩ := persistLoad_ok h
  refine ⟨(fileBytes persistenceFormatVersion flags payload).length, ?_, ?_, ?_, ?_⟩
  · rw [List.length_append]
    exact Nat.le_add_right ..
  · intro n hn
    obtain ⟨m, rfl⟩ := Nat.exists_eq_add_of_le hn
    rw [List.take_length_add_append, persistLoad_fileBytes_append flags _ hle,
      ← persistLoad_fileBytes_append flags rest hle, h]
  · intro n hn
    obtain ⟨e, hload, he⟩ := loadFrame_take hle hn
    refine ⟨e, ?_, he⟩
    rw [List.take_append_of_le_length hn.le, persistLoad, hload]
  · intro cancelled q hsaved hsize
    rw [hsaved] at h
    obtain ⟨hle', hfile⟩ := persistSave_of_loads hsize h
    rw [hfile] at hsaved
    have hwhole : IsFile (fileBytes persistenceFormatVersion flags payload ++ rest) := by
      rw [hsaved]
      exact ⟨_, _, _, hle', rfl⟩
    have hnil : rest = [] := (isFile_append_iff hle).mp hwhole
    rw [hnil, List.append_nil]

end Truncation

/-- The file of a fresh scheduler does not load without its last byte. -/
theorem persistLoad_take_fresh : ∃ e,
    persistLoad ((persistSave [] Sample.fresh).take 92) = .error e ∧ e.code = .truncation := by
  obtain ⟨q, hload⟩ := Sample.exists_loads_fresh
  obtain ⟨length, _, _, hcut, hsaved⟩ := persistLoad_take hload
  have hlength := hsaved [] Sample.fresh rfl (by decide +kernel)
  have hsize : (persistSave [] Sample.fresh).length = 93 := by decide +kernel
  exact hcut 92 (by omega)

end FabricScheduler
