import FabricScheduler.Persistence.File
import FabricScheduler.Scheduler.Execution

/-!
# A file with one byte changed

The header's magic and version are compared with constants, the payload with its digest
and the digest with the payload, so one changed byte in any of them is detected. The flags
are read and discarded.
-/

namespace FabricScheduler

open Decoder

/-- A file with the given version, flags and payload. -/
def fileBytes (version : UInt32) (flags : UInt8) (payload : Bytes) : Bytes :=
  putU32 persistenceMagic ++ (putU32 version ++ (putU8 flags ++
    (putU64 (UInt64.ofNat payload.length) ++ (payload ++ putU64 (fnv1a64Digest payload)))))

theorem persistSave_eq (cancelled : List SchedulingRequestId) (state : Persisted) :
    persistSave cancelled state =
      fileBytes state.formatVersion persistenceFlags (encPayload cancelled state) := by
  simp only [persistSave, fileBytes, List.flatten_cons, List.flatten_nil, List.append_nil]

theorem length_fileBytes (version : UInt32) (flags : UInt8) (payload : Bytes) :
    (fileBytes version flags payload).length = 25 + payload.length := by
  simp only [fileBytes, List.length_append, length_putU32, length_putU64, putU8,
    List.length_singleton]
  omega

theorem toNat_fileLen {payload : Bytes} (h : payload.length ≤ maxPayload) :
    (UInt64.ofNat payload.length).toNat = payload.length := by
  rw [UInt64.toNat_ofNat']
  exact Nat.mod_eq_of_lt (h.trans_lt (by decide))

/-- The header is accepted exactly when it has the magic, a supported version and a bounded
length, whatever its flags. -/
theorem loadHeader_ok {s rest : Bytes} {version : UInt32} {payLen : UInt64} :
    loadHeader s = .ok ((version, payLen), rest) ↔
      (version ≠ 0 ∧ version ≤ persistenceFormatVersion) ∧ payLen.toNat ≤ maxPayload ∧
        ∃ flags, s = putU32 persistenceMagic ++ (putU32 version ++ (putU8 flags ++
          (putU64 payLen ++ rest))) := by
  simp only [loadHeader, bind_ok, ensure_ok, pure_ok, getU8_ok, getU32_ok, getU64_ok,
    Prod.mk.injEq]
  constructor
  · rintro ⟨magic, _, rfl, _, _, ⟨rfl, rfl⟩, version', _, rfl, _, _, ⟨hversion, rfl⟩, flags, _,
      rfl, payLen', _, rfl, _, _, ⟨hlen, rfl⟩, ⟨rfl, rfl⟩, rfl⟩
    exact ⟨hversion, hlen, flags, rfl⟩
  · rintro ⟨hversion, hlen, flags, rfl⟩
    exact ⟨_, _, rfl, (), _, ⟨rfl, rfl⟩, _, _, rfl, (), _, ⟨hversion, rfl⟩, flags, _, rfl, _, _,
      rfl, (), _, ⟨hlen, rfl⟩, ⟨rfl, rfl⟩, rfl⟩

/-- A file is accepted up to its records exactly when it stands in front of the input, with
any flags. -/
theorem loadFrame_ok {s rest payload : Bytes} {version : UInt32} :
    loadFrame s = .ok ((version, payload), rest) ↔
      (version ≠ 0 ∧ version ≤ persistenceFormatVersion) ∧ payload.length ≤ maxPayload ∧
        ∃ flags, s = fileBytes version flags payload ++ rest := by
  simp only [loadFrame, bind_ok, exactly_ok, check_ok, ensure_ok, pure_ok, Prod.mk.injEq]
  constructor
  · rintro ⟨hdr, _, ⟨rfl, hhdr⟩, ⟨⟨version', payLen⟩, more⟩, _, ⟨hheader, rfl⟩, body, _,
      ⟨rfl, hbody⟩, foot, _, ⟨rfl, hfoot⟩, ⟨stored, tail⟩, _, ⟨hstored, rfl⟩, _, _,
      ⟨hdigest, rfl⟩, ⟨rfl, rfl⟩, rfl⟩
    dsimp only at hbody hdigest ⊢
    obtain ⟨hversion, hlen, flags, rfl⟩ := loadHeader_ok.mp hheader
    obtain rfl := getU64_ok.mp hstored
    simp only [List.length_append, length_putU32, length_putU64, putU8,
      List.length_singleton] at hhdr hfoot
    obtain rfl := List.length_eq_zero_iff.mp (by omega : more.length = 0)
    obtain rfl := List.length_eq_zero_iff.mp (by omega : tail.length = 0)
    have hpay : UInt64.ofNat body.length = payLen := by rw [hbody, UInt64.ofNat_toNat]
    refine ⟨hversion, hbody ▸ hlen, flags, ?_⟩
    simp only [fileBytes, hpay, hdigest, List.append_assoc, List.append_nil]
  · rintro ⟨hversion, hle, flags, rfl⟩
    have hlen := toNat_fileLen hle
    have hheader : loadHeader (putU32 persistenceMagic ++ (putU32 version ++ (putU8 flags ++
        (putU64 (UInt64.ofNat payload.length) ++ [])))) =
        .ok ((version, UInt64.ofNat payload.length), []) :=
      loadHeader_ok.mpr ⟨hversion, hlen.le.trans hle, flags, rfl⟩
    refine ⟨_, _, ⟨?_, ?_⟩, _, _, ⟨hheader, rfl⟩, payload, _, ⟨rfl, hlen.symm⟩, _, _,
      ⟨rfl, length_putU64 _⟩, (fnv1a64Digest payload, []), _,
      ⟨getU64_ok.mpr (List.append_nil _).symm, rfl⟩, (), _, ⟨rfl, rfl⟩, ⟨rfl, rfl⟩, rfl⟩
    · simp only [fileBytes, List.append_assoc, List.append_nil]
    · simp only [List.length_append, length_putU32, length_putU64, putU8,
        List.length_singleton, List.length_nil]

section Altered

variable {version version' : UInt32} {flags flags' : UInt8} {payload payload' rest : Bytes}

theorem slice_fileLen : ((fileBytes version flags payload ++ rest).drop 9).take 8 =
    putU64 (UInt64.ofNat payload.length) := by
  have hfile : fileBytes version flags payload ++ rest =
      (putU32 persistenceMagic ++ (putU32 version ++ putU8 flags)) ++
        (putU64 (UInt64.ofNat payload.length) ++
          (payload ++ putU64 (fnv1a64Digest payload) ++ rest)) := by
    simp only [fileBytes, List.append_assoc]
  rw [hfile, List.drop_left' (by simp [putU8]), List.take_left' (length_putU64 _)]

theorem slice_payload : ((fileBytes version flags payload ++ rest).drop 17).take
    payload.length = payload := by
  have hfile : fileBytes version flags payload ++ rest =
      (putU32 persistenceMagic ++ (putU32 version ++ (putU8 flags ++
        putU64 (UInt64.ofNat payload.length)))) ++
          (payload ++ (putU64 (fnv1a64Digest payload) ++ rest)) := by
    simp only [fileBytes, List.append_assoc]
  rw [hfile, List.drop_left' (by simp [putU8]), List.take_left' rfl]

theorem slice_stored : ((fileBytes version flags payload ++ rest).drop
    (17 + payload.length)).take 8 = putU64 (fnv1a64Digest payload) := by
  have hfile : fileBytes version flags payload ++ rest =
      (putU32 persistenceMagic ++ (putU32 version ++ (putU8 flags ++
        (putU64 (UInt64.ofNat payload.length) ++ payload)))) ++
          (putU64 (fnv1a64Digest payload) ++ rest) := by
    simp only [fileBytes, List.append_assoc]
  rw [hfile, List.drop_left' (by simp [putU8]; omega), List.take_left' (length_putU64 _)]

/-- The flags are the ninth byte and nothing else depends on them. -/
theorem fileBytes_set (flags flags' : UInt8) :
    fileBytes version flags' payload = (fileBytes version flags payload).set 8 flags' := by
  have hfile : ∀ f : UInt8, fileBytes version f payload =
      (putU32 persistenceMagic ++ putU32 version) ++
        f :: (putU64 (UInt64.ofNat payload.length) ++
          (payload ++ putU64 (fnv1a64Digest payload))) := by
    intro f
    simp only [fileBytes, putU8, List.append_assoc, List.singleton_append]
  have hlen : (putU32 persistenceMagic ++ putU32 version).length = 8 := by
    rw [List.length_append, length_putU32, length_putU32]
  rw [hfile, hfile, List.set_append_right _ _ hlen.le, hlen, Nat.sub_self, List.set_cons_zero]

/-- Files of one version that differ in exactly one byte, which is none of their length,
differ in their flags only. -/
theorem eq_of_differsAt_fileBytes {i : Nat} (hle : payload.length ≤ maxPayload)
    (hle' : payload'.length ≤ maxPayload) (hi : ¬(9 ≤ i ∧ i < 9 + 8))
    (h : DiffersAt i (fileBytes version flags payload)
      (fileBytes version flags' payload' ++ rest)) :
    i = 8 ∧ payload' = payload ∧ rest = [] := by
  have hcount := h.slice_eq hi
  rw [← List.append_nil (fileBytes version flags payload)] at h hcount
  rw [slice_fileLen, slice_fileLen] at hcount
  have hlen : payload.length = payload'.length := by
    rw [← toNat_fileLen hle, ← toNat_fileLen hle', putU64_injective hcount]
  have hrest : rest = [] := by
    have hlength := h.length
    rw [List.length_append, List.length_append, length_fileBytes, length_fileBytes,
      List.length_nil] at hlength
    exact List.length_eq_zero_iff.mp (by omega)
  subst hrest
  have hpayload : payload' = payload := by
    by_cases hspan : 17 ≤ i ∧ i < 17 + payload.length
    · have hstored := h.slice_eq (a := 17 + payload.length) (n := 8) (by omega)
      rw [hlen, slice_stored, ← hlen, slice_stored] at hstored
      have hne := h.slice hspan
      rw [slice_payload, hlen, slice_payload] at hne
      exact absurd (putU64_injective hstored) (fnv1a64Digest_ne hne)
    · have hsame := h.slice_eq hspan
      rw [slice_payload, hlen, slice_payload] at hsame
      exact hsame.symm
  subst hpayload
  refine ⟨?_, rfl, rfl⟩
  by_contra hne
  apply h.differs
  rw [fileBytes_set flags flags', List.append_nil, List.append_nil,
    List.getElem?_set_ne (Ne.symm hne)]

/-- Whatever is read of a file is read in front of it. -/
theorem persistLoad_ok {input : Bytes} {p : Persisted} (h : persistLoad input = .ok p) :
    ∃ payload flags rest, payload.length ≤ maxPayload ∧
      input = fileBytes persistenceFormatVersion flags payload ++ rest := by
  rw [persistLoad] at h
  split at h
  · rename_i version payload rest hframe
    obtain ⟨⟨hzero, hversion⟩, hle, flags, rfl⟩ := loadFrame_ok.mp hframe
    have hone : version = persistenceFormatVersion := by
      rw [UInt32.le_iff_toNat_le] at hversion
      have hpos : version.toNat ≠ 0 := fun hnat => hzero (UInt32.toNat_inj.mp hnat)
      have hbound : persistenceFormatVersion.toNat = 1 := rfl
      apply UInt32.toNat_inj.mp
      omega
    exact ⟨payload, flags, rest, hle, hone ▸ rfl⟩
  · cases h

/-- Loading a file is loading its payload; the flags and what follows are not looked at. -/
theorem persistLoad_fileBytes_append (flags : UInt8) (rest : Bytes)
    (hle : payload.length ≤ maxPayload) :
    persistLoad (fileBytes persistenceFormatVersion flags payload ++ rest) =
      whole ⟨.corruption, text "trailing garbage in record"⟩
        (loadPayload persistenceFormatVersion) payload := by
  have hframe : loadFrame (fileBytes persistenceFormatVersion flags payload ++ rest) =
      .ok ((persistenceFormatVersion, payload), rest) :=
    loadFrame_ok.mpr ⟨by decide, hle, flags, rfl⟩
  rw [persistLoad, hframe]

theorem persistLoad_fileBytes (flags flags' : UInt8) (hle : payload.length ≤ maxPayload) :
    persistLoad (fileBytes persistenceFormatVersion flags payload) =
      persistLoad (fileBytes persistenceFormatVersion flags' payload) := by
  have hload := persistLoad_fileBytes_append flags [] hle
  have hload' := persistLoad_fileBytes_append flags' [] hle
  rw [List.append_nil] at hload hload'
  rw [hload, hload']

/-- A saved file that loads is a file of the supported version with a bounded payload. -/
theorem persistSave_of_loads {p q : Persisted} {cancelled : List SchedulingRequestId}
    (hsize : (encPayload cancelled p).length < 2 ^ 64)
    (hload : persistLoad (persistSave cancelled p) = .ok q) :
    (encPayload cancelled p).length ≤ maxPayload ∧ persistSave cancelled p =
      fileBytes persistenceFormatVersion persistenceFlags (encPayload cancelled p) := by
  obtain ⟨payload, flags, rest, hle, hfile⟩ := persistLoad_ok hload
  rw [persistSave_eq] at hfile ⊢
  have hcount : ((fileBytes p.formatVersion persistenceFlags (encPayload cancelled p) ++
      []).drop 9).take 8 = putU64 (UInt64.ofNat (encPayload cancelled p).length) :=
    slice_fileLen
  rw [List.append_nil, hfile, slice_fileLen] at hcount
  have hnat := congrArg UInt64.toNat (putU64_injective hcount)
  rw [toNat_fileLen hle, UInt64.toNat_ofNat', Nat.mod_eq_of_lt hsize] at hnat
  have hversion : p.formatVersion = persistenceFormatVersion := by
    simp only [fileBytes, List.append_assoc] at hfile
    have hrest := (List.append_inj hfile rfl).2
    exact putU32_injective (List.append_inj hrest (by simp)).1
  exact ⟨hnat.symm ▸ hle, by rw [hversion]⟩

/-- The substitution of one byte of a saved file that loads, at a position that holds
neither its flags nor its length, is detected; that of its flags changes nothing. The
payload is an array, so its size is a 64-bit word. -/
theorem persistLoad_altered {p q : Persisted} {cancelled : List SchedulingRequestId}
    {altered : Bytes} {i : Nat} (hsize : (encPayload cancelled p).length < 2 ^ 64)
    (hload : persistLoad (persistSave cancelled p) = .ok q)
    (hdiffers : DiffersAt i (persistSave cancelled p) altered) (hi : ¬(9 ≤ i ∧ i ≤ 16)) :
    (i ≠ 8 → ∃ e, persistLoad altered = .error e) ∧
      (i = 8 → persistLoad altered = .ok q) := by
  obtain ⟨hle, hfile⟩ := persistSave_of_loads hsize hload
  rw [hfile] at hload hdiffers
  constructor
  · intro hne
    cases hread : persistLoad altered with
    | error e => exact ⟨e, rfl⟩
    | ok q' =>
        obtain ⟨payload, flags, rest, hle', rfl⟩ := persistLoad_ok hread
        exact absurd (eq_of_differsAt_fileBytes hle hle' (by omega) hdiffers).1 hne
  · rintro rfl
    -- the altered file is the file with other flags
    have hlt : 8 < altered.length := hdiffers.length ▸ hdiffers.lt
    have haltered : altered =
        fileBytes persistenceFormatVersion altered[8] (encPayload cancelled p) := by
      rw [fileBytes_set persistenceFlags altered[8]]
      apply List.ext_getElem?
      intro j
      by_cases hj : j = 8
      · rw [hj, List.getElem?_set_self hdiffers.lt, List.getElem?_eq_getElem hlt]
      · rw [List.getElem?_set_ne (Ne.symm hj), hdiffers.agrees j hj]
    rw [haltered, persistLoad_fileBytes altered[8] persistenceFlags hle, hload]

end Altered

/-- What a freshly constructed scheduler saves. -/
def Sample.fresh : Persisted := (SchedulerState.initial Sample.config).snapshot

theorem Sample.exists_loads_fresh : ∃ q, persistLoad (persistSave [] Sample.fresh) = .ok q := by
  have hloads : (persistLoad (persistSave [] Sample.fresh)).toOption.isSome = true := by
    decide +kernel
  cases hread : persistLoad (persistSave [] Sample.fresh) with
  | ok q => exact ⟨q, rfl⟩
  | error e =>
      rw [hread] at hloads
      cases hloads

/-- A changed byte of the saved epoch is detected. -/
theorem persistLoad_altered_epoch :
    ∃ e, persistLoad ((persistSave [] Sample.fresh).set 17 9) = .error e := by
  obtain ⟨q, hload⟩ := Sample.exists_loads_fresh
  exact (persistLoad_altered (by decide +kernel) hload
    (differsAt_set (by decide +kernel) (by decide +kernel)) (by decide)).1 (by decide)

/-- A changed flags byte is not detected. -/
theorem not_persistLoad_altered :
    ¬∀ (p q : Persisted) (cancelled : List SchedulingRequestId) (altered : Bytes) (i : Nat),
      persistLoad (persistSave cancelled p) = .ok q →
      DiffersAt i (persistSave cancelled p) altered → ¬(9 ≤ i ∧ i ≤ 16) →
      ∃ e, persistLoad altered = .error e := by
  intro h
  obtain ⟨q, hload⟩ := Sample.exists_loads_fresh
  obtain ⟨e, herror⟩ := h _ q [] ((persistSave [] Sample.fresh).set 8 1) 8 hload
    (differsAt_set (by decide +kernel) (by decide +kernel)) (by decide)
  have hloads : (persistLoad ((persistSave [] Sample.fresh).set 8 1)).toOption.isSome =
      true := by decide +kernel
  rw [herror] at hloads
  cases hloads

end FabricScheduler
