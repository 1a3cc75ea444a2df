import FabricScheduler.Core.Double
import FabricScheduler.Core.Ids
import FabricScheduler.Library.ByteCodec

/-!
# Deterministic binary coding

What `ByteWriter` appends for each kind of value and how `ByteReader` takes it back:
integers little-endian, a double as its pattern, a string behind its length. Every read
of the reader first checks that the bytes are there.
-/

namespace FabricScheduler

/-- `ByteReader`, as the decoder of what it still has to read. -/
abbrev ByteReader (α : Type) := Decoder FabricError α

/-- The longest string a reader accepts. -/
def maxString : Nat := 2 ^ 20

/-- The longest list a record holds; `kMaxRecords`. -/
def maxRecords : Nat := 2 ^ 20

def putU8 (v : UInt8) : Bytes := [v]
def putU16 (v : UInt16) : Bytes := littleEndian 2 v.toNat
def putU32 (v : UInt32) : Bytes := littleEndian 4 v.toNat
def putU64 (v : UInt64) : Bytes := littleEndian 8 v.toNat
def putI32 (v : Int32) : Bytes := putU32 v.toUInt32
def putDouble (d : Double) : Bytes := putU64 d.bits
def putBool (b : Bool) : Bytes := putU8 (if b then 1 else 0)
def putId {name : IdName} (id : StrongId name) : Bytes := putU64 id.value

@[simp] theorem length_putU32 (v : UInt32) : (putU32 v).length = 4 := length_littleEndian ..

@[simp] theorem length_putU64 (v : UInt64) : (putU64 v).length = 8 := length_littleEndian ..

@[simp] theorem length_putId {name : IdName} (id : StrongId name) : (putId id).length = 8 :=
  length_putU64 id.value

/-- The number of elements of a list, cut to 32 bits. -/
def putCount (n : Nat) : Bytes := putU32 (UInt32.ofNat n)

def putString (s : Bytes) : Bytes := putCount s.length ++ s

/-- An enumeration value as its code, cut to 8 bits. -/
def putEnum {α : Type} [Enumeration α] [DecidableEq α] (a : α) : Bytes :=
  putU8 (UInt8.ofNat (Enumeration.code a))

/-- A list behind its length. -/
def putList {α : Type} (enc : α → Bytes) (l : List α) : Bytes :=
  putCount l.length ++ l.flatMap enc

/-- A checked read of a fixed number of bytes. -/
def getBytes (n : Nat) : ByteReader Bytes :=
  Decoder.exactly ⟨.truncation, text "truncated record"⟩ n

def getU8 : ByteReader UInt8 := do
  let bytes ← getBytes 1
  return UInt8.ofNat (ofLittleEndian bytes)

def getU16 : ByteReader UInt16 := do
  let bytes ← getBytes 2
  return UInt16.ofNat (ofLittleEndian bytes)

def getU32 : ByteReader UInt32 := do
  let bytes ← getBytes 4
  return UInt32.ofNat (ofLittleEndian bytes)

def getU64 : ByteReader UInt64 := do
  let bytes ← getBytes 8
  return UInt64.ofNat (ofLittleEndian bytes)

def getI32 : ByteReader Int32 := do
  let v ← getU32
  return v.toInt32

def getDouble : ByteReader Double := do
  let bits ← getU64
  return ⟨bits⟩

def getBool : ByteReader Bool := do
  let v ← getU8
  return v ≠ 0

def getId {name : IdName} : ByteReader (StrongId name) := do
  let v ← getU64
  return ⟨v⟩

def getString : ByteReader Bytes := do
  let len ← getU32
  Decoder.ensure (len.toNat ≤ maxString)
    ⟨.oversizedFrame, text "string length exceeds bound"⟩
  getBytes len.toNat

/-- An 8-bit code that must name a value of the enumeration. -/
def getEnum {α : Type} [Enumeration α] (message : String) : ByteReader α := do
  let code ← getU8
  Decoder.known (Enumeration.ofCode? code.toNat) ⟨.corruption, text message⟩

/-- `read_checked_len`. -/
def readCheckedLen : ByteReader Nat := do
  let n ← getU32
  Decoder.ensure (n.toNat ≤ maxRecords)
    ⟨.oversizedFrame, text "record count exceeds bound"⟩
  return n.toNat

/-- A list behind its checked length. -/
def getList {α : Type} (dec : ByteReader α) : ByteReader (List α) := do
  let n ← readCheckedLen
  Decoder.many dec n

theorem reads_getBytes (bytes : Bytes) {n : Nat} (h : bytes.length = n) :
    (getBytes n).Reads bytes bytes := Decoder.reads_exactly _ bytes h

theorem reads_getU8 (v : UInt8) : getU8.Reads (putU8 v) v := by
  refine (reads_getBytes (putU8 v) rfl).last ?_
  have hv : UInt8.ofNat (ofLittleEndian (putU8 v)) = v := by
    simp only [putU8, ofLittleEndian, Nat.mul_zero, Nat.add_zero, UInt8.ofNat_toNat]
  rw [hv]
  exact Decoder.reads_pure v

theorem reads_getU16 (v : UInt16) : getU16.Reads (putU16 v) v := by
  refine (reads_getBytes (putU16 v) (length_littleEndian ..)).last ?_
  have hv : ofLittleEndian (putU16 v) = v.toNat := ofLittleEndian_littleEndian v.toNat_lt
  rw [hv, UInt16.ofNat_toNat]
  exact Decoder.reads_pure v

theorem reads_getU32 (v : UInt32) : getU32.Reads (putU32 v) v := by
  refine (reads_getBytes (putU32 v) (length_littleEndian ..)).last ?_
  have hv : ofLittleEndian (putU32 v) = v.toNat := ofLittleEndian_littleEndian v.toNat_lt
  rw [hv, UInt32.ofNat_toNat]
  exact Decoder.reads_pure v

theorem reads_getU64 (v : UInt64) : getU64.Reads (putU64 v) v := by
  refine (reads_getBytes (putU64 v) (length_littleEndian ..)).last ?_
  have hv : ofLittleEndian (putU64 v) = v.toNat := ofLittleEndian_littleEndian v.toNat_lt
  rw [hv, UInt64.ofNat_toNat]
  exact Decoder.reads_pure v

/-- A value read from a number of bytes takes those bytes. -/
theorem of_getBytes_ok {α : Type} {n : Nat} {f : Bytes → α} {s rest : Bytes} {v : α}
    (h : (getBytes n >>= fun bytes => pure (f bytes)) s = .ok (v, rest)) :
    ∃ bytes, s = bytes ++ rest ∧ v = f bytes ∧ bytes.length = n := by
  obtain ⟨bytes, s', hbytes, hpure⟩ := Decoder.bind_ok.mp h
  obtain ⟨rfl, hlen⟩ := Decoder.exactly_ok.mp hbytes
  obtain ⟨rfl, rfl⟩ := Decoder.pure_ok.mp hpure
  exact ⟨bytes, rfl, rfl, hlen⟩

/-- A read of 8 bits takes the bytes of what it yields. -/
theorem getU8_ok {s rest : Bytes} {v : UInt8} :
    getU8 s = .ok (v, rest) ↔ s = putU8 v ++ rest := by
  constructor
  · intro h
    obtain ⟨bytes, rfl, rfl, hlen⟩ := of_getBytes_ok h
    obtain ⟨b, rfl⟩ := List.length_eq_one_iff.mp hlen
    rw [putU8, ofLittleEndian, ofLittleEndian, Nat.mul_zero, Nat.add_zero, UInt8.ofNat_toNat]
  · rintro rfl
    exact reads_getU8 v rest

/-- A read of 32 bits takes the bytes of what it yields. -/
theorem getU32_ok {s rest : Bytes} {v : UInt32} :
    getU32 s = .ok (v, rest) ↔ s = putU32 v ++ rest := by
  constructor
  · intro h
    obtain ⟨bytes, rfl, rfl, hlen⟩ := of_getBytes_ok h
    have hbound := ofLittleEndian_lt bytes
    rw [hlen] at hbound
    have hlt : ofLittleEndian bytes < 2 ^ 32 := by omega
    rw [putU32, UInt32.toNat_ofNat', Nat.mod_eq_of_lt hlt, ← hlen, littleEndian_ofLittleEndian]
  · rintro rfl
    exact reads_getU32 v rest

/-- A read of 64 bits takes the bytes of what it yields. -/
theorem getU64_ok {s rest : Bytes} {v : UInt64} :
    getU64 s = .ok (v, rest) ↔ s = putU64 v ++ rest := by
  constructor
  · intro h
    obtain ⟨bytes, rfl, rfl, hlen⟩ := of_getBytes_ok h
    have hbound := ofLittleEndian_lt bytes
    rw [hlen] at hbound
    have hlt : ofLittleEndian bytes < 2 ^ 64 := by omega
    rw [putU64, UInt64.toNat_ofNat', Nat.mod_eq_of_lt hlt, ← hlen, littleEndian_ofLittleEndian]
  · rintro rfl
    exact reads_getU64 v rest

theorem putU32_injective : Function.Injective putU32 := by
  intro v w h
  have hv := reads_getU32 v
  rw [h] at hv
  exact hv.unique (reads_getU32 w)

theorem putU64_injective : Function.Injective putU64 := by
  intro v w h
  have hv := reads_getU64 v
  rw [h] at hv
  exact hv.unique (reads_getU64 w)

theorem reads_getI32 (v : Int32) : getI32.Reads (putI32 v) v := by
  refine (reads_getU32 v.toUInt32).last ?_
  rw [Int32.toInt32_toUInt32]
  exact Decoder.reads_pure v

theorem reads_getDouble (d : Double) : getDouble.Reads (putDouble d) d :=
  (reads_getU64 d.bits).last (Decoder.reads_pure d)

theorem reads_getBool (b : Bool) : getBool.Reads (putBool b) b := by
  refine (reads_getU8 _).last ?_
  cases b <;> exact Decoder.reads_pure _

theorem reads_getId {name : IdName} (id : StrongId name) : getId.Reads (putId id) id :=
  (reads_getU64 id.value).last (Decoder.reads_pure id)

private theorem toNat_count {n : Nat} (h : n < 2 ^ 32) : (UInt32.ofNat n).toNat = n := by
  rw [UInt32.toNat_ofNat']
  exact Nat.mod_eq_of_lt h

theorem reads_getString {s : Bytes} (h : s.length ≤ maxString) :
    getString.Reads (putString s) s := by
  have hlen := toNat_count (h.trans_lt (by decide))
  refine (reads_getU32 (UInt32.ofNat s.length)).bind ?_
  rw [hlen]
  exact (Decoder.reads_ensure h _).silent (reads_getBytes s rfl)

/-- A string is accepted when it is within the bound. The length that is written is cut to
32 bits, so this is only said of encodings below that size. -/
theorem readsWhen_getString (s : Bytes) :
    getString.ReadsWhen (2 ^ 32) (s.length ≤ maxString) (putString s) s := by
  refine ⟨reads_getString, fun hlen t b rest hd => ?_⟩
  rw [putString, List.length_append] at hlen
  rw [putString, List.append_assoc] at hd
  obtain ⟨n, t', hn, hd⟩ := Decoder.bind_ok.mp hd
  obtain ⟨u, t'', hensure, _⟩ := Decoder.bind_ok.mp hd
  have hread := reads_getU32 (UInt32.ofNat s.length) (s ++ t)
  cases hread.symm.trans hn
  have hbound := (Decoder.ensure_ok.mp hensure).1
  rwa [toNat_count (by omega)] at hbound

theorem reads_getEnum {α : Type} [Enumeration α] [DecidableEq α]
    (hsize : (Enumeration.all : List α).length ≤ 256) (message : String) (a : α) :
    (getEnum message).Reads (putEnum a) a := by
  refine (reads_getU8 (UInt8.ofNat (Enumeration.code a))).last ?_
  refine Decoder.reads_known ?_ _
  have hcode := Enumeration.code_lt a
  rw [UInt8.toNat_ofNat', Nat.mod_eq_of_lt (by omega), Enumeration.ofCode?_code]

theorem reads_readCheckedLen {n : Nat} (h : n ≤ maxRecords) :
    readCheckedLen.Reads (putCount n) n := by
  have hlen := toNat_count (h.trans_lt (by decide))
  refine (reads_getU32 (UInt32.ofNat n)).last ?_
  rw [hlen]
  exact (Decoder.reads_ensure h _).silent (Decoder.reads_pure n)

/-- A count that fits 32 bits is accepted when it is within the bound. -/
theorem readsWhen_readCheckedLen {n bound : Nat} (h : n < 2 ^ 32) :
    readCheckedLen.ReadsWhen bound (n ≤ maxRecords) (putCount n) n := by
  refine ⟨reads_readCheckedLen, fun _ t b rest hd => ?_⟩
  obtain ⟨m, t', hm, hd⟩ := Decoder.bind_ok.mp hd
  obtain ⟨u, t'', hensure, _⟩ := Decoder.bind_ok.mp hd
  have hread := reads_getU32 (UInt32.ofNat n) t
  cases hread.symm.trans hm
  have hbound := (Decoder.ensure_ok.mp hensure).1
  rwa [toNat_count h] at hbound

/-- Reading a list back when each of its elements is read back. -/
theorem reads_getList {α : Type} {enc : α → Bytes} {dec : ByteReader α} {l : List α}
    (hlen : l.length ≤ maxRecords) (h : ∀ a ∈ l, dec.Reads (enc a) a) :
    (getList dec).Reads (putList enc l) l := by
  refine (reads_readCheckedLen hlen).bind ?_
  have hmany := Decoder.reads_many id h
  rwa [List.map_id] at hmany

/-- A list of elements with an encoding has no more elements than bytes. -/
theorem length_le_length_flatMap {α : Type} {enc : α → Bytes} {l : List α}
    (hne : ∀ a ∈ l, 0 < (enc a).length) : l.length ≤ (l.flatMap enc).length := by
  induction l with
  | nil => exact Nat.le_refl 0
  | cons a l ih =>
      have ha := hne a (List.mem_cons_self ..)
      have hl := ih fun x hx => hne x (List.mem_cons_of_mem a hx)
      rw [List.flatMap_cons, List.length_append, List.length_cons]
      omega

/-- A record is not empty when its first field is not. -/
theorem length_flatten_pos {x : Bytes} {fields : List Bytes} (h : 0 < x.length) :
    0 < (x :: fields).flatten.length := by
  rw [List.flatten_cons, List.length_append]
  omega

/-- A list is accepted when it is within the bound and each of its elements is accepted. -/
theorem readsWhen_getList {α : Type} {enc : α → Bytes} {dec : ByteReader α} {P : α → Prop}
    {l : List α} (h : ∀ a ∈ l, dec.ReadsWhen (2 ^ 32) (P a) (enc a) a)
    (hne : ∀ a ∈ l, 0 < (enc a).length) :
    (getList dec).ReadsWhen (2 ^ 32) (l.length ≤ maxRecords ∧ ∀ a ∈ l, P a)
      (putList enc l) l := by
  have hmany := Decoder.readsWhen_many id h
  rw [List.map_id] at hmany
  constructor
  · intro hP
    exact (reads_readCheckedLen hP.1).bind (hmany.reads hP.2)
  · intro hlen
    have hflat := length_le_length_flatMap hne
    have hcount : l.length < 2 ^ 32 := by
      rw [putList, List.length_append] at hlen
      omega
    exact ((readsWhen_readCheckedLen hcount).bind fun _ => hmany).only hlen

end FabricScheduler
