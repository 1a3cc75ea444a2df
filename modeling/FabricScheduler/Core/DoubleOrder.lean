import FabricScheduler.Core.Double
import FabricScheduler.Library.Binary64Arithmetic

/-!
# The numbers doubles denote

A double that is a number denotes a rational or an infinity. Comparisons of doubles compare
these numbers, and sums and products are monotone in them.
-/

namespace FabricScheduler

open Float.Model (Format UnpackedFloat)
open Binary64 (Extended real NotBelow)

namespace Double

/-- `std::isnan`. -/
def isNaN (d : Double) : Bool := d.toFloat.isNaN

/-- Sign, significand and exponent of a double. -/
def unpacked (d : Double) : UnpackedFloat := .unpack Format.binary64 d.bits.toBitVec

/-- The number a double denotes, if it is one. -/
def number (d : Double) : Option Extended := Binary64.value d.unpacked

theorem isCanonical_unpacked (d : Double) : Binary64.IsCanonical d.unpacked :=
  (Binary64.isCanonical_unpack _).1

theorem unpack_toFloat (d : Double) : d.toFloat.toModel.unpack = d.unpacked := by
  have hpack := Binary64.unpack_pack d.isCanonical_unpacked
  rw [unpacked, (Binary64.isCanonical_unpack _).2] at hpack
  exact hpack

theorem number_eq_none_iff (d : Double) : d.number = none ↔ d.isNaN = true := by
  have hnan : d.isNaN = d.unpacked.isNaN := congrArg UnpackedFloat.isNaN d.unpack_toFloat
  rw [hnan, number, Binary64.value_eq_none_iff]

theorem exists_number {d : Double} (h : d.isNaN = false) : ∃ x, d.number = some x := by
  apply Option.ne_none_iff_exists'.mp
  rw [Ne, number_eq_none_iff, h]
  exact Bool.false_ne_true

/-- Doubles are compared as the numbers they denote. -/
theorem lt_iff (a b : Double) :
    lt a b = true ↔ ∃ x ∈ a.number, ∃ y ∈ b.number, x < y := by
  have hlt : lt a b = a.unpacked.lt b.unpacked := by
    rw [← unpack_toFloat, ← unpack_toFloat]
    exact Bool.decide_eq_true
  rw [hlt]
  exact Binary64.lt_iff a.isCanonical_unpacked b.isCanonical_unpacked

theorem eq_iff (a b : Double) : eq a b = true ↔ ∃ x, x ∈ a.number ∧ x ∈ b.number := by
  have heq : eq a b = a.unpacked.beq b.unpacked := by
    rw [← unpack_toFloat, ← unpack_toFloat]
    rfl
  rw [heq]
  exact Binary64.beq_iff a.isCanonical_unpacked b.isCanonical_unpacked

theorem lt_eq_false_iff (a b : Double) : lt a b = false ↔ NotBelow a.number b.number := by
  rw [← Bool.not_eq_true, lt_iff]
  simp only [NotBelow, not_exists, not_and, not_lt]

theorem lt_of_eq {a b : Double} (h : eq a b = true) : lt a b = false := by
  obtain ⟨x, hx, hx'⟩ := (eq_iff a b).mp h
  rw [lt_eq_false_iff]
  intro p hp q hq
  obtain rfl := Option.some.inj (hx.symm.trans hp)
  obtain rfl := Option.some.inj (hx'.symm.trans hq)
  exact le_rfl

/-- The place of a double among the numbers. -/
def place (d : Double) : Extended := d.number.getD ⊥

theorem number_eq_place {d : Double} (h : d.isNaN = false) : d.number = some d.place := by
  obtain ⟨x, hx⟩ := exists_number h
  rw [place, hx, Option.getD_some]

theorem lt_iff_place {a b : Double} (ha : a.isNaN = false) (hb : b.isNaN = false) :
    lt a b = true ↔ a.place < b.place := by
  simp only [lt_iff, number_eq_place ha, number_eq_place hb, Option.mem_some_iff,
    exists_eq_left']

theorem differs_iff_place {a b : Double} (ha : a.isNaN = false) (hb : b.isNaN = false) :
    (!eq a b) = true ↔ a.place ≠ b.place := by
  rw [Bool.not_eq_true', ← Bool.not_eq_true, Ne, not_iff_not, eq_iff]
  simp only [number_eq_place ha, number_eq_place hb, Option.mem_some_iff, exists_eq_left']
  exact eq_comm

/-- An operation on doubles stores what the operation on their contents yields. -/
theorem number_ofFloat {f : Float} {u : UnpackedFloat} (hu : Binary64.IsCanonical u)
    (hf : f.toModel = .pack u) : (ofFloat f).number = (Binary64.value u).map
      Binary64.saturate := by
  have hunpacked : (ofFloat f).unpacked = Binary64.overflow u := by
    rw [← Binary64.unpack_pack hu]
    change f.toModel.unpack = _
    rw [hf]
    rfl
  rw [number, hunpacked, Binary64.value_overflow hu]

section Arithmetic

open CostArith

variable {a b c d w : Double}

theorem number_add (a b : Double) : (add a b).number =
    (Binary64.value (UnpackedFloat.add Format.binary64 a.unpacked b.unpacked)).map
      Binary64.saturate := by
  apply number_ofFloat
  · exact Binary64.isCanonical_add a.isCanonical_unpacked b.isCanonical_unpacked
  · rw [← unpack_toFloat, ← unpack_toFloat]
    rfl

theorem number_mul (a b : Double) : (mul a b).number =
    (Binary64.value (UnpackedFloat.mul Format.binary64 a.unpacked b.unpacked)).map
      Binary64.saturate := by
  apply number_ofFloat
  · exact Binary64.isCanonical_mul a.isCanonical_unpacked b.isCanonical_unpacked
  · rw [← unpack_toFloat, ← unpack_toFloat]
    rfl

theorem notBelow_saturate {x y : Option Extended} (h : NotBelow x y) :
    NotBelow (x.map Binary64.saturate) (y.map Binary64.saturate) := by
  rintro p hp q hq
  obtain ⟨p', hp', rfl⟩ := Option.map_eq_some_iff.mp hp
  obtain ⟨q', hq', rfl⟩ := Option.map_eq_some_iff.mp hq
  exact Binary64.saturate_mono (h p' hp' q' hq')

theorem notBelow_add (hab : NotBelow a.number b.number) (hcd : NotBelow c.number d.number) :
    NotBelow (add a c).number (add b d).number := by
  rw [number_add, number_add]
  exact notBelow_saturate (.add a.isCanonical_unpacked b.isCanonical_unpacked
    c.isCanonical_unpacked d.isCanonical_unpacked hab hcd)

theorem notBelow_mul (hw : ∀ z ∈ w.number, real 0 ≤ z) (hab : NotBelow a.number b.number) :
    NotBelow (mul w a).number (mul w b).number := by
  rw [number_mul, number_mul]
  exact notBelow_saturate (.mul w.isCanonical_unpacked a.isCanonical_unpacked
    b.isCanonical_unpacked hw hab)

/-- A stored number is within the limits of what can be stored. -/
theorem saturate_number (d : Double) : d.number.map Binary64.saturate = d.number := by
  rw [number, ← Binary64.value_overflow d.isCanonical_unpacked, unpacked,
    (Binary64.isCanonical_unpack _).2]

/-- A sum that is a double is exact. -/
theorem number_add_of_exact {x y : ℚ} (ha : a.number = some (real x))
    (hb : b.number = some (real y)) (hc : c.number = some (real (x + y))) :
    (add a b).number = some (real (x + y)) := by
  have hsum := Binary64.isRounding_add a.isCanonical_unpacked b.isCanonical_unpacked ha hb
  rw [number_add, hsum.value_eq c.isCanonical_unpacked hc, ← hc, saturate_number]

/-- A product that is a double is exact. -/
theorem number_mul_of_exact {x y : ℚ} (ha : a.number = some (real x))
    (hb : b.number = some (real y)) (hc : c.number = some (real (x * y))) :
    (mul a b).number = some (real (x * y)) := by
  have hproduct := Binary64.isRounding_mul a.isCanonical_unpacked b.isCanonical_unpacked ha hb
  rw [number_mul, hproduct.value_eq c.isCanonical_unpacked hc, ← hc, saturate_number]

theorem number_add_none (h : a.number = none ∨ b.number = none) : (add a b).number = none := by
  rw [number_add, Option.map_eq_none_iff]
  cases hsum : Binary64.value (UnpackedFloat.add Format.binary64 a.unpacked b.unpacked) with
  | none => rfl
  | some p =>
      obtain ⟨⟨x, hx⟩, y, hy⟩ := Binary64.exists_of_mem_add hsum
      rcases h with h | h
      · cases h.symm.trans hx
      · cases h.symm.trans hy

theorem number_mul_none (h : a.number = none ∨ b.number = none) : (mul a b).number = none := by
  rw [number_mul, Option.map_eq_none_iff]
  cases hproduct : Binary64.value (UnpackedFloat.mul Format.binary64 a.unpacked b.unpacked) with
  | none => rfl
  | some p =>
      obtain ⟨⟨x, hx⟩, y, hy⟩ := Binary64.exists_of_mem_mul hproduct
      rcases h with h | h
      · cases h.symm.trans hx
      · cases h.symm.trans hy

end Arithmetic

theorem number_zero : zero.number = some (real 0) := rfl

theorem number_one : one.number = some (real 1) := by
  have hone : one.number = some (real (Binary64.magnitude (2 ^ 52) (-52))) := rfl
  rw [hone, Binary64.magnitude]
  norm_num

end Double

end FabricScheduler
