import FabricScheduler.Core.DoubleOrder
import FabricScheduler.Library.Binary64Exact

/-!
# Doubles that are numbers

What the operations make of numbers: which results are numbers again, which of them are
finite, and which are exact.
-/

namespace FabricScheduler

open Float.Model (Format UnpackedFloat)
open Binary64 (Extended real Exact)

namespace Double

open CostArith

variable {a b d : Double} {p q : Extended} {x y : ℚ}

/-- Doubles that denote rationals are compared as these. -/
theorem lt_real_iff (ha : a.number = some (real x)) (hb : b.number = some (real y)) :
    lt a b = true ↔ x < y := by
  simp only [lt_iff, ha, hb, Option.mem_some_iff, exists_eq_left', Binary64.real_lt_real]

/-- What is no number is on neither side of anything. -/
theorem lt_of_none (h : a.number = none ∨ b.number = none) : lt a b = false := by
  rw [lt_eq_false_iff]
  rcases h with h | h
  · rw [h]
    rintro p ⟨⟩
  · rw [h]
    rintro p _ q ⟨⟩

theorem isFinite_of_number (h : d.number = some (real x)) : d.isFinite = true := by
  have hfinite : d.isFinite = d.unpacked.isFinite :=
    congrArg UnpackedFloat.isFinite d.unpack_toFloat
  rw [hfinite]
  rcases Binary64.value_eq_real h with ⟨s, hd, _⟩ | ⟨s, m, e, hm, hd, _⟩
  · rw [hd]
    rfl
  · rw [hd]
    rfl

theorem isNaN_of_number (h : d.number = some p) : d.isNaN = false := by
  rw [← Bool.not_eq_true, ← number_eq_none_iff, h]
  exact Option.some_ne_none p

theorem number_sub (a b : Double) : (sub a b).number =
    (Binary64.value (UnpackedFloat.sub Format.binary64 a.unpacked b.unpacked)).map
      Binary64.saturate := by
  apply number_ofFloat
  · exact Binary64.isCanonical_sub a.isCanonical_unpacked b.isCanonical_unpacked
  · rw [← unpack_toFloat, ← unpack_toFloat]
    rfl

theorem number_div (a b : Double) : (div a b).number =
    (Binary64.value (UnpackedFloat.div Format.binary64 a.unpacked b.unpacked)).map
      Binary64.saturate := by
  apply number_ofFloat
  · exact Binary64.isCanonical_div a.unpacked b.unpacked
  · rw [← unpack_toFloat, ← unpack_toFloat]
    rfl

section Exact

theorem number_of_isRounding {u : UnpackedFloat} (hx : Exact x) (h : Binary64.IsRounding x u) :
    (Binary64.value u).map Binary64.saturate = some (real x) := by
  rw [hx.value h, Option.map_some, hx.saturate]

/-- The content of a stored number. -/
theorem unpacked_ofFloat (f : Float) : (ofFloat f).unpacked = f.toModel.unpack := rfl

/-- An integer of a word is converted by rounding. -/
theorem number_toFloat {n : ℕ} (hn : n < 2 ^ 53) :
    (ofFloat n.toUInt64.toFloat).number = some (real n) := by
  have hword : n.toUInt64.toNat = n := Nat.mod_eq_of_lt (by omega)
  have hmodel : n.toUInt64.toFloat.toModel =
      .pack (UnpackedFloat.ofNat Format.binary64 n.toUInt64.toNat) := rfl
  rw [hword] at hmodel
  rw [number_ofFloat (Binary64.isRounding_ofNat n).1 hmodel]
  exact number_of_isRounding (Binary64.exact_natCast hn) (Binary64.isRounding_ofNat n)

/-- An integer with the digits of a significand is converted exactly. -/
theorem number_ofNat_of_lt {n : ℕ} (hn : n < 2 ^ 53) :
    (ofNat n : Double).number = some (real n) := by
  have hfloat : Float.ofNat n = n.toUInt64.toFloat * one.toFloat :=
    dif_pos ⟨hn, Nat.zero_le 22⟩
  have hone : (ofFloat one.toFloat).number = some (real 1) := by
    rw [number, unpacked_ofFloat, unpack_toFloat]
    exact number_one
  have hround := Binary64.isRounding_mul (ofFloat n.toUInt64.toFloat).isCanonical_unpacked
    (ofFloat one.toFloat).isCanonical_unpacked (number_toFloat hn) hone
  rw [mul_one] at hround
  have hproduct := number_ofFloat (f := n.toUInt64.toFloat * one.toFloat) hround.1 rfl
  change (ofFloat (Float.ofNat n)).number = _
  rw [hfloat, hproduct]
  exact number_of_isRounding (Binary64.exact_natCast hn) hround

/-- An integer is rounded. -/
theorem number_ofNat (n : ℕ) : ∃ y, Binary64.format.Rounds n y ∧
    (ofNat n : Double).number = some (Binary64.saturate (real y)) := by
  rcases lt_or_ge n (2 ^ 53) with hn | hn
  · have hexact := Binary64.exact_natCast hn
    exact ⟨n, hexact.rounds_self, by rw [number_ofNat_of_lt hn, hexact.saturate]⟩
  · have hfloat : Float.ofNat n = .ofModel (.ofScientific n 0) :=
      dif_neg fun h => absurd h.1 (not_lt.mpr hn)
    obtain ⟨hcanonical, y, hy, hvalue⟩ := Binary64.isRounding_ofScientific hn
    have hscaled := number_ofFloat (f := .ofModel (.ofScientific n 0)) hcanonical rfl
    refine ⟨y, hy, ?_⟩
    change (ofFloat (Float.ofNat n)).number = _
    rw [hfloat, hscaled, hvalue]
    rfl

theorem number_add_exact (ha : a.number = some (real x)) (hb : b.number = some (real y))
    (h : Exact (x + y)) : (add a b).number = some (real (x + y)) := by
  rw [number_add]
  exact number_of_isRounding h
    (Binary64.isRounding_add a.isCanonical_unpacked b.isCanonical_unpacked ha hb)

theorem number_div_exact (ha : a.number = some (real x)) (hb : b.number = some (real y))
    (hne : y ≠ 0) (h : Exact (x / y)) : (div a b).number = some (real (x / y)) := by
  rw [number_div]
  exact number_of_isRounding h (Binary64.isRounding_div ha hb hne)

end Exact

section Number

/-- Infinities of opposite signs have no sum. -/
theorem number_add_of_opposite (ha : a.number = some p) (hb : b.number = some q)
    (h : Binary64.Opposite p q) : (add a b).number = none := by
  rw [number_add, Binary64.value_add_of_opposite ha hb h]
  rfl

/-- A sum of other numbers is a number, and infinite as the summands tell. -/
theorem exists_number_add (ha : a.number = some p) (hb : b.number = some q)
    (h : ¬Binary64.Opposite p q) : ∃ r, (add a b).number = some r ∧
      (r = ⊤ ↔ Binary64.ReachesTop p q) ∧ (r = ⊥ ↔ Binary64.ReachesBot p q) := by
  obtain ⟨r, hr, htop, hbot⟩ := Binary64.exists_value_add a.isCanonical_unpacked
    b.isCanonical_unpacked ha hb h
  refine ⟨Binary64.saturate r, ?_, htop, hbot⟩
  rw [number_add, hr]
  rfl

/-- A number taken from a finite one leaves a number. -/
theorem exists_number_sub (ha : a.number = some (real x)) (hb : b.number = some q) :
    ∃ r, (sub a b).number = some r := by
  obtain ⟨r, hr⟩ := Binary64.exists_value_sub a.isCanonical_unpacked b.isCanonical_unpacked ha hb
  rw [number_sub, hr]
  exact ⟨_, rfl⟩

theorem number_sub_none (h : b.number = none) : (sub a b).number = none := by
  rw [number_sub, Binary64.value_sub_none h]
  rfl

/-- A number times a positive one is a number. -/
theorem exists_number_mul (ha : a.number = some p) (hb : b.number = some (real x))
    (hx : 0 < x) : ∃ r, (mul a b).number = some r := by
  obtain ⟨r, hr⟩ := Binary64.exists_value_mul a.isCanonical_unpacked b.isCanonical_unpacked ha
    hb hx
  rw [number_mul, hr]
  exact ⟨_, rfl⟩

/-- A finite number has a quotient by another that is not zero. -/
theorem exists_number_div (ha : a.number = some (real x)) (hb : b.number = some (real y))
    (hne : y ≠ 0) : ∃ r, (div a b).number = some r := by
  obtain ⟨_, z, _, hz⟩ := Binary64.isRounding_div ha hb hne
  rw [number_div, hz]
  exact ⟨_, rfl⟩

/-- A word is converted to a finite number, which is not zero if the word is not. -/
theorem exists_number_ofNat {n : ℕ} (hn : n ≤ 2 ^ 64) :
    ∃ y : ℚ, (ofNat n : Double).number = some (real y) ∧ (0 < n → y ≠ 0) := by
  obtain ⟨y, hy, hnumber⟩ := number_ofNat n
  have hlarge : Exact (2 ^ (64 : ℕ) : ℚ) := by
    refine ⟨1, 64, by norm_num, ?_, by norm_num, by norm_num⟩
    rw [abs_of_pos (by norm_num)]
    norm_num
  have hone : Exact ((1 : ℕ) : ℚ) := Binary64.exact_natCast (by norm_num)
  have hupper : y ≤ 2 ^ (64 : ℕ) := hy.mono hlarge.rounds_self (by exact_mod_cast hn)
  have hlower : 0 ≤ y := hy.nonneg n.cast_nonneg
  have hlimit : y < Binary64.limit :=
    hupper.trans_lt ((le_abs_self _).trans_lt hlarge.abs_lt_limit)
  rw [Binary64.saturate_real hlimit (by linarith [Binary64.limit_pos])] at hnumber
  refine ⟨y, hnumber, ?_⟩
  intro hpos
  have hle := hone.rounds_self.mono hy (Nat.cast_le.mpr hpos)
  rw [Nat.cast_one] at hle
  exact (zero_lt_one.trans_le hle).ne'

end Number

end Double

end FabricScheduler
