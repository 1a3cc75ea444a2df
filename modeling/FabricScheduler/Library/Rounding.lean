import Mathlib.Algebra.Order.Archimedean.Basic
import Mathlib.Algebra.Order.Field.Power
import Mathlib.Data.Int.Log
import Mathlib.Data.Rat.Floor
import Mathlib.Tactic.Linarith
import Mathlib.Tactic.NormNum
import Mathlib.Tactic.Positivity
import Mathlib.Tactic.Ring

/-!
# Rounding to a binary format

A binary format has significands of a fixed number of digits and a least exponent. Every
rational is rounded to a multiple of the unit its magnitude has in the format, to the
nearest one and to the even one of two. Rounding is monotone and keeps what is a multiple
of its unit already.
-/

/-- `r` is an integer nearest to `x`, the even one when there are two. -/
structure NearestEven (x : ℚ) (r : ℤ) : Prop where
  le_add_half : x ≤ r + 1 / 2
  sub_half_le : r - 1 / 2 ≤ x
  even : x = r + 1 / 2 ∨ x = r - 1 / 2 → Even r

namespace NearestEven

theorem neg {x : ℚ} {r : ℤ} (h : NearestEven x r) : NearestEven (-x) (-r) where
  le_add_half := by push_cast; linarith [h.sub_half_le]
  sub_half_le := by push_cast; linarith [h.le_add_half]
  even htie := by
    push_cast at htie
    rw [even_neg]
    apply h.even
    rcases htie with htie | htie
    · exact Or.inr (by linarith)
    · exact Or.inl (by linarith)

/-- An integer at less than half a unit is the nearest. -/
theorem of_close {x : ℚ} {r : ℤ} (hbelow : r - 1 / 2 < x) (habove : x < r + 1 / 2) :
    NearestEven x r where
  le_add_half := habove.le
  sub_half_le := hbelow.le
  even htie := by rcases htie with htie | htie <;> linarith

theorem intCast (n : ℤ) : NearestEven n n := of_close (by linarith) (by linarith)

/-- Rounding to the nearest integer is monotone. -/
theorem mono {x y : ℚ} {r s : ℤ} (hr : NearestEven x r) (hs : NearestEven y s) (h : x ≤ y) :
    r ≤ s := by
  by_contra hlt
  have hsucc : s + 1 ≤ r := by omega
  have hcast : (s : ℚ) + 1 ≤ r := by exact_mod_cast hsucc
  -- both are at distance one half, on either side
  have hxr := hr.sub_half_le
  have hys := hs.le_add_half
  have heven := hr.even (Or.inr (by linarith))
  have heven' := hs.even (Or.inl (by linarith))
  have hnext : r = s + 1 := by
    have hle : (r : ℚ) ≤ s + 1 := by linarith
    have hle' : r ≤ s + 1 := by exact_mod_cast hle
    omega
  obtain ⟨k, hk⟩ := heven
  obtain ⟨l, hl⟩ := heven'
  omega

end NearestEven

/-- A binary format: the digits of a significand and the least exponent. -/
structure BinaryFormat where
  digits : ℕ
  minExponent : ℤ
  digits_pos : 0 < digits := by decide

namespace BinaryFormat

variable {F : BinaryFormat} {x y x' y' : ℚ}

/-- The exponent of the unit that a rational is rounded to a multiple of. -/
def unitExponent (F : BinaryFormat) (x : ℚ) : ℤ :=
  max (Int.log 2 |x| + 1 - F.digits) F.minExponent

/-- The value of the unit. -/
def unit (F : BinaryFormat) (x : ℚ) : ℚ := 2 ^ F.unitExponent x

/-- `y` is the rounding of `x`. -/
def Rounds (F : BinaryFormat) (x y : ℚ) : Prop :=
  ∃ r : ℤ, NearestEven (x / F.unit x) r ∧ y = r * F.unit x

theorem unit_pos (F : BinaryFormat) (x : ℚ) : 0 < F.unit x :=
  zpow_pos (by norm_num) _

theorem unitExponent_neg (F : BinaryFormat) (x : ℚ) :
    F.unitExponent (-x) = F.unitExponent x := by
  rw [unitExponent, unitExponent, abs_neg]

theorem unit_neg (F : BinaryFormat) (x : ℚ) : F.unit (-x) = F.unit x := by
  rw [unit, unit, unitExponent_neg]

theorem rounds_zero (F : BinaryFormat) : F.Rounds 0 0 := by
  refine ⟨0, ?_, by simp⟩
  simpa using NearestEven.intCast 0

namespace Rounds

theorem neg (h : F.Rounds x y) : F.Rounds (-x) (-y) := by
  obtain ⟨r, hr, rfl⟩ := h
  refine ⟨-r, ?_, ?_⟩
  · rw [unit_neg, neg_div]
    exact hr.neg
  · rw [unit_neg]
    push_cast
    ring

/-- Rounding does not cross a multiple of the unit upwards. -/
theorem le_mul_unit (h : F.Rounds x y) {n : ℤ} (hx : x ≤ n * F.unit x) :
    y ≤ n * F.unit x := by
  obtain ⟨r, hr, rfl⟩ := h
  have hquot : x / F.unit x ≤ n := (div_le_iff₀ (F.unit_pos x)).mpr hx
  have hle : (r : ℚ) ≤ n := by exact_mod_cast hr.mono (.intCast n) hquot
  exact mul_le_mul_of_nonneg_right hle (F.unit_pos x).le

/-- Rounding does not cross a multiple of the unit downwards. -/
theorem mul_unit_le (h : F.Rounds x y) {n : ℤ} (hx : n * F.unit x ≤ x) :
    n * F.unit x ≤ y := by
  have hneg := h.neg.le_mul_unit (n := -n) (by rw [unit_neg]; push_cast; linarith)
  rw [unit_neg] at hneg
  push_cast at hneg
  linarith

theorem nonneg (h : F.Rounds x y) (hx : 0 ≤ x) : 0 ≤ y := by
  have := h.mul_unit_le (n := 0) (by simpa using hx)
  simpa using this

theorem nonpos (h : F.Rounds x y) (hx : x ≤ 0) : y ≤ 0 := by
  have := h.le_mul_unit (n := 0) (by simpa using hx)
  simpa using this

end Rounds

/-- A power of two that is not below the unit is a multiple of it. -/
theorem exists_mul_unit {p : ℤ} (hp : F.unitExponent x ≤ p) :
    ∃ n : ℤ, (2 : ℚ) ^ p = n * F.unit x := by
  refine ⟨2 ^ (p - F.unitExponent x).toNat, ?_⟩
  rw [unit]
  push_cast
  rw [← zpow_natCast, Int.toNat_of_nonneg (by omega), ← zpow_add₀ (by norm_num)]
  congr 1
  omega

/-- A multiple of a power of two that is not below the unit is its own rounding. -/
theorem rounds_self {n p : ℤ} (hx : x = n * 2 ^ p) (hp : F.unitExponent x ≤ p) :
    F.Rounds x x := by
  obtain ⟨k, hk⟩ := F.exists_mul_unit hp
  have hmultiple : x = (n * k : ℤ) * F.unit x := by
    rw [Int.cast_mul, mul_assoc, ← hk]
    exact hx
  refine ⟨n * k, ?_, hmultiple⟩
  have hquot : x / F.unit x = (n * k : ℤ) := by
    rw [div_eq_iff (F.unit_pos x).ne']
    exact hmultiple
  rw [hquot]
  exact .intCast _

/-- The unit of a number is bounded by its magnitude. -/
theorem unitExponent_le {p : ℤ} (hx : x ≠ 0) (hlt : |x| < 2 ^ (p + F.digits))
    (hmin : F.minExponent ≤ p) : F.unitExponent x ≤ p := by
  have hlog := (Int.lt_zpow_iff_log_lt (b := 2) (by norm_num) (abs_pos.mpr hx)).mp hlt
  unfold unitExponent
  omega

theorem unitExponent_mono (hx : 0 < x) (h : x ≤ x') :
    F.unitExponent x ≤ F.unitExponent x' := by
  have hlog : Int.log 2 |x| ≤ Int.log 2 |x'| := by
    rw [abs_of_pos hx, abs_of_pos (hx.trans_le h)]
    exact Int.log_mono_right hx h
  unfold unitExponent
  omega

theorem Rounds.mono_of_pos (h : F.Rounds x y) (h' : F.Rounds x' y') (hx : 0 < x)
    (hle : x ≤ x') : y ≤ y' := by
  have hx' : 0 < x' := hx.trans_le hle
  rcases (F.unitExponent_mono hx hle).eq_or_lt with heq | hlt
  · -- within one binade the units agree
    obtain ⟨r, hr, rfl⟩ := h
    obtain ⟨r', hr', rfl⟩ := h'
    have hunit : F.unit x' = F.unit x := by rw [unit, unit, heq]
    rw [hunit] at hr' ⊢
    have hquot : x / F.unit x ≤ x' / F.unit x :=
      div_le_div_of_nonneg_right hle (F.unit_pos x).le
    have hcast : (r : ℚ) ≤ r' := by exact_mod_cast hr.mono hr' hquot
    exact mul_le_mul_of_nonneg_right hcast (F.unit_pos x).le
  · -- otherwise the least number of the binade of `x'` lies between
    have hdigits := F.digits_pos
    have hmin : F.minExponent ≤ F.unitExponent x := le_max_right _ _
    have hexp : F.unitExponent x' = Int.log 2 x' + 1 - F.digits := by
      have hcase := max_choice (Int.log 2 |x'| + 1 - F.digits) F.minExponent
      rw [abs_of_pos hx'] at hcase
      unfold unitExponent at hlt hmin ⊢
      rw [abs_of_pos hx'] at hlt ⊢
      omega
    have hlog : Int.log 2 x < Int.log 2 x' := by
      have hbelow : Int.log 2 |x| + 1 - F.digits ≤ F.unitExponent x := le_max_left _ _
      rw [abs_of_pos hx] at hbelow
      omega
    have hbelow : x ≤ (2 : ℚ) ^ Int.log 2 x' :=
      ((Int.lt_zpow_iff_log_lt (by norm_num) hx).mpr hlog).le
    have habove : (2 : ℚ) ^ Int.log 2 x' ≤ x' := Int.zpow_log_le_self (by norm_num) hx'
    obtain ⟨n, hn⟩ := F.exists_mul_unit (x := x) (p := Int.log 2 x') (by omega)
    obtain ⟨n', hn'⟩ := F.exists_mul_unit (x := x') (p := Int.log 2 x') (by omega)
    calc y ≤ (2 : ℚ) ^ Int.log 2 x' := by rw [hn]; exact h.le_mul_unit (hn ▸ hbelow)
      _ ≤ y' := by rw [hn']; exact h'.mul_unit_le (hn' ▸ habove)

/-- Rounding is monotone. -/
theorem Rounds.mono (h : F.Rounds x y) (h' : F.Rounds x' y') (hle : x ≤ x') : y ≤ y' := by
  rcases lt_or_ge 0 x with hx | hx
  · exact h.mono_of_pos h' hx hle
  · rcases lt_or_ge x' 0 with hx' | hx'
    · have hneg := h'.neg.mono_of_pos h.neg (neg_pos.mpr hx') (neg_le_neg hle)
      exact neg_le_neg_iff.mp hneg
    · exact (h.nonpos hx).trans (h'.nonneg hx')

theorem Rounds.unique (h : F.Rounds x y) (h' : F.Rounds x y') : y = y' :=
  le_antisymm (h.mono h' le_rfl) (h'.mono h le_rfl)

end BinaryFormat
