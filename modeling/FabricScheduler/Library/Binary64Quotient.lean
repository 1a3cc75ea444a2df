import FabricScheduler.Library.Binary64Arithmetic

/-!
# Integers, differences and quotients of binary64 numbers

An integer is converted by rounding it, and a difference or a quotient of finite numbers is
the rounding of the exact one.
-/

open Float.Model (Format UnpackedFloat)
open Float.Model.UnpackedFloat

namespace Binary64

theorem isRounding_ofNat (n : ℕ) : IsRounding n (UnpackedFloat.ofNat Format.binary64 n) := by
  have hround := isRounding_normalize n 0 .positive
  rw [zpow_zero, mul_one, Int.cast_natCast] at hround
  exact hround

/-- An integer scaled by no power of ten is shifted and rounded. -/
theorem ofScientific_zero {n : ℕ} (hn : 0 < n) : ofScientific Format.binary64 n 0 =
    roundWithAccuracy Format.binary64 .positive (n <<< 53 * 1) (-53 + 0) .exact := by
  unfold ofScientific
  rw [dif_neg hn.ne']
  split
  · rename_i hlarge
    exact absurd hlarge (by decide)
  · split
    · rename_i hsmall
      have hbits : (2 : ℤ) ^ Format.binary64.exponentBits = 2048 := rfl
      rw [hbits] at hsmall
      omega
    · rw [if_pos le_rfl]
      rfl

/-- An integer of more digits than a significand is rounded so. -/
theorem isRounding_ofScientific {n : ℕ} (hn : 2 ^ 53 ≤ n) :
    IsRounding n (ofScientific Format.binary64 n 0) := by
  have hpos : 0 < n := (Nat.two_pow_pos 53).trans_le hn
  have hscaled : ((n <<< 53 * 1 : ℕ) : ℚ) * 2 ^ (-53 + 0 : ℤ) = n := by
    rw [mul_one, Nat.shiftLeft_eq, Nat.cast_mul, Nat.cast_pow, Nat.cast_ofNat, add_zero,
      mul_assoc, ← zpow_natCast, ← zpow_add₀ (by norm_num)]
    norm_num
  have hunit : -53 + 0 ≤ format.unitExponent n := by
    have hlog := log_magnitude hpos 0
    rw [magnitude, zpow_zero, mul_one] at hlog
    rw [BinaryFormat.unitExponent, hlog]
    simp only [format, Nat.cast_ofNat]
    omega
  have hproduct : 0 < n <<< 53 * 1 := by
    rw [Nat.shiftLeft_eq]
    positivity
  have hround := isRounding_roundWithAccuracy .positive (keeps_ofMantissa (n <<< 53 * 1))
    (Nat.cast_pos.mpr hproduct) (Or.inl hproduct) (e := -53 + 0) (by rw [hscaled]; exact hunit)
  rw [hscaled, signed_positive] at hround
  rw [ofScientific_zero hpos]
  exact hround

theorem signed_neg (s : Sign) (x : ℚ) : signed (-s) x = -signed s x := by
  cases s with
  | negative => exact (neg_neg x).symm
  | positive => rfl

/-- The quotient of two significands, with what the remainder says of its fraction. -/
theorem keeps_div (m : ℕ) {n : ℕ} (hn : 0 < n) :
    Keeps (.ofMantissaAndAccuracy (m / n) (accuracyOfFraction (m % n) n)) (m / n) := by
  have hcast : (0 : ℚ) < n := Nat.cast_pos.mpr hn
  have hrem : m % n < n := Nat.mod_lt m hn
  have hquot : (m : ℚ) / n = (m / n : ℕ) + (m % n : ℕ) / n := by
    have hsum : (m : ℚ) = n * (m / n : ℕ) + (m % n : ℕ) := by
      exact_mod_cast (Nat.div_add_mod m n).symm
    field_simp
    linarith
  rw [hquot]
  generalize m / n = q at *
  generalize m % n = r at *
  have hbelow : (r : ℚ) / n < 1 := (div_lt_one hcast).mpr (Nat.cast_lt.mpr hrem)
  unfold accuracyOfFraction
  split
  · rename_i hzero
    rw [hzero, Nat.cast_zero, zero_div, add_zero]
    exact keeps_ofMantissa q
  · rename_i hzero
    have hpos : 0 < (r : ℚ) / n := div_pos (Nat.cast_pos.mpr (Nat.pos_of_ne_zero hzero)) hcast
    rcases lt_trichotomy (2 * r) n with hlt | heq | hgt
    · have hhalf : (r : ℚ) / n < 1 / 2 := by
        have : (2 * r : ℚ) < n := by exact_mod_cast hlt
        rw [div_lt_div_iff₀ hcast two_pos]
        linarith
      rw [compare_lt_iff_lt.mpr hlt]
      change (q : ℚ) < _ ∧ _ < (q : ℚ) + 1 / 2
      constructor <;> linarith
    · have hhalf : (r : ℚ) / n = 1 / 2 := by
        have : (2 * r : ℚ) = n := by exact_mod_cast heq
        rw [div_eq_div_iff hcast.ne' two_ne_zero]
        linarith
      rw [compare_eq_iff_eq.mpr heq, hhalf]
      rfl
    · have hhalf : 1 / 2 < (r : ℚ) / n := by
        have : (n : ℚ) < 2 * r := by exact_mod_cast hgt
        rw [div_lt_div_iff₀ two_pos hcast]
        linarith
      rw [compare_gt_iff_gt.mpr hgt]
      change (q : ℚ) + 1 / 2 < _ ∧ _ < (q : ℚ) + 1
      constructor <;> linarith

/-- The magnitude of a quotient is at most one below the difference of the magnitudes. -/
theorem sub_log_le_log_div {m n : ℕ} (hm : 0 < m) (hn : 0 < n) (e f : ℤ) :
    m.log2 + e - (n.log2 + f) - 1 ≤ Int.log 2 |magnitude m e / magnitude n f| := by
  have hpos := div_pos (magnitude_pos hm e) (magnitude_pos hn f)
  rw [abs_of_pos hpos, ← Int.zpow_le_iff_le_log (by norm_num) hpos,
    le_div_iff₀ (magnitude_pos hn f)]
  have hupper : magnitude n f < 2 ^ ((n.log2 : ℤ) + 1 + f) := by
    have hlog := Int.lt_zpow_succ_log_self (b := 2) (by norm_num) |magnitude n f|
    rw [log_magnitude hn, abs_of_pos (magnitude_pos hn f)] at hlog
    rw [show (n.log2 : ℤ) + 1 + f = n.log2 + f + 1 by ring]
    exact hlog
  calc (2 : ℚ) ^ (m.log2 + e - (n.log2 + f) - 1) * magnitude n f
      ≤ 2 ^ (m.log2 + e - (n.log2 + f) - 1) * 2 ^ ((n.log2 : ℤ) + 1 + f) :=
        mul_le_mul_of_nonneg_left hupper.le (zpow_pos (by norm_num) _).le
    _ = 2 ^ ((m.log2 : ℤ) + e) := by
        rw [← zpow_add₀ (by norm_num)]
        congr 1
        ring
    _ ≤ magnitude m e := pow_le_magnitude (two_pow_log_le_cast hm) le_rfl

/-- The quotient of significands is formed with enough digits to be rounded. -/
theorem divCore_spec {m n : ℕ} (hm : 0 < m) (hn : 0 < n) (e f : ℤ) :
    ∃ q t accuracy x, divCore Format.binary64 m e n f = (q, t, accuracy) ∧
      Keeps (.ofMantissaAndAccuracy q accuracy) x ∧
      x * 2 ^ t = magnitude m e / magnitude n f ∧ (0 < q ∨ t ≤ -1074) ∧
      t ≤ format.unitExponent (magnitude m e / magnitude n f) := by
  have hdigits : ((Format.binary64.mantissaBits : ℕ) : ℤ) = 53 := rfl
  have hmin : Format.binary64.minExponent = -1074 := rfl
  obtain ⟨t, ht⟩ : ∃ t, min (e - f) (Format.binary64.targetExponent
      (Float.Model.totalExponent m e - Float.Model.totalExponent n f)) = t := ⟨_, rfl⟩
  have hcore : divCore Format.binary64 m e n f =
      ((m <<< (e - f - t).toNat) / n, t,
        accuracyOfFraction ((m <<< (e - f - t).toNat) % n) n) := by
    rw [divCore, ht]
  rw [Format.targetExponent, Float.Model.totalExponent, Float.Model.totalExponent, hdigits,
    hmin] at ht
  refine ⟨_, _, _, _, hcore, keeps_div _ hn, ?_, ?_, ?_⟩
  · have hshift : ((m <<< (e - f - t).toNat : ℕ) : ℚ) = m * 2 ^ (e - f - t) := by
      rw [Nat.shiftLeft_eq, Nat.cast_mul, Nat.cast_pow, Nat.cast_ofNat, ← zpow_natCast,
        Int.toNat_of_nonneg (by omega)]
    have hpow : (2 : ℚ) ^ (e - f - t) * 2 ^ t = 2 ^ e / 2 ^ f := by
      rw [← zpow_add₀ (by norm_num), ← zpow_sub₀ (by norm_num)]
      congr 1
      ring
    rw [hshift, div_mul_eq_mul_div, mul_assoc, hpow, magnitude, magnitude]
    ring
  · -- above the least exponent the quotient has all its digits
    by_cases hleast : t ≤ -1074
    · exact Or.inr hleast
    · left
      apply Nat.div_pos _ hn
      have hexponent : n.log2 + 1 ≤ m.log2 + (e - f - t).toNat := by omega
      calc n ≤ 2 ^ (n.log2 + 1) := Nat.lt_log2_self.le
        _ ≤ 2 ^ (m.log2 + (e - f - t).toNat) := Nat.pow_le_pow_right two_pos hexponent
        _ = 2 ^ m.log2 * 2 ^ (e - f - t).toNat := pow_add ..
        _ ≤ m * 2 ^ (e - f - t).toNat :=
            Nat.mul_le_mul_right _ (Nat.log2_self_le hm.ne')
        _ = m <<< (e - f - t).toNat := (Nat.shiftLeft_eq ..).symm
  · have hlog := sub_log_le_log_div hm hn e f
    rw [BinaryFormat.unitExponent]
    simp only [format, Nat.cast_ofNat]
    omega

theorem signed_div (s t : Sign) (x y : ℚ) : signed s x / signed t y = signed (s / t) (x / y) := by
  cases s <;> cases t <;> simp only [signed_negative, signed_positive] <;>
    first | exact neg_div_neg_eq x y | exact neg_div y x | exact div_neg x | rfl

section Finite

variable {a b : UnpackedFloat} {x y : ℚ}

/-- A difference of finite numbers is the rounding of the exact difference. -/
theorem isRounding_sub (ha : IsCanonical a) (hb : IsCanonical b)
    (hx : value a = some (real x)) (hy : value b = some (real y)) :
    IsRounding (x - y) (sub Format.binary64 a b) := by
  rcases value_eq_real hx with ⟨s, rfl, rfl⟩ | ⟨s, m, e, hm, rfl, rfl⟩
  · rcases value_eq_real hy with ⟨t, rfl, rfl⟩ | ⟨t, n, f, hn, rfl, rfl⟩
    · rw [sub_zero, sub]
      split
      · exact isRounding_zero s
      · exact isRounding_zero .positive
    · rw [zero_sub, ← signed_neg]
      exact isRounding_finite (-t) hn hb
  · rcases value_eq_real hy with ⟨t, rfl, rfl⟩ | ⟨t, n, f, hn, rfl, rfl⟩
    · rw [sub_zero]
      exact isRounding_finite s hm ha
    · have hdifference := isRounding_normalize
        (s.apply (decreaseExponent m e (min e f)).1 - t.apply (decreaseExponent n f (min e f)).1)
        (min e f) .positive
      rw [Int.cast_sub, sub_mul, signed_apply, signed_apply, magnitude_decreaseExponent_min
        (min_le_left e f), magnitude_decreaseExponent_min (min_le_right e f)] at hdifference
      exact hdifference

/-- A quotient of finite numbers is the rounding of the exact quotient. -/
theorem isRounding_div (hx : value a = some (real x)) (hy : value b = some (real y))
    (hne : y ≠ 0) : IsRounding (x / y) (div Format.binary64 a b) := by
  rcases value_eq_real hy with ⟨t, rfl, rfl⟩ | ⟨t, n, f, hn, rfl, rfl⟩
  · exact absurd rfl hne
  · rcases value_eq_real hx with ⟨s, rfl, rfl⟩ | ⟨s, m, e, hm, rfl, rfl⟩
    · rw [zero_div]
      exact isRounding_zero (s / t)
    · obtain ⟨q, k, accuracy, z, hcore, hkeeps, hvalue, hq, hk⟩ := divCore_spec hm hn e f
      have hpos := div_pos (magnitude_pos hm e) (magnitude_pos hn f)
      have hz : 0 < z := by
        rw [← hvalue] at hpos
        exact pos_of_mul_pos_left hpos (zpow_pos (by norm_num) k).le
      rw [← hvalue] at hk
      have hround := isRounding_roundWithAccuracy (s / t) hkeeps hz hq hk
      rw [hvalue] at hround
      rw [signed_div, div, hcore]
      exact hround

theorem isCanonical_sub (ha : IsCanonical a) (hb : IsCanonical b) :
    IsCanonical (sub Format.binary64 a b) := by
  cases a with
  | notANumber => trivial
  | infinity s =>
      cases b with
      | infinity t => rw [sub]; split <;> trivial
      | _ => trivial
  | zero s =>
      cases b with
      | zero t => rw [sub]; split <;> trivial
      | finite t n f hn => exact hb
      | _ => trivial
  | finite s m e hm =>
      cases b with
      | finite t n f hn => exact (isRounding_sub ha hb rfl rfl).1
      | zero t => exact ha
      | _ => trivial

theorem isCanonical_div (a b : UnpackedFloat) : IsCanonical (div Format.binary64 a b) := by
  cases a with
  | finite s m e hm =>
      cases b with
      | finite t n f hn =>
          refine (isRounding_div (x := signed s (magnitude m e))
            (y := signed t (magnitude n f)) rfl rfl ?_).1
          have hpos := magnitude_pos hn f
          cases t with
          | negative => exact (neg_lt_zero.mpr hpos).ne
          | positive => exact hpos.ne'
      | _ => trivial
  | _ => cases b <;> trivial

end Finite

end Binary64
