import FabricScheduler.Library.Binary64

/-!
# Sums and products of binary64 numbers

A sum or product of finite numbers is the rounding of the exact one, so both operations
are monotone in the order of the values, infinities and overflow included.
-/

open Float.Model (Format UnpackedFloat)
open Float.Model.UnpackedFloat

namespace Binary64

/-- What the kept significand and the two residual bits say about a rational. -/
def Keeps (em : ExtendedMantissa) (x : ℚ) : Prop :=
  match em.roundBit, em.stickyBit with
  | false, false => x = em.mantissa
  | false, true => em.mantissa < x ∧ x < em.mantissa + 1 / 2
  | true, false => x = em.mantissa + 1 / 2
  | true, true => em.mantissa + 1 / 2 < x ∧ x < em.mantissa + 1

theorem keeps_ofMantissa (m : ℕ) : Keeps (.ofMantissaAndAccuracy m .exact) m := rfl

/-- A shift by one digit keeps what is known of half the number. -/
theorem Keeps.shiftRightOne {em : ExtendedMantissa} {x : ℚ} (h : Keeps em x) :
    Keeps em.shiftRightOne (x / 2) := by
  obtain ⟨m, round, sticky⟩ := em
  rcases Nat.even_or_odd' m with ⟨k, rfl | rfl⟩
  · have hhalf : 2 * k / 2 = k := by omega
    have hdigit : (2 * k % 2 != 0) = false := by simp
    cases round <;> cases sticky <;>
      simp only [Keeps, ExtendedMantissa.shiftRightOne, hhalf, hdigit, Bool.or_false,
        Bool.or_true, Nat.cast_mul, Nat.cast_ofNat] at h ⊢
    · linarith
    · constructor <;> linarith
    · constructor <;> linarith
    · constructor <;> linarith
  · have hhalf : (2 * k + 1) / 2 = k := by omega
    have hdigit : ((2 * k + 1) % 2 != 0) = true := by simp
    cases round <;> cases sticky <;>
      simp only [Keeps, ExtendedMantissa.shiftRightOne, hhalf, hdigit, Bool.or_false,
        Bool.or_true, Nat.cast_add, Nat.cast_mul, Nat.cast_ofNat, Nat.cast_one] at h ⊢
    · linarith
    · constructor <;> linarith
    · constructor <;> linarith
    · constructor <;> linarith

theorem Keeps.shiftRight {em : ExtendedMantissa} {x : ℚ} (h : Keeps em x) (n : ℕ) :
    Keeps (em >>> n) (x / 2 ^ n) := by
  induction n with
  | zero =>
      rw [pow_zero, div_one]
      exact h
  | succ n ih =>
      rw [pow_succ, ← div_div]
      exact ih.shiftRightOne

/-- The significand is rounded to the nearest integer. -/
theorem Keeps.nearestEven {em : ExtendedMantissa} {x : ℚ} (h : Keeps em x) :
    NearestEven x em.roundedMantissa := by
  obtain ⟨m, round, sticky⟩ := em
  cases round with
  | false =>
      have hround : (ExtendedMantissa.mk m false sticky).roundedMantissa = m := by
        cases sticky <;> rfl
      rw [hround]
      cases sticky with
      | false =>
          obtain rfl : x = m := h
          exact .intCast m
      | true =>
          obtain ⟨hlt, hgt⟩ : (m : ℚ) < x ∧ x < m + 1 / 2 := h
          apply NearestEven.of_close
          · push_cast; linarith
          · push_cast; linarith
  | true =>
      cases sticky with
      | false =>
          obtain rfl : x = m + 1 / 2 := h
          -- of the two integers at half a unit the even one is taken
          change NearestEven _ ((m + m % 2 : ℕ) : ℤ)
          have heven : Even (m + m % 2) := by
            rw [Nat.even_iff]
            omega
          have hparity : m % 2 ≤ 1 := by omega
          generalize m % 2 = k at heven hparity ⊢
          have hk : (0 : ℚ) ≤ k := k.cast_nonneg
          have hk' : (k : ℚ) ≤ 1 := by exact_mod_cast hparity
          constructor
          · push_cast; linarith
          · push_cast; linarith
          · intro _
            exact (Int.even_coe_nat _).mpr heven
      | true =>
          obtain ⟨hlt, hgt⟩ : (m : ℚ) + 1 / 2 < x ∧ x < m + 1 := h
          change NearestEven _ ((m + 1 : ℕ) : ℤ)
          apply NearestEven.of_close
          · push_cast; linarith
          · push_cast; linarith

/-- What is kept is the integer part. -/
theorem Keeps.bounds {em : ExtendedMantissa} {x : ℚ} (h : Keeps em x) :
    em.mantissa ≤ x ∧ x < em.mantissa + 1 := by
  obtain ⟨m, round, sticky⟩ := em
  cases round <;> cases sticky <;> simp only [Keeps] at h ⊢
  · constructor <;> linarith
  · constructor <;> linarith
  · constructor <;> linarith
  · constructor <;> linarith

theorem two_pow_log_le_cast {m : ℕ} (hm : 0 < m) : (2 : ℚ) ^ (m.log2 : ℤ) ≤ m := by
  rw [zpow_natCast]
  exact_mod_cast Nat.log2_self_le hm.ne'

/-- The magnitude of a number is that of its integer part. -/
theorem log_mul_zpow {m : ℕ} (hm : 0 < m) {x : ℚ} (hle : m ≤ x) (hlt : x < m + 1) (e : ℤ) :
    Int.log 2 |x * 2 ^ e| = m.log2 + e := by
  have hunit : (0 : ℚ) < 2 ^ e := zpow_pos (by norm_num) e
  have hcast : (0 : ℚ) < m := Nat.cast_pos.mpr hm
  have hpos : 0 < x * 2 ^ e := mul_pos (hcast.trans_le hle) hunit
  rw [abs_of_pos hpos]
  apply le_antisymm
  · have hbelow : x < 2 ^ ((m.log2 : ℤ) + 1) := by
      have hnat : m + 1 ≤ 2 ^ (m.log2 + 1) := Nat.lt_log2_self
      exact hlt.trans_le (by exact_mod_cast hnat)
    have hscaled : x * 2 ^ e < 2 ^ ((m.log2 : ℤ) + e + 1) := by
      rw [show (m.log2 : ℤ) + e + 1 = m.log2 + 1 + e by ring, zpow_add₀ (by norm_num)]
      exact mul_lt_mul_of_pos_right hbelow hunit
    exact Int.lt_add_one_iff.mp ((Int.lt_zpow_iff_log_lt (by norm_num) hpos).mp hscaled)
  · have habove : 2 ^ (m.log2 : ℤ) ≤ x := (two_pow_log_le_cast hm).trans hle
    have hscaled : 2 ^ ((m.log2 : ℤ) + e) ≤ x * 2 ^ e := by
      rw [zpow_add₀ (by norm_num)]
      exact mul_le_mul_of_nonneg_right habove hunit.le
    exact (Int.zpow_le_iff_le_log (by norm_num) hpos).mp hscaled

theorem log_magnitude {m : ℕ} (hm : 0 < m) (e : ℤ) :
    Int.log 2 |magnitude m e| = m.log2 + e :=
  log_mul_zpow hm le_rfl (by linarith) e

/-- The exponent a number is shifted to is that of its unit, unless it has no integer part at
an exponent above the least. -/
theorem targetExponent_eq {m : ℕ} {e : ℤ} (hm : 0 < m ∨ e ≤ -1074) {x : ℚ} (hpos : 0 < x)
    (hle : m ≤ x) (hlt : x < m + 1) :
    Format.binary64.targetExponent (Float.Model.totalExponent m e) =
      format.unitExponent (x * 2 ^ e) := by
  have hdigits : ((Format.binary64.mantissaBits : ℕ) : ℤ) = 53 := rfl
  have hmin : Format.binary64.minExponent = -1074 := rfl
  rw [BinaryFormat.unitExponent, Format.targetExponent, Float.Model.totalExponent, hdigits,
    hmin]
  simp only [format, Nat.cast_ofNat]
  rcases Nat.eq_zero_or_pos m with rfl | hm'
  · have hscaled : 0 < x * 2 ^ e := mul_pos hpos (zpow_pos (by norm_num) e)
    have hbelow : x * 2 ^ e < 2 ^ e := by
      rw [Nat.cast_zero, zero_add] at hlt
      exact mul_lt_of_lt_one_left (zpow_pos (by norm_num) e) hlt
    have hlog := (Int.lt_zpow_iff_log_lt (b := 2) (by norm_num) hscaled).mp hbelow
    rw [abs_of_pos hscaled, Nat.log2_zero]
    omega
  · rw [log_mul_zpow hm' hle hlt]
    congr 1
    omega

theorem Canonical.unitExponent_eq {m : ℕ} {e : ℤ} (hm : 0 < m) (h : Canonical m e) :
    format.unitExponent (magnitude m e) = e := by
  have hlog : m.log2 < 53 := (Nat.log2_lt hm.ne').mpr h.lt
  have hmin := h.minExponent_le
  rw [BinaryFormat.unitExponent, log_magnitude hm]
  simp only [format, Nat.cast_ofNat]
  rcases h.normal with hfull | rfl
  · have hlog' : 52 ≤ m.log2 := (Nat.le_log2 hm.ne').mpr hfull
    omega
  · omega

/-- The first shift leaves the significand at the unit, with what rounding it needs. -/
theorem nearestEven_shift {em : ExtendedMantissa} {x : ℚ} (h : Keeps em x) {e t : ℤ}
    (he : e ≤ t) :
    NearestEven (x * 2 ^ e / 2 ^ t) (em >>> (t - e).toNat).roundedMantissa := by
  have hquot : x * 2 ^ e / 2 ^ t = x / 2 ^ (t - e).toNat := by
    have hpow : (2 : ℚ) ^ t = 2 ^ e * 2 ^ (t - e).toNat := by
      rw [← zpow_natCast, Int.toNat_of_nonneg (by omega), ← zpow_add₀ (by norm_num)]
      congr 1
      omega
    rw [hpow, mul_comm x, mul_div_mul_left _ _ (zpow_pos (by norm_num) e).ne']
  rw [hquot]
  exact (h.shiftRight _).nearestEven

/-- A significand that rounding has carried past its digits is shifted once more, without
loss. -/
theorem shift_carry {r : ℕ} {t : ℤ} (hr : r ≤ 2 ^ 53) (h : -1074 ≤ t)
    (hnormal : 2 ^ 52 ≤ r ∨ t = -1074) :
    ∃ em f, shiftToTargetExponent Format.binary64 r t .exact = (em, f) ∧
      Canonical em.mantissa f ∧ magnitude em.mantissa f = magnitude r t := by
  have hdigits : ((Format.binary64.mantissaBits : ℕ) : ℤ) = 53 := rfl
  have hmin : Format.binary64.minExponent = -1074 := rfl
  rcases hr.lt_or_eq with hlt | rfl
  · have htarget : (Format.binary64.targetExponent (Float.Model.totalExponent r t) - t).toNat =
        0 := by
      have hlog : r.log2 < 53 := by
        rcases Nat.eq_zero_or_pos r with rfl | hpos
        · decide
        · exact (Nat.log2_lt hpos.ne').mpr hlt
      rw [Format.targetExponent, Float.Model.totalExponent, hdigits, hmin]
      omega
    refine ⟨⟨r, false, false⟩, t, ?_, ⟨hlt, h, hnormal⟩, rfl⟩
    rw [shiftToTargetExponent, shiftToExponent, htarget, Nat.cast_zero, add_zero]
    rfl
  · have htarget : (Format.binary64.targetExponent (Float.Model.totalExponent (2 ^ 53) t) -
        t).toNat = 1 := by
      rw [Format.targetExponent, Float.Model.totalExponent, Nat.log2_two_pow, hdigits, hmin]
      omega
    refine ⟨⟨2 ^ 52, false, false⟩, t + 1, ?_, ⟨by norm_num, by omega, Or.inl le_rfl⟩, ?_⟩
    · rw [shiftToTargetExponent, shiftToExponent, htarget]
      rfl
    · rw [magnitude, magnitude, zpow_add₀ (by norm_num)]
      push_cast
      ring

theorem real_injective {x y : ℚ} (h : real x = real y) : x = y :=
  WithTop.coe_injective (WithBot.coe_injective h)

theorem value_eq_real {a : UnpackedFloat} {x : ℚ} (h : value a = some (real x)) :
    (∃ s, a = .zero s ∧ x = 0) ∨
      ∃ s m e hm, a = .finite s m e hm ∧ x = signed s (magnitude m e) := by
  cases a with
  | notANumber => cases h
  | infinity s =>
      cases s with
      | negative => exact absurd (Option.some.inj h) (bot_lt_real x).ne
      | positive => exact absurd (Option.some.inj h) (real_lt_top x).ne'
  | zero s => exact Or.inl ⟨s, rfl, (real_injective (Option.some.inj h)).symm⟩
  | finite s m e hm =>
      exact Or.inr ⟨s, m, e, hm, rfl, (real_injective (Option.some.inj h)).symm⟩

/-- A stored float that denotes the rounding of `x`. -/
def IsRounding (x : ℚ) (a : UnpackedFloat) : Prop :=
  IsCanonical a ∧ ∃ y, format.Rounds x y ∧ value a = some (real y)

theorem isRounding_zero (s : Sign) : IsRounding 0 (.zero s) :=
  ⟨trivial, 0, format.rounds_zero, rfl⟩

theorem Rounds.signed {x y : ℚ} (h : format.Rounds x y) (s : Sign) :
    format.Rounds (signed s x) (signed s y) := by
  cases s with
  | negative => exact h.neg
  | positive => exact h

/-- What is stored is its own rounding. -/
theorem isRounding_finite (s : Sign) {m : ℕ} {e : ℤ} (hm : 0 < m) (h : Canonical m e) :
    IsRounding (signed s (magnitude m e)) (.finite s m e hm) := by
  have hself : format.Rounds (magnitude m e) (magnitude m e) := by
    refine ⟨m, ?_, ?_⟩
    · rw [BinaryFormat.unit, h.unitExponent_eq hm, magnitude,
        mul_div_cancel_right₀ _ (zpow_pos (by norm_num) e).ne']
      exact NearestEven.intCast m
    · rw [BinaryFormat.unit, h.unitExponent_eq hm]
      rfl
  exact ⟨h, _, Rounds.signed hself s, rfl⟩

/-- Roundings are ordered as what they round. -/
theorem IsRounding.le {x y : ℚ} {a b : UnpackedFloat} {p q : Extended} (h : IsRounding x a)
    (h' : IsRounding y b) (hp : p ∈ value a) (hq : q ∈ value b) (hyx : y ≤ x) : q ≤ p := by
  obtain ⟨_, p', hrounds, hp'⟩ := h
  obtain ⟨_, q', hrounds', hq'⟩ := h'
  obtain rfl := Option.some.inj (hp.symm.trans hp')
  obtain rfl := Option.some.inj (hq.symm.trans hq')
  exact real_le_real.mpr (hrounds'.mono hrounds hyx)

/-- What can be stored exactly is. -/
theorem IsRounding.value_eq {x : ℚ} {a c : UnpackedFloat} (h : IsRounding x a)
    (hc : IsCanonical c) (hx : value c = some (real x)) : value a = some (real x) := by
  have hself : IsRounding x c := by
    rcases value_eq_real hx with ⟨s, rfl, rfl⟩ | ⟨s, m, e, hm, rfl, rfl⟩
    · exact isRounding_zero s
    · exact isRounding_finite s hm hc
  obtain ⟨y, _, hy⟩ := h.2
  have hyx := le_antisymm (hself.le h hx hy le_rfl) (h.le hself hy hx le_rfl)
  rw [hy, hyx]

/-- The rounded significand has the digits of the format, or one more by a carry. -/
theorem significand_of_nearestEven {x : ℚ} {r : ℕ} (hx : 0 < x)
    (h : NearestEven (x / 2 ^ format.unitExponent x) r) :
    r ≤ 2 ^ 53 ∧ -1074 ≤ format.unitExponent x ∧
      (2 ^ 52 ≤ r ∨ format.unitExponent x = -1074) := by
  obtain ⟨t, ht⟩ : ∃ t, format.unitExponent x = t := ⟨_, rfl⟩
  rw [ht] at h ⊢
  have hlog : Int.log 2 x + 1 - 53 ≤ t ∧ -1074 ≤ t ∧
      (t = Int.log 2 x + 1 - 53 ∨ t = -1074) := by
    rw [BinaryFormat.unitExponent, abs_of_pos hx] at ht
    simp only [format, Nat.cast_ofNat] at ht
    omega
  have hunit : (0 : ℚ) < 2 ^ t := zpow_pos (by norm_num) t
  refine ⟨?_, hlog.2.1, ?_⟩
  · have hlt : x < 2 ^ ((53 : ℤ) + t) :=
      (Int.lt_zpow_succ_log_self (b := 2) (by norm_num) x).trans_le
        (zpow_le_zpow_right₀ (by norm_num) (by omega))
    have hquot : x / 2 ^ t ≤ ((2 ^ 53 : ℤ) : ℚ) := by
      rw [div_le_iff₀ hunit]
      rw [zpow_add₀ (by norm_num)] at hlt
      exact_mod_cast hlt.le
    exact_mod_cast h.mono (.intCast _) hquot
  · rcases hlog.2.2 with hexact | hmin
    · have hle : 2 ^ ((52 : ℤ) + t) ≤ x :=
        (zpow_le_zpow_right₀ (by norm_num) (by omega)).trans
          (Int.zpow_log_le_self (b := 2) (by norm_num) hx)
      have hquot : ((2 ^ 52 : ℤ) : ℚ) ≤ x / 2 ^ t := by
        rw [le_div_iff₀ hunit]
        rw [zpow_add₀ (by norm_num)] at hle
        exact_mod_cast hle
      exact Or.inl (by exact_mod_cast NearestEven.mono (.intCast _) h hquot)
    · exact Or.inr hmin

/-- What a significand is known to keep of a number is rounded, at an exponent that does not
exceed the unit of the number. -/
theorem isRounding_roundWithAccuracy (s : Sign) {m : ℕ} {e : ℤ} {accuracy : Accuracy} {x : ℚ}
    (h : Keeps (.ofMantissaAndAccuracy m accuracy) x) (hx : 0 < x) (hm : 0 < m ∨ e ≤ -1074)
    (he : e ≤ format.unitExponent (x * 2 ^ e)) :
    IsRounding (signed s (x * 2 ^ e)) (roundWithAccuracy Format.binary64 s m e accuracy) := by
  have hmantissa : (ExtendedMantissa.ofMantissaAndAccuracy m accuracy).mantissa = m := by
    unfold ExtendedMantissa.ofMantissaAndAccuracy
    split <;> rfl
  have hbounds := h.bounds
  rw [hmantissa] at hbounds
  have htarget := targetExponent_eq hm hx hbounds.1 hbounds.2
  have hnear := nearestEven_shift h he
  obtain ⟨r, hr⟩ : ∃ r, (ExtendedMantissa.ofMantissaAndAccuracy m accuracy >>>
      (format.unitExponent (x * 2 ^ e) - e).toNat).roundedMantissa = r := ⟨_, rfl⟩
  rw [hr] at hnear
  obtain ⟨hupper, hmin, hlower⟩ :=
    significand_of_nearestEven (mul_pos hx (zpow_pos (by norm_num) e)) hnear
  obtain ⟨t, ht⟩ : ∃ t, format.unitExponent (x * 2 ^ e) = t := ⟨_, rfl⟩
  rw [ht] at he hnear hr hmin hlower htarget
  obtain ⟨em, f, hcarry, hcanonical, hvalue⟩ := shift_carry hupper hmin hlower
  have hfirst : shiftToTargetExponent Format.binary64 m e accuracy =
      (ExtendedMantissa.ofMantissaAndAccuracy m accuracy >>> (t - e).toNat, t) := by
    rw [shiftToTargetExponent, shiftToExponent, htarget, Int.toNat_of_nonneg (by omega)]
    congr 1
    omega
  have hrounds : format.Rounds (x * 2 ^ e) (magnitude em.mantissa f) := by
    refine ⟨r, ?_, ?_⟩
    · rw [BinaryFormat.unit, ht]
      exact hnear
    · rw [BinaryFormat.unit, ht, hvalue]
      rfl
  unfold roundWithAccuracy
  simp only [hfirst, hr, hcarry]
  split
  · rename_i hzero
    have hnil : magnitude em.mantissa f = 0 := by simp [magnitude, hzero]
    rw [hnil] at hrounds
    refine ⟨trivial, 0, ?_, rfl⟩
    cases s with
    | negative => simpa using hrounds.neg
    | positive => exact hrounds
  · exact ⟨hcanonical, _, Rounds.signed hrounds s, rfl⟩

theorem magnitude_decreaseExponent (m : ℕ) (e t : ℤ) :
    magnitude (decreaseExponent m e t).1 (decreaseExponent m e t).2 = magnitude m e := by
  simp only [decreaseExponent, magnitude, Nat.shiftLeft_eq, Nat.cast_mul, Nat.cast_pow,
    Nat.cast_ofNat]
  rw [← zpow_natCast, mul_assoc, ← zpow_add₀ (by norm_num)]
  congr 2
  omega

/-- The significand at a lower exponent. -/
theorem magnitude_decreaseExponent_min {m : ℕ} {e t : ℤ} (ht : t ≤ e) :
    magnitude (decreaseExponent m e t).1 t = magnitude m e := by
  have hexponent : (decreaseExponent m e t).2 = t := by
    simp only [decreaseExponent]
    omega
  have hsame := magnitude_decreaseExponent m e t
  rwa [hexponent] at hsame

theorem isRounding_round (s : Sign) {m : ℕ} (hm : 0 < m) (e : ℤ) :
    IsRounding (signed s (magnitude m e)) (UnpackedFloat.round Format.binary64 s m e) := by
  have hcast : (0 : ℚ) < m := Nat.cast_pos.mpr hm
  have htarget := targetExponent_eq (e := e) (Or.inl hm) hcast le_rfl (by linarith)
  obtain ⟨t, ht⟩ : ∃ t, format.unitExponent (m * 2 ^ e) = t := ⟨_, rfl⟩
  have hsame := magnitude_decreaseExponent m e t
  have hpos : 0 < (decreaseExponent m e t).1 := by
    rw [decreaseExponent, Nat.shiftLeft_eq]
    positivity
  have hexponent : (decreaseExponent m e t).2 ≤ t := by
    simp only [decreaseExponent]
    omega
  have hround := isRounding_roundWithAccuracy s (keeps_ofMantissa _) (Nat.cast_pos.mpr hpos)
    (Or.inl hpos) (by
      change _ ≤ format.unitExponent (magnitude _ _)
      rw [hsame, magnitude, ht]
      exact hexponent)
  rw [UnpackedFloat.round, htarget, ht, ← hsame]
  exact hround

/-- An integer at an exponent is rounded. -/
theorem isRounding_normalize (m e : ℤ) (s : Sign) :
    IsRounding (m * 2 ^ e) (UnpackedFloat.normalize Format.binary64 m e s) := by
  unfold UnpackedFloat.normalize
  rcases lt_trichotomy m 0 with hneg | rfl | hpos
  · rw [compare_lt_iff_lt.mpr hneg]
    have hround := isRounding_round .negative (m := (-m).toNat) (by omega) e
    have hcast : (((-m).toNat : ℕ) : ℚ) = -m := by
      exact_mod_cast Int.toNat_of_nonneg (by omega : 0 ≤ -m)
    rw [magnitude, hcast, signed_negative, neg_mul, neg_neg] at hround
    exact hround
  · rw [compare_eq_iff_eq.mpr rfl, Int.cast_zero, zero_mul]
    exact isRounding_zero s
  · rw [compare_gt_iff_gt.mpr hpos]
    have hround := isRounding_round .positive (m := m.toNat) (by omega) e
    have hcast : ((m.toNat : ℕ) : ℚ) = m := by
      exact_mod_cast Int.toNat_of_nonneg hpos.le
    rw [magnitude, hcast, signed_positive] at hround
    exact hround

theorem signed_apply (s : Sign) (m : ℕ) (e : ℤ) :
    ((s.apply m : ℤ) : ℚ) * 2 ^ e = signed s (magnitude m e) := by
  cases s with
  | negative => simp [Sign.apply, magnitude]
  | positive => simp [Sign.apply, magnitude]

theorem signed_mul (s t : Sign) (x y : ℚ) : signed s x * signed t y = signed (s * t) (x * y) := by
  cases s <;> cases t <;> simp only [signed_negative, signed_positive] <;>
    first | exact neg_mul_neg x y | exact neg_mul x y | exact mul_neg x y | rfl

section Finite

variable {a b : UnpackedFloat} {x y : ℚ}

/-- A sum of finite numbers is the rounding of the exact sum. -/
theorem isRounding_add (ha : IsCanonical a) (hb : IsCanonical b)
    (hx : value a = some (real x)) (hy : value b = some (real y)) :
    IsRounding (x + y) (add Format.binary64 a b) := by
  rcases value_eq_real hx with ⟨s, rfl, rfl⟩ | ⟨s, m, e, hm, rfl, rfl⟩
  · rcases value_eq_real hy with ⟨t, rfl, rfl⟩ | ⟨t, n, f, hn, rfl, rfl⟩
    · rw [add_zero, add]
      split
      · exact isRounding_zero s
      · exact isRounding_zero .positive
    · rw [zero_add]
      exact isRounding_finite t hn hb
  · rcases value_eq_real hy with ⟨t, rfl, rfl⟩ | ⟨t, n, f, hn, rfl, rfl⟩
    · rw [add_zero]
      exact isRounding_finite s hm ha
    · have hsum := isRounding_normalize
        (s.apply (decreaseExponent m e (min e f)).1 + t.apply (decreaseExponent n f (min e f)).1)
        (min e f) .positive
      rw [Int.cast_add, add_mul, signed_apply, signed_apply, magnitude_decreaseExponent_min
        (min_le_left e f), magnitude_decreaseExponent_min (min_le_right e f)] at hsum
      exact hsum

/-- An exact product has all its digits at or above the unit it is rounded to. -/
theorem Canonical.mul_le_unit {m n : ℕ} {e f : ℤ} (h : Canonical m e) (h' : Canonical n f)
    (hm : 0 < m) (hn : 0 < n) :
    e + f ≤ format.unitExponent (magnitude (m * n) (e + f)) := by
  have hpos := Nat.mul_pos hm hn
  rw [BinaryFormat.unitExponent, log_magnitude hpos]
  simp only [format, Nat.cast_ofNat]
  have hlog : e = -1074 ∧ f = -1074 ∨ 52 ≤ (m * n).log2 := by
    rcases h.normal with hfull | he
    · have hle : 2 ^ 52 ≤ m * n := hfull.trans (Nat.le_mul_of_pos_right m hn)
      exact Or.inr ((Nat.le_log2 hpos.ne').mpr hle)
    · rcases h'.normal with hfull | hf
      · have hle : 2 ^ 52 ≤ m * n := hfull.trans (Nat.le_mul_of_pos_left n hm)
        exact Or.inr ((Nat.le_log2 hpos.ne').mpr hle)
      · exact Or.inl ⟨he, hf⟩
  omega

/-- A product of finite numbers is the rounding of the exact product. -/
theorem isRounding_mul (ha : IsCanonical a) (hb : IsCanonical b)
    (hx : value a = some (real x)) (hy : value b = some (real y)) :
    IsRounding (x * y) (mul Format.binary64 a b) := by
  rcases value_eq_real hx with ⟨s, rfl, rfl⟩ | ⟨s, m, e, hm, rfl, rfl⟩
  · rw [zero_mul]
    rcases value_eq_real hy with ⟨t, rfl, rfl⟩ | ⟨t, n, f, hn, rfl, rfl⟩
    · exact isRounding_zero (s * t)
    · exact isRounding_zero (s * t)
  · rcases value_eq_real hy with ⟨t, rfl, rfl⟩ | ⟨t, n, f, hn, rfl, rfl⟩
    · rw [mul_zero]
      exact isRounding_zero (s * t)
    · have hproduct : magnitude m e * magnitude n f = magnitude (m * n) (e + f) := by
        simp only [magnitude, Nat.cast_mul]
        rw [zpow_add₀ (by norm_num)]
        ring
      rw [signed_mul, hproduct]
      have hpos := Nat.mul_pos hm hn
      exact isRounding_roundWithAccuracy (s * t) (keeps_ofMantissa _) (Nat.cast_pos.mpr hpos)
        (Or.inl hpos) (ha.mul_le_unit hb hm hn)

end Finite

theorem value_eq_top {a : UnpackedFloat} (h : value a = some ⊤) : a = .infinity .positive := by
  cases a with
  | notANumber => cases h
  | infinity s =>
      cases s with
      | negative => exact absurd (Option.some.inj h) bot_ne_top
      | positive => rfl
  | zero s => exact absurd (Option.some.inj h) (real_lt_top 0).ne
  | finite s m e hm => exact absurd (Option.some.inj h) (real_lt_top _).ne

theorem value_eq_bot {a : UnpackedFloat} (h : value a = some ⊥) : a = .infinity .negative := by
  cases a with
  | notANumber => cases h
  | infinity s =>
      cases s with
      | negative => rfl
      | positive => exact absurd (Option.some.inj h) top_ne_bot
  | zero s => exact absurd (Option.some.inj h) (bot_lt_real 0).ne'
  | finite s m e hm => exact absurd (Option.some.inj h) (bot_lt_real _).ne'

/-- A number that is not infinite is a rational. -/
theorem eq_real {x : Extended} (htop : x ≠ ⊤) (hbot : x ≠ ⊥) : ∃ r, x = real r := by
  obtain ⟨y, rfl⟩ := WithBot.ne_bot_iff_exists.mp hbot
  obtain ⟨r, rfl⟩ := WithTop.ne_top_iff_exists.mp fun h => htop (congrArg _ h)
  exact ⟨r, rfl⟩

/-- `x` is not below `y`, or one of them is not a number. -/
def NotBelow (x y : Option Extended) : Prop := ∀ p ∈ x, ∀ q ∈ y, q ≤ p

section Monotone

variable {a b c d w : UnpackedFloat} {p x y : Extended}

theorem isCanonical_add (ha : IsCanonical a) (hb : IsCanonical b) :
    IsCanonical (add Format.binary64 a b) := by
  cases a with
  | notANumber => trivial
  | infinity s =>
      cases b with
      | infinity t => rw [add]; split <;> trivial
      | _ => trivial
  | zero s =>
      cases b with
      | zero t => rw [add]; split <;> trivial
      | _ => exact hb
  | finite s m e hm =>
      cases b with
      | finite t n f hn => exact (isRounding_add ha hb rfl rfl).1
      | zero t => exact ha
      | _ => trivial

theorem exists_mem_value (h : a ≠ .notANumber) : ∃ x, x ∈ value a := by
  cases a with
  | notANumber => exact absurd rfl h
  | infinity s => cases s <;> exact ⟨_, rfl⟩
  | zero s => exact ⟨_, rfl⟩
  | finite s m e hm => exact ⟨_, rfl⟩

/-- A sum that is a number is one of numbers. -/
theorem exists_of_mem_add (h : p ∈ value (add Format.binary64 a b)) :
    (∃ x, x ∈ value a) ∧ ∃ y, y ∈ value b := by
  constructor
  · apply exists_mem_value
    rintro rfl
    cases h
  · apply exists_mem_value
    rintro rfl
    cases a <;> cases h

/-- An infinite summand decides the sum. -/
theorem add_infinite {s : Sign} (h : p ∈ value (add Format.binary64 a b))
    (hs : a = .infinity s ∨ b = .infinity s) : value (.infinity s) = some p := by
  rcases hs with rfl | rfl
  · cases b with
    | notANumber => cases h
    | infinity t => cases s <;> cases t <;> first | exact h | cases h
    | zero t => exact h
    | finite t n f hn => exact h
  · cases a with
    | notANumber => cases h
    | infinity t => cases s <;> cases t <;> first | exact h | cases h
    | zero t => exact h
    | finite t n f hn => exact h

theorem add_eq_top (h : p ∈ value (add Format.binary64 a b))
    (htop : value a = some ⊤ ∨ value b = some ⊤) : p = ⊤ := by
  have hsum := add_infinite h (htop.imp value_eq_top value_eq_top)
  exact (Option.some.inj hsum).symm

theorem add_eq_bot (h : p ∈ value (add Format.binary64 a b))
    (hbot : value a = some ⊥ ∨ value b = some ⊥) : p = ⊥ := by
  have hsum := add_infinite h (hbot.imp value_eq_bot value_eq_bot)
  exact (Option.some.inj hsum).symm

/-- Addition is monotone in both summands. -/
theorem NotBelow.add (ha : IsCanonical a) (hb : IsCanonical b) (hc : IsCanonical c)
    (hd : IsCanonical d) (hab : NotBelow (value a) (value b))
    (hcd : NotBelow (value c) (value d)) :
    NotBelow (value (add Format.binary64 a c)) (value (add Format.binary64 b d)) := by
  intro p hp q hq
  obtain ⟨⟨x, hx⟩, z, hz⟩ := exists_of_mem_add hp
  obtain ⟨⟨y, hy⟩, u, hu⟩ := exists_of_mem_add hq
  have hyx := hab x hx y hy
  have huz := hcd z hz u hu
  by_cases htop : x = ⊤ ∨ z = ⊤
  · rw [add_eq_top hp (by rcases htop with rfl | rfl; exacts [Or.inl hx, Or.inr hz])]
    exact le_top
  · by_cases hbot : y = ⊥ ∨ u = ⊥
    · rw [add_eq_bot hq (by rcases hbot with rfl | rfl; exacts [Or.inl hy, Or.inr hu])]
      exact bot_le
    · rw [not_or] at htop hbot
      obtain ⟨x', rfl⟩ := eq_real htop.1 fun h => hbot.1 (le_bot_iff.mp (h ▸ hyx))
      obtain ⟨z', rfl⟩ := eq_real htop.2 fun h => hbot.2 (le_bot_iff.mp (h ▸ huz))
      obtain ⟨y', rfl⟩ := eq_real (fun h => htop.1 (top_le_iff.mp (h ▸ hyx))) hbot.1
      obtain ⟨u', rfl⟩ := eq_real (fun h => htop.2 (top_le_iff.mp (h ▸ huz))) hbot.2
      rw [real_le_real] at hyx huz
      exact (isRounding_add ha hc hx hz).le (isRounding_add hb hd hy hu) hp hq
        (add_le_add hyx huz)

theorem isCanonical_mul (ha : IsCanonical a) (hb : IsCanonical b) :
    IsCanonical (mul Format.binary64 a b) := by
  cases a with
  | notANumber => trivial
  | infinity s => cases b <;> trivial
  | zero s => cases b <;> trivial
  | finite s m e hm =>
      cases b with
      | finite t n f hn => exact (isRounding_mul ha hb rfl rfl).1
      | _ => trivial

theorem mul_symm (a b : UnpackedFloat) :
    mul Format.binary64 a b = mul Format.binary64 b a := by
  have hsign : ∀ s t : Sign, s * t = t * s := by
    intro s t
    cases s <;> cases t <;> rfl
  cases a <;> cases b <;> simp only [mul, hsign, Nat.mul_comm, Int.add_comm]

theorem exists_of_mem_mul (h : p ∈ value (mul Format.binary64 a b)) :
    (∃ x, x ∈ value a) ∧ ∃ y, y ∈ value b := by
  constructor
  · apply exists_mem_value
    rintro rfl
    cases h
  · apply exists_mem_value
    rintro rfl
    cases a <;> cases h

theorem mul_infinity_of_pos (s : Sign) (hx : x ∈ value a) (h : real 0 < x) :
    mul Format.binary64 (.infinity s) a = .infinity s := by
  cases a with
  | notANumber => cases hx
  | infinity t =>
      cases t with
      | negative =>
          obtain rfl := Option.some.inj hx
          exact absurd h not_lt_bot
      | positive => cases s <;> rfl
  | zero t =>
      obtain rfl := Option.some.inj hx
      exact absurd h (lt_irrefl _)
  | finite t m e hm =>
      cases t with
      | negative =>
          obtain rfl := Option.some.inj hx
          have hpos := magnitude_pos hm e
          rw [real_lt_real, signed_negative] at h
          linarith
      | positive => cases s <;> rfl

theorem mul_infinity_of_neg (s : Sign) (hx : x ∈ value a) (h : x < real 0) :
    mul Format.binary64 (.infinity s) a = .infinity (-s) := by
  cases a with
  | notANumber => cases hx
  | infinity t =>
      cases t with
      | negative => cases s <;> rfl
      | positive =>
          obtain rfl := Option.some.inj hx
          exact absurd h not_top_lt
  | zero t =>
      obtain rfl := Option.some.inj hx
      exact absurd h (lt_irrefl _)
  | finite t m e hm =>
      cases t with
      | negative => cases s <;> rfl
      | positive =>
          obtain rfl := Option.some.inj hx
          have hpos := magnitude_pos hm e
          rw [real_lt_real, signed_positive] at h
          linarith

theorem mul_infinity_of_zero (s : Sign) (hx : real 0 ∈ value a) :
    mul Format.binary64 (.infinity s) a = .notANumber := by
  rcases value_eq_real hx with ⟨t, rfl, _⟩ | ⟨t, m, e, hm, rfl, hzero⟩
  · rfl
  · have hpos := magnitude_pos hm e
    cases t with
    | negative => rw [signed_negative] at hzero; linarith
    | positive => rw [signed_positive] at hzero; linarith

/-- Multiplication by a number that is not negative is monotone. -/
theorem NotBelow.mul (hw : IsCanonical w) (ha : IsCanonical a) (hb : IsCanonical b)
    (hnonneg : ∀ z ∈ value w, real 0 ≤ z) (hab : NotBelow (value a) (value b)) :
    NotBelow (value (mul Format.binary64 w a)) (value (mul Format.binary64 w b)) := by
  intro p hp q hq
  obtain ⟨⟨z, hz⟩, x, hx⟩ := exists_of_mem_mul hp
  obtain ⟨_, y, hy⟩ := exists_of_mem_mul hq
  have hyx := hab x hx y hy
  have hz0 := hnonneg z hz
  by_cases hztop : z = ⊤
  · subst hztop
    obtain rfl := value_eq_top hz
    rcases lt_trichotomy (real 0) x with hpos | rfl | hneg
    · rw [mul_infinity_of_pos _ hx hpos] at hp
      rw [← Option.some.inj hp]
      exact le_top
    · rw [mul_infinity_of_zero _ hx] at hp
      cases hp
    · rw [mul_infinity_of_neg _ hy (hyx.trans_lt hneg)] at hq
      rw [← Option.some.inj hq]
      exact bot_le
  · obtain ⟨z', rfl⟩ := eq_real hztop fun h => (bot_lt_real 0).not_ge (h ▸ hz0)
    by_cases hxtop : x = ⊤
    · subst hxtop
      obtain rfl := value_eq_top hx
      rw [mul_symm] at hp
      rcases hz0.eq_or_lt with heq | hpos
      · rw [mul_infinity_of_zero _ (heq ▸ hz)] at hp
        cases hp
      · rw [mul_infinity_of_pos _ hz hpos] at hp
        rw [← Option.some.inj hp]
        exact le_top
    · by_cases hybot : y = ⊥
      · subst hybot
        obtain rfl := value_eq_bot hy
        rw [mul_symm] at hq
        rcases hz0.eq_or_lt with heq | hpos
        · rw [mul_infinity_of_zero _ (heq ▸ hz)] at hq
          cases hq
        · rw [mul_infinity_of_pos _ hz hpos] at hq
          rw [← Option.some.inj hq]
          exact bot_le
      · obtain ⟨x', rfl⟩ := eq_real hxtop fun h => hybot (le_bot_iff.mp (h ▸ hyx))
        obtain ⟨y', rfl⟩ := eq_real (fun h => hxtop (top_le_iff.mp (h ▸ hyx))) hybot
        rw [real_le_real] at hyx hz0
        exact (isRounding_mul hw ha hz hx).le (isRounding_mul hw hb hz hy) hp hq
          (mul_le_mul_of_nonneg_left hyx hz0)

end Monotone

end Binary64
