import FabricScheduler.Library.Rounding
import Mathlib

/-!
# Binary64 numbers
-/

open Float.Model (Format UnpackedFloat)
open Float.Model.UnpackedFloat

namespace Binary64

/-- The format of binary64. -/
def format : BinaryFormat where
  digits := 53
  minExponent := -1074

/-- The rationals with two infinities. -/
abbrev Extended := WithBot (WithTop ℚ)

/-- The value of a significand at an exponent. -/
def magnitude (m : ℕ) (e : ℤ) : ℚ := m * 2 ^ e

/-- A rational as an extended one. -/
def real (x : ℚ) : Extended := ((x : WithTop ℚ) : WithBot (WithTop ℚ))

/-- A rational of the given magnitude and sign. -/
def signed : Sign → ℚ → ℚ
  | .negative, x => -x
  | .positive, x => x

@[simp] theorem signed_negative (x : ℚ) : signed .negative x = -x := rfl

@[simp] theorem signed_positive (x : ℚ) : signed .positive x = x := rfl

/-- The number a float denotes, if it is one. -/
def value : UnpackedFloat → Option Extended
  | .notANumber => none
  | .infinity .positive => some ⊤
  | .infinity .negative => some ⊥
  | .zero _ => some (real 0)
  | .finite s m e _ => some (real (signed s (magnitude m e)))

/-- A significand and exponent as the format stores them. -/
structure Canonical (m : ℕ) (e : ℤ) : Prop where
  lt : m < 2 ^ 53
  minExponent_le : -1074 ≤ e
  normal : 2 ^ 52 ≤ m ∨ e = -1074

/-- Finite numbers are stored canonically. -/
def IsCanonical : UnpackedFloat → Prop
  | .finite _ m e _ => Canonical m e
  | _ => True

theorem magnitude_pos {m : ℕ} (hm : 0 < m) (e : ℤ) : 0 < magnitude m e :=
  mul_pos (by exact_mod_cast hm) (zpow_pos (by norm_num) e)

/-- Of canonical numbers the one with the larger exponent is larger. -/
theorem Canonical.magnitude_lt {m n : ℕ} {e f : ℤ} (h : Canonical m e) (h' : Canonical n f)
    (hlt : e < f) : magnitude m e < magnitude n f := by
  have hn : 2 ^ 52 ≤ n := by
    have := h.minExponent_le
    rcases h'.normal with hn | hf
    · exact hn
    · omega
  have hm : (m : ℚ) < 2 ^ (53 : ℤ) := by exact_mod_cast h.lt
  have hn' : (2 : ℚ) ^ (52 : ℤ) ≤ n := by exact_mod_cast hn
  have hpow : (2 : ℚ) ^ (53 + e) ≤ 2 ^ (52 + f) := zpow_le_zpow_right₀ (by norm_num) (by omega)
  calc magnitude m e < 2 ^ (53 : ℤ) * 2 ^ e :=
        mul_lt_mul_of_pos_right hm (zpow_pos (by norm_num) e)
    _ = 2 ^ (53 + e) := (zpow_add₀ (by norm_num) _ _).symm
    _ ≤ 2 ^ (52 + f) := hpow
    _ = 2 ^ (52 : ℤ) * 2 ^ f := zpow_add₀ (by norm_num) _ _
    _ ≤ magnitude n f := mul_le_mul_of_nonneg_right hn' (zpow_pos (by norm_num) f).le

/-- Canonical numbers are compared by exponent, then by significand. -/
theorem Canonical.compare_eq {m n : ℕ} {e f : ℤ} (h : Canonical m e) (h' : Canonical n f) :
    (compare e f).then (compare m n) = cmp (magnitude m e) (magnitude n f) := by
  rcases lt_trichotomy e f with hlt | rfl | hgt
  · rw [compare_lt_iff_lt.mpr hlt, (cmp_eq_lt_iff _ _).mpr (h.magnitude_lt h' hlt)]
    rfl
  · have hpow : (0 : ℚ) < 2 ^ e := zpow_pos (by norm_num) e
    rw [compare_eq_iff_eq.mpr rfl, Ordering.then]
    rcases lt_trichotomy m n with hmn | rfl | hmn
    · have hcast : (m : ℚ) < n := by exact_mod_cast hmn
      rw [compare_lt_iff_lt.mpr hmn, eq_comm, cmp_eq_lt_iff]
      exact mul_lt_mul_of_pos_right hcast hpow
    · rw [compare_eq_iff_eq.mpr rfl, cmp_self_eq_eq]
    · have hcast : (n : ℚ) < m := by exact_mod_cast hmn
      rw [compare_gt_iff_gt.mpr hmn, eq_comm, cmp_eq_gt_iff]
      exact mul_lt_mul_of_pos_right hcast hpow
  · rw [compare_gt_iff_gt.mpr hgt, (cmp_eq_gt_iff _ _).mpr (h'.magnitude_lt h hgt)]
    rfl

theorem real_lt_real {x y : ℚ} : real x < real y ↔ x < y := by
  rw [real, real, WithBot.coe_lt_coe, WithTop.coe_lt_coe]

theorem real_lt_top (x : ℚ) : real x < ⊤ := WithBot.coe_lt_coe.mpr (WithTop.coe_lt_top x)

theorem bot_lt_real (x : ℚ) : ⊥ < real x := WithBot.bot_lt_coe _

section Compare

@[simp] theorem cmp_real (x y : ℚ) : cmp (real x) (real y) = cmp x y := by
  rcases lt_trichotomy x y with h | rfl | h
  · rw [(cmp_eq_lt_iff x y).mpr h, (cmp_eq_lt_iff _ _).mpr (real_lt_real.mpr h)]
  · rw [cmp_self_eq_eq, cmp_self_eq_eq]
  · rw [(cmp_eq_gt_iff x y).mpr h, (cmp_eq_gt_iff _ _).mpr (real_lt_real.mpr h)]

@[simp] theorem cmp_top_real (x : ℚ) : cmp ⊤ (real x) = .gt :=
  (cmp_eq_gt_iff _ _).mpr (real_lt_top x)

@[simp] theorem cmp_real_top (x : ℚ) : cmp (real x) ⊤ = .lt :=
  (cmp_eq_lt_iff _ _).mpr (real_lt_top x)

@[simp] theorem cmp_bot_real (x : ℚ) : cmp ⊥ (real x) = .lt :=
  (cmp_eq_lt_iff _ _).mpr (bot_lt_real x)

@[simp] theorem cmp_real_bot (x : ℚ) : cmp (real x) ⊥ = .gt :=
  (cmp_eq_gt_iff _ _).mpr (bot_lt_real x)

@[simp] theorem cmp_top_bot : cmp (⊤ : Extended) ⊥ = .gt := (cmp_eq_gt_iff _ _).mpr bot_lt_top

@[simp] theorem cmp_bot_top : cmp (⊥ : Extended) ⊤ = .lt := (cmp_eq_lt_iff _ _).mpr bot_lt_top

theorem cmp_neg_neg (x y : ℚ) : cmp (-x) (-y) = (cmp x y).swap := by
  rw [cmp_swap]
  rcases lt_trichotomy x y with h | rfl | h
  · rw [(cmp_eq_gt_iff y x).mpr h, (cmp_eq_gt_iff _ _).mpr (neg_lt_neg h)]
  · rw [cmp_self_eq_eq, cmp_self_eq_eq]
  · rw [(cmp_eq_lt_iff y x).mpr h, (cmp_eq_lt_iff _ _).mpr (neg_lt_neg h)]

/-- A number lies on the side of zero its sign says. -/
theorem cmp_signed_zero (s : Sign) {x : ℚ} (hx : 0 < x) : cmp (signed s x) 0 =
    (match s with | .negative => .lt | .positive => .gt) := by
  cases s with
  | negative => exact (cmp_eq_lt_iff _ _).mpr (neg_neg_of_pos hx)
  | positive => exact (cmp_eq_gt_iff _ _).mpr hx

theorem cmp_zero_signed (s : Sign) {x : ℚ} (hx : 0 < x) : cmp 0 (signed s x) =
    (match s with | .negative => .gt | .positive => .lt) := by
  rw [← cmp_swap, cmp_signed_zero s hx]
  cases s <;> rfl

/-- Numbers of one sign are compared by magnitude, others by sign. -/
theorem cmp_signed_signed (s t : Sign) {x y : ℚ} (hx : 0 < x) (hy : 0 < y) :
    cmp (signed s x) (signed t y) = (match s, t with
      | .negative, .negative => (cmp x y).swap
      | .negative, .positive => .lt
      | .positive, .negative => .gt
      | .positive, .positive => cmp x y) := by
  cases s with
  | negative =>
      cases t with
      | negative => exact cmp_neg_neg x y
      | positive => exact (cmp_eq_lt_iff _ _).mpr (by simp only [signed]; linarith)
  | positive =>
      cases t with
      | negative => exact (cmp_eq_gt_iff _ _).mpr (by simp only [signed]; linarith)
      | positive => rfl

end Compare

theorem compare_sign (s t : Sign) : compare s t = (match s, t with
    | .negative, .positive => .lt | .positive, .negative => .gt | _, _ => .eq) := by
  cases s <;> cases t <;> rfl

/-- The order of the format is the order of the values. -/
theorem compare_eq {a b : UnpackedFloat} (ha : IsCanonical a) (hb : IsCanonical b) :
    a.compare b = (value a).bind fun x => (value b).map (cmp x) := by
  cases a with
  | notANumber => rfl
  | infinity s =>
      cases b with
      | notANumber => cases s <;> rfl
      | infinity t => cases s <;> cases t <;> simp [UnpackedFloat.compare, value, compare_sign]
      | zero t => cases s <;> simp [UnpackedFloat.compare, value]
      | finite t n f hn => cases s <;> simp [UnpackedFloat.compare, value]
  | zero s =>
      cases b with
      | notANumber => rfl
      | infinity t => cases t <;> simp [UnpackedFloat.compare, value]
      | zero t => simp [UnpackedFloat.compare, value]
      | finite t n f hn =>
          simp only [value, Option.bind_some, Option.map_some, cmp_real,
            cmp_zero_signed t (magnitude_pos hn f)]
          cases t <;> rfl
  | finite s m e hm =>
      cases b with
      | notANumber => cases s <;> rfl
      | infinity t => cases t <;> simp [UnpackedFloat.compare, value]
      | zero t =>
          simp only [value, Option.bind_some, Option.map_some, cmp_real,
            cmp_signed_zero s (magnitude_pos hm e)]
          cases s <;> rfl
      | finite t n f hn =>
          simp only [value, Option.bind_some, Option.map_some, cmp_real,
            cmp_signed_signed s t (magnitude_pos hm e) (magnitude_pos hn f),
            ← Canonical.compare_eq ha hb]
          cases s <;> cases t <;> rfl

section Order

variable {a b : UnpackedFloat}

theorem value_eq_none_iff (a : UnpackedFloat) : value a = none ↔ a.isNaN = true := by
  cases a with
  | infinity s => cases s <;> simp [value, UnpackedFloat.isNaN]
  | _ => simp [value, UnpackedFloat.isNaN]

theorem lt_iff (ha : IsCanonical a) (hb : IsCanonical b) :
    a.lt b = true ↔ ∃ x ∈ value a, ∃ y ∈ value b, x < y := by
  rw [UnpackedFloat.lt, compare_eq ha hb]
  cases value a with
  | none => simp
  | some x =>
      cases value b with
      | none => simp
      | some y => simp [cmp_eq_lt_iff]

theorem beq_iff (ha : IsCanonical a) (hb : IsCanonical b) :
    a.beq b = true ↔ ∃ x, x ∈ value a ∧ x ∈ value b := by
  rw [UnpackedFloat.beq, compare_eq ha hb]
  cases value a with
  | none => simp
  | some x =>
      cases value b with
      | none => simp
      | some y =>
          simp only [Option.bind_some, Option.map_some, beq_iff_eq, Option.some.injEq,
            cmp_eq_eq_iff, Option.mem_def]
          constructor
          · rintro rfl
            exact ⟨x, rfl, rfl⟩
          · rintro ⟨z, rfl, hz⟩
            exact hz.symm

end Order

/-- A canonical number past the largest exponent becomes infinite when it is stored. -/
def overflow : UnpackedFloat → UnpackedFloat
  | .finite s m e hm => if 971 < e then .infinity s else .finite s m e hm
  | a => a

@[simp] theorem unpackSign_packComponents (s : Sign) (e : BitVec 11) (m : BitVec 52) :
    Sign.ofBitVec (unpackSign (packComponents Format.binary64 s e m)) = s := by
  have hbit : unpackSign (packComponents Format.binary64 s e m) = s.toBitVec := by
    ext i hi
    obtain rfl : i = 0 := by omega
    simp only [unpackSign, packComponents, BitVec.getElem_cast, BitVec.extractLsb,
      BitVec.getElem_extractLsb']
    rw [BitVec.getLsbD_append, BitVec.getLsbD_append]
    rfl
  rw [hbit]
  cases s <;> rfl

theorem toNat_implicit (m : BitVec 52) : (1#1 ++ m).toNat = 2 ^ 52 + m.toNat := by
  rw [BitVec.toNat_append, ← Nat.shiftLeft_add_eq_or_of_lt m.isLt, Nat.shiftLeft_eq]
  simp

theorem isCanonical_unpack (b : BitVec 64) : IsCanonical (unpack Format.binary64 b) ∧
    overflow (unpack Format.binary64 b) = unpack Format.binary64 b := by
  have hmantissa : (@unpackMantissa Format.binary64 b).toNat < 2 ^ 52 :=
    (@unpackMantissa Format.binary64 b).isLt
  have hexponent : (@unpackExponent Format.binary64 b).toNat < 2 ^ 11 :=
    (@unpackExponent Format.binary64 b).isLt
  have hbias : ((Format.binary64.exponentBias : ℕ) : ℤ) = 1023 := rfl
  unfold unpack
  by_cases hones : @unpackExponent Format.binary64 b = -1#_
  · simp only [hones, ite_true]
    split
    · exact ⟨trivial, rfl⟩
    · exact ⟨trivial, rfl⟩
  · simp only [hones, ite_false]
    by_cases hzero : @unpackExponent Format.binary64 b = 0#_
    · simp only [hzero, ite_true]
      split
      · exact ⟨trivial, rfl⟩
      · simp only [overflow, hbias, BitVec.toNat_zero]
        refine ⟨⟨by omega, by simp, Or.inr (by simp)⟩, if_neg (by simp)⟩
    · simp only [hzero, ite_false]
      have hnat : (@unpackExponent Format.binary64 b).toNat ≠ 0 := fun h =>
        hzero (BitVec.eq_of_toNat_eq h)
      have hnat' : (@unpackExponent Format.binary64 b).toNat ≠ 2047 := fun h =>
        hones (BitVec.eq_of_toNat_eq h)
      simp only [overflow, hbias]
      refine ⟨⟨?_, by simp; omega, Or.inl ?_⟩, if_neg (by simp; omega)⟩
      · rw [toNat_implicit]; omega
      · rw [toNat_implicit]; omega

theorem unpack_packedInfinity (s : Sign) :
    unpack Format.binary64 (packedInfinity Format.binary64 s) = .infinity s := by
  cases s <;> rfl

theorem unpack_normal (s : Sign) {v : BitVec 11} (hones : v ≠ -1#_) (hzero : v ≠ 0#_)
    (m : BitVec 52) : unpack Format.binary64 (packComponents Format.binary64 s v m) =
      .finite s (2 ^ 52 + m.toNat) (v.toNat - 1075) (by omega) := by
  have hbias : ((Format.binary64.exponentBias : ℕ) : ℤ) = 1023 := rfl
  simp only [unpack, unpackMantissa_packComponents, unpackExponent_packComponents,
    unpackSign_packComponents, hones, hzero, ite_false, toNat_implicit, hbias]
  norm_num

theorem unpack_subnormal (s : Sign) {m : BitVec 52} (hm : m ≠ 0#_) :
    unpack Format.binary64 (packComponents Format.binary64 s 0#_ m) =
      .finite s m.toNat (-1074)
        (Nat.pos_of_ne_zero fun h => hm (BitVec.eq_of_toNat_eq h)) := by
  have hbias : ((Format.binary64.exponentBias : ℕ) : ℤ) = 1023 := rfl
  have hones : (0#11 : BitVec 11) ≠ -1#_ := by decide
  simp only [unpack, unpackMantissa_packComponents, unpackExponent_packComponents,
    unpackSign_packComponents, hones, hm, ite_false, ite_true, dite_false, hbias,
    BitVec.toNat_zero]
  norm_num

/-- A stored number is read back, or has become infinite. -/
theorem unpack_pack {a : UnpackedFloat} (ha : IsCanonical a) :
    unpack Format.binary64 (pack Format.binary64 a) = overflow a := by
  cases a with
  | notANumber => rfl
  | infinity s => exact unpack_packedInfinity s
  | zero s => cases s <;> rfl
  | finite s m e hm =>
      obtain ⟨hlt, hmin, hnormal⟩ := ha
      have hbias : ((Format.binary64.exponentBias : ℕ) : ℤ) = 1023 := rfl
      have hdigits : Format.binary64.mantissaBits = 53 := rfl
      have hfraction : ((Format.binary64.mantissaBitsWithoutImplicit : ℕ) : ℤ) = 52 := rfl
      simp only [pack, overflow, hbias, hdigits, hfraction]
      by_cases hover : 971 < e
      · rw [if_pos hover, if_pos (by simp; omega), unpack_packedInfinity]
      · rw [if_neg hover, if_neg (by simp; omega)]
        by_cases hfull : 2 ^ 52 ≤ m
        · have hlog : m.log2 = 52 := (Nat.log2_eq_iff hm.ne').mpr ⟨hfull, hlt⟩
          have hv : (BitVec.ofNat 11 (e + 1023 + 52).toNat).toNat = (e + 1075).toNat := by
            rw [BitVec.toNat_ofNat, Nat.mod_eq_of_lt (by omega)]
            omega
          have hmantissa : (BitVec.ofNat 52 m).toNat = m - 2 ^ 52 := by
            rw [BitVec.toNat_ofNat]
            omega
          have hones : BitVec.ofNat 11 (e + 1023 + 52).toNat ≠ -1#_ := by
            intro h
            have hnat : (e + 1075).toNat = 2047 := hv.symm.trans (congrArg BitVec.toNat h)
            omega
          have hzero : BitVec.ofNat 11 (e + 1023 + 52).toNat ≠ 0#_ := by
            intro h
            have hnat : (e + 1075).toNat = 0 := hv.symm.trans (congrArg BitVec.toNat h)
            omega
          rw [if_pos (by omega), unpack_normal s hones hzero]
          simp only [UnpackedFloat.finite.injEq, hv, hmantissa, true_and]
          omega
        · have hlog : m.log2 < 52 := (Nat.log2_lt hm.ne').mpr (by omega)
          have hmantissa : (BitVec.ofNat 52 m).toNat = m := by
            rw [BitVec.toNat_ofNat]
            omega
          have hzero : BitVec.ofNat 52 m ≠ 0#_ := by
            intro h
            have hnat : m = 0 := hmantissa.symm.trans (congrArg BitVec.toNat h)
            omega
          rw [if_neg (by omega), unpack_subnormal s hzero]
          simp only [UnpackedFloat.finite.injEq, hmantissa, true_and]
          omega

theorem magnitude_lt_pow {m : ℕ} {e p q : ℤ} (hm : (m : ℚ) < 2 ^ p) (hq : p + e ≤ q) :
    magnitude m e < 2 ^ q :=
  calc magnitude m e < 2 ^ p * 2 ^ e := mul_lt_mul_of_pos_right hm (zpow_pos (by norm_num) e)
    _ = 2 ^ (p + e) := (zpow_add₀ (by norm_num) _ _).symm
    _ ≤ 2 ^ q := zpow_le_zpow_right₀ (by norm_num) hq

theorem pow_le_magnitude {m : ℕ} {e p q : ℤ} (hm : (2 : ℚ) ^ p ≤ m) (hq : q ≤ p + e) :
    2 ^ q ≤ magnitude m e :=
  calc (2 : ℚ) ^ q ≤ 2 ^ (p + e) := zpow_le_zpow_right₀ (by norm_num) hq
    _ = 2 ^ p * 2 ^ e := zpow_add₀ (by norm_num) _ _
    _ ≤ magnitude m e := mul_le_mul_of_nonneg_right hm (zpow_pos (by norm_num) e).le

/-- The least power of two above all stored numbers. -/
def limit : ℚ := 2 ^ (1024 : ℤ)

theorem limit_pos : 0 < limit := zpow_pos (by norm_num) _

/-- What is stored at or past the limit is infinite. -/
def saturate (x : Extended) : Extended :=
  if real limit ≤ x then ⊤ else if x ≤ real (-limit) then ⊥ else x

theorem saturate_mono {x y : Extended} (h : x ≤ y) : saturate x ≤ saturate y := by
  unfold saturate
  by_cases hy : real (limit) ≤ y
  · rw [if_pos hy]
    exact le_top
  · have hx : ¬real (limit) ≤ x := fun hx => hy (hx.trans h)
    rw [if_neg hy, if_neg hx]
    by_cases hx' : x ≤ real (-limit)
    · rw [if_pos hx']
      exact bot_le
    · rw [if_neg hx', if_neg fun hy' => hx' (h.trans hy')]
      exact h

theorem real_le_real {x y : ℚ} : real x ≤ real y ↔ x ≤ y := by
  rw [real, real, WithBot.coe_le_coe, WithTop.coe_le_coe]

theorem saturate_real {x : ℚ} (h : x < limit) (h' : -limit < x) :
    saturate (real x) = real x := by
  rw [saturate, if_neg (mt real_le_real.mp (not_le.mpr h)),
    if_neg (mt real_le_real.mp (not_le.mpr h'))]

theorem saturate_of_le {x : ℚ} (h : limit ≤ x) : saturate (real x) = ⊤ :=
  if_pos (real_le_real.mpr h)

theorem saturate_of_ge {x : ℚ} (h : x ≤ -limit) : saturate (real x) = ⊥ := by
  have hlimit := limit_pos
  rw [saturate, if_neg (mt real_le_real.mp (by linarith)), if_pos (real_le_real.mpr h)]

theorem saturate_top : saturate ⊤ = ⊤ := if_pos le_top

theorem saturate_bot : saturate ⊥ = ⊥ := by
  rw [saturate, if_neg (bot_lt_real _).not_ge, if_pos bot_le]

theorem value_overflow {a : UnpackedFloat} (ha : IsCanonical a) :
    value (overflow a) = (value a).map saturate := by
  have hlimit := limit_pos
  cases a with
  | notANumber => rfl
  | infinity s =>
      cases s with
      | negative => exact congrArg some saturate_bot.symm
      | positive => exact congrArg some saturate_top.symm
  | zero s => exact congrArg some (saturate_real hlimit (by linarith)).symm
  | finite s m e hm =>
      by_cases hover : 971 < e
      · have hfull : 2 ^ 52 ≤ m := by
          rcases ha.normal with hfull | hmin
          · exact hfull
          · omega
        have hle : (2 : ℚ) ^ (52 : ℤ) ≤ m := by exact_mod_cast hfull
        have hmagnitude : limit ≤ magnitude m e := pow_le_magnitude hle (by omega)
        rw [overflow, if_pos hover]
        cases s with
        | negative => exact congrArg some (saturate_of_ge (neg_le_neg hmagnitude)).symm
        | positive => exact congrArg some (saturate_of_le hmagnitude).symm
      · have hlt : (m : ℚ) < 2 ^ (53 : ℤ) := by exact_mod_cast ha.lt
        have hmagnitude : magnitude m e < limit := magnitude_lt_pow hlt (by omega)
        have hpositive := magnitude_pos hm e
        rw [overflow, if_neg hover]
        cases s with
        | negative =>
            have hbelow : -magnitude m e < limit := by linarith
            exact congrArg some (saturate_real hbelow (neg_lt_neg hmagnitude)).symm
        | positive => exact congrArg some (saturate_real hmagnitude (by linarith)).symm

end Binary64
