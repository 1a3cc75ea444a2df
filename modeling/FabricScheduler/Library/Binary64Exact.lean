import FabricScheduler.Library.Binary64Quotient

/-!
# Exact results and overflow

What fits the digits of a significand is not rounded, and what is rounded to the limit is
known by a bound on the exact number. A sum is no number exactly if a summand is none or the
summands are infinities of opposite signs.
-/

open Float.Model (Format UnpackedFloat)
open Float.Model.UnpackedFloat

namespace Binary64

/-- An integer multiple of a power of two with the digits of a significand. -/
def Exact (x : ℚ) : Prop :=
  ∃ n p : ℤ, x = n * 2 ^ p ∧ |x| < 2 ^ (p + 53) ∧ -1074 ≤ p ∧ p ≤ 971

theorem Exact.rounds_self {x : ℚ} (hx : Exact x) : format.Rounds x x := by
  obtain ⟨n, p, hmultiple, hlt, hmin, _⟩ := hx
  by_cases hzero : x = 0
  · rw [hzero]
    exact format.rounds_zero
  · exact BinaryFormat.rounds_self hmultiple (BinaryFormat.unitExponent_le hzero hlt hmin)

theorem Exact.value {x : ℚ} {a : UnpackedFloat} (hx : Exact x) (h : IsRounding x a) :
    value a = some (real x) := by
  obtain ⟨_, y, hy, hvalue⟩ := h
  rw [hvalue, hy.unique hx.rounds_self]

theorem Exact.abs_lt_limit {x : ℚ} (hx : Exact x) : |x| < limit := by
  obtain ⟨n, p, _, hlt, _, hmax⟩ := hx
  exact hlt.trans_le (zpow_le_zpow_right₀ (by norm_num) (by omega))

theorem Exact.saturate {x : ℚ} (hx : Exact x) : saturate (real x) = real x :=
  saturate_real (abs_lt.mp hx.abs_lt_limit).2 (abs_lt.mp hx.abs_lt_limit).1

/-- An integer with the digits of a significand, over a power of two. -/
theorem exact_div_two_pow {n : ℕ} (hn : n < 2 ^ 53) {i : ℕ} (hi : i ≤ 1074) :
    Exact (n / 2 ^ i) := by
  have hscale : (n : ℚ) / 2 ^ i = n * 2 ^ (-(i : ℤ)) := by
    rw [zpow_neg, zpow_natCast, div_eq_mul_inv]
  refine ⟨n, -i, hscale, ?_, by omega, by omega⟩
  have hcast : (n : ℚ) < 2 ^ (53 : ℤ) := by exact_mod_cast hn
  rw [hscale, abs_of_nonneg (mul_nonneg n.cast_nonneg (zpow_pos (by norm_num) _).le), add_comm,
    zpow_add₀ (by norm_num)]
  exact mul_lt_mul_of_pos_right hcast (zpow_pos (by norm_num) _)

theorem exact_natCast {n : ℕ} (hn : n < 2 ^ 53) : Exact n := by
  have h := exact_div_two_pow hn (Nat.zero_le 1074)
  rwa [pow_zero, div_one] at h

/-- The least number that is rounded to the limit. -/
def overflowBound : ℚ := limit - 2 ^ (970 : ℤ)

/-- The numbers of the last binade are rounded to multiples of the same unit. -/
theorem unitExponent_last {x : ℚ} (hle : 2 ^ (1023 : ℤ) ≤ x) (hlt : x < limit) :
    format.unitExponent x = 971 := by
  have hpos : 0 < x := (zpow_pos (by norm_num) _).trans_le hle
  have hlower := (Int.zpow_le_iff_le_log (b := 2) (by norm_num) hpos).mp hle
  have hupper := (Int.lt_zpow_iff_log_lt (b := 2) (by norm_num) hpos).mp hlt
  rw [BinaryFormat.unitExponent, abs_of_pos hpos]
  simp only [format, Nat.cast_ofNat]
  omega

theorem limit_eq : limit = 2 ^ (53 : ℕ) * 2 ^ (971 : ℤ) := by
  rw [limit, show (1024 : ℤ) = 53 + 971 by norm_num, zpow_add₀ (by norm_num)]
  rfl

theorem overflowBound_eq : overflowBound = (2 ^ (53 : ℕ) - 1 / 2) * 2 ^ (971 : ℤ) := by
  rw [overflowBound, limit_eq, show (971 : ℤ) = 970 + 1 by norm_num, zpow_add₀ (by norm_num)]
  ring

theorem le_overflowBound : 2 ^ (1023 : ℤ) ≤ overflowBound := by
  rw [overflowBound_eq, show (1023 : ℤ) = 52 + 971 by norm_num, zpow_add₀ (by norm_num)]
  apply mul_le_mul_of_nonneg_right _ (zpow_pos (by norm_num) _).le
  norm_num

theorem overflowBound_lt : overflowBound < limit :=
  sub_lt_self _ (zpow_pos (by norm_num) _)

theorem rounds_overflowBound : format.Rounds overflowBound limit := by
  have hunit : format.unit overflowBound = 2 ^ (971 : ℤ) := by
    rw [BinaryFormat.unit, unitExponent_last le_overflowBound overflowBound_lt]
  refine ⟨2 ^ 53, ?_, ?_⟩
  · rw [hunit, overflowBound_eq, mul_div_cancel_right₀ _ (zpow_pos (by norm_num) _).ne']
    constructor
    · norm_num
    · norm_num
    · intro _
      decide
  · rw [hunit, limit_eq]
    norm_num

/-- The least number of the last binade is stored. -/
theorem exact_first_last : Exact (2 ^ (1023 : ℤ)) := by
  refine ⟨2 ^ 52, 971, ?_, ?_, by norm_num, le_rfl⟩
  · rw [show (1023 : ℤ) = 52 + 971 by norm_num, zpow_add₀ (by norm_num)]
    congr 1
  · rw [abs_of_pos (zpow_pos (by norm_num) _)]
    exact zpow_lt_zpow_right₀ (by norm_num) (by norm_num)

/-- A number is rounded to the limit or beyond exactly if it is not below the bound. -/
theorem limit_le_iff {x y : ℚ} (h : format.Rounds x y) : limit ≤ y ↔ overflowBound ≤ x := by
  constructor
  · intro hy
    by_contra hx
    rw [not_le] at hx
    -- below the last binade the rounding is at most its least number
    by_cases hlast : 2 ^ (1023 : ℤ) ≤ x
    · obtain ⟨r, hr, rfl⟩ := h
      rw [BinaryFormat.unit, unitExponent_last hlast (hx.trans overflowBound_lt)] at hr hy
      have hpos : (0 : ℚ) < 2 ^ (971 : ℤ) := zpow_pos (by norm_num) _
      rw [limit_eq] at hy
      have hr' : (2 : ℚ) ^ (53 : ℕ) ≤ r := le_of_mul_le_mul_right hy hpos
      rw [overflowBound_eq, ← div_lt_iff₀ hpos] at hx
      exact absurd (hr.sub_half_le.trans_lt hx) (not_lt.mpr (sub_le_sub_right hr' _))
    · have hself := exact_first_last.rounds_self
      have hle := h.mono hself (not_le.mp hlast).le
      exact absurd (hy.trans hle) (not_le.mpr (le_overflowBound.trans_lt overflowBound_lt))
  · intro hx
    exact rounds_overflowBound.mono h hx

theorem saturate_eq_top_iff {y : ℚ} : saturate (real y) = ⊤ ↔ limit ≤ y := by
  constructor
  · intro htop
    by_contra hlt
    rw [not_le] at hlt
    by_cases hneg : y ≤ -limit
    · rw [saturate_of_ge hneg] at htop
      exact bot_ne_top htop
    · rw [saturate_real hlt (not_le.mp hneg)] at htop
      exact (real_lt_top y).ne htop
  · exact saturate_of_le

theorem saturate_eq_bot_iff {y : ℚ} : saturate (real y) = ⊥ ↔ y ≤ -limit := by
  constructor
  · intro hbot
    by_contra hlt
    rw [not_le] at hlt
    by_cases hpos : limit ≤ y
    · rw [saturate_of_le hpos] at hbot
      exact bot_ne_top hbot.symm
    · rw [saturate_real (not_le.mp hpos) hlt] at hbot
      exact (bot_lt_real y).ne' hbot
  · exact saturate_of_ge

/-- Infinities of opposite signs. -/
def Opposite (p q : Extended) : Prop := p = ⊤ ∧ q = ⊥ ∨ p = ⊥ ∧ q = ⊤

/-- The sum is the infinity above: a summand is, or the exact sum is too large. -/
def ReachesTop (p q : Extended) : Prop :=
  p = ⊤ ∨ q = ⊤ ∨ ∃ x y, p = real x ∧ q = real y ∧ overflowBound ≤ x + y

/-- The sum is the infinity below: a summand is, or the exact sum is too small. -/
def ReachesBot (p q : Extended) : Prop :=
  p = ⊥ ∨ q = ⊥ ∨ ∃ x y, p = real x ∧ q = real y ∧ x + y ≤ -overflowBound

section Sum

variable {a b : UnpackedFloat} {p q : Extended}

/-- Infinities of opposite signs have no sum. -/
theorem value_add_of_opposite (ha : value a = some p) (hb : value b = some q)
    (h : Opposite p q) : value (add Format.binary64 a b) = none := by
  rcases h with ⟨rfl, rfl⟩ | ⟨rfl, rfl⟩
  · rw [value_eq_top ha, value_eq_bot hb]
    rfl
  · rw [value_eq_bot ha, value_eq_top hb]
    rfl

theorem opposite_of_ne {s t : Sign} (hp : value (.infinity s) = some p)
    (hq : value (.infinity t) = some q) (hne : s ≠ t) : Opposite p q := by
  cases s with
  | negative =>
      cases t with
      | negative => exact absurd rfl hne
      | positive => exact Or.inr ⟨(Option.some.inj hp).symm, (Option.some.inj hq).symm⟩
  | positive =>
      cases t with
      | negative => exact Or.inl ⟨(Option.some.inj hp).symm, (Option.some.inj hq).symm⟩
      | positive => exact absurd rfl hne

/-- An infinite summand decides any other sum. -/
theorem value_add_infinite {s : Sign} (hp : value a = some p) (hq : value b = some q)
    (h : ¬Opposite p q) (hs : a = .infinity s ∨ b = .infinity s) :
    value (add Format.binary64 a b) = value (.infinity s) := by
  rcases hs with rfl | rfl
  · cases b with
    | notANumber => cases hq
    | infinity t =>
        obtain rfl : s = t := not_not.mp (mt (opposite_of_ne hp hq) h)
        cases s <;> rfl
    | zero t => rfl
    | finite t n f hn => rfl
  · cases a with
    | notANumber => cases hp
    | infinity t =>
        obtain rfl : t = s := not_not.mp (mt (opposite_of_ne hp hq) h)
        cases t <;> rfl
    | zero t => rfl
    | finite t n f hn => rfl

theorem value_add_top (hp : value a = some p) (hq : value b = some q) (h : ¬Opposite p q)
    (htop : p = ⊤ ∨ q = ⊤) : value (add Format.binary64 a b) = some ⊤ := by
  apply value_add_infinite hp hq h (s := .positive)
  rcases htop with rfl | rfl
  · exact Or.inl (value_eq_top hp)
  · exact Or.inr (value_eq_top hq)

theorem value_add_bot (hp : value a = some p) (hq : value b = some q) (h : ¬Opposite p q)
    (hbot : p = ⊥ ∨ q = ⊥) : value (add Format.binary64 a b) = some ⊥ := by
  apply value_add_infinite hp hq h (s := .negative)
  rcases hbot with rfl | rfl
  · exact Or.inl (value_eq_bot hp)
  · exact Or.inr (value_eq_bot hq)

/-- Where a summand is the infinity above, the sum is not the one below. -/
theorem not_reachesBot_of_top (h : ¬Opposite p q) (htop : p = ⊤ ∨ q = ⊤) :
    ¬ReachesBot p q := by
  rintro (rfl | rfl | ⟨x, y, rfl, rfl, _⟩)
  · exact htop.elim (fun e => bot_ne_top e) fun e => h (Or.inr ⟨rfl, e⟩)
  · exact htop.elim (fun e => h (Or.inl ⟨e, rfl⟩)) fun e => bot_ne_top e
  · exact htop.elim (fun e => (real_lt_top x).ne e) fun e => (real_lt_top y).ne e

theorem not_reachesTop_of_bot (h : ¬Opposite p q) (hbot : p = ⊥ ∨ q = ⊥) :
    ¬ReachesTop p q := by
  rintro (rfl | rfl | ⟨x, y, rfl, rfl, _⟩)
  · exact hbot.elim (fun e => top_ne_bot e) fun e => h (Or.inl ⟨rfl, e⟩)
  · exact hbot.elim (fun e => h (Or.inr ⟨e, rfl⟩)) fun e => top_ne_bot e
  · exact hbot.elim (fun e => (bot_lt_real x).ne' e) fun e => (bot_lt_real y).ne' e

theorem reachesTop_real_iff {x y : ℚ} :
    ReachesTop (real x) (real y) ↔ overflowBound ≤ x + y := by
  constructor
  · rintro (e | e | ⟨x', y', hx, hy, hle⟩)
    · exact absurd e (real_lt_top x).ne
    · exact absurd e (real_lt_top y).ne
    · rwa [real_injective hx, real_injective hy]
  · exact fun hle => Or.inr (Or.inr ⟨x, y, rfl, rfl, hle⟩)

theorem reachesBot_real_iff {x y : ℚ} :
    ReachesBot (real x) (real y) ↔ x + y ≤ -overflowBound := by
  constructor
  · rintro (e | e | ⟨x', y', hx, hy, hle⟩)
    · exact absurd e (bot_lt_real x).ne'
    · exact absurd e (bot_lt_real y).ne'
    · rwa [real_injective hx, real_injective hy]
  · exact fun hle => Or.inr (Or.inr ⟨x, y, rfl, rfl, hle⟩)

/-- A sum of numbers that are not infinities of opposite signs is a number, and infinite as
the summands tell. -/
theorem exists_value_add (ha : IsCanonical a) (hb : IsCanonical b) (hp : value a = some p)
    (hq : value b = some q) (h : ¬Opposite p q) :
    ∃ r, value (add Format.binary64 a b) = some r ∧ (saturate r = ⊤ ↔ ReachesTop p q) ∧
      (saturate r = ⊥ ↔ ReachesBot p q) := by
  by_cases htop : p = ⊤ ∨ q = ⊤
  · refine ⟨⊤, value_add_top hp hq h htop, ?_, ?_⟩
    · exact iff_of_true saturate_top (or_assoc.mp (Or.inl htop))
    · rw [saturate_top]
      exact iff_of_false top_ne_bot (not_reachesBot_of_top h htop)
  · by_cases hbot : p = ⊥ ∨ q = ⊥
    · refine ⟨⊥, value_add_bot hp hq h hbot, ?_, ?_⟩
      · rw [saturate_bot]
        exact iff_of_false bot_ne_top (not_reachesTop_of_bot h hbot)
      · exact iff_of_true saturate_bot (or_assoc.mp (Or.inl hbot))
    · rw [not_or] at htop hbot
      obtain ⟨x, rfl⟩ := eq_real htop.1 hbot.1
      obtain ⟨y, rfl⟩ := eq_real htop.2 hbot.2
      obtain ⟨_, z, hz, hvalue⟩ := isRounding_add ha hb hp hq
      refine ⟨real z, hvalue, ?_, ?_⟩
      · rw [saturate_eq_top_iff, limit_le_iff hz, reachesTop_real_iff]
      · rw [saturate_eq_bot_iff, le_neg, limit_le_iff hz.neg, le_neg, reachesBot_real_iff]

/-- A number taken from a finite one leaves a number. -/
theorem exists_value_sub {x : ℚ} (ha : IsCanonical a) (hb : IsCanonical b)
    (hx : value a = some (real x)) (hq : value b = some q) :
    ∃ r, value (sub Format.binary64 a b) = some r := by
  cases b with
  | notANumber => cases hq
  | infinity t =>
      rcases value_eq_real hx with ⟨s, rfl, _⟩ | ⟨s, m, e, hm, rfl, _⟩
      · exact exists_mem_value (a := .infinity (-t)) (by rintro ⟨⟩)
      · exact exists_mem_value (a := .infinity (-t)) (by rintro ⟨⟩)
  | zero t =>
      obtain ⟨_, z, _, hz⟩ := isRounding_sub ha hb hx rfl
      exact ⟨_, hz⟩
  | finite t n f hn =>
      obtain ⟨_, z, _, hz⟩ := isRounding_sub ha hb hx rfl
      exact ⟨_, hz⟩

theorem value_sub_none (h : value b = none) : value (sub Format.binary64 a b) = none := by
  cases b with
  | notANumber => cases a <;> rfl
  | infinity t => cases t <;> cases h
  | zero t => cases h
  | finite t n f hn => cases h

/-- A number times a positive one is a number. -/
theorem exists_value_mul {x : ℚ} (ha : IsCanonical a) (hb : IsCanonical b)
    (hp : value a = some p) (hx : value b = some (real x)) (hpos : 0 < x) :
    ∃ r, value (mul Format.binary64 a b) = some r := by
  cases a with
  | notANumber => cases hp
  | infinity s =>
      rw [mul_infinity_of_pos s hx (real_lt_real.mpr hpos)]
      exact ⟨p, hp⟩
  | zero s =>
      obtain ⟨_, z, _, hz⟩ := isRounding_mul ha hb rfl hx
      exact ⟨_, hz⟩
  | finite s m e hm =>
      obtain ⟨_, z, _, hz⟩ := isRounding_mul ha hb rfl hx
      exact ⟨_, hz⟩

end Sum

end Binary64
