import FabricScheduler.Core.DoubleExact
import FabricScheduler.Model.Scores

/-!
# The range of the costs

The clamp puts every number between zero and one and lets what is no number through. Most
factors are ratios of words or constants and so always numbers; the others are numbers
exactly if the evidence they read is, and no two infinities in it cancel.
-/

namespace FabricScheduler

open Binary64 (Extended real Opposite ReachesTop ReachesBot)

namespace Double

variable {v d : Double} {x : ℚ}

/-- A double that denotes a rational between zero and a bound. -/
def Within (d : Double) (n : ℕ) : Prop :=
  ∃ x : ℚ, d.number = some (real x) ∧ 0 ≤ x ∧ x ≤ n

theorem Within.isNaN {n : ℕ} (h : d.Within n) : d.isNaN = false := by
  obtain ⟨x, hx, _⟩ := h
  exact isNaN_of_number hx

theorem Within.isFinite {n : ℕ} (h : d.Within n) : d.isFinite = true := by
  obtain ⟨x, hx, _⟩ := h
  exact isFinite_of_number hx

theorem Within.mono {m n : ℕ} (h : d.Within m) (hmn : m ≤ n) : d.Within n := by
  obtain ⟨x, hx, hlow, hhigh⟩ := h
  exact ⟨x, hx, hlow, hhigh.trans (Nat.cast_le.mpr hmn)⟩

/-- A rounding of what is between zero and a bound is. -/
theorem within_of_rounds {n : ℕ} (hn : n < 2 ^ 53) {z : ℚ}
    (hz : Binary64.format.Rounds x z) (hlow : 0 ≤ x) (hhigh : x ≤ n)
    (hd : d.number = some (Binary64.saturate (real z))) : d.Within n := by
  have hexact := Binary64.exact_natCast hn
  have hupper : z ≤ n := hz.mono hexact.rounds_self hhigh
  have hlower : 0 ≤ z := hz.nonneg hlow
  have hlimit : z < Binary64.limit :=
    hupper.trans_lt ((le_abs_self _).trans_lt hexact.abs_lt_limit)
  rw [Binary64.saturate_real hlimit (by linarith [Binary64.limit_pos])] at hd
  exact ⟨z, hd, hlower, hupper⟩

open CostArith in
/-- Bounds are added. -/
theorem Within.add {a b : Double} {m n : ℕ} (ha : a.Within m) (hb : b.Within n)
    (h : m + n < 2 ^ 53) : (add a b).Within (m + n) := by
  obtain ⟨x, hx, hx0, hxm⟩ := ha
  obtain ⟨y, hy, hy0, hyn⟩ := hb
  obtain ⟨_, z, hz, hvalue⟩ := Binary64.isRounding_add a.isCanonical_unpacked
    b.isCanonical_unpacked hx hy
  refine within_of_rounds h hz (add_nonneg hx0 hy0) ?_ (by rw [number_add, hvalue]; rfl)
  rw [Nat.cast_add]
  exact add_le_add hxm hyn

open CostArith in
/-- Bounds are multiplied. -/
theorem Within.mul {a b : Double} {m n : ℕ} (ha : a.Within m) (hb : b.Within n)
    (h : m * n < 2 ^ 53) : (mul a b).Within (m * n) := by
  obtain ⟨x, hx, hx0, hxm⟩ := ha
  obtain ⟨y, hy, hy0, hyn⟩ := hb
  obtain ⟨_, z, hz, hvalue⟩ := Binary64.isRounding_mul a.isCanonical_unpacked
    b.isCanonical_unpacked hx hy
  refine within_of_rounds h hz (mul_nonneg hx0 hy0) ?_ (by rw [number_mul, hvalue]; rfl)
  rw [Nat.cast_mul]
  exact mul_le_mul hxm hyn hy0 m.cast_nonneg

theorem within_zero (n : ℕ) : zero.Within n := ⟨0, number_zero, le_rfl, n.cast_nonneg⟩

theorem within_one : one.Within 1 := ⟨1, number_one, zero_le_one, Nat.cast_one.ge⟩

/-- What is neither below zero nor above a bound is between them. -/
theorem within_of_not_lt {bound : Double} {n : ℕ} (hbound : bound.number = some (real n))
    (hnumber : d.isNaN = false) (hlow : lt d zero = false) (hhigh : lt bound d = false) :
    d.Within n := by
  obtain ⟨p, hp⟩ := exists_number hnumber
  have hlower := (lt_eq_false_iff _ _).mp hlow p hp _ number_zero
  have hupper := (lt_eq_false_iff _ _).mp hhigh _ hbound p hp
  obtain ⟨x, rfl⟩ := Binary64.eq_real
    (fun h => (Binary64.real_lt_top n).not_ge (h ▸ hupper))
    (fun h => (Binary64.bot_lt_real 0).not_ge (h ▸ hlower))
  exact ⟨x, hp, Binary64.real_le_real.mp hlower, Binary64.real_le_real.mp hupper⟩

end Double

open Double CostArith

section Clamp

variable {v : Double}

theorem clamp01_of_none (h : v.number = none) : clamp01 v = v := by
  have hbelow : CostArith.lt v (ofDouble .zero) = false := lt_of_none (Or.inl h)
  have habove : CostArith.lt (ofDouble .one) v = false := lt_of_none (Or.inr h)
  unfold clamp01
  rw [hbelow, habove]
  rfl

/-- The clamp of a number is between zero and one. -/
theorem within_clamp01 (h : v.isNaN = false) : (clamp01 v).Within 1 := by
  unfold clamp01
  split
  · exact within_zero 1
  · rename_i hbelow
    split
    · exact within_one
    · rename_i habove
      exact within_of_not_lt (by rw [Nat.cast_one]; exact number_one) h
        (Bool.eq_false_iff.mpr hbelow) (Bool.eq_false_iff.mpr habove)

/-- The clamp makes no number of what is none. -/
theorem isNaN_clamp01 (v : Double) : (clamp01 v).isNaN = v.isNaN := by
  cases h : v.isNaN with
  | false => exact (within_clamp01 h).isNaN
  | true =>
      rw [clamp01_of_none ((number_eq_none_iff v).mpr h)]
      exact h

/-- A rational is clamped exactly. -/
theorem number_clamp01 {x : ℚ} (h : v.number = some (real x)) :
    (clamp01 v).number = some (real (max 0 (min 1 x))) := by
  have hbelow : CostArith.lt v (ofDouble .zero) = true ↔ x < 0 := lt_real_iff h number_zero
  have habove : CostArith.lt (ofDouble .one) v = true ↔ 1 < x := lt_real_iff number_one h
  unfold clamp01
  split
  · rename_i hlt
    have hneg := hbelow.mp hlt
    rw [min_eq_right (by linarith), max_eq_left hneg.le]
    exact number_zero
  · rename_i hlt
    have hnonneg := not_lt.mp (mt hbelow.mpr hlt)
    split
    · rename_i hgt
      rw [min_eq_left (habove.mp hgt).le, max_eq_right zero_le_one]
      exact number_one
    · rename_i hgt
      rw [min_eq_right (not_lt.mp (mt habove.mpr hgt)), max_eq_right hnonneg]
      exact h

end Clamp

section Factors

/-- A quotient of two words, the second not zero, is a number. -/
theorem isNaN_div_ofNat {m n : ℕ} (hm : m < 2 ^ 64) (hn : n < 2 ^ 64) (hpos : 0 < n) :
    (div (ofNat m : Double) (ofNat n)).isNaN = false := by
  obtain ⟨x, hx, _⟩ := exists_number_ofNat hm.le
  obtain ⟨y, hy, hne⟩ := exists_number_ofNat hn.le
  obtain ⟨r, hr⟩ := exists_number_div hx hy (hne hpos)
  exact isNaN_of_number hr

/-- A share of a word that is not zero. -/
theorem within_clamp01_div {m n : ℕ} (hm : m < 2 ^ 64) (hn : n < 2 ^ 64) (hpos : 0 < n) :
    (clamp01 (div (ofNat m) (ofNat n)) : Double).Within 1 :=
  within_clamp01 (isNaN_div_ofNat hm hn hpos)

theorem within_ratioOrOne {need avail : ℕ} (hneed : need < 2 ^ 64) (havail : avail < 2 ^ 64) :
    (ratioOrOne need avail : Double).Within 1 := by
  unfold ratioOrOne
  split
  · exact within_one
  · rename_i hzero
    exact within_clamp01_div hneed havail (Nat.pos_of_ne_zero hzero)

theorem within_distanceNorm (d : UInt32) {divisor : Double} {y : ℚ}
    (hdivisor : divisor.number = some (real y)) (hne : y ≠ 0) :
    (distanceNorm d divisor : Double).Within 1 := by
  have hword := d.toNat_lt
  obtain ⟨x, hx, _⟩ := exists_number_ofNat (n := d.toNat) (by omega)
  obtain ⟨r, hr⟩ := exists_number_div hx hdivisor hne
  exact within_clamp01 (isNaN_of_number hr)

/-- A cost with a penalty is clamped again. -/
theorem within_clamp01_add {v penalty : Double} (hv : v.Within 1)
    (hpenalty : penalty.Within 1) : (clamp01 (add v (ofDouble penalty))).Within 1 :=
  within_clamp01 (hv.add hpenalty (by norm_num)).isNaN

theorem within_ite {p : Prop} [Decidable p] {d d' : Double} {n : ℕ} (h : d.Within n)
    (h' : d'.Within n) : (if p then d else d').Within n := by
  split
  · exact h
  · exact h'

theorem number_four : Double.four.number = some (real 4) := by
  have hfour : Double.four.number = some (real (Binary64.magnitude (2 ^ 52) (-50))) := rfl
  rw [hfour, Binary64.magnitude]
  norm_num

theorem number_eight : Double.eight.number = some (real 8) := by
  have height : Double.eight.number = some (real (Binary64.magnitude (2 ^ 52) (-49))) := rfl
  rw [height, Binary64.magnitude]
  norm_num

theorem number_half : Double.half.number = some (real (1 / 2)) := by
  have hhalf : Double.half.number = some (real (Binary64.magnitude (2 ^ 52) (-53))) := rfl
  rw [hhalf, Binary64.magnitude]
  norm_num

theorem number_quarter : Double.quarter.number = some (real (1 / 4)) := by
  have hquarter : Double.quarter.number = some (real (Binary64.magnitude (2 ^ 52) (-54))) := rfl
  rw [hquarter, Binary64.magnitude]
  norm_num

theorem within_half : Double.half.Within 1 := ⟨1 / 2, number_half, by norm_num, by norm_num⟩

theorem within_quarter : Double.quarter.Within 1 :=
  ⟨1 / 4, number_quarter, by norm_num, by norm_num⟩

theorem within_tenth : Double.tenth.Within 1 :=
  within_of_not_lt (by rw [Nat.cast_one]; exact number_one) (by decide +kernel)
    (by decide +kernel) (by decide +kernel)

/-- No two infinities cancel in the sum of the communication costs, nor is one of them no
number. -/
structure CommunicationEvidence.Summable (comm : CommunicationEvidence) : Prop where
  estimatedCost : comm.estimatedCost.isNaN = false
  derivedPathCost : comm.derivedPathCost.isNaN = false
  collectiveCost : comm.collectiveCost.isNaN = false
  first : ¬Opposite comm.estimatedCost.place comm.derivedPathCost.place
  above : ReachesTop comm.estimatedCost.place comm.derivedPathCost.place →
    comm.collectiveCost.place ≠ ⊥
  below : ReachesBot comm.estimatedCost.place comm.derivedPathCost.place →
    comm.collectiveCost.place ≠ ⊤

/-- The evidence that costs are computed from consists of numbers. -/
structure Candidate.Numeric (c : Candidate) : Prop where
  congestion : c.congestion.congestion.isNaN = false
  residualBandwidth : c.congestion.residualBandwidth.isNaN = false
  healthScore : c.health.healthScore.isNaN = false
  communication : c.communication.Summable

/-- The sum of two numbers is one unless they are infinities of opposite signs. -/
theorem isNaN_add_iff {a b : Double} (ha : a.isNaN = false) (hb : b.isNaN = false) :
    (add a b).isNaN = false ↔ ¬Opposite a.place b.place := by
  constructor
  · intro h hopposite
    have hnone := number_add_of_opposite (number_eq_place ha) (number_eq_place hb) hopposite
    rw [(number_eq_none_iff _).mp hnone] at h
    cases h
  · intro h
    obtain ⟨r, hr, _⟩ := exists_number_add (number_eq_place ha) (number_eq_place hb) h
    exact isNaN_of_number hr

theorem isNaN_of_isNaN_add {a b : Double} (h : (add a b).isNaN = false) :
    a.isNaN = false ∧ b.isNaN = false := by
  simp only [← Bool.not_eq_true, ← number_eq_none_iff] at h ⊢
  exact ⟨fun ha => h (number_add_none (Or.inl ha)), fun hb => h (number_add_none (Or.inr hb))⟩

/-- The sum of the communication costs is a number exactly if they are summable. -/
theorem isNaN_communication_iff (comm : CommunicationEvidence) :
    (add (add comm.estimatedCost comm.derivedPathCost) comm.collectiveCost).isNaN = false ↔
      comm.Summable := by
  have hplace : ∀ h : comm.estimatedCost.isNaN = false, ∀ h' : comm.derivedPathCost.isNaN = false,
      ¬Opposite comm.estimatedCost.place comm.derivedPathCost.place →
      ((add comm.estimatedCost comm.derivedPathCost).place = ⊤ ↔
        ReachesTop comm.estimatedCost.place comm.derivedPathCost.place) ∧
      ((add comm.estimatedCost comm.derivedPathCost).place = ⊥ ↔
        ReachesBot comm.estimatedCost.place comm.derivedPathCost.place) := by
    intro h h' hfirst
    obtain ⟨r, hr, htop, hbot⟩ :=
      exists_number_add (number_eq_place h) (number_eq_place h') hfirst
    have hsame : (add comm.estimatedCost comm.derivedPathCost).place = r := by
      rw [place, hr, Option.getD_some]
    rw [hsame]
    exact ⟨htop, hbot⟩
  constructor
  · intro h
    obtain ⟨hsum, hcollective⟩ := isNaN_of_isNaN_add h
    obtain ⟨hestimated, hderived⟩ := isNaN_of_isNaN_add hsum
    have hfirst := (isNaN_add_iff hestimated hderived).mp hsum
    have hsecond := (isNaN_add_iff hsum hcollective).mp h
    obtain ⟨htop, hbot⟩ := hplace hestimated hderived hfirst
    exact ⟨hestimated, hderived, hcollective, hfirst,
      fun hreach hlow => hsecond (Or.inl ⟨htop.mpr hreach, hlow⟩),
      fun hreach hhigh => hsecond (Or.inr ⟨hbot.mpr hreach, hhigh⟩)⟩
  · intro h
    have hsum := (isNaN_add_iff h.estimatedCost h.derivedPathCost).mpr h.first
    obtain ⟨htop, hbot⟩ := hplace h.estimatedCost h.derivedPathCost h.first
    apply (isNaN_add_iff hsum h.collectiveCost).mpr
    rintro (⟨hreach, hlow⟩ | ⟨hreach, hhigh⟩)
    · exact h.above (htop.mp hreach) hlow
    · exact h.below (hbot.mp hreach) hhigh

/-- What is left of one is a number exactly if what is taken is. -/
theorem isNaN_sub_one (d : Double) : (sub Double.one d).isNaN = d.isNaN := by
  cases h : d.isNaN with
  | false =>
      obtain ⟨p, hp⟩ := exists_number h
      obtain ⟨r, hr⟩ := exists_number_sub number_one hp
      exact isNaN_of_number hr
  | true =>
      exact (number_eq_none_iff _).mp (number_sub_none ((number_eq_none_iff d).mpr h))

variable (request : SchedulingRequest) (c : Candidate)

/-- The factors that read evidence held in floating point. -/
def readsDoubles : RankFactorKind → Bool
  | .communicationCost | .congestionPenalty | .residualBandwidth | .healthMargin
  | .estimatedQueueing => true
  | _ => false

/-- A factor that reads no double costs between zero and one. -/
theorem within_factorCost_of_words {kind : RankFactorKind} (h : readsDoubles kind = false) :
    (factorCost Double request c kind).Within 1 := by
  cases kind with
  | acceleratorFit | vramHeadroom | pinnedMemoryHeadroom =>
      exact within_ratioOrOne (UInt64.toNat_lt _) (UInt64.toNat_lt _)
  | cpuHeadroom =>
      exact within_ratioOrOne ((UInt32.toNat_lt _).trans (by norm_num))
        ((UInt32.toNat_lt _).trans (by norm_num))
  | resourceHeadroom =>
      exact within_ite (within_ratioOrOne (UInt64.toNat_lt _) (UInt64.toNat_lt _))
        (within_ratioOrOne ((UInt32.toNat_lt _).trans (by norm_num))
          ((UInt32.toNat_lt _).trans (by norm_num)))
  | topologyLocality =>
      exact within_clamp01_add (within_distanceNorm _ number_eight (by norm_num))
        (within_ite within_quarter (within_zero 1))
  | pcieLocality =>
      exact within_clamp01_add (within_distanceNorm _ number_eight (by norm_num))
        (within_ite within_half (within_zero 1))
  | numaLocality | nicLocality | storageLocality =>
      exact within_distanceNorm _ number_four (by norm_num)
  | modelResidency | adapterResidency =>
      exact within_ite (within_zero 1) (within_ite within_one within_half)
  | reusableStateLocality => exact within_ite (within_zero 1) within_one
  | startupCost => exact within_ite within_tenth (within_zero 1)
  | checkpointMovementCost =>
      refine within_clamp01_div (UInt64.toNat_lt _) (UInt64.toNat_lt _) ?_
      split
      · rename_i hpos
        exact UInt64.lt_iff_toNat_lt.mp hpos
      · decide
  | migrationRecomputeCost =>
      exact within_ite (within_clamp01_div (UInt64.toNat_lt _) (UInt64.toNat_lt _) (by decide))
        (within_zero 1)
  | reservationFit =>
      have htotal := UInt64.toNat_lt c.capacity.vramTotal
      exact within_clamp01_div (UInt64.toNat_lt _) (max_lt (by norm_num) htotal)
        (Nat.one_pos.trans_le (le_max_left _ _))
  | failureDomainDiversification | energyPower | fragmentationImpact | externalPriority
  | policyPreference => exact within_zero 1
  | communicationCost | congestionPenalty | residualBandwidth | healthMargin
  | estimatedQueueing => cases h

/-- A cost that is a number is between zero and one. -/
theorem within_factorCost_of_number {kind : RankFactorKind}
    (h : (factorCost Double request c kind).isNaN = false) :
    (factorCost Double request c kind).Within 1 := by
  cases hkind : readsDoubles kind with
  | false => exact within_factorCost_of_words request c hkind
  | true =>
      -- what is read as a double is clamped
      cases kind with
      | communicationCost | congestionPenalty | residualBandwidth | healthMargin
      | estimatedQueueing => exact within_clamp01 ((isNaN_clamp01 _).symm.trans h)
      | _ => cases hkind

/-- Of numeric evidence every factor costs between zero and one. -/
theorem Candidate.Numeric.within_factorCost {c : Candidate} (h : c.Numeric)
    (kind : RankFactorKind) : (factorCost Double request c kind).Within 1 := by
  cases kind with
  | communicationCost =>
      exact within_clamp01 ((isNaN_communication_iff c.communication).mpr h.communication)
  | congestionPenalty => exact within_clamp01 h.congestion
  | residualBandwidth => exact within_clamp01 ((isNaN_sub_one _).trans h.residualBandwidth)
  | healthMargin => exact within_clamp01 ((isNaN_sub_one _).trans h.healthScore)
  | estimatedQueueing =>
      obtain ⟨p, hp⟩ := exists_number h.congestion
      obtain ⟨r, hr⟩ := exists_number_mul hp number_half (by norm_num)
      exact within_clamp01 (isNaN_of_number hr)
  | _ => exact within_factorCost_of_words request c rfl

/-- The costs are numbers exactly of numeric evidence. -/
theorem isNaN_factorCost_iff :
    (∀ kind, (factorCost Double request c kind).isNaN = false) ↔ c.Numeric := by
  constructor
  · intro h
    have hcongestion := h .congestionPenalty
    have hresidual := h .residualBandwidth
    have hhealth := h .healthMargin
    have hcommunication := h .communicationCost
    refine ⟨(isNaN_clamp01 _).symm.trans hcongestion,
      ((isNaN_clamp01 _).trans (isNaN_sub_one _)).symm.trans hresidual,
      ((isNaN_clamp01 _).trans (isNaN_sub_one _)).symm.trans hhealth,
      (isNaN_communication_iff _).mp ((isNaN_clamp01 _).symm.trans hcommunication)⟩
  · exact fun h kind => (h.within_factorCost request kind).isNaN

end Factors

end FabricScheduler
