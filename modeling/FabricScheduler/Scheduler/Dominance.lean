import FabricScheduler.Core.ExactCost
import FabricScheduler.Scheduler.Preference

/-!
# Dominance

Read without rounding, no cost of a candidate rises when its evidence gets better. A
candidate that is as good as another in every respect is admitted wherever the other is, and
gives way to it only by its id.
-/

namespace FabricScheduler

open CostArith

/-- Another candidate has the bindings, the locality and the provenances of this one, and is
as good in every other respect the filter or the ranking consults. -/
structure Candidate.Dominates (d c : Candidate) : Prop where
  bindings : d.bindings = c.bindings
  locality : d.locality = c.locality
  provenanceOf : ∀ r, d.provenanceOf r = c.provenanceOf r
  vramTotal : c.capacity.vramTotal ≤ d.capacity.vramTotal
  vramAvailable : c.capacity.vramAvailable ≤ d.capacity.vramAvailable
  hostMemory : c.capacity.hostMemoryAvailable ≤ d.capacity.hostMemoryAvailable
  pinnedMemory : c.capacity.pinnedMemoryAvailable ≤ d.capacity.pinnedMemoryAvailable
  cpu : c.capacity.cpuAvailable ≤ d.capacity.cpuAvailable
  storage : c.capacity.storageAvailable ≤ d.capacity.storageAvailable
  nicBandwidth : c.capacity.nicBandwidthAvailable ≤ d.capacity.nicBandwidthAvailable
  contiguous : c.capacity.contiguousMemory = true → d.capacity.contiguousMemory = true
  ready : c.health.ready = true → d.health.ready = true
  unprotected : c.reservation.protectedResource = false →
    d.reservation.protectedResource = false
  modelResident : c.residency.modelResident = true → d.residency.modelResident = true
  adapterResident : c.residency.adapterResident = true → d.residency.adapterResident = true
  stateLocal : c.residency.stateLocal = true → d.residency.stateLocal = true
  healthScore : c.health.healthScore.toRat ≤ d.health.healthScore.toRat
  residualBandwidth :
    c.congestion.residualBandwidth.toRat ≤ d.congestion.residualBandwidth.toRat
  reservedBytes : d.reservation.reservedBytes ≤ c.reservation.reservedBytes
  moveBytes : d.residency.moveBytes ≤ c.residency.moveBytes
  congestion : d.congestion.congestion.toRat ≤ c.congestion.congestion.toRat
  estimatedCost : d.communication.estimatedCost.toRat ≤ c.communication.estimatedCost.toRat
  derivedPathCost :
    d.communication.derivedPathCost.toRat ≤ c.communication.derivedPathCost.toRat
  collectiveCost :
    d.communication.collectiveCost.toRat ≤ c.communication.collectiveCost.toRat

section Factors

theorem clamp01_rat (v : ℚ) : clamp01 v = max 0 (min 1 v) := by
  simp only [clamp01, lt_rat, ofDouble_rat, Double.toRat_zero, Double.toRat_one,
    decide_eq_true_eq]
  split
  · rename_i hneg
    rw [min_eq_right (by linarith), max_eq_left hneg.le]
  · rename_i hneg
    split
    · rename_i habove
      rw [min_eq_left habove.le, max_eq_right zero_le_one]
    · rename_i habove
      rw [min_eq_right (not_lt.mp habove), max_eq_right (not_lt.mp hneg)]

theorem clamp01_nonneg (v : ℚ) : 0 ≤ clamp01 v := by
  rw [clamp01_rat]
  exact le_max_left _ _

theorem clamp01_le_one (v : ℚ) : clamp01 v ≤ 1 := by
  rw [clamp01_rat]
  exact max_le zero_le_one (min_le_left _ _)

theorem clamp01_mono {v w : ℚ} (h : v ≤ w) : clamp01 v ≤ clamp01 w := by
  rw [clamp01_rat, clamp01_rat]
  exact max_le_max le_rfl (min_le_min le_rfl h)

/-- A demand takes a smaller share of a larger supply. -/
theorem ratioOrOne_anti (need : ℕ) {avail more : ℕ} (h : avail ≤ more) :
    ratioOrOne need more ≤ (ratioOrOne need avail : ℚ) := by
  unfold ratioOrOne
  by_cases havail : avail = 0
  · rw [if_pos havail, ofDouble_rat, Double.toRat_one]
    split
    · rfl
    · exact clamp01_le_one _
  · have hpos : 0 < avail := Nat.pos_of_ne_zero havail
    rw [if_neg havail, if_neg (by omega)]
    apply clamp01_mono
    rw [div_rat, div_rat, ofNat_rat, ofNat_rat, ofNat_rat]
    gcongr

theorem nonResidentCost_nonneg (moveBytes : UInt64) : 0 ≤ (nonResidentCost moveBytes : ℚ) := by
  unfold nonResidentCost
  split
  · simp
  · simp

theorem nonResidentCost_mono {fewer moveBytes : UInt64} (h : fewer ≤ moveBytes) :
    nonResidentCost fewer ≤ (nonResidentCost moveBytes : ℚ) := by
  unfold nonResidentCost
  by_cases hmove : 0 < fewer
  · rw [if_pos hmove, if_pos (UInt64.lt_of_lt_of_le hmove h)]
  · rw [if_neg hmove]
    split
    · rw [ofDouble_rat, ofDouble_rat, Double.toRat_half, Double.toRat_one]
      norm_num
    · rfl

/-- What is resident costs nothing, and what is not costs less with fewer bytes to move. -/
theorem residencyCost_le {resident resident' : Bool} {fewer moveBytes : UInt64}
    (hresident : resident = true → resident' = true) (h : fewer ≤ moveBytes) :
    (if resident' then (ofDouble .zero : ℚ) else nonResidentCost fewer) ≤
      if resident then ofDouble .zero else nonResidentCost moveBytes := by
  rw [ofDouble_rat, Double.toRat_zero]
  by_cases hr' : resident' = true
  · rw [if_pos hr']
    split
    · rfl
    · exact nonResidentCost_nonneg _
  · rw [if_neg hr', if_neg (mt hresident hr')]
    exact nonResidentCost_mono h

/-- A cost paid only where bytes move falls with the bytes. -/
theorem movedCost_le {fewer moveBytes : UInt64} (h : fewer ≤ moveBytes) {v w : ℚ}
    (hvw : v ≤ w) (hw : 0 ≤ w) :
    (if 0 < fewer then v else ofDouble .zero) ≤ if 0 < moveBytes then w else ofDouble .zero := by
  rw [ofDouble_rat, Double.toRat_zero]
  by_cases hmove : 0 < fewer
  · rw [if_pos hmove, if_pos (UInt64.lt_of_lt_of_le hmove h)]
    exact hvw
  · rw [if_neg hmove]
    split
    · exact hw
    · rfl

theorem max_rat (x y : ℚ) : (if lt x y then y else x) = max x y := by
  rw [lt_rat]
  split
  · rename_i h
    exact (max_eq_right (of_decide_eq_true h).le).symm
  · rename_i h
    exact (max_eq_left (not_lt.mp (mt decide_eq_true h))).symm

end Factors

variable (request : SchedulingRequest) {c d : Candidate}

/-- No factor costs a dominating candidate more. -/
theorem Candidate.Dominates.factorCost_le (h : d.Dominates c) (kind : RankFactorKind) :
    factorCost ℚ request d kind ≤ factorCost ℚ request c kind := by
  have hvram := UInt64.le_iff_toNat_le.mp h.vramAvailable
  have hcpu := UInt32.le_iff_toNat_le.mp h.cpu
  have hmove : (d.residency.moveBytes.toNat : ℚ) ≤ c.residency.moveBytes.toNat :=
    Nat.cast_le.mpr (UInt64.le_iff_toNat_le.mp h.moveBytes)
  cases kind with
  | acceleratorFit | vramHeadroom => exact ratioOrOne_anti _ hvram
  | cpuHeadroom => exact ratioOrOne_anti _ hcpu
  | pinnedMemoryHeadroom => exact ratioOrOne_anti _ (UInt64.le_iff_toNat_le.mp h.pinnedMemory)
  | resourceHeadroom =>
      simp only [factorCost, computeFactor, max_rat]
      exact max_le_max (ratioOrOne_anti _ hcpu)
        (ratioOrOne_anti _ (UInt64.le_iff_toNat_le.mp h.hostMemory))
  | topologyLocality | numaLocality | pcieLocality | nicLocality | storageLocality =>
      simp only [factorCost, computeFactor, h.locality, le_refl]
  | communicationCost =>
      exact clamp01_mono (add_le_add (add_le_add h.estimatedCost h.derivedPathCost)
        h.collectiveCost)
  | congestionPenalty => exact clamp01_mono h.congestion
  | residualBandwidth => exact clamp01_mono (sub_le_sub_left h.residualBandwidth _)
  | modelResidency => exact residencyCost_le h.modelResident h.moveBytes
  | adapterResidency => exact residencyCost_le h.adapterResident h.moveBytes
  | reusableStateLocality =>
      simp only [factorCost, computeFactor, ofDouble_rat, Double.toRat_zero, Double.toRat_one]
      by_cases hlocal : c.residency.stateLocal = true
      · rw [if_pos hlocal, if_pos (h.stateLocal hlocal)]
      · rw [if_neg hlocal]
        split
        · exact zero_le_one
        · rfl
  | checkpointMovementCost => exact clamp01_mono (div_le_div_of_nonneg_right hmove (by simp))
  | startupCost => exact movedCost_le h.moveBytes le_rfl Double.toRat_tenth_nonneg
  | migrationRecomputeCost =>
      exact movedCost_le h.moveBytes (clamp01_mono (div_le_div_of_nonneg_right hmove (by simp)))
        (clamp01_nonneg _)
  | reservationFit =>
      apply clamp01_mono
      have hreserved := UInt64.le_iff_toNat_le.mp h.reservedBytes
      have htotal := UInt64.le_iff_toNat_le.mp h.vramTotal
      simp only [div_rat, ofNat_rat]
      gcongr
  | healthMargin => exact clamp01_mono (sub_le_sub_left h.healthScore _)
  | estimatedQueueing =>
      apply clamp01_mono
      simp only [mul_rat, ofDouble_rat, Double.toRat_half]
      exact mul_le_mul_of_nonneg_right h.congestion (by norm_num)
  | failureDomainDiversification | energyPower | fragmentationImpact | externalPriority
  | policyPreference => rfl

theorem RankingWeights.NonNegative.toRat_nonneg {weights : RankingWeights}
    (h : weights.NonNegative) (kind : RankFactorKind) : 0 ≤ (weights.weight kind).toRat :=
  Double.toRat_nonneg (h.le kind)

/-- The totals a rank is read from, none above another's. -/
structure RankTotals.Within (t u : RankTotals ℚ) : Prop where
  total : t.total ≤ u.total
  moveCost : t.moveCost ≤ u.moveCost
  headroom : t.headroom ≤ u.headroom

variable {options : RankOptions}

/-- One factor keeps the totals of the dominating candidate within the other's. -/
theorem RankTotals.Within.accumulateFactor {t u : RankTotals ℚ} (ht : t.Within u)
    (hw : options.weights.NonNegative) (h : d.Dominates c) (kind : RankFactorKind) :
    (accumulateFactor request d options t kind).Within
      (accumulateFactor request c options u kind) := by
  have hcost := h.factorCost_le request kind
  constructor
  · exact add_le_add ht.total (mul_le_mul_of_nonneg_left hcost (hw.toRat_nonneg kind))
  · simp only [FabricScheduler.accumulateFactor, add_rat]
    split
    · exact add_le_add ht.moveCost hcost
    · exact ht.moveCost
  · simp only [FabricScheduler.accumulateFactor, add_rat]
    split
    · exact add_le_add ht.headroom hcost
    · exact ht.headroom

theorem RankTotals.Within.foldl (hw : options.weights.NonNegative) (h : d.Dominates c)
    (l : List RankFactorKind) {t u : RankTotals ℚ} (ht : t.Within u) :
    (l.foldl (FabricScheduler.accumulateFactor request d options) t).Within
      (l.foldl (FabricScheduler.accumulateFactor request c options) u) := by
  induction l generalizing t u with
  | nil => exact ht
  | cons kind l ih => exact ih (ht.accumulateFactor request hw h kind)

namespace Candidate.Dominates

/-- The totals of a dominating candidate are within the other's after every factor. -/
theorem within (h : d.Dominates c) (hw : options.weights.NonNegative) :
    (rankFactorOrder.foldl (accumulateFactor request d options)
        ⟨[], ofDouble .zero, 255, 0, ofDouble .zero, ofDouble .zero⟩).Within
      (rankFactorOrder.foldl (accumulateFactor request c options)
        ⟨[], ofDouble .zero, 255, 0, ofDouble .zero, ofDouble .zero⟩) :=
  .foldl request hw h rankFactorOrder ⟨le_rfl, le_rfl, le_rfl⟩

theorem score_le (h : d.Dominates c) (hw : options.weights.NonNegative) :
    (rankerEvaluate (ν := ℚ) request d options).score ≤
      (rankerEvaluate (ν := ℚ) request c options).score := by
  simp only [rankerEvaluate]
  exact (h.within request hw).total

theorem movementCost_le (h : d.Dominates c) (hw : options.weights.NonNegative) :
    (rankerEvaluate (ν := ℚ) request d options).movementCost ≤
      (rankerEvaluate (ν := ℚ) request c options).movementCost := by
  simp only [rankerEvaluate]
  exact (h.within request hw).moveCost

theorem headroomCost_le (h : d.Dominates c) (hw : options.weights.NonNegative) :
    (rankerEvaluate (ν := ℚ) request d options).headroomCost ≤
      (rankerEvaluate (ν := ℚ) request c options).headroomCost := by
  simp only [rankerEvaluate]
  exact (h.within request hw).headroom

theorem congestionCost_le (h : d.Dominates c) :
    (rankerEvaluate (ν := ℚ) request d options).congestionCost ≤
      (rankerEvaluate (ν := ℚ) request c options).congestionCost := by
  simp only [rankerEvaluate]
  exact clamp01_mono h.congestion

theorem factorProvenance_eq (h : d.Dominates c) (kind : RankFactorKind) :
    factorProvenance d kind = factorProvenance c kind := by
  unfold factorProvenance
  split
  · exact h.provenanceOf _
  · rfl

theorem unknownCount_eq (h : d.Dominates c) :
    (rankerEvaluate (ν := ℚ) request c options).unknownCount =
      (rankerEvaluate (ν := ℚ) request d options).unknownCount := by
  simp only [unknownCount_rankerEvaluate, h.factorProvenance_eq]

theorem localResources_eq (h : d.Dominates c) :
    (rankerEvaluate (ν := ℚ) request c options).localResources =
      (rankerEvaluate (ν := ℚ) request d options).localResources := by
  simp only [rankerEvaluate, h.bindings, h.locality]

end Candidate.Dominates

/-- Where the first key is not preferred, it is equal and the rest of the chain decides. -/
theorem tie_of_link {x y : ℚ} {rest : Bool} (hle : y ≤ x)
    (h : (if !eq x y then lt x y else rest) = true) : x = y ∧ rest = true := by
  by_cases hxy : x = y
  · simp only [eq_rat, hxy, decide_true, Bool.not_true, Bool.false_eq_true, if_false] at h
    exact ⟨hxy, h⟩
  · simp only [eq_rat, lt_rat, hxy, decide_false, Bool.not_false, if_true,
      decide_eq_true_eq] at h
    exact absurd h (not_lt.mpr hle)

/-- All keys of two ranks are equal, the ids apart. -/
structure RankedCandidate.TiedWith (a b : RankedCandidate ℚ) : Prop where
  score : a.score = b.score
  unknownCount : a.unknownCount = b.unknownCount
  evidenceStrength : a.evidenceStrength = b.evidenceStrength
  movementCost : a.movementCost = b.movementCost
  headroomCost : a.headroomCost = b.headroomCost
  congestionCost : a.congestionCost = b.congestionCost
  localResources : a.localResources = b.localResources

/-- A rank comes before one that is as good in every key only by its id. -/
theorem tiedWith_of_rankComparator {a b : RankedCandidate ℚ} (hscore : b.score ≤ a.score)
    (hunknown : a.unknownCount = b.unknownCount)
    (hstrength : a.evidenceStrength = b.evidenceStrength)
    (hmovement : b.movementCost ≤ a.movementCost)
    (hheadroom : b.headroomCost ≤ a.headroomCost)
    (hcongestion : b.congestionCost ≤ a.congestionCost)
    (hlocal : a.localResources = b.localResources) (h : rankComparator a b = true) :
    a.TiedWith b ∧ a.candidateId < b.candidateId := by
  unfold rankComparator at h
  simp only [hunknown, hstrength, hlocal, bne_self_eq_false, Bool.false_eq_true, if_false] at h
  obtain ⟨hs, h⟩ := tie_of_link hscore h
  obtain ⟨hm, h⟩ := tie_of_link hmovement h
  obtain ⟨hh, h⟩ := tie_of_link hheadroom h
  obtain ⟨hc, h⟩ := tie_of_link hcongestion h
  exact ⟨⟨hs, hunknown, hstrength, hm, hh, hc, hlocal⟩, of_decide_eq_true h⟩

/-- The filter admits a dominating candidate the policy does not prefer the other to. -/
theorem Candidate.Dominates.admitted {dependency : Option DependencyView}
    {policy : Option PolicyVeto} (h : d.Dominates c)
    (hpolicy : ∀ p ∈ policy, p.allows c = true → p.allows d = true)
    (hc : Admitted request c dependency policy) : Admitted request d dependency policy where
  bindings := h.bindings ▸ hc.bindings
  capacityEvidence := mt (And.imp_right (h.provenanceOf .capacity).symm.trans)
    hc.capacityEvidence
  healthEvidence := mt (h.provenanceOf .health).symm.trans hc.healthEvidence
  capability := h.bindings ▸ hc.capability
  vram := mt (And.imp_right (UInt64.lt_of_le_of_lt h.vramAvailable)) hc.vram
  cpu := mt (UInt32.lt_of_le_of_lt h.cpu) hc.cpu
  hostMemory := mt (UInt64.lt_of_le_of_lt h.hostMemory) hc.hostMemory
  pinnedMemory := mt (UInt64.lt_of_le_of_lt h.pinnedMemory) hc.pinnedMemory
  contiguity := mt (And.imp_right (mt h.contiguous)) hc.contiguity
  health := mt (mt h.ready) hc.health
  nic := h.bindings ▸ hc.nic
  bandwidth := mt (And.imp_right (UInt64.lt_of_le_of_lt h.nicBandwidth)) hc.bandwidth
  storage := mt (UInt64.lt_of_le_of_lt h.storage) hc.storage
  stateLocal := mt (And.imp_right (mt h.stateLocal)) hc.stateLocal
  reservation := Bool.not_eq_true _ ▸ h.unprotected (Bool.not_eq_true _ ▸ hc.reservation)
  topology := h.locality ▸ hc.topology
  dependency := hc.dependency
  policy p hp := hpolicy p hp (hc.policy p hp)

/-- A dominating candidate is admitted wherever the other is, and the other comes before it
only by its id. -/
theorem dominating_preferred {dependency : Option DependencyView} {policy : Option PolicyVeto}
    (hw : options.weights.NonNegative) (h : d.Dominates c)
    (hpolicy : ∀ p ∈ policy, p.allows c = true → p.allows d = true) :
    ((hardFilterEvaluate request c dependency policy).eligible = true →
      (hardFilterEvaluate request d dependency policy).eligible = true) ∧
    (rankComparator (ν := ℚ) (rankerEvaluate request c options)
        (rankerEvaluate request d options) = true →
      (rankerEvaluate (ν := ℚ) request c options).TiedWith (rankerEvaluate request d options) ∧
        c.candidateId < d.candidateId) := by
  constructor
  · intro hc
    exact eligible_iff_admitted.mpr (h.admitted request hpolicy (eligible_iff_admitted.mp hc))
  · apply tiedWith_of_rankComparator (h.score_le request hw) (h.unknownCount_eq request)
    · rw [evidenceStrength_rankerEvaluate, evidenceStrength_rankerEvaluate]
    · exact h.movementCost_le request hw
    · exact h.headroomCost_le request hw
    · exact h.congestionCost_le request
    · exact h.localResources_eq request

theorem Sample.dominates_congested :
    (Sample.candidate ⟨1⟩ ⟨1⟩).Dominates Sample.congestedCandidate := by
  constructor
  case provenanceOf => intro r; cases r <;> rfl
  case residualBandwidth | congestion =>
    simp only [Sample.congestedCandidate, Sample.candidate, Double.toRat_zero,
      Double.toRat_half, Double.toRat_one]
    norm_num
  all_goals first | exact le_rfl | exact id | decide

/-- Of two candidates without devices, the one on a free link is admitted and does not give
way to the one on a congested link. -/
theorem dominating_preferred_congested :
    (hardFilterEvaluate (Sample.request ⟨1⟩) (Sample.candidate ⟨1⟩ ⟨1⟩)
      (some alwaysReadyDependency) (some allowAllPolicy)).eligible = true ∧
    rankComparator (ν := ℚ)
      (rankerEvaluate (Sample.request ⟨1⟩) Sample.congestedCandidate Sample.config.rankOptions)
      (rankerEvaluate (Sample.request ⟨1⟩) (Sample.candidate ⟨1⟩ ⟨1⟩)
        Sample.config.rankOptions) = false := by
  have hpreferred := @dominating_preferred (Sample.request ⟨1⟩) Sample.congestedCandidate
    (Sample.candidate ⟨1⟩ ⟨1⟩) ⟨.default⟩ (some alwaysReadyDependency) (some allowAllPolicy)
    RankingWeights.nonNegative_default Sample.dominates_congested (fun p hp _ => by
      obtain rfl := Option.some.inj hp
      rfl)
  constructor
  · exact hpreferred.1 (by decide +kernel)
  · exact Bool.eq_false_iff.mpr fun h => absurd (hpreferred.2 h).2 (by decide)

end FabricScheduler
