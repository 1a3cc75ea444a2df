import FabricScheduler.Core.DoubleOrder
import FabricScheduler.Model.Ranking

/-!
# What a ranked candidate's totals are made of

The loop over the factors is read component by component: how many factors are unknown, how
strong the weakest is, and how the score follows the costs of the factors.
-/

namespace FabricScheduler

/-- The evidence records of a candidate. -/
inductive EvidenceRecord
  | capacity | health | reservation | congestion | locality | communication | residency
  deriving DecidableEq, Repr

instance : Enumeration EvidenceRecord where
  all := [.capacity, .health, .reservation, .congestion, .locality, .communication, .residency]
  nodup := by decide
  complete r := by cases r <;> decide

namespace Candidate

/-- The provenance of one evidence record. -/
def provenanceOf (c : Candidate) : EvidenceRecord → Provenance
  | .capacity => c.capacity.provenance
  | .health => c.health.provenance
  | .reservation => c.reservation.provenance
  | .congestion => c.congestion.provenance
  | .locality => c.locality.provenance
  | .communication => c.communication.provenance
  | .residency => c.residency.provenance

/-- The candidate with one evidence record of another. -/
def withRecord (c d : Candidate) : EvidenceRecord → Candidate
  | .capacity => { c with capacity := d.capacity }
  | .health => { c with health := d.health }
  | .reservation => { c with reservation := d.reservation }
  | .congestion => { c with congestion := d.congestion }
  | .locality => { c with locality := d.locality }
  | .communication => { c with communication := d.communication }
  | .residency => { c with residency := d.residency }

theorem provenanceOf_withRecord (c d : Candidate) (r s : EvidenceRecord) :
    (c.withRecord d r).provenanceOf s = if s = r then d.provenanceOf s else c.provenanceOf s := by
  cases r <;> cases s <;> rfl

end Candidate

/-- Where a factor's provenance comes from: an evidence record, or a constant. -/
def factorSource : RankFactorKind → EvidenceRecord ⊕ Provenance
  | .acceleratorFit | .resourceHeadroom | .vramHeadroom | .cpuHeadroom
  | .pinnedMemoryHeadroom => .inl .capacity
  | .topologyLocality | .numaLocality | .pcieLocality | .nicLocality
  | .storageLocality => .inl .locality
  | .communicationCost => .inl .communication
  | .congestionPenalty | .residualBandwidth | .estimatedQueueing => .inl .congestion
  | .modelResidency | .adapterResidency | .reusableStateLocality | .checkpointMovementCost
  | .startupCost | .migrationRecomputeCost => .inl .residency
  | .reservationFit => .inl .reservation
  | .healthMargin => .inl .health
  | .failureDomainDiversification | .fragmentationImpact => .inr .synthetic
  | .energyPower => .inr .unknown
  | .externalPriority | .policyPreference => .inr .reported

/-- The provenance of one factor of a candidate. -/
def factorProvenance (c : Candidate) (kind : RankFactorKind) : Provenance :=
  match factorSource kind with
  | .inl r => c.provenanceOf r
  | .inr p => p

theorem mem_rankFactorOrder (kind : RankFactorKind) : kind ∈ rankFactorOrder :=
  Enumeration.complete kind

/-- Every evidence record feeds some factor. -/
theorem exists_factorSource (r : EvidenceRecord) : ∃ kind, factorSource kind = .inl r := by
  cases r
  · exact ⟨.acceleratorFit, rfl⟩
  · exact ⟨.healthMargin, rfl⟩
  · exact ⟨.reservationFit, rfl⟩
  · exact ⟨.congestionPenalty, rfl⟩
  · exact ⟨.numaLocality, rfl⟩
  · exact ⟨.communicationCost, rfl⟩
  · exact ⟨.modelResidency, rfl⟩

/-- Strictly more members are counted by a test that one member adds to. -/
theorem countP_lt_of_imp {α : Type} {p q : α → Bool} {l : List α} {a : α} (ha : a ∈ l)
    (hp : p a = false) (hq : q a = true) (h : ∀ b, p b = true → q b = true) :
    l.countP p < l.countP q := by
  obtain ⟨before, after, rfl⟩ := List.append_of_mem ha
  have hbefore : before.countP p ≤ before.countP q := List.countP_mono_left fun b _ => h b
  have hafter : after.countP p ≤ after.countP q := List.countP_mono_left fun b _ => h b
  rw [List.countP_append, List.countP_append, List.countP_cons_of_neg (by simp [hp]),
    List.countP_cons_of_pos hq]
  omega

/-- A candidate whose record is unknown where another's is known has more unknown
factors. -/
theorem countP_unknown_lt {u k : Candidate} {r : EvidenceRecord} (hagree : u = k.withRecord u r)
    (hu : u.provenanceOf r = .unknown) (hk : k.provenanceOf r ≠ .unknown) :
    (rankFactorOrder.countP fun kind => factorProvenance k kind = .unknown) <
      rankFactorOrder.countP fun kind => factorProvenance u kind = .unknown := by
  have hrecord : ∀ s, k.provenanceOf s = .unknown → u.provenanceOf s = .unknown := by
    intro s hs
    by_cases hsr : s = r
    · rw [hsr, hu]
    · have hsame := (k.provenanceOf_withRecord u r s).trans (if_neg hsr)
      rw [← hagree] at hsame
      rw [hsame, hs]
  obtain ⟨kind, hkind⟩ := exists_factorSource r
  apply countP_lt_of_imp (mem_rankFactorOrder kind)
  · simp only [factorProvenance, hkind, hk, decide_false]
  · simp only [factorProvenance, hkind, hu, decide_true]
  · intro other hother
    have hunknown := of_decide_eq_true hother
    apply decide_eq_true
    unfold factorProvenance at hunknown ⊢
    split
    · rename_i s hs
      rw [hs] at hunknown
      exact hrecord s hunknown
    · rename_i p hp
      rw [hp] at hunknown
      exact hunknown

section

variable {ν : Type} [CostArith ν]

open CostArith

variable (ν) in
/-- The cost of one factor of a candidate. -/
def factorCost (request : SchedulingRequest) (c : Candidate) (kind : RankFactorKind) : ν :=
  (computeFactor kind request c).1

theorem computeFactor_provenance (kind : RankFactorKind) (request : SchedulingRequest)
    (c : Candidate) : (computeFactor (ν := ν) kind request c).2.1 = factorProvenance c kind := by
  cases kind <;> rfl

/-- What one factor adds to the score. -/
def addCost (request : SchedulingRequest) (c : Candidate) (options : RankOptions) (total : ν)
    (kind : RankFactorKind) : ν :=
  add total (mul (ofDouble (options.weights.weight kind)) (factorCost ν request c kind))

section Totals

variable (request : SchedulingRequest) (c : Candidate) (options : RankOptions)
  (l : List RankFactorKind) (t : RankTotals ν)

theorem total_foldl : (l.foldl (accumulateFactor request c options) t).total =
    l.foldl (addCost request c options) t.total :=
  (List.foldl_hom RankTotals.total fun _ _ => rfl).symm

theorem unknown_foldl : (l.foldl (accumulateFactor request c options) t).unknown =
    t.unknown + .ofNat (l.countP fun kind => factorProvenance c kind = .unknown) := by
  induction l generalizing t with
  | nil => simp
  | cons kind l ih =>
      rw [List.foldl_cons, ih, List.countP_cons]
      have hfirst : (accumulateFactor request c options t kind).unknown =
          if factorProvenance c kind = .unknown then t.unknown + 1 else t.unknown := by
        rw [← computeFactor_provenance (ν := ν) kind request c]
        rfl
      rw [hfirst]
      by_cases h : factorProvenance c kind = .unknown
      · simp [h, UInt32.ofNat_add, UInt32.add_assoc, UInt32.add_comm 1]
      · simp [h]

/-- The weakest provenance seen so far never gets stronger. -/
theorem minStrength_foldl_le : (l.foldl (accumulateFactor request c options) t).minStrength ≤
    t.minStrength := by
  induction l generalizing t with
  | nil => exact UInt8.le_refl _
  | cons kind l ih =>
      have hfirst : (accumulateFactor request c options t kind).minStrength ≤ t.minStrength := by
        simp only [accumulateFactor]
        split
        · rename_i h
          exact UInt8.le_of_lt h
        · exact UInt8.le_refl _
      exact UInt8.le_trans (ih _) hfirst

theorem minStrength_foldl_le_of_mem {kind : RankFactorKind} (h : kind ∈ l) :
    (l.foldl (accumulateFactor request c options) t).minStrength ≤
      provenanceStrength (factorProvenance c kind) := by
  obtain ⟨before, after, rfl⟩ := List.append_of_mem h
  rw [List.foldl_append, List.foldl_cons]
  refine UInt8.le_trans (minStrength_foldl_le request c options after _) ?_
  rw [← computeFactor_provenance (ν := ν) kind request c]
  simp only [accumulateFactor]
  split
  · exact UInt8.le_refl _
  · rename_i hle
    exact UInt8.not_lt.mp hle

end Totals

variable (request : SchedulingRequest) (c : Candidate) (options : RankOptions)

/-- The score is the sum of the weighted costs in the order of the factors. -/
theorem score_rankerEvaluate : (rankerEvaluate (ν := ν) request c options).score =
    rankFactorOrder.foldl (addCost request c options) (ofDouble .zero) := by
  simp only [rankerEvaluate, total_foldl]

theorem unknownCount_rankerEvaluate :
    (rankerEvaluate (ν := ν) request c options).unknownCount =
      .ofNat (rankFactorOrder.countP fun kind => factorProvenance c kind = .unknown) := by
  simp only [rankerEvaluate, unknown_foldl, UInt32.zero_add]

theorem countP_unknown_le (p : RankFactorKind → Bool) : rankFactorOrder.countP p ≤ 27 :=
  List.countP_le_length

/-- The number of unknown factors fits its word. -/
theorem toNat_unknownCount : (rankerEvaluate (ν := ν) request c options).unknownCount.toNat =
    rankFactorOrder.countP fun kind => factorProvenance c kind = .unknown := by
  have hle := countP_unknown_le fun kind => factorProvenance c kind = .unknown
  rw [unknownCount_rankerEvaluate, UInt32.toNat_ofNat', Nat.mod_eq_of_lt (by omega)]

/-- The energy factor is never evidenced, so the weakest provenance is always unknown. -/
theorem evidenceStrength_rankerEvaluate :
    (rankerEvaluate (ν := ν) request c options).evidenceStrength = 0 := by
  have hle := minStrength_foldl_le_of_mem request c options rankFactorOrder
    (⟨[], ofDouble .zero, 255, 0, ofDouble .zero, ofDouble .zero⟩ : RankTotals ν)
    (mem_rankFactorOrder .energyPower)
  have hzero := UInt8.le_zero_iff.mp hle
  simp only [rankerEvaluate, hzero]
  rfl

theorem deterministic_rankerEvaluate :
    (rankerEvaluate (ν := ν) request c options).deterministic = false := by
  have hpos : 0 < rankFactorOrder.countP fun kind => factorProvenance c kind = .unknown :=
    List.countP_pos_iff.mpr ⟨.energyPower, mem_rankFactorOrder _, rfl⟩
  have hcount : (rankerEvaluate (ν := ν) request c options).deterministic =
      ((rankerEvaluate (ν := ν) request c options).unknownCount == 0) := rfl
  rw [hcount, beq_eq_false_iff_ne]
  intro hzero
  have hnat := congrArg UInt32.toNat hzero
  rw [toNat_unknownCount] at hnat
  exact hpos.ne' hnat

end

end FabricScheduler
