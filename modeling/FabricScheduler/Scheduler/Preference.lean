import FabricScheduler.Model.CostBounds
import FabricScheduler.Scheduler.Execution

/-!
# What the ranking makes of evidence

The tie-break chain asks for the strength of the weakest evidence and for the number of
unknown factors. The first is drowned by a factor that is never evidenced; the second is
asked only between equal scores, and the score reads what an unknown record happens to hold.
-/

namespace FabricScheduler

namespace Candidate

/-- The strength of the weakest of the candidate's own evidence records. -/
def weakestStrength (c : Candidate) : ℕ :=
  ((Enumeration.all : List EvidenceRecord).map fun r =>
    (provenanceStrength (c.provenanceOf r)).toNat).foldr min 6

theorem provenanceStrength_eq_zero_iff (p : Provenance) :
    (provenanceStrength p).toNat = 0 ↔ p = .unknown := by
  cases p <;> decide

/-- The weakest evidence has no strength exactly if some record is unknown. -/
theorem weakestStrength_eq_zero_iff (c : Candidate) :
    c.weakestStrength = 0 ↔ ∃ r, c.provenanceOf r = .unknown := by
  have hmin : ∀ l : List EvidenceRecord, (l.map fun r =>
      (provenanceStrength (c.provenanceOf r)).toNat).foldr min 6 = 0 ↔
        ∃ r ∈ l, c.provenanceOf r = .unknown := by
    intro l
    induction l with
    | nil => simp
    | cons r l ih =>
        rw [List.map_cons, List.foldr_cons, Nat.min_eq_zero_iff, ih,
          provenanceStrength_eq_zero_iff, List.exists_mem_cons_iff]
  rw [weakestStrength, hmin]
  constructor
  · rintro ⟨r, _, hr⟩
    exact ⟨r, hr⟩
  · rintro ⟨r, hr⟩
    exact ⟨r, Enumeration.complete r, hr⟩

end Candidate

/-- The rank of a candidate reports its own evidence: the strength of the weakest record,
and whether none is unknown. -/
structure ReportsEvidence (request : SchedulingRequest) (options : RankOptions)
    (c : Candidate) : Prop where
  strength : (rankerEvaluate (ν := Double) request c options).evidenceStrength.toNat =
    c.weakestStrength
  deterministic : (rankerEvaluate (ν := Double) request c options).deterministic = true ↔
    ∀ r, c.provenanceOf r ≠ .unknown

/-- The ranks report the evidence, and between equal scores and unknown counts the candidate
with the stronger weakest evidence comes first. -/
structure SettlesByEvidence (request : SchedulingRequest) (options : RankOptions)
    (a b : Candidate) : Prop where
  left : ReportsEvidence request options a
  right : ReportsEvidence request options b
  tie : Double.eq (rankerEvaluate request a options).score
      (rankerEvaluate request b options).score = true →
    (rankerEvaluate (ν := Double) request a options).unknownCount =
      (rankerEvaluate (ν := Double) request b options).unknownCount →
    b.weakestStrength < a.weakestStrength →
    rankComparator (ν := Double) (rankerEvaluate request a options)
      (rankerEvaluate request b options) = true

/-- A rank reports the evidence exactly of a candidate with an unknown record. -/
theorem reportsEvidence_iff (request : SchedulingRequest) (options : RankOptions)
    (c : Candidate) :
    ReportsEvidence request options c ↔ ∃ r, c.provenanceOf r = .unknown := by
  constructor
  · intro h
    have hstrength := h.strength
    rw [evidenceStrength_rankerEvaluate] at hstrength
    exact c.weakestStrength_eq_zero_iff.mp hstrength.symm
  · rintro ⟨r, hr⟩
    constructor
    · rw [evidenceStrength_rankerEvaluate, c.weakestStrength_eq_zero_iff.mpr ⟨r, hr⟩]
      rfl
    · rw [deterministic_rankerEvaluate]
      constructor
      · intro hfalse
        cases hfalse
      · intro hknown
        exact absurd hr (hknown r)

/-- Evidence settles the order of two candidates as documented exactly if both have an
unknown record, when there is nothing to settle. -/
theorem settlesByEvidence_iff (request : SchedulingRequest) (options : RankOptions)
    (a b : Candidate) : SettlesByEvidence request options a b ↔
      (∃ r, a.provenanceOf r = .unknown) ∧ ∃ r, b.provenanceOf r = .unknown := by
  constructor
  · intro h
    exact ⟨(reportsEvidence_iff request options a).mp h.left,
      (reportsEvidence_iff request options b).mp h.right⟩
  · rintro ⟨ha, hb⟩
    refine ⟨(reportsEvidence_iff request options a).mpr ha,
      (reportsEvidence_iff request options b).mpr hb, ?_⟩
    intro _ _ hlt
    rw [a.weakestStrength_eq_zero_iff.mpr ha] at hlt
    omega

/-- The sample candidate with capacity evidence from a scenario. -/
def Sample.syntheticCandidate : Candidate := { Sample.candidate ⟨1⟩ ⟨1⟩ with
  capacity := { (Sample.candidate ⟨1⟩ ⟨1⟩).capacity with provenance := .synthetic } }

/-- Of two candidates that differ in nothing else, the one with synthetic capacity evidence
comes before the one with measured evidence, by its smaller id. -/
theorem not_settlesByEvidence :
    ¬∀ (request : SchedulingRequest) (options : RankOptions) (a b : Candidate),
      SettlesByEvidence request options a b := by
  intro hall
  have hfirst := (hall (Sample.request ⟨1⟩) ⟨.default⟩ (Sample.candidate ⟨2⟩ ⟨1⟩)
    Sample.syntheticCandidate).tie (by decide +kernel) (by decide +kernel) (by decide)
  have hsecond : rankComparator (ν := Double)
      (rankerEvaluate (Sample.request ⟨1⟩) (Sample.candidate ⟨2⟩ ⟨1⟩) ⟨.default⟩)
      (rankerEvaluate (Sample.request ⟨1⟩) Sample.syntheticCandidate ⟨.default⟩) = false := by
    decide +kernel
  rw [hsecond] at hfirst
  cases hfirst

section Unknown

open Double
open Binary64 (real NotBelow)

/-- Weights that are numbers and not negative. -/
def RankingWeights.NonNegative (weights : RankingWeights) : Prop :=
  ∀ kind, Double.lt .zero (weights.weight kind) = true ∨
    Double.eq .zero (weights.weight kind) = true

theorem RankingWeights.NonNegative.le {weights : RankingWeights} (h : weights.NonNegative)
    (kind : RankFactorKind) : ∀ z ∈ (weights.weight kind).number, real 0 ≤ z := by
  intro z hz
  rcases h kind with hlt | heq
  · obtain ⟨x, hx, y, hy, hxy⟩ := (lt_iff _ _).mp hlt
    obtain rfl := Option.some.inj (number_zero.symm.trans hx)
    obtain rfl := Option.some.inj (hz.symm.trans hy)
    exact hxy.le
  · obtain ⟨x, hx, hx'⟩ := (eq_iff _ _).mp heq
    obtain rfl := Option.some.inj (number_zero.symm.trans hx)
    exact (Option.some.inj (hx'.symm.trans hz)).le

variable (request : SchedulingRequest) (options : RankOptions) {u k c : Candidate}

/-- If no cost is below its counterpart, neither is the score. -/
theorem notBelow_score (hw : options.weights.NonNegative)
    (h : ∀ kind, Double.lt (factorCost Double request u kind)
      (factorCost Double request k kind) = false) :
    NotBelow (rankerEvaluate (ν := Double) request u options).score.number
      (rankerEvaluate (ν := Double) request k options).score.number := by
  rw [score_rankerEvaluate, score_rankerEvaluate]
  have hfold : ∀ (l : List RankFactorKind) (s t : Double), NotBelow s.number t.number →
      NotBelow (l.foldl (addCost request u options) s).number
        (l.foldl (addCost request k options) t).number := by
    intro l
    induction l with
    | nil => exact fun s t hst => hst
    | cons kind l ih =>
        intro s t hst
        exact ih _ _ (notBelow_add hst (notBelow_mul (hw.le kind)
          ((lt_eq_false_iff _ _).mp (h kind))))
  apply hfold
  intro p hp q hq
  exact (Option.some.inj (hq.symm.trans hp)).le

/-- A cost that is not a number leaves no score. -/
theorem number_score_eq_none {kind : RankFactorKind}
    (h : (factorCost Double request c kind).isNaN = true) :
    (rankerEvaluate (ν := Double) request c options).score.number = none := by
  have hrest : ∀ (l : List RankFactorKind) (s : Double), s.number = none →
      (l.foldl (addCost request c options) s).number = none := by
    intro l
    induction l with
    | nil => exact fun s hs => hs
    | cons kind l ih => exact fun s hs => ih _ (number_add_none (Or.inl hs))
  obtain ⟨before, after, horder⟩ := List.append_of_mem (mem_rankFactorOrder kind)
  rw [score_rankerEvaluate, horder, List.foldl_append, List.foldl_cons]
  exact hrest after _ (number_add_none (Or.inr (number_mul_none (Or.inr
    ((number_eq_none_iff _).mpr h)))))

/-- A number is not infinite. -/
def Bounded (d : Double) : Prop := ∀ p ∈ d.number, ∃ x, p = real x

/-- Every cost that is a number is finite. -/
theorem bounded_factorCost (c : Candidate) (kind : RankFactorKind) :
    Bounded (factorCost Double request c kind) := by
  intro p hp
  obtain ⟨x, hx, _⟩ := within_factorCost_of_number request c (isNaN_of_number hp)
  exact ⟨x, Option.some.inj (hp.symm.trans hx)⟩

/-- The weights that consult one factor only. -/
def RankingWeights.only (kind : RankFactorKind) : RankingWeights where
  weight k := if k = kind then .one else .zero

theorem RankingWeights.nonNegative_only (kind : RankFactorKind) :
    (RankingWeights.only kind).NonNegative := by
  intro k
  simp only [RankingWeights.only]
  split
  · exact Or.inl (by decide +kernel)
  · exact Or.inr (by decide +kernel)

theorem RankingWeights.nonNegative_default : RankingWeights.default.NonNegative := by
  intro kind
  cases kind <;> (unfold RankingWeights.default; decide +kernel)

/-- A cost that is a number is a rational. -/
theorem exists_number_factorCost (c : Candidate)
    (h : ∀ kind, (factorCost Double request c kind).isNaN = false) (kind : RankFactorKind) :
    ∃ x, (factorCost Double request c kind).number = some (real x) := by
  obtain ⟨p, hp⟩ := exists_number (h kind)
  obtain ⟨x, rfl⟩ := bounded_factorCost request c kind p hp
  exact ⟨x, hp⟩

/-- A factor of weight zero adds nothing. -/
theorem number_addCost_zero {kind : RankFactorKind} {s : Double} {x : ℚ}
    (hcost : ∃ y, (factorCost Double request c kind).number = some (real y))
    (hweight : options.weights.weight kind = .zero) (hs : s.number = some (real x)) :
    (addCost request c options s kind).number = some (real x) := by
  obtain ⟨y, hy⟩ := hcost
  have hproduct := number_mul_of_exact number_zero hy (c := .zero)
    (by rw [zero_mul]; exact number_zero)
  rw [zero_mul] at hproduct
  have hsum := number_add_of_exact hs hproduct (c := s) (by rw [add_zero]; exact hs)
  rw [add_zero] at hsum
  rw [addCost, hweight]
  exact hsum

/-- Added to nothing, a factor of weight one is its cost. -/
theorem number_addCost_one {kind : RankFactorKind} {s : Double} {y : ℚ}
    (hy : (factorCost Double request c kind).number = some (real y))
    (hweight : options.weights.weight kind = .one) (hs : s.number = some (real 0)) :
    (addCost request c options s kind).number = some (real y) := by
  have hproduct := number_mul_of_exact number_one hy (by rw [one_mul]; exact hy)
  rw [one_mul] at hproduct
  have hsum := number_add_of_exact hs hproduct (by rw [zero_add]; exact hy)
  rw [zero_add] at hsum
  rw [addCost, hweight]
  exact hsum

/-- The score under the weights of one factor is the cost of that factor. -/
theorem number_score_only (c : Candidate) (kind : RankFactorKind)
    (h : ∀ kind, (factorCost Double request c kind).isNaN = false) :
    (rankerEvaluate (ν := Double) request c ⟨.only kind⟩).score.number =
      (factorCost Double request c kind).number := by
  have hcost := exists_number_factorCost request c h
  have hskip : ∀ (l : List RankFactorKind), kind ∉ l → ∀ (s : Double) (x : ℚ),
      s.number = some (real x) →
        (l.foldl (addCost request c ⟨.only kind⟩) s).number = some (real x) := by
    intro l
    induction l with
    | nil => exact fun _ s x hs => hs
    | cons k l ih =>
        intro hnot s x hs
        rw [List.mem_cons, not_or] at hnot
        exact ih hnot.2 _ x (number_addCost_zero request _ (hcost k)
          (if_neg (Ne.symm hnot.1)) hs)
  obtain ⟨before, after, horder⟩ := List.append_of_mem (mem_rankFactorOrder kind)
  have hnodup : (before ++ kind :: after).Nodup := horder ▸ Enumeration.nodup
  have hbefore : kind ∉ before := fun hmem =>
    List.disjoint_of_nodup_append hnodup hmem (List.mem_cons_self ..)
  have hafter : kind ∉ after := (List.nodup_cons.mp (List.nodup_append.mp hnodup).2.1).1
  obtain ⟨y, hy⟩ := hcost kind
  rw [score_rankerEvaluate, horder, List.foldl_append, List.foldl_cons, hy]
  exact hskip after hafter _ y (number_addCost_one request _ hy (if_pos rfl)
    (hskip before hbefore .zero 0 number_zero))

/-- A rank with more unknown factors comes first only by its score. -/
theorem rankComparator_of_unknownCount_lt {a b : RankedCandidate Double}
    (h : b.unknownCount < a.unknownCount) :
    rankComparator a b = Double.lt a.score b.score := by
  unfold rankComparator
  cases heq : Double.eq a.score b.score with
  | false =>
      have heq' : CostArith.eq a.score b.score = false := heq
      rw [heq']
      rfl
  | true =>
      have heq' : CostArith.eq a.score b.score = true := heq
      have hne : (a.unknownCount != b.unknownCount) = true :=
        bne_iff_ne.mpr fun hsame => UInt32.lt_irrefl _ (hsame ▸ h)
      rw [heq', if_neg (by decide), if_pos hne, lt_of_eq heq]
      exact decide_eq_false fun hlt => UInt32.lt_irrefl _ (UInt32.lt_trans hlt h)

/-- A candidate whose record is unknown where the other's is known comes first exactly if
its score is lower. -/
theorem rankComparator_unknown {r : EvidenceRecord} (hagree : u = k.withRecord u r)
    (hu : u.provenanceOf r = .unknown) (hk : k.provenanceOf r ≠ .unknown) :
    rankComparator (ν := Double) (rankerEvaluate request u options)
        (rankerEvaluate request k options) =
      Double.lt (rankerEvaluate request u options).score
        (rankerEvaluate request k options).score := by
  apply rankComparator_of_unknownCount_lt
  rw [UInt32.lt_iff_toNat_lt, toNat_unknownCount, toNat_unknownCount]
  exact countP_unknown_lt hagree hu hk

/-- The sample candidate on a congested link, by measurement. -/
def Sample.congestedCandidate : Candidate := { Sample.candidate ⟨1⟩ ⟨1⟩ with
  congestion := ⟨⟨1⟩, .half, .half, 1, [], .measured⟩ }

/-- The sample candidate of which nothing is known about its link. -/
def Sample.unknownCandidate (congestion residualBandwidth : Double) : Candidate :=
  { Sample.candidate ⟨1⟩ ⟨1⟩ with
    congestion := ⟨⟨1⟩, congestion, residualBandwidth, 1, [], .unknown⟩ }

end Unknown

end FabricScheduler
