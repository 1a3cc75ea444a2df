import FabricScheduler.Model.CostBounds
import FabricScheduler.Persistence.CandidateRecord
import FabricScheduler.Scheduler.Pass

/-!
# Finite scores

Under the default weights every factor adds at most three to the score, so of numeric
evidence the totals stay small numbers through the whole loop, and ranks are compared by
numbers. A candidate whose evidence is not numeric has a factor that is no number.
-/

namespace FabricScheduler

open Double CostArith

/-- Each of the default weights is between zero and three. -/
theorem RankingWeights.within_default (kind : RankFactorKind) :
    (RankingWeights.default.weight kind).Within 3 := by
  have hthree : Double.three.number = some (Binary64.real (3 : ℕ)) := by
    have hbits : Double.three.number =
        some (Binary64.real (Binary64.magnitude (3 * 2 ^ 51) (-51))) := rfl
    rw [hbits, Binary64.magnitude]
    norm_num
  apply within_of_not_lt hthree
  · cases kind <;> (unfold RankingWeights.default; decide +kernel)
  · cases kind <;> (unfold RankingWeights.default; decide +kernel)
  · cases kind <;> (unfold RankingWeights.default; decide +kernel)

/-- The totals after a number of factors. -/
structure RankTotals.Held (t : RankTotals Double) (n : ℕ) : Prop where
  total : t.total.Within (n * 3)
  moveCost : t.moveCost.Within n
  headroom : t.headroom.Within n
  factors : ∀ f ∈ t.factors, f.value.Within 1

variable {request : SchedulingRequest} {c : Candidate} {options : RankOptions}

/-- One factor adds at most one to a sum of costs and three to the score. -/
theorem RankTotals.Held.accumulateFactor {t : RankTotals Double} {n : ℕ} (h : t.Held n)
    (hn : n < 2 ^ 50) (hc : c.Numeric) (hw : ∀ kind, (options.weights.weight kind).Within 3)
    (kind : RankFactorKind) : (accumulateFactor request c options t kind).Held (n + 1) := by
  have hcost := hc.within_factorCost request kind
  constructor
  · have hproduct := (hw kind).mul hcost (by norm_num)
    rw [mul_one] at hproduct
    rw [add_mul, one_mul]
    exact h.total.add hproduct (by omega)
  · simp only [FabricScheduler.accumulateFactor]
    split
    · exact h.moveCost.add hcost (by omega)
    · exact h.moveCost.mono n.le_succ
  · simp only [FabricScheduler.accumulateFactor]
    split
    · exact h.headroom.add hcost (by omega)
    · exact h.headroom.mono n.le_succ
  · intro f hf
    rcases List.mem_append.mp hf with hf | hf
    · exact h.factors f hf
    · obtain rfl := List.mem_singleton.mp hf
      exact hcost

theorem RankTotals.Held.foldl (hc : c.Numeric)
    (hw : ∀ kind, (options.weights.weight kind).Within 3) (l : List RankFactorKind)
    {t : RankTotals Double} {n : ℕ} (h : t.Held n) (hn : n + l.length < 2 ^ 50) :
    (l.foldl (FabricScheduler.accumulateFactor request c options) t).Held (n + l.length) := by
  induction l generalizing t n with
  | nil => exact h
  | cons kind l ih =>
      rw [List.length_cons] at hn ⊢
      rw [List.foldl_cons, ← add_assoc, add_right_comm]
      exact ih (h.accumulateFactor (by omega) hc hw kind) (by omega)

namespace Candidate.Numeric

/-- The totals a rank is read from. -/
theorem held (h : c.Numeric) (request : SchedulingRequest) :
    (rankFactorOrder.foldl (accumulateFactor request c ⟨.default⟩)
      ⟨[], ofDouble .zero, 255, 0, ofDouble .zero, ofDouble .zero⟩ : RankTotals Double).Held
        rankFactorOrder.length := by
  have hstart : (⟨[], ofDouble .zero, 255, 0, ofDouble .zero, ofDouble .zero⟩ :
      RankTotals Double).Held 0 :=
    ⟨within_zero _, within_zero _, within_zero _, fun f hf => by cases hf⟩
  have hrun : (rankFactorOrder.foldl (accumulateFactor request c ⟨.default⟩)
      ⟨[], ofDouble .zero, 255, 0, ofDouble .zero, ofDouble .zero⟩ : RankTotals Double).Held
        (0 + rankFactorOrder.length) :=
    hstart.foldl h RankingWeights.within_default rankFactorOrder (by decide)
  rwa [Nat.zero_add] at hrun

theorem isFinite_score (h : c.Numeric) :
    (rankerEvaluate (ν := Double) request c ⟨.default⟩).score.isFinite = true := by
  simp only [rankerEvaluate]
  exact (h.held request).total.isFinite

theorem isFinite_factors (h : c.Numeric) :
    ∀ f ∈ (rankerEvaluate (ν := Double) request c ⟨.default⟩).factors,
      f.value.isFinite = true := by
  simp only [rankerEvaluate]
  exact fun f hf => ((h.held request).factors f hf).isFinite

/-- The rank of a candidate with numeric evidence can be compared. -/
theorem comparable (h : c.Numeric) (request : SchedulingRequest) :
    (rankerEvaluate (ν := Double) request c ⟨.default⟩).Comparable := by
  have hheld := h.held request
  constructor
  · simp only [rankerEvaluate]
    exact hheld.total.isNaN
  · simp only [rankerEvaluate]
    exact hheld.moveCost.isNaN
  · simp only [rankerEvaluate]
    exact hheld.headroom.isNaN
  · simp only [rankerEvaluate]
    exact (within_clamp01 h.congestion).isNaN

end Candidate.Numeric

/-- The factor costs of candidates are numbers between zero and one, their scores are finite,
their ranks can be sorted, and no plan made of them has a factor that loading would refuse. -/
structure RankedSoundly (request : SchedulingRequest) (S : Set Candidate) : Prop where
  costs : ∀ c ∈ S, ∀ kind, ∃ x : ℚ,
    (factorCost Double request c kind).number = some (Binary64.real x) ∧ 0 ≤ x ∧ x ≤ 1
  score : ∀ c ∈ S, (rankerEvaluate (ν := Double) request c ⟨.default⟩).score.isFinite = true
  ordered : IsStrictWeakOrder
    {r : RankedCandidate Double // ∃ c ∈ S, rankerEvaluate request c ⟨.default⟩ = r}
    fun a b => rankComparator a.1 b.1 = true
  loadable : ∀ (st : SchedulerState) (views : ScheduleViews) (snapshot : List Candidate)
    (d : PlacementDecision), st.rankOptions = ⟨.default⟩ → (∀ c ∈ snapshot, c ∈ S) →
    (st.scheduleSecond request views snapshot).1 = .ok d →
    d.producedPlan = true → ∀ f ∈ d.plan.selectedFactors, f.value.isFinite = true

/-- The factors of a plan are those of a candidate of the snapshot. -/
theorem SchedulerState.exists_selectedFactors {st : SchedulerState} {views : ScheduleViews}
    {snapshot : List Candidate} {d : PlacementDecision}
    (hd : (st.scheduleSecond request views snapshot).1 = .ok d) (hplan : d.producedPlan = true) :
    ∃ c ∈ snapshot, d.plan.selectedFactors =
      (rankerEvaluate (ν := Double) request c st.rankOptions).factors := by
  obtain ⟨winner, others, hranks, _, hstored⟩ :=
    SchedulerState.exists_storedPlan_of_producedPlan hd hplan
  obtain ⟨hmem, hrank, _⟩ := SchedulerState.mem_rankSnapshot (hranks ▸ List.mem_cons_self ..)
  refine ⟨winner.candidate, hmem, ?_⟩
  rw [hstored, ← hrank]
  rfl

/-- Candidates are ranked soundly exactly if the evidence of each is numeric. -/
theorem rankedSoundly_iff (request : SchedulingRequest) (S : Set Candidate) :
    RankedSoundly request S ↔ ∀ c ∈ S, c.Numeric := by
  constructor
  · intro h c hc
    apply (isNaN_factorCost_iff request c).mp
    intro kind
    obtain ⟨x, hx, _⟩ := h.costs c hc kind
    exact isNaN_of_number hx
  · intro h
    refine ⟨?_, fun c hc => (h c hc).isFinite_score, ?_, ?_⟩
    · intro c hc kind
      obtain ⟨x, hx, hlow, hhigh⟩ := (h c hc).within_factorCost request kind
      exact ⟨x, hx, hlow, hhigh.trans_eq Nat.cast_one⟩
    · refine (RankedCandidate.compares_rankComparator.imp ?_).isStrictWeakOrder
      rintro r ⟨c, hc, rfl⟩
      exact (h c hc).comparable request
    · intro st views snapshot d hoptions hsnapshot hd hplan
      obtain ⟨c, hc, hfactors⟩ := st.exists_selectedFactors hd hplan
      rw [hfactors, hoptions]
      exact (h c (hsnapshot c hc)).isFinite_factors

/-- The sample candidate whose congestion is no number. -/
def Sample.nanCandidate : Candidate := { Sample.candidate ⟨1⟩ ⟨1⟩ with
  congestion := ⟨⟨1⟩, ⟨0x7FF8000000000000⟩, .one, 1, [], .measured⟩ }

/-- A candidate that is read off the wire and admitted has a cost that is no number, under a
validated request. -/
theorem not_rankedSoundly : ¬∀ (st : SchedulerState) (request : SchedulingRequest)
    (c : Candidate) (record rest : Bytes), decodeCandidateRecord record = .ok (c, rest) →
      (st.ingestCandidate c).1 = .ok () → request.demand.validate = .ok () →
      RankedSoundly request {c} := by
  intro hall
  have hsound := hall (.initial Sample.config) (Sample.request ⟨1⟩) Sample.nanCandidate
    (encodeCandidateRecord Sample.nanCandidate) [] (by decide +kernel) (by decide +kernel)
    (by decide +kernel)
  obtain ⟨x, hx, _⟩ := hsound.costs Sample.nanCandidate rfl .congestionPenalty
  have hnan : (factorCost Double (Sample.request ⟨1⟩) Sample.nanCandidate
      .congestionPenalty).isNaN = true := by decide +kernel
  rw [isNaN_of_number hx] at hnan
  cases hnan

end FabricScheduler
