import FabricScheduler.Persistence.CandidateRecord
import FabricScheduler.Scheduler.FiniteScores

/-!
# Decisions that can be read

What a decision says about its candidates is read back when the candidates themselves can be:
when their lists and strings are within the readers' bounds with room for the words the
filter puts before them, and their costs are numbers.
-/

namespace FabricScheduler

/-- What the scheduler says about the candidate is within the bounds of a reader. -/
structure Candidate.Legible (c : Candidate) : Prop where
  encodable : c.Encodable
  numeric : c.Numeric
  -- The filter puts the reason of a degradation behind 40 bytes of its own.
  degradation : c.health.degradationReason.length + 40 ≤ maxString

/-- The reasons that the views give for turning a candidate down leave room for the words the
filter puts before them. -/
structure ScheduleViews.Terse (views : ScheduleViews) (request : SchedulingRequest)
    (c : Candidate) : Prop where
  dependency : ∀ v ∈ views.dependency c,
    (v.unsatisfied request.demand.demandId).length + 24 ≤ maxString
  policy : ∀ v ∈ views.policy c, (v.reason c).length + 13 ≤ maxString

section Reasons

variable {request : SchedulingRequest} {c : Candidate} {views : ScheduleViews}

private theorem length_reason_ite {p : Prop} [Decidable p] {a b : EligibilityResult} {n : Nat}
    (ha : a.reason.length ≤ n) (hb : b.reason.length ≤ n) :
    (if p then a else b).reason.length ≤ n := by
  split
  · exact ha
  · exact hb

/-- The filter gives no reason beyond the bound of a string. -/
theorem length_reason_le (hdegradation : c.health.degradationReason.length + 40 ≤ maxString)
    (hterse : views.Terse request c) :
    (hardFilterEvaluate request c (views.dependency c) (views.policy c)).reason.length ≤
      maxString := by
  have hhealth : (text "candidate resource is not health-ready" ++
      if c.health.degradationReason = [] then []
      else text ": " ++ c.health.degradationReason).length ≤ maxString := by
    have hwords : (text "candidate resource is not health-ready").length = 38 := by
      decide +kernel
    have hcolon : (text ": ").length = 2 := by decide +kernel
    rw [List.length_append, hwords]
    split
    · decide
    · rw [List.length_append, hcolon]
      omega
  unfold hardFilterEvaluate
  iterate 9 refine length_reason_ite (by decide +kernel) ?_
  refine length_reason_ite hhealth ?_
  iterate 6 refine length_reason_ite (by decide +kernel) ?_
  split
  · rename_i v hv
    have hwords : (text "dependencies not ready: ").length = 24 := by decide +kernel
    have hshort := hterse.dependency v (Option.mem_filter_iff.mp hv).1
    dsimp only [reject]
    rw [List.length_append, hwords]
    omega
  · split
    · rename_i v hv
      have hwords : (text "policy veto: ").length = 13 := by decide +kernel
      have hshort := hterse.policy v (Option.mem_filter_iff.mp hv).1
      dsimp only [reject]
      rw [List.length_append, hwords]
      omega
    · exact (by decide +kernel :
        (text "candidate meets all hard constraints").length ≤ maxString)

end Reasons

section Ranking

variable {ν : Type} [CostArith ν] {request : SchedulingRequest} {c : Candidate}
  {options : RankOptions}

/-- Every factor is described in a few words. -/
theorem length_description_le (kind : RankFactorKind) :
    (computeFactor (ν := ν) kind request c).2.2.length ≤ maxString := by
  cases kind <;> dsimp only [computeFactor] <;> decide +kernel

theorem factors_foldl (kinds : List RankFactorKind) (t : RankTotals ν) :
    (kinds.foldl (accumulateFactor request c options) t).factors =
      t.factors ++ kinds.map fun kind =>
        let factor := computeFactor (ν := ν) kind request c
        ⟨kind, factor.1, options.weights.weight kind, factor.2.1, factor.2.2⟩ := by
  induction kinds generalizing t with
  | nil => exact (List.append_nil _).symm
  | cons kind rest ih =>
      rw [List.foldl_cons, ih, accumulateFactor, List.append_assoc]
      rfl

end Ranking

namespace SchedulerState

variable {st : SchedulerState} {request : SchedulingRequest} {views : ScheduleViews}
  {snapshot : List Candidate} {d : PlacementDecision}

theorem mem_rejectSnapshot {options : RankOptions} {r : RejectedAlternative}
    (h : r ∈ rejectSnapshot options request views snapshot) : ∃ c ∈ snapshot,
      r.reason = (hardFilterEvaluate request c (views.dependency c) (views.policy c)).reason := by
  obtain ⟨c, hc, hr⟩ := List.mem_filterMap.mp h
  refine ⟨c, hc, ?_⟩
  unfold evaluateCandidate at hr
  dsimp only at hr
  split at hr
  · cases hr
  · obtain rfl := Option.some.inj hr
    rfl

/-- A plan made from few legible candidates can be read back. -/
theorem encodable_storedPlan (hoptions : st.rankOptions = ⟨.default⟩)
    (hcount : snapshot.length ≤ maxRecords) (hlegible : ∀ c ∈ snapshot, c.Legible)
    (hterse : ∀ c ∈ snapshot, views.Terse request c) {winner : RankedEntry}
    {others : List RankedEntry}
    (hranked : rankSnapshot st.rankOptions request views snapshot = winner :: others) :
    (st.storedPlan request views snapshot winner others).Encodable := by
  obtain ⟨hmem, hrank, _⟩ := mem_rankSnapshot (hranked ▸ List.mem_cons_self ..)
  have hwinner := hlegible winner.candidate hmem
  have hothers : others.length < snapshot.length := by
    have hlength := congrArg List.length hranked
    rw [rankSnapshot, List.length_insertionSort, List.length_cons] at hlength
    have hle := List.length_filterMap_le
      (fun c => (evaluateCandidate st.rankOptions request views c).getLeft?) snapshot
    omega
  have hfactors : (st.storedPlan request views snapshot winner others).selectedFactors =
      rankFactorOrder.map fun kind =>
        let factor := computeFactor (ν := Double) kind request winner.candidate
        ⟨kind, factor.1, st.rankOptions.weights.weight kind, factor.2.1, factor.2.2⟩ := by
    change winner.rank.factors = _
    rw [hrank, rankerEvaluate]
    exact factors_foldl rankFactorOrder _
  refine ⟨?_, hwinner.encodable.bindings, ?_, ?_, hwinner.encodable.moveSource, ⟨?_, ?_⟩,
    ⟨?_, ?_⟩, ?_, ?_⟩
  · have hfallbacks : (st.storedPlan request views snapshot winner others).fallbackCandidates =
      (others.take (if 0 < st.policy.maxFallbackCandidates then
        st.policy.maxFallbackCandidates.toNat else others.length)).map
          fun e => e.rank.candidateId := rfl
    rw [hfallbacks, List.length_map]
    have hle := List.length_take_le (if 0 < st.policy.maxFallbackCandidates then
        st.policy.maxFallbackCandidates.toNat else others.length) others
    have hle' := List.length_take_le' (if 0 < st.policy.maxFallbackCandidates then
        st.policy.maxFallbackCandidates.toNat else others.length) others
    omega
  · change (buildClaims winner.candidate.bindings).length ≤ maxRecords
    rw [buildClaims, List.length_map]
    exact hwinner.encodable.bindings.1
  · exact Nat.zero_le _
  · rw [hfactors, List.length_map]
    decide
  · intro f hf
    have hfinite : ∀ f ∈ (rankerEvaluate (ν := Double) request winner.candidate
        ⟨.default⟩).factors, f.value.isFinite = true := hwinner.numeric.isFinite_factors
    rw [← hoptions, ← hrank] at hfinite
    refine ⟨?_, hfinite f hf⟩
    rw [hfactors] at hf
    obtain ⟨kind, _, rfl⟩ := List.mem_map.mp hf
    exact length_description_le kind
  · change (rejectSnapshot st.rankOptions request views snapshot).length ≤ maxRecords
    exact (List.length_filterMap_le ..).trans hcount
  · intro r hr
    obtain ⟨c, hc, hreason⟩ := mem_rejectSnapshot hr
    rw [hreason]
    exact length_reason_le (hlegible c hc).degradation (hterse c hc)
  · exact (by decide : 4 ≤ maxRecords)
  · exact Nat.zero_le _

/-- The plan and the summary of a decision about few legible candidates can be read back. -/
theorem encodable_decision (hoptions : st.rankOptions = ⟨.default⟩)
    (hcount : snapshot.length ≤ maxRecords) (hlegible : ∀ c ∈ snapshot, c.Legible)
    (hterse : ∀ c ∈ snapshot, views.Terse request c)
    (hd : (st.scheduleSecond request views snapshot).1 = .ok d) :
    d.plan.Encodable ∧ d.summary.length ≤ maxString := by
  cases hranked : rankSnapshot st.rankOptions request views snapshot with
  | nil =>
      rw [scheduleSecond_decision_of_nil hranked] at hd
      obtain rfl := Except.ok.inj hd
      have hdefault : (default : PlacementPlan).Encodable := by decide
      refine ⟨hdefault, ?_⟩
      dsimp only
      split <;> decide +kernel
  | cons winner others =>
      rw [scheduleSecond_decision_of_cons hranked] at hd
      obtain rfl := Except.ok.inj hd
      refine ⟨encodable_storedPlan hoptions hcount hlegible hterse hranked, ?_⟩
      have hwords : (text "selected candidate ").length = 19 := by decide +kernel
      have hdigits := length_decimal_le winner.rank.candidateId.value
      dsimp only
      rw [List.length_append, hwords]
      exact (Nat.add_le_add_left hdigits 19).trans (by decide)

end SchedulerState

end FabricScheduler
