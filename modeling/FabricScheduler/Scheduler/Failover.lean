import FabricScheduler.Scheduler.Pass

/-!
# Failing over to what is left

A candidate that a pass turns down has no influence on the order of the others. So when a
later pass turns down more of the same candidates, what is left of the choice and of the
fallbacks of the earlier plan is the beginning of the choice and the fallbacks of the next.
-/

namespace FabricScheduler

/-- The candidate passes the filter under the views. -/
def ScheduleViews.admits (views : ScheduleViews) (request : SchedulingRequest) (c : Candidate) :
    Bool := (hardFilterEvaluate request c (views.dependency c) (views.policy c)).eligible

/-- The entry of a candidate that passes the filter. -/
def rankedEntry (options : RankOptions) (request : SchedulingRequest) (c : Candidate) :
    RankedEntry := ⟨rankerEvaluate request c options, c⟩

section Ranking

variable {options : RankOptions} {request : SchedulingRequest} {views views' : ScheduleViews}
  {snapshot : List Candidate} {keep : Candidate → Bool}

/-- The candidates that pass the filter are sorted by their ranks. -/
theorem rankSnapshot_eq : rankSnapshot options request views snapshot =
    ((snapshot.filter (views.admits request)).map (rankedEntry options request)).insertionSort
      fun a b => rankComparator b.rank a.rank = false := by
  rw [rankSnapshot]
  refine congrArg (List.insertionSort _) (filterMap_eq_map_filter ?_ snapshot)
  intro c
  unfold evaluateCandidate ScheduleViews.admits rankedEntry
  by_cases h : (hardFilterEvaluate request c (views.dependency c) (views.policy c)).eligible = true
  · simp only [h, ite_true, Sum.getLeft?_inl]
  · simp only [h, ite_false, Sum.getLeft?_inr, Bool.false_eq_true]

/-- Turning more candidates down leaves the others in their order. -/
theorem rankSnapshot_filter (hids : (snapshot.map Candidate.candidateId).Nodup)
    (hcomparable : ∀ c ∈ snapshot, views.admits request c = true →
      (rankerEvaluate request c options).Comparable)
    (hkeep : ∀ c ∈ snapshot, views'.admits request c = (views.admits request c && keep c)) :
    rankSnapshot options request views' snapshot =
      (rankSnapshot options request views snapshot).filter fun e => keep e.candidate := by
  have hkept : snapshot.filter (views'.admits request) =
      (snapshot.filter (views.admits request)).filter keep := by
    rw [List.filter_filter]
    refine List.filter_congr fun c hc => ?_
    rw [hkeep c hc, Bool.and_comm]
  rw [rankSnapshot_eq, rankSnapshot_eq, hkept, ← Function.comp_def keep RankedEntry.candidate]
  have hentries : ((snapshot.filter (views.admits request)).filter keep).map
      (rankedEntry options request) = ((snapshot.filter (views.admits request)).map
        (rankedEntry options request)).filter (keep ∘ RankedEntry.candidate) := by
    rw [List.filter_map]
    rfl
  rw [hentries]
  refine (RankedCandidate.compares_rankComparator.comap RankedEntry.rank).insertionSort_filter
    ?_ ?_ _
  · intro e he
    obtain ⟨c, hc, rfl⟩ := List.mem_map.mp he
    obtain ⟨hmem, hadmits⟩ := List.mem_filter.mp hc
    exact hcomparable c hmem hadmits
  · have hsub : ((snapshot.filter (views.admits request)).map Candidate.candidateId).Nodup :=
      hids.sublist (List.filter_sublist.map _)
    rw [List.map_map, List.Nodup, List.pairwise_map]
    rw [List.Nodup, List.pairwise_map] at hsub
    exact hsub.imp fun hne => mt RankedCandidate.candidateId_eq_of_key_eq hne

end Ranking

namespace SchedulerState

variable {st st' : SchedulerState} {request : SchedulingRequest} {views views' : ScheduleViews}
  {snapshot : List Candidate} {keep : CandidateId → Bool} {d d' : PlacementDecision}

theorem MadeOf.fallbackCandidates (h : st.MadeOf request views snapshot d) {winner : RankedEntry}
    {others : List RankedEntry}
    (hranked : rankSnapshot st.rankOptions request views snapshot = winner :: others) :
    d.plan.selectedCandidate = winner.rank.candidateId ∧
      d.plan.fallbackCandidates =
        (others.map fun e => e.rank.candidateId).take
          (min (st.fallbackBound (others.length + 1)) (others.length + 1 - 1)) := by
  rw [h.plan winner others hranked]
  exact ⟨rfl, fallbackCandidates_storedPlan winner others views⟩

theorem MadeOf.ranked_ne_nil (h : st.MadeOf request views snapshot d)
    (hproduced : d.producedPlan = true) :
    rankSnapshot st.rankOptions request views snapshot ≠ [] := by
  intro hnil
  have hne := h.produced_iff.mp hproduced
  rw [h.eligible, hnil] at hne
  exact hne rfl

/-- What passes a test of a limited beginning is a limited beginning of what passes it. -/
private theorem cons_prefix_of_filter {w w' id : CandidateId} {ws ws' rest : List CandidateId}
    {m n : Nat} (hleft : (w :: ws.take m).filter keep = id :: rest)
    (hall : (w :: ws).filter keep = w' :: ws') (hmn : m ≤ n ∨ ws'.length ≤ n) :
    w' = id ∧ rest <+: ws'.take n := by
  have hprefix : id :: rest <+: w' :: ws' := by
    rw [← hleft, ← hall]
    refine List.IsPrefix.filter keep ?_
    rw [← List.take_succ_cons]
    exact List.take_prefix (m + 1) (w :: ws)
  obtain ⟨rfl, hrest⟩ := List.cons_prefix_cons.mp hprefix
  refine ⟨rfl, List.prefix_take_iff.mpr ⟨hrest, ?_⟩⟩
  rcases hmn with hmn | hshort
  · have hlength := (List.filter_sublist (p := keep) (l := w :: ws.take m)).length_le
    rw [hleft, List.length_cons, List.length_cons, List.length_take] at hlength
    omega
  · exact hrest.length_le.trans hshort

/-- When a later pass over the same candidates turns down those that are not kept as well, its
eligible candidates are the kept ones in the same order, and what is kept of the earlier plan's
choice and fallbacks is its choice and the beginning of its fallbacks. -/
theorem failover (hoptions : st'.rankOptions = st.rankOptions) (hpolicy : st'.policy = st.policy)
    (hids : (snapshot.map Candidate.candidateId).Nodup)
    (hcomparable : ∀ c ∈ snapshot, views.admits request c = true →
      (rankerEvaluate request c st.rankOptions).Comparable)
    (hkeep : ∀ c ∈ snapshot,
      views'.admits request c = (views.admits request c && keep c.candidateId))
    (hd : (st.scheduleSecond request views snapshot).1 = .ok d)
    (hd' : (st'.scheduleSecond request views' snapshot).1 = .ok d') :
    d'.eligible = d.eligible.filter keep ∧
      (d'.producedPlan = true ↔ ∃ id ∈ d.eligible, keep id = true) ∧
      ∀ id rest, d.producedPlan = true →
        (d.plan.selectedCandidate :: d.plan.fallbackCandidates).filter keep = id :: rest →
        d'.plan.selectedCandidate = id ∧ rest <+: d'.plan.fallbackCandidates := by
  obtain ⟨e, he, hmade⟩ := st.exists_madeOf request views snapshot
  obtain rfl := Except.ok.inj (hd.symm.trans he)
  obtain ⟨e, he', hmade'⟩ := st'.exists_madeOf request views' snapshot
  obtain rfl := Except.ok.inj (hd'.symm.trans he')
  have hranked := rankSnapshot_filter hids hcomparable hkeep
  have hrank : ∀ e ∈ rankSnapshot st.rankOptions request views snapshot,
      e.rank.candidateId = e.candidate.candidateId := by
    intro e he
    rw [(mem_rankSnapshot he).2.1]
    rfl
  have hlisted : ∀ st : SchedulerState, ∀ l : List RankedEntry,
      (l.map RankedEntry.rank).map RankedCandidate.candidateId =
        l.map fun e => e.rank.candidateId := fun _ l => List.map_map
  have heligible : d'.eligible = d.eligible.filter keep := by
    rw [hmade'.eligible, hmade.eligible, hoptions, hranked, hlisted st, hlisted st,
      List.filter_map]
    refine congrArg (List.map _) (List.filter_congr fun e he => ?_)
    rw [Function.comp_apply, hrank e he]
  refine ⟨heligible, ?_, ?_⟩
  · rw [hmade'.produced_iff, heligible, Ne, List.filter_eq_nil_iff]
    push Not
    rfl
  · intro id rest hproduced hleft
    obtain ⟨winner, others, hcons⟩ := List.exists_cons_of_ne_nil
      (hmade.ranked_ne_nil hproduced)
    obtain ⟨hselected, hfallbacks⟩ := hmade.fallbackCandidates hcons
    rw [hselected, hfallbacks] at hleft
    have hproduced' : d'.producedPlan = true := by
      rw [hmade'.produced_iff, heligible, hmade.eligible, hcons]
      intro hnil
      have hmem : id ∈ (winner.rank.candidateId :: (others.map fun e =>
          e.rank.candidateId).take (min (st.fallbackBound (others.length + 1))
            (others.length + 1 - 1))).filter keep := hleft ▸ List.mem_cons_self ..
      obtain ⟨hin, hkept⟩ := List.mem_filter.mp hmem
      refine List.filter_eq_nil_iff.mp hnil id ?_ hkept
      rw [hlisted st]
      rcases List.mem_cons.mp hin with rfl | hfallback
      · exact List.mem_cons_self ..
      · exact List.mem_cons_of_mem _ (List.mem_of_mem_take hfallback)
    obtain ⟨winner', others', hcons'⟩ := List.exists_cons_of_ne_nil
      (hmade'.ranked_ne_nil hproduced')
    obtain ⟨hselected', hfallbacks'⟩ := hmade'.fallbackCandidates hcons'
    have hall : (winner.rank.candidateId :: others.map fun e => e.rank.candidateId).filter keep =
        winner'.rank.candidateId :: others'.map fun e => e.rank.candidateId := by
      rw [hmade'.eligible, hmade.eligible, hcons, hcons', hlisted st, hlisted st] at heligible
      exact heligible.symm
    rw [hselected', hfallbacks']
    have hlength := (List.filter_sublist (p := keep) (l := winner.rank.candidateId ::
      others.map fun e => e.rank.candidateId)).length_le
    rw [hall] at hlength
    simp only [List.length_cons, List.length_map] at hlength
    refine cons_prefix_of_filter hleft hall ?_
    unfold fallbackBound
    rw [hpolicy, List.length_map]
    split <;> omega

end SchedulerState

end FabricScheduler
