import FabricScheduler.Core.DoubleOrder
import FabricScheduler.Library.Comparator
import FabricScheduler.Scheduler.Durability
import FabricScheduler.Scheduler.Execution

/-!
# What a scheduling pass decides

The filter divides the candidates of the store, the comparator orders what is eligible, and
the plan is made of the head of that order and what follows it. The comparator is an order
of keys, so the eligible candidates have one sorted arrangement.
-/

namespace FabricScheduler

open Binary64 (Extended)

namespace RankedCandidate

/-- No cost the comparator consults is a NaN. -/
structure Comparable (r : RankedCandidate Double) : Prop where
  score : r.score.isNaN = false
  movementCost : r.movementCost.isNaN = false
  headroomCost : r.headroomCost.isNaN = false
  congestionCost : r.congestionCost.isNaN = false

instance (r : RankedCandidate Double) : Decidable r.Comparable :=
  decidable_of_iff (r.score.isNaN = false ∧ r.movementCost.isNaN = false ∧
    r.headroomCost.isNaN = false ∧ r.congestionCost.isNaN = false)
    ⟨fun ⟨hs, hm, hh, hc⟩ => ⟨hs, hm, hh, hc⟩, fun ⟨hs, hm, hh, hc⟩ => ⟨hs, hm, hh, hc⟩⟩

/-- The keys of the tie-break chain in turn; what is preferred larger is reversed. -/
abbrev Key : Type := Extended ×ₗ ℕ ×ₗ ℕᵒᵈ ×ₗ Extended ×ₗ Extended ×ₗ Extended ×ₗ ℕᵒᵈ ×ₗ
  CandidateId

/-- The key by which the comparator orders. -/
def key (r : RankedCandidate Double) : Key :=
  toLex (r.score.place, toLex (r.unknownCount.toNat, toLex (.toDual r.evidenceStrength.toNat,
    toLex (r.movementCost.place, toLex (r.headroomCost.place, toLex (r.congestionCost.place,
      toLex (.toDual r.localResources.toNat, r.candidateId)))))))

theorem candidateId_eq_of_key_eq {a b : RankedCandidate Double} (h : a.key = b.key) :
    a.candidateId = b.candidateId := by
  simp only [key, toLex_inj, Prod.mk.injEq] at h
  exact h.2.2.2.2.2.2.2

/-- The comparator compares keys. -/
theorem compares_rankComparator : Compares rankComparator key Comparable := by
  intro a ha b hb
  apply Compares.link (Double.differs_iff_place ha.score hb.score)
    (Double.lt_iff_place ha.score hb.score)
  apply Compares.link
  · rw [bne_iff_ne, Ne, ← UInt32.toNat_inj]
  · rw [decide_eq_true_iff, UInt32.lt_iff_toNat_lt]
  apply Compares.link
  · rw [bne_iff_ne, Ne, ← UInt8.toNat_inj]
    rfl
  · rw [decide_eq_true_iff, UInt8.lt_iff_toNat_lt, OrderDual.toDual_lt_toDual]
  apply Compares.link (Double.differs_iff_place ha.movementCost hb.movementCost)
    (Double.lt_iff_place ha.movementCost hb.movementCost)
  apply Compares.link (Double.differs_iff_place ha.headroomCost hb.headroomCost)
    (Double.lt_iff_place ha.headroomCost hb.headroomCost)
  apply Compares.link (Double.differs_iff_place ha.congestionCost hb.congestionCost)
    (Double.lt_iff_place ha.congestionCost hb.congestionCost)
  apply Compares.link
  · rw [bne_iff_ne, Ne, ← UInt32.toNat_inj]
    rfl
  · rw [decide_eq_true_iff, UInt32.lt_iff_toNat_lt, OrderDual.toDual_lt_toDual]
  · rw [decide_eq_true_iff]

end RankedCandidate

/-- The comparator orders ranks without NaNs strictly, and totally where the ids differ. -/
structure RankComparatorOrders : Prop where
  irrefl : ∀ a : RankedCandidate Double, a.Comparable → rankComparator a a = false
  trans : ∀ a b c : RankedCandidate Double, a.Comparable → b.Comparable → c.Comparable →
    rankComparator a b = true → rankComparator b c = true → rankComparator a c = true
  total : ∀ a b : RankedCandidate Double, a.Comparable → b.Comparable →
    a.candidateId ≠ b.candidateId → rankComparator a b = true ∨ rankComparator b a = true

theorem rankComparatorOrders : RankComparatorOrders where
  irrefl _ ha := RankedCandidate.compares_rankComparator.irrefl ha
  trans _ _ _ ha hb hc := RankedCandidate.compares_rankComparator.trans ha hb hc
  total _ _ ha hb hne := RankedCandidate.compares_rankComparator.total ha hb
    (mt RankedCandidate.candidateId_eq_of_key_eq hne)

section Snapshot

variable (options : RankOptions) (request : SchedulingRequest)
  (dependency : Option DependencyView) (policy : Option PolicyVeto) (snapshot : List Candidate)

/-- The ranks of the eligible candidates in store order. -/
def eligibleRanks : List (RankedCandidate Double) :=
  (snapshot.filter fun c => (hardFilterEvaluate request c dependency policy).eligible).map
    fun c => rankerEvaluate request c options

/-- What is yielded where a test holds is yielded of what passes the test. -/
theorem filterMap_eq_map_filter {α β : Type} {f : α → Option β} {p : α → Bool}
    {g : α → β} (h : ∀ a, f a = if p a = true then some (g a) else none) (l : List α) :
    l.filterMap f = (l.filter p).map g := by
  induction l with
  | nil => rfl
  | cons a l ih =>
      by_cases hp : p a = true
      · rw [List.filterMap_cons_some ((h a).trans (if_pos hp)), List.filter_cons_of_pos hp,
          List.map_cons, ih]
      · rw [List.filterMap_cons_none ((h a).trans (if_neg hp)), List.filter_cons_of_neg hp, ih]

/-- The candidates that pass the filter are ranked. -/
theorem filterMap_evaluateCandidate : (snapshot.filterMap fun c =>
      (evaluateCandidate options request (.pure dependency policy) c).getLeft?) =
    (snapshot.filter fun c => (hardFilterEvaluate request c dependency policy).eligible).map
      fun c => ⟨rankerEvaluate request c options, c⟩ := by
  apply filterMap_eq_map_filter
  intro c
  unfold evaluateCandidate ScheduleViews.pure
  by_cases h : (hardFilterEvaluate request c dependency policy).eligible = true
  · simp only [h, ite_true, Sum.getLeft?_inl]
  · simp only [h, ite_false, Sum.getLeft?_inr, Bool.false_eq_true]

/-- The candidates that do not pass it are rejected. -/
theorem rejectSnapshot_eq : rejectSnapshot options request (.pure dependency policy) snapshot =
    (snapshot.filter fun c => !(hardFilterEvaluate request c dependency policy).eligible).map
      fun c => ⟨c.candidateId, c.candidateGeneration,
        (hardFilterEvaluate request c dependency policy).status,
        (hardFilterEvaluate request c dependency policy).reason⟩ := by
  apply filterMap_eq_map_filter
  intro c
  unfold evaluateCandidate ScheduleViews.pure
  by_cases h : (hardFilterEvaluate request c dependency policy).eligible = true
  · simp only [h, ite_true, Sum.getRight?_inl, Bool.not_true, Bool.false_eq_true, ite_false]
  · simp only [h, ite_false, Sum.getRight?_inr, Bool.not_false, Bool.false_eq_true, ite_true]

variable {options request dependency policy snapshot}

theorem candidateId_eligibleRanks :
    (eligibleRanks options request dependency policy snapshot).map
        RankedCandidate.candidateId =
      (snapshot.filter fun c => (hardFilterEvaluate request c dependency policy).eligible).map
        Candidate.candidateId := by
  rw [eligibleRanks, List.map_map]
  rfl

theorem perm_rankSnapshot :
    ((rankSnapshot options request (.pure dependency policy) snapshot).map
      RankedEntry.rank).Perm (eligibleRanks options request dependency policy snapshot) := by
  have hperm := (List.perm_insertionSort
    (fun a b : RankedEntry => rankComparator b.rank a.rank = false)
    (snapshot.filterMap fun c =>
      (evaluateCandidate options request (.pure dependency policy) c).getLeft?)).map
        RankedEntry.rank
  refine hperm.trans (.of_eq ?_)
  rw [filterMap_evaluateCandidate, List.map_map]
  rfl

/-- Ranks without NaNs under distinct ids end up sorted by the comparator. -/
theorem pairwise_rankSnapshot
    (hcomparable : ∀ r ∈ eligibleRanks options request dependency policy snapshot,
      r.Comparable)
    (hids : (snapshot.map Candidate.candidateId).Nodup) :
    ((rankSnapshot options request (.pure dependency policy) snapshot).map
      RankedEntry.rank).Pairwise fun a b => rankComparator a b = true := by
  rw [List.pairwise_map, rankSnapshot, filterMap_evaluateCandidate]
  refine (RankedCandidate.compares_rankComparator.comap
    RankedEntry.rank).pairwise_insertionSort ?_ ?_
  · intro e he
    refine hcomparable e.rank ?_
    obtain ⟨c, hc, rfl⟩ := List.mem_map.mp he
    exact List.mem_map_of_mem hc
  · have heligible : ((eligibleRanks options request dependency policy snapshot).map
        RankedCandidate.candidateId).Nodup := by
      rw [candidateId_eligibleRanks]
      exact hids.sublist (List.filter_sublist.map _)
    have hkeys : ((eligibleRanks options request dependency policy snapshot).map
        RankedCandidate.key).Nodup := by
      rw [List.Nodup, List.pairwise_map] at heligible ⊢
      exact heligible.imp fun hne => mt RankedCandidate.candidateId_eq_of_key_eq hne
    rw [eligibleRanks, List.map_map] at hkeys
    rw [List.map_map]
    exact hkeys

end Snapshot

/-- A claim of one unit on the resource of a binding, at the binding's generation. -/
structure ResourceClaim.On (binding : DeviceBinding) (claim : ResourceClaim) : Prop where
  resourceId : claim.resourceId = binding.resourceId
  resourceGeneration : claim.resourceGeneration = binding.resourceGeneration
  amount : claim.amount = 1

theorem buildClaims_on (bindings : List DeviceBinding) :
    List.Forall₂ ResourceClaim.On bindings (buildClaims bindings) := by
  rw [buildClaims, List.forall₂_map_right_iff, List.forall₂_same]
  intro b _
  exact ⟨rfl, rfl, rfl⟩

namespace SchedulerState

/-- How many of `n` eligible candidates may follow the selected one. -/
def fallbackBound (st : SchedulerState) (n : Nat) : Nat :=
  if st.policy.maxFallbackCandidates = 0 then n - 1 else st.policy.maxFallbackCandidates.toNat

/-- What a pass over a snapshot is to decide. -/
structure Decides (st : SchedulerState) (request : SchedulingRequest)
    (dependency : Option DependencyView) (policy : Option PolicyVeto)
    (snapshot : List Candidate) (d : PlacementDecision) : Prop where
  disjoint : d.eligible.Disjoint d.disqualified
  nodup_eligible : d.eligible.Nodup
  nodup_disqualified : d.disqualified.Nodup
  /-- Together they list the ids of the snapshot. -/
  divides : (d.eligible ++ d.disqualified).Perm (snapshot.map Candidate.candidateId)
  mem_eligible_iff : ∀ c ∈ snapshot, c.candidateId ∈ d.eligible ↔
    (hardFilterEvaluate request c dependency policy).status = .eligible
  /-- Every disqualified id has its rejection, with the status of its candidate. -/
  disqualified : d.disqualified = d.rejections.map RejectedAlternative.candidateId
  rejections : ∀ r ∈ d.rejections, r.status ≠ .eligible ∧ ∃ c ∈ snapshot,
    r.candidateId = c.candidateId ∧
      r.status = (hardFilterEvaluate request c dependency policy).status
  /-- The eligible ids are those of the only sorted arrangement of the eligible ranks. -/
  sorted : ∃ ranks, d.eligible = ranks.map RankedCandidate.candidateId ∧
    ∀ l : List (RankedCandidate Double), l = ranks ↔
      l.Perm (eligibleRanks st.rankOptions request dependency policy snapshot) ∧
        l.Pairwise fun a b => rankComparator a b = true
  produced_iff : d.producedPlan = true ↔ d.eligible ≠ []
  selected : ∀ id rest, d.eligible = id :: rest → d.plan.selectedCandidate = id
  fallbacks : ∀ id rest, d.eligible = id :: rest → d.plan.fallbackCandidates =
    rest.take (min (st.fallbackBound d.eligible.length) (d.eligible.length - 1))
  /-- The plan claims what the selected candidate binds. -/
  claims : ∀ id rest, d.eligible = id :: rest → ∀ c ∈ snapshot, c.candidateId = id →
    d.plan.bindings = c.bindings ∧ List.Forall₂ ResourceClaim.On c.bindings d.plan.claims

variable {st : SchedulerState} {request : SchedulingRequest}
  {dependency : Option DependencyView} {policy : Option PolicyVeto} {snapshot : List Candidate}

/-- How a decision is made of what the pass ranked and rejected. -/
structure MadeOf (st : SchedulerState) (request : SchedulingRequest) (views : ScheduleViews)
    (snapshot : List Candidate) (d : PlacementDecision) : Prop where
  eligible : d.eligible = ((rankSnapshot st.rankOptions request views snapshot).map
    RankedEntry.rank).map RankedCandidate.candidateId
  disqualified : d.disqualified = d.rejections.map RejectedAlternative.candidateId
  rejections : d.rejections = rejectSnapshot st.rankOptions request views snapshot
  produced_iff : d.producedPlan = true ↔ d.eligible ≠ []
  plan : ∀ winner others, rankSnapshot st.rankOptions request views snapshot =
    winner :: others → d.plan = st.storedPlan request views snapshot winner others

/-- A pass lists what it ranked and rejected, and makes a plan of the head of the ranks. -/
theorem exists_madeOf (st : SchedulerState) (request : SchedulingRequest)
    (views : ScheduleViews) (snapshot : List Candidate) :
    ∃ d, (st.scheduleSecond request views snapshot).1 = .ok d ∧
      st.MadeOf request views snapshot d := by
  cases h : rankSnapshot st.rankOptions request views snapshot with
  | nil =>
      refine ⟨_, scheduleSecond_decision_of_nil h, ?_, rfl, rfl, by simp, ?_⟩
      · rw [h]
        rfl
      · intro winner others hcons
        rw [h] at hcons
        cases hcons
  | cons winner others =>
      refine ⟨_, scheduleSecond_decision_of_cons h, ?_, rfl, rfl, by simp, ?_⟩
      · rw [h, List.map_map]
        rfl
      · intro winner' others' hcons
        rw [h] at hcons
        obtain ⟨rfl, rfl⟩ := List.cons.inj hcons
        rfl

/-- The fallbacks of a plan are the next ids up to the bound. -/
theorem fallbackCandidates_storedPlan (winner : RankedEntry) (others : List RankedEntry)
    (views : ScheduleViews) :
    (st.storedPlan request views snapshot winner others).fallbackCandidates =
      (others.map fun e => e.rank.candidateId).take
        (min (st.fallbackBound (others.length + 1)) (others.length + 1 - 1)) := by
  have hbound : st.fallbackBound (others.length + 1) =
      if 0 < st.policy.maxFallbackCandidates then st.policy.maxFallbackCandidates.toNat
      else others.length := by
    unfold fallbackBound
    by_cases hzero : st.policy.maxFallbackCandidates = 0
    · simp [hzero]
    · have hpos : 0 < st.policy.maxFallbackCandidates := by
        rw [UInt32.lt_iff_toNat_lt]
        have hne := mt UInt32.toNat_inj.mp hzero
        simp only [UInt32.toNat_zero] at hne ⊢
        omega
      rw [if_neg hzero, if_pos hpos]
  rw [hbound, Nat.add_sub_cancel, ← List.map_take]
  exact congrArg _ List.take_eq_take_min

namespace MadeOf

variable {d : PlacementDecision} {id : CandidateId} {rest : List CandidateId}

/-- The eligible ids are those of the candidates that pass the filter. -/
theorem perm_eligible (h : st.MadeOf request (.pure dependency policy) snapshot d) :
    d.eligible.Perm ((snapshot.filter fun c =>
      (hardFilterEvaluate request c dependency policy).eligible).map
        Candidate.candidateId) := by
  rw [h.eligible, ← candidateId_eligibleRanks]
  exact perm_rankSnapshot.map _

/-- The other ids are disqualified. -/
theorem divides (h : st.MadeOf request (.pure dependency policy) snapshot d) :
    (d.eligible ++ d.disqualified).Perm (snapshot.map Candidate.candidateId) := by
  have hfailed : d.disqualified = (snapshot.filter fun c =>
      !(hardFilterEvaluate request c dependency policy).eligible).map
        Candidate.candidateId := by
    rw [h.disqualified, h.rejections, rejectSnapshot_eq, List.map_map]
    rfl
  rw [hfailed]
  refine (h.perm_eligible.append_right _).trans ?_
  rw [← List.map_append]
  exact (List.filter_append_perm _ snapshot).map _

/-- Under distinct ids a candidate is listed as eligible exactly when it is. -/
theorem mem_eligible_iff (h : st.MadeOf request (.pure dependency policy) snapshot d)
    (hids : (snapshot.map Candidate.candidateId).Nodup) {c : Candidate} (hc : c ∈ snapshot) :
    c.candidateId ∈ d.eligible ↔
      (hardFilterEvaluate request c dependency policy).status = .eligible := by
  rw [h.perm_eligible.mem_iff, List.mem_map]
  constructor
  · rintro ⟨c', hc', hid⟩
    obtain ⟨hmem, hpass⟩ := List.mem_filter.mp hc'
    obtain rfl := List.inj_on_of_nodup_map hids hmem hc hid
    exact of_decide_eq_true hpass
  · intro hstatus
    exact ⟨c, List.mem_filter.mpr ⟨hc, decide_eq_true hstatus⟩, rfl⟩

/-- A rejection names a candidate and the status it was rejected with. -/
theorem mem_rejections (h : st.MadeOf request (.pure dependency policy) snapshot d)
    {r : RejectedAlternative} (hr : r ∈ d.rejections) : r.status ≠ .eligible ∧
      ∃ c ∈ snapshot, r.candidateId = c.candidateId ∧
        r.status = (hardFilterEvaluate request c dependency policy).status := by
  rw [h.rejections, rejectSnapshot_eq] at hr
  obtain ⟨c, hc, rfl⟩ := List.mem_map.mp hr
  obtain ⟨hmem, hfail⟩ := List.mem_filter.mp hc
  refine ⟨?_, c, hmem, rfl, rfl⟩
  rwa [Bool.not_eq_true', EligibilityResult.eligible, decide_eq_false_iff_not] at hfail

/-- The plan places on the head of the ranks. -/
theorem exists_winner (h : st.MadeOf request (.pure dependency policy) snapshot d)
    (hcons : d.eligible = id :: rest) :
    ∃ winner others, d.plan =
        st.storedPlan request (.pure dependency policy) snapshot winner others ∧
      winner.rank.candidateId = id ∧ (others.map fun e => e.rank.candidateId) = rest ∧
      winner.candidate ∈ snapshot ∧ winner.candidate.candidateId = id := by
  have heligible := h.eligible
  rw [hcons, List.map_map] at heligible
  obtain ⟨winner, others, hranks, hid, hrest⟩ := List.map_eq_cons_iff.mp heligible.symm
  obtain ⟨hmem, hrank, _⟩ := mem_rankSnapshot (hranks ▸ List.mem_cons_self ..)
  refine ⟨winner, others, h.plan winner others hranks, hid, hrest, hmem, ?_⟩
  exact (congrArg RankedCandidate.candidateId hrank).symm.trans hid

end MadeOf

/-- A pass over candidates with distinct ids and comparable costs decides as it is to. -/
theorem decides_of_nodup (hids : (snapshot.map Candidate.candidateId).Nodup)
    (hcomparable : ∀ r ∈ eligibleRanks st.rankOptions request dependency policy snapshot,
      r.Comparable) :
    ∃ d, (st.scheduleSecond request (.pure dependency policy) snapshot).1 = .ok d ∧
      st.Decides request dependency policy snapshot d := by
  obtain ⟨d, hd, hmade⟩ := st.exists_madeOf request (.pure dependency policy) snapshot
  obtain ⟨hnodup, hnodup', hdisjoint⟩ :=
    List.nodup_append'.mp (hmade.divides.nodup_iff.mpr hids)
  have hsorted := pairwise_rankSnapshot hcomparable hids
  refine ⟨d, hd, hdisjoint, hnodup, hnodup', hmade.divides,
    fun c hc => hmade.mem_eligible_iff hids hc, hmade.disqualified,
    fun r hr => hmade.mem_rejections hr, ⟨_, hmade.eligible, ?_⟩, hmade.produced_iff,
    ?_, ?_, ?_⟩
  · intro l
    constructor
    · rintro rfl
      exact ⟨perm_rankSnapshot, hsorted⟩
    · rintro ⟨hperm, hl⟩
      refine RankedCandidate.compares_rankComparator.eq_of_perm ?_
        (hperm.trans perm_rankSnapshot.symm) hl hsorted
      exact fun r hr => hcomparable r (perm_rankSnapshot.subset hr)
  · intro id rest hcons
    obtain ⟨winner, others, hplan, hid, _⟩ := hmade.exists_winner hcons
    rw [hplan]
    exact hid
  · intro id rest hcons
    obtain ⟨winner, others, hplan, _, rfl, _⟩ := hmade.exists_winner hcons
    rw [hplan, fallbackCandidates_storedPlan, hcons, List.length_cons, List.length_map]
  · intro id rest hcons c hc hid
    obtain ⟨winner, others, hplan, _, _, hmem, hself⟩ := hmade.exists_winner hcons
    obtain rfl := List.inj_on_of_nodup_map hids hmem hc (hself.trans hid.symm)
    rw [hplan]
    exact ⟨rfl, buildClaims_on _⟩

/-- The candidate store holds every candidate under its own id. -/
def Keyed (st : SchedulerState) : Prop :=
  ∀ id c, st.candidates.find? id = some c → c.candidateId = id

theorem Keyed.insert {st st' : SchedulerState} (h : st.Keyed) {c : Candidate}
    (hinsert : st'.candidates = st.candidates.insert c.candidateId c) : st'.Keyed := by
  intro id d hd
  rw [hinsert, OrderedMap.find?_insert] at hd
  split at hd
  · rename_i hid
    obtain rfl := Option.some.inj hd
    exact hid.symm
  · exact h id d hd

theorem Keyed.ingestCandidate {st : SchedulerState} (h : st.Keyed) (c : Candidate) :
    (st.ingestCandidate c).2.Keyed := by
  rcases st.ingestCandidate_cases c with ⟨e, hrefused, _⟩ | ⟨haccepted, _⟩
  · rw [hrefused]
    exact h
  · rw [haccepted]
    exact h.insert rfl

theorem Keyed.changed {st st' : SchedulerState} (h : st.Keyed) (hchanged : st.Changed st') :
    st'.Keyed := by
  rcases hchanged.candidates_cases with hsame | ⟨d, hinsert⟩
  · intro id c hc
    exact h id c (hsame ▸ hc)
  · exact h.insert hinsert

end SchedulerState

/-- The candidate store is keyed in every reachable state. -/
theorem System.keyed_of_reachable {config : SchedulerConfig} {s : System}
    (hs : (scheduler config).Reachable (fun _ _ => True) s) : s.sched.Keyed := by
  refine hs.invariant (fun u => u.sched.Keyed) ?_ ?_
  · rintro _ rfl id c hc
    cases hc
  · intro u a v _ hn hu
    rcases (System.stepped_of_step hn).changed with ⟨persisted, _, hv⟩ | hchanged
    · intro id c hc
      rw [hv] at hc
      cases hc
    · exact hu.changed hchanged

namespace SchedulerState

/-- The candidates of a keyed store, which every reachable one is, are divided, ranked by a
strict total order and placed as a pass is to, whatever the state it ends in. -/
theorem schedule_decides (st st' : SchedulerState) (request : SchedulingRequest)
    (dependency : Option DependencyView) (policy : Option PolicyVeto) :
    RankComparatorOrders ∧
    (∀ config s, (scheduler config).Reachable (fun _ _ => True) s → s.sched.Keyed) ∧
    (st.Keyed →
      (∀ r ∈ eligibleRanks st'.rankOptions request dependency policy st.scheduleFirst,
        r.Comparable) →
      ∃ d, (st'.scheduleSecond request (.pure dependency policy) st.scheduleFirst).1 = .ok d ∧
        st'.Decides request dependency policy st.scheduleFirst d) := by
  refine ⟨rankComparatorOrders, fun _ _ => System.keyed_of_reachable, ?_⟩
  intro hkeyed hcomparable
  refine decides_of_nodup ?_ hcomparable
  rw [scheduleFirst, OrderedMap.map_values Candidate.candidateId hkeyed]
  exact OrderedMap.nodup_keys _

end SchedulerState

/-- Two equal candidates and one that is not ready, ingested out of order. -/
def Sample.crowded : SchedulerState :=
  let unready := { Sample.candidate ⟨3⟩ ⟨1⟩ with
    health := ⟨⟨1⟩, false, .one, [], .measured⟩ }
  ((((SchedulerState.initial Sample.config).ingestCandidate unready).2.ingestCandidate
    (Sample.candidate ⟨2⟩ ⟨1⟩)).2.ingestCandidate (Sample.candidate ⟨1⟩ ⟨1⟩)).2

/-- Equal candidates are placed in the order of their ids. -/
theorem SchedulerState.schedule_decides_crowded : ∃ d,
    Sample.crowded.Decides (Sample.request ⟨1⟩) none none Sample.crowded.scheduleFirst d ∧
      d.eligible = [⟨1⟩, ⟨2⟩] ∧ d.disqualified = [⟨3⟩] := by
  have hkeyed : (initial Sample.config).Keyed := by
    intro id c hc
    cases hc
  have hlists : (Sample.crowded.scheduleSecond (Sample.request ⟨1⟩) (.pure none none)
      Sample.crowded.scheduleFirst).1.toOption.map (fun d => (d.eligible, d.disqualified)) =
      some ([⟨1⟩, ⟨2⟩], [⟨3⟩]) := by decide +kernel
  obtain ⟨d, hd, hdecides⟩ := (schedule_decides Sample.crowded Sample.crowded
    (Sample.request ⟨1⟩) none none).2.2
    (((hkeyed.ingestCandidate _).ingestCandidate _).ingestCandidate _) (by decide +kernel)
  rw [hd] at hlists
  obtain ⟨heligible, hdisqualified⟩ := Prod.mk.injEq .. ▸ Option.some.inj hlists
  exact ⟨d, hdecides, heligible, hdisqualified⟩

end FabricScheduler
