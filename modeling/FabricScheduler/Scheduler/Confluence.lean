import FabricScheduler.Library.Newest
import FabricScheduler.Scheduler.Execution
import FabricScheduler.Scheduler.Sections

/-!
# The order of publication does not matter

Every entry of the candidate store is a slot that adopts newer generations. The store after
a list of publications is therefore the same in every order, and so is the decision of a
scheduling pass, which reads nothing else that the publications change.
-/

namespace FabricScheduler

namespace SchedulerState

/-- The state after the publications, those refused being skipped. -/
def ingestAll (st : SchedulerState) (l : List Candidate) : SchedulerState :=
  l.foldl (fun st c => (st.ingestCandidate c).2) st

/-- The candidate's worker boot and its source boot are not fenced. -/
def Unfenced (st : SchedulerState) (c : Candidate) : Prop :=
  c.workerBootId ∉ st.fencedWorkers ∧ c.sourceBootId ∉ st.fencedSources

instance (st : SchedulerState) (c : Candidate) : Decidable (st.Unfenced c) :=
  inferInstanceAs (Decidable (_ ∧ _))

/-- The publications under one id that no fence refuses. -/
def offered (st : SchedulerState) (id : CandidateId) (l : List Candidate) : List Candidate :=
  l.filter fun c => c.candidateId = id ∧ st.Unfenced c

theorem mem_offered {st : SchedulerState} {id : CandidateId} {l : List Candidate}
    {c : Candidate} : c ∈ st.offered id l ↔ c ∈ l ∧ c.candidateId = id ∧ st.Unfenced c := by
  rw [offered, List.mem_filter, decide_eq_true_iff]

/-- A publication changes no more than the candidates and the watermark. -/
theorem ingestCandidate_frame (st : SchedulerState) (c : Candidate) :
    ∃ candidates watermark, (st.ingestCandidate c).2 =
      { st with candidates, ingestWatermark := watermark } := by
  rcases st.ingestCandidate_cases c with ⟨e, h, _⟩ | ⟨h, _⟩
  · exact ⟨st.candidates, st.ingestWatermark, by rw [h]⟩
  · exact ⟨_, _, congrArg Prod.snd h⟩

/-- Publications change no more than the candidates and the watermark. -/
theorem ingestAll_frame (st : SchedulerState) (l : List Candidate) :
    ∃ candidates watermark, st.ingestAll l =
      { st with candidates, ingestWatermark := watermark } := by
  induction l generalizing st with
  | nil => exact ⟨st.candidates, st.ingestWatermark, rfl⟩
  | cons c l ih =>
      obtain ⟨candidates, watermark, hfirst⟩ := st.ingestCandidate_frame c
      obtain ⟨candidates', watermark', hrest⟩ := ih (st.ingestCandidate c).2
      refine ⟨candidates', watermark', hrest.trans ?_⟩
      rw [hfirst]

/-- A refused publication changes nothing. -/
theorem ingestCandidate_error {st : SchedulerState} {c : Candidate} {e : FabricError}
    (h : (st.ingestCandidate c).1 = .error e) : (st.ingestCandidate c).2 = st := by
  rcases st.ingestCandidate_cases c with ⟨e', hrefused, _⟩ | ⟨haccepted, _⟩
  · rw [hrefused]
  · rw [haccepted] at h
    cases h

/-- The entry under an id after one publication. -/
theorem find?_ingestCandidate {st : SchedulerState} {c : Candidate} (hc : c.Publishable)
    (id : CandidateId) : (st.ingestCandidate c).2.candidates.find? id =
      if c.candidateId = id ∧ st.Unfenced c then
        Newest.adopt Candidate.candidateGeneration (st.candidates.find? id) c
      else st.candidates.find? id := by
  rcases st.ingestCandidate_cases c with ⟨e, h, hnot⟩ | ⟨h, htakes⟩
  · rw [h]
    split
    · rename_i hoffered
      obtain ⟨rfl, hworker, hsource⟩ := hoffered
      cases hheld : st.candidates.find? c.candidateId with
      | none => exact absurd ⟨hc, hworker, hsource, by simp [hheld]⟩ hnot
      | some held =>
          have hnewer : ¬held.candidateGeneration < c.candidateGeneration := by
            intro hlt
            exact hnot ⟨hc, hworker, hsource, fun held' hfound => by
              rwa [← Option.some.inj (hheld.symm.trans hfound)]⟩
          rw [Newest.adopt, if_neg hnewer]
    · rfl
  · obtain ⟨_, hworker, hsource, hnewer⟩ := htakes
    rw [h]
    simp only [OrderedMap.find?_insert]
    by_cases hid : id = c.candidateId
    · subst hid
      rw [if_pos rfl, if_pos ⟨rfl, hworker, hsource⟩]
      cases hheld : st.candidates.find? c.candidateId with
      | none => rfl
      | some held => rw [Newest.adopt, if_pos (hnewer held hheld)]
    · rw [if_neg hid, if_neg fun hoffered => hid hoffered.1.symm]

/-- The entry under an id after all publications is what a slot adopts of those offered. -/
theorem find?_ingestAll {l : List Candidate} (hl : ∀ c ∈ l, c.Publishable)
    (st : SchedulerState) (id : CandidateId) : (st.ingestAll l).candidates.find? id =
      (st.offered id l).foldl (Newest.adopt Candidate.candidateGeneration)
        (st.candidates.find? id) := by
  induction l generalizing st with
  | nil => rfl
  | cons c l ih =>
      have hrest := ih (fun x hx => hl x (List.mem_cons_of_mem c hx)) (st.ingestCandidate c).2
      have hoffered : (st.ingestCandidate c).2.offered id l = st.offered id l := by
        obtain ⟨candidates, watermark, h⟩ := st.ingestCandidate_frame c
        rw [h]
        rfl
      rw [hoffered, find?_ingestCandidate (hl c (List.mem_cons_self ..))] at hrest
      refine hrest.trans ?_
      rw [offered, offered, List.filter_cons]
      by_cases hc : c.candidateId = id ∧ st.Unfenced c
      · rw [if_pos hc, if_pos (decide_eq_true hc), List.foldl_cons]
      · rw [if_neg hc, if_neg (by rwa [decide_eq_true_iff])]

/-- Publications of distinct ids and generations offer distinct generations under an id. -/
theorem nodup_offered {l : List Candidate}
    (hl : (l.map fun c => (c.candidateId, c.candidateGeneration)).Nodup)
    (st : SchedulerState) (id : CandidateId) :
    ((st.offered id l).map Candidate.candidateGeneration).Nodup := by
  have hsub : ((st.offered id l).map fun c => (c.candidateId, c.candidateGeneration)).Nodup :=
    hl.sublist (List.filter_sublist.map _)
  have hkeys : (st.offered id l).map (fun c => (c.candidateId, c.candidateGeneration)) =
      ((st.offered id l).map Candidate.candidateGeneration).map fun g => (id, g) := by
    rw [List.map_map]
    apply List.map_congr_left
    intro c hc
    rw [Function.comp, (mem_offered.mp hc).2.1]
  rw [hkeys] at hsub
  exact hsub.of_map _

/-- The decision of a pass does not depend on the watermark. -/
theorem scheduleSecond_watermark (st : SchedulerState) (watermark : UInt64)
    (request : SchedulingRequest) (views : ScheduleViews) (snapshot : List Candidate) :
    (({ st with ingestWatermark := watermark } : SchedulerState).scheduleSecond request views
      snapshot).1 = (st.scheduleSecond request views snapshot).1 := by
  cases h : rankSnapshot st.rankOptions request views snapshot with
  | nil =>
      have h' : rankSnapshot ({ st with ingestWatermark := watermark } :
          SchedulerState).rankOptions request views snapshot = [] := h
      rw [scheduleSecond_decision_of_nil h', scheduleSecond_decision_of_nil h]
  | cons winner others =>
      have h' : rankSnapshot ({ st with ingestWatermark := watermark } :
          SchedulerState).rankOptions request views snapshot = winner :: others := h
      rw [scheduleSecond_decision_of_cons h', scheduleSecond_decision_of_cons h]
      rfl

variable {l l' : List Candidate}

theorem candidates_ingestAll_perm (hperm : l.Perm l') (hl : ∀ c ∈ l, c.Publishable)
    (hdistinct : (l.map fun c => (c.candidateId, c.candidateGeneration)).Nodup)
    (st : SchedulerState) : (st.ingestAll l').candidates = (st.ingestAll l).candidates := by
  apply OrderedMap.ext_find?
  intro id
  rw [find?_ingestAll hl, find?_ingestAll fun c hc => hl c (hperm.mem_iff.mpr hc)]
  exact (Newest.foldl_adopt_perm (hperm.filter _) (nodup_offered hdistinct st id)).symm

/-- States with the same candidates that publications lead to from one state decide alike. -/
theorem scheduleSecond_ingestAll_congr {st : SchedulerState}
    (h : (st.ingestAll l').candidates = (st.ingestAll l).candidates)
    (request : SchedulingRequest) (views : ScheduleViews) :
    ((st.ingestAll l').scheduleSecond request views (st.ingestAll l').scheduleFirst).1 =
      ((st.ingestAll l).scheduleSecond request views (st.ingestAll l).scheduleFirst).1 := by
  obtain ⟨candidates, watermark, hl⟩ := st.ingestAll_frame l
  obtain ⟨candidates', watermark', hl'⟩ := st.ingestAll_frame l'
  rw [hl, hl'] at h
  have hcandidates : candidates' = candidates := h
  subst hcandidates
  rw [hl, hl']
  exact scheduleSecond_watermark { st with
    candidates := candidates', ingestWatermark := watermark } watermark' request views _

/-- Publications of distinct ids and generations may come in any order: the store ends up
the same, with the newest unfenced record of each id unless it held one at least as new; a
refused publication changes nothing; and every later pass decides the same. -/
theorem ingest_confluent (hperm : l.Perm l') (hadmissible : ∀ c ∈ l, c.Publishable)
    (hdistinct : (l.map fun c => (c.candidateId, c.candidateGeneration)).Nodup)
    (st : SchedulerState) :
    (st.ingestAll l').candidates = (st.ingestAll l).candidates ∧
    (∀ id c, (st.ingestAll l).candidates.find? id = some c ↔
      Newest.Kept Candidate.candidateGeneration (st.candidates.find? id) (st.offered id l) c) ∧
    (st.candidates = .empty → ∀ id c, (st.ingestAll l).candidates.find? id = some c ↔
      c ∈ l ∧ c.candidateId = id ∧ st.Unfenced c ∧ ∀ c' ∈ l, c'.candidateId = id →
        st.Unfenced c' → c'.candidateGeneration ≤ c.candidateGeneration) ∧
    (∀ (st' : SchedulerState) (c : Candidate) (e : FabricError),
      (st'.ingestCandidate c).1 = .error e → (st'.ingestCandidate c).2 = st') ∧
    ∀ (request : SchedulingRequest) (views : ScheduleViews),
      ((st.ingestAll l').scheduleSecond request views (st.ingestAll l').scheduleFirst).1 =
        ((st.ingestAll l).scheduleSecond request views (st.ingestAll l).scheduleFirst).1 := by
  have hkept : ∀ id c, (st.ingestAll l).candidates.find? id = some c ↔
      Newest.Kept Candidate.candidateGeneration (st.candidates.find? id)
        (st.offered id l) c := by
    intro id c
    rw [find?_ingestAll hadmissible,
      Newest.foldl_adopt_eq_some_iff (nodup_offered hdistinct st id)]
  have hsame := candidates_ingestAll_perm hperm hadmissible hdistinct st
  refine ⟨hsame, hkept, ?_, fun st' c e => ingestCandidate_error,
    scheduleSecond_ingestAll_congr hsame⟩
  intro hempty id c
  rw [hkept, hempty, OrderedMap.find?_empty, Newest.kept_none, mem_offered]
  simp only [mem_offered, and_imp, and_assoc]

end SchedulerState

/-- Two generations of a candidate, published in either order. -/
theorem SchedulerState.ingest_confluent_refreshed :
    ((SchedulerState.initial Sample.config).ingestAll
      [Sample.candidate ⟨1⟩ ⟨2⟩, Sample.candidate ⟨1⟩ ⟨1⟩]).candidates =
    ((SchedulerState.initial Sample.config).ingestAll
      [Sample.candidate ⟨1⟩ ⟨1⟩, Sample.candidate ⟨1⟩ ⟨2⟩]).candidates := by
  refine (ingest_confluent (.swap _ _ _) ?_ (by decide) _).1
  intro c hc
  rcases List.mem_pair.mp hc with rfl | rfl
  · exact ⟨rfl, rfl, rfl, rfl, fun h => by cases h.2⟩
  · exact ⟨rfl, rfl, rfl, rfl, fun h => by cases h.2⟩

end FabricScheduler
