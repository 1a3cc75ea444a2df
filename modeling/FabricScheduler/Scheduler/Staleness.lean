import Mathlib.Data.List.DropRight
import FabricScheduler.Scheduler.Evidence
import FabricScheduler.Scheduler.Execution

/-!
# The staleness guards of the candidate store

Whether a candidate is accepted is a matter of what has happened since the last recovery:
the fences put up and the candidates accepted. A recovery drops all of it, whatever it reads
back.
-/

namespace FabricScheduler

namespace SchedulerState

/-- The store accepts a publishable candidate that is not fenced and newer than the one it
holds. -/
theorem ingestCandidate_ok_iff (st : SchedulerState) (candidate : Candidate) :
    (st.ingestCandidate candidate).1 = .ok () ↔ candidate.Publishable ∧
      candidate.workerBootId ∉ st.fencedWorkers ∧ candidate.sourceBootId ∉ st.fencedSources ∧
      ∀ held, st.candidates.find? candidate.candidateId = some held →
        held.candidateGeneration < candidate.candidateGeneration := by
  rcases st.ingestCandidate_cases candidate with ⟨e, hrefused, hnot⟩ | ⟨haccepted, htakes⟩
  · rw [hrefused]
    exact iff_of_false (fun h => by cases h) hnot
  · rw [haccepted]
    exact iff_of_true rfl htakes

end SchedulerState

/-- The action is a recovery. -/
def Action.isRestore : Action → Bool
  | .restore _ => true
  | _ => false

/-- The action may change a fence or the candidate store. -/
def Action.touchesGuards : Action → Bool
  | .fenceWorker _ | .fenceSource _ | .ingestCandidate _ | .restore _ => true
  | _ => false

namespace System

variable {config : SchedulerConfig} {s t : System} {a : Action} {st st' : SchedulerState}
  {es : List (TransitionSystem.Step System Action)}

/-- The step accepts the candidate. -/
def Accepts (e : TransitionSystem.Step System Action) (c : Candidate) : Prop :=
  e.act = .ingestCandidate c ∧ (e.src.sched.ingestCandidate c).1 = .ok ()

/-- The steps after the last recovery. -/
def sinceRestore (es : List (TransitionSystem.Step System Action)) :
    List (TransitionSystem.Step System Action) := es.rtakeWhile fun e => !e.act.isRestore

/-- The guards of the state stand for the steps: every fence for a step that put it up, and
every candidate held for the newest accepted one of its id. -/
structure Guarded (es : List (TransitionSystem.Step System Action)) (st : SchedulerState) :
    Prop where
  workers : ∀ b, b ∈ st.fencedWorkers ↔ ∃ e ∈ es, e.act = .fenceWorker b
  sources : ∀ b, b ∈ st.fencedSources ↔ ∃ e ∈ es, e.act = .fenceSource b
  held : ∀ id c, st.candidates.find? id = some c → c.candidateId = id ∧ ∃ e ∈ es, Accepts e c
  newest : ∀ e ∈ es, ∀ c, Accepts e c → ∃ held,
    st.candidates.find? c.candidateId = some held ∧
      c.candidateGeneration ≤ held.candidateGeneration

/-- A state without fences and candidates stands for no steps. -/
theorem guarded_nil (hworkers : st.fencedWorkers = ∅) (hsources : st.fencedSources = ∅)
    (hcandidates : st.candidates = .empty) : Guarded [] st where
  workers b := by simp [hworkers]
  sources b := by simp [hsources]
  held id c hc := by
    rw [hcandidates] at hc
    cases hc
  newest e he := (List.not_mem_nil he).elim

/-- A step that changes the guards as its action says keeps them standing for the steps. -/
theorem Guarded.snoc (h : Guarded es st) {e : TransitionSystem.Step System Action}
    (hworkers : ∀ b, b ∈ st'.fencedWorkers ↔ b ∈ st.fencedWorkers ∨ e.act = .fenceWorker b)
    (hsources : ∀ b, b ∈ st'.fencedSources ↔ b ∈ st.fencedSources ∨ e.act = .fenceSource b)
    (hcandidates : (st'.candidates = st.candidates ∧ ∀ c, ¬Accepts e c) ∨
      ∃ c, Accepts e c ∧ st'.candidates = st.candidates.insert c.candidateId c ∧
        ∀ held, st.candidates.find? c.candidateId = some held →
          held.candidateGeneration < c.candidateGeneration) :
    Guarded (es ++ [e]) st' := by
  have hexists : ∀ p : TransitionSystem.Step System Action → Prop,
      (∃ f ∈ es ++ [e], p f) ↔ (∃ f ∈ es, p f) ∨ p e := by
    intro p
    simp only [List.mem_append, List.mem_singleton, or_and_right, exists_or, exists_eq_left]
  have hcases : ∀ f ∈ es ++ [e], f ∈ es ∨ f = e := by
    intro f hf
    simpa only [List.mem_append, List.mem_singleton] using hf
  refine ⟨?_, ?_, ?_, ?_⟩
  · intro b
    rw [hexists, hworkers, h.workers]
  · intro b
    rw [hexists, hsources, h.sources]
  · intro id c hc
    rw [hexists]
    rcases hcandidates with ⟨hsame, _⟩ | ⟨d, haccepts, hinsert, _⟩
    · obtain ⟨hid, haccepted⟩ := h.held id c (hsame ▸ hc)
      exact ⟨hid, Or.inl haccepted⟩
    · rw [hinsert, OrderedMap.find?_insert] at hc
      split at hc
      · rename_i hid
        obtain rfl := Option.some.inj hc
        exact ⟨hid.symm, Or.inr haccepts⟩
      · obtain ⟨hid, haccepted⟩ := h.held id c hc
        exact ⟨hid, Or.inl haccepted⟩
  · intro f hf c hc
    rcases hcandidates with ⟨hsame, hnone⟩ | ⟨d, haccepts, hinsert, hnewer⟩
    · rcases hcases f hf with hold | rfl
      · rw [hsame]
        exact h.newest f hold c hc
      · exact absurd hc (hnone c)
    · rw [hinsert, OrderedMap.find?_insert]
      rcases hcases f hf with hold | rfl
      · obtain ⟨held, hheld, hle⟩ := h.newest f hold c hc
        split
        · rename_i hid
          rw [hid] at hheld
          exact ⟨d, rfl, hle.trans (hnewer held hheld).le⟩
        · exact ⟨held, hheld, hle⟩
      · have hsame : d = c := by
          have hact := haccepts.1.symm.trans hc.1
          exact Action.ingestCandidate.inj hact
        rw [hsame]
        exact ⟨c, if_pos rfl, le_refl _⟩

/-- Only fences, ingests and recoveries touch the guards. -/
theorem Stepped.guards_eq (h : Stepped s a t) (ha : a.touchesGuards = false) :
    t.sched.fencedWorkers = s.sched.fencedWorkers ∧
      t.sched.fencedSources = s.sched.fencedSources ∧
      t.sched.candidates = s.sched.candidates := by
  cases h with
  | fenceWorker | fenceSource | ingested | notIngested | restore => cases ha
  | setEpoch epoch =>
      have hframe := s.sched.setEpoch_frame epoch
      exact ⟨(congrArg SchedulerState.fencedWorkers hframe :),
        (congrArg SchedulerState.fencedSources hframe :),
        (congrArg SchedulerState.candidates hframe :)⟩
  | @scheduled c request snapshot _ views decision =>
      have hframe := s.sched.scheduleSecond_frame request views snapshot
      exact ⟨(congrArg SchedulerState.fencedWorkers hframe :),
        (congrArg SchedulerState.fencedSources hframe :),
        (congrArg SchedulerState.candidates hframe :)⟩
  | revalidate planId current =>
      have hframe := s.sched.revalidate_frame planId current
      exact ⟨(congrArg SchedulerState.fencedWorkers hframe :),
        (congrArg SchedulerState.fencedSources hframe :),
        (congrArg SchedulerState.candidates hframe :)⟩
  | _ => exact ⟨rfl, rfl, rfl⟩

/-- The step of an ingest stores the candidate or changes nothing. -/
theorem Guarded.ingested (h : Guarded es s.sched) (candidate : Candidate) :
    Guarded (es ++ [⟨s, .ingestCandidate candidate, s.ingestCandidate candidate⟩])
      (s.ingestCandidate candidate).sched := by
  unfold ingestCandidate
  rcases s.sched.ingestCandidate_cases candidate with ⟨e, he, _⟩ | ⟨hok, _, _, _, hnewer⟩
  · refine h.snoc (fun b => ?_) (fun b => ?_) (Or.inl ⟨?_, ?_⟩)
    all_goals rw [he]
    · simp [whole]
    · simp [whole]
    · rfl
    · rintro c ⟨hact, hok⟩
      obtain rfl := Action.ingestCandidate.inj hact
      rw [he] at hok
      cases hok
  · refine h.snoc (fun b => ?_) (fun b => ?_) (Or.inr ⟨candidate, ⟨rfl, ?_⟩, ?_, hnewer⟩)
    all_goals rw [hok]
    · simp [whole]
    · simp [whole]
    · rfl

/-- A step that touches no guard keeps them standing for the steps. -/
private theorem Guarded.kept (h : Guarded es s.sched) (hstep : Stepped s a t)
    (ha : a.touchesGuards = false) : Guarded (es ++ [⟨s, a, t⟩]) t.sched := by
  obtain ⟨hworkers, hsources, hcandidates⟩ := hstep.guards_eq ha
  have hother : ∀ b : Action, b.touchesGuards = true → a ≠ b := by
    rintro b hb rfl
    rw [ha] at hb
    cases hb
  refine h.snoc (fun b => ?_) (fun b => ?_) (Or.inl ⟨hcandidates, ?_⟩)
  · simp only [hworkers, hother (.fenceWorker b) rfl, or_false]
  · simp only [hsources, hother (.fenceSource b) rfl, or_false]
  · rintro c ⟨hact, _⟩
    exact hother (.ingestCandidate c) rfl hact

/-- A step that is not a recovery keeps the guards standing for the steps. -/
theorem Guarded.stepped (h : Guarded es s.sched) (hn : s.step a = some t)
    (hno : a.isRestore = false) : Guarded (es ++ [⟨s, a, t⟩]) t.sched := by
  have hstep := stepped_of_step hn
  cases a with
  | fenceWorker bootId =>
      obtain rfl := Option.some.inj hn
      refine h.snoc (fun b => ?_) (fun b => ?_) (Or.inl ⟨rfl, ?_⟩)
      · simp [whole, SchedulerState.fenceWorker, or_comm, eq_comm]
      · simp [whole, SchedulerState.fenceWorker]
      · rintro c ⟨hact, _⟩
        cases hact
  | fenceSource bootId =>
      obtain rfl := Option.some.inj hn
      refine h.snoc (fun b => ?_) (fun b => ?_) (Or.inl ⟨rfl, ?_⟩)
      · simp [whole, SchedulerState.fenceSource]
      · simp [whole, SchedulerState.fenceSource, or_comm, eq_comm]
      · rintro c ⟨hact, _⟩
        cases hact
  | ingestCandidate candidate =>
      obtain rfl := Option.some.inj hn
      exact h.ingested candidate
  | restore => cases hno
  | _ => exact h.kept hstep rfl

/-- The guards stand for the steps since the last recovery. -/
theorem guarded_of_run {P : System → Action → Prop}
    (h : (scheduler config).Run P (initial config) es t) :
    Guarded (sinceRestore es) t.sched := by
  refine h.traced (fun fs u => Guarded (sinceRestore fs) u.sched)
    (guarded_nil rfl rfl rfl) ?_
  intro fs u a v _ hn hu
  cases hact : a.isRestore with
  | false =>
      have hgrows : sinceRestore (fs ++ [⟨u, a, v⟩]) = sinceRestore fs ++ [⟨u, a, v⟩] := by
        apply List.rtakeWhile_concat_pos
        rw [hact]
        rfl
      rw [hgrows]
      exact hu.stepped hn hact
  | true =>
      have hcut : sinceRestore (fs ++ [⟨u, a, v⟩]) = [] := by
        apply List.rtakeWhile_concat_neg
        rw [hact]
        exact Bool.false_ne_true
      rw [hcut]
      cases a with
      | restore p =>
          obtain rfl := Option.some.inj hn
          exact guarded_nil rfl rfl rfl
      | _ => cases hact

/-- A candidate is accepted just when it is publishable and, since the last recovery, neither
its worker boot nor its source boot was fenced and no candidate of its id was accepted that
is as new. -/
theorem ingest_accepted_iff (h : (scheduler config).Run (fun _ _ => True) (initial config) es t)
    (c : Candidate) : (t.sched.ingestCandidate c).1 = .ok () ↔ c.Publishable ∧
      (∀ e ∈ sinceRestore es, e.act ≠ .fenceWorker c.workerBootId) ∧
      (∀ e ∈ sinceRestore es, e.act ≠ .fenceSource c.sourceBootId) ∧
      ∀ e ∈ sinceRestore es, ∀ d, Accepts e d → d.candidateId = c.candidateId →
        d.candidateGeneration < c.candidateGeneration := by
  have hguarded := guarded_of_run h
  rw [SchedulerState.ingestCandidate_ok_iff, hguarded.workers, hguarded.sources]
  push Not
  refine and_congr_right fun _ => and_congr_right fun _ => and_congr_right fun _ => ?_
  constructor
  · intro hnewer e he d hd hid
    obtain ⟨held, hheld, hle⟩ := hguarded.newest e he d hd
    exact hle.trans_lt (hnewer held (hid ▸ hheld))
  · intro hnewest held hheld
    obtain ⟨hid, e, he, haccepts⟩ := hguarded.held _ held hheld
    exact hnewest e he held haccepts hid

theorem publishable_sample : (Sample.candidate ⟨1⟩ ⟨1⟩).Publishable :=
  ⟨rfl, rfl, rfl, rfl, by decide⟩

/-- A candidate of a fenced worker is accepted after a recovery. -/
theorem ingest_accepted_recovered : ∃ es t,
    (scheduler Sample.config).Run (fun _ _ => True) (initial Sample.config) es t ∧
    es.map TransitionSystem.Step.act = [.fenceWorker ⟨1⟩, .snapshot,
      .restore (SchedulerState.initial Sample.config).snapshot] ∧
    (t.sched.ingestCandidate (Sample.candidate ⟨1⟩ ⟨1⟩)).1 = .ok () := by
  have hfence : (initial Sample.config).RestoresOwn (.fenceWorker ⟨1⟩) := trivial
  have hfenced : (scheduler Sample.config).Run RestoresOwn (initial Sample.config) _ _ :=
    TransitionSystem.Run.nil.snoc hfence rfl
  have hrun := (run_cycled hfenced).mono (Q := fun _ _ => True) fun _ _ _ => trivial
  refine ⟨_, _, hrun, rfl, (ingest_accepted_iff hrun _).mpr ?_⟩
  have hcut : ∀ es : List (TransitionSystem.Step System Action), ∀ u p v,
      sinceRestore (es ++ [⟨u, .restore p, v⟩]) = [] :=
    fun es u p v => List.rtakeWhile_concat_neg _ _ _ Bool.false_ne_true
  rw [hcut]
  refine ⟨publishable_sample, ?_, ?_, ?_⟩
  all_goals exact fun e he => (List.not_mem_nil he).elim

/-- What an action does against a candidate outlasts a recovery from a later snapshot. -/
def OutlastsRecovery (config : SchedulerConfig) (a : Action) (c : Candidate) : Prop :=
  ∀ es s s' fs u gs v v' hs t, (scheduler config).Run RestoresOwn (initial config) es s →
    s.step a = some s' →
    (∀ d, a = .ingestCandidate d → (s.sched.ingestCandidate d).1 = .ok ()) →
    (scheduler config).Run RestoresOwn s' fs u →
    (scheduler config).Run RestoresOwn (u.whole u.sched [.saved u.sched.snapshot]) gs v →
    v.step (.restore u.sched.snapshot) = some v' →
    (scheduler config).Run RestoresOwn v' hs t → (t.sched.ingestCandidate c).1 ≠ .ok ()

theorem not_outlastsRecovery {c : Candidate} (hc : c.Publishable)
    (hn : (initial config).step a = some s)
    (heffect : ∀ d, a = .ingestCandidate d →
      ((initial config).sched.ingestCandidate d).1 = .ok ()) :
    ¬OutlastsRecovery config a c := by
  intro h
  have hrecovered : ∀ u v : System, ((v.whole (v.sched.restore u.sched.snapshot) []).sched
      |>.ingestCandidate c).1 = .ok () := by
    intro u v
    rw [SchedulerState.ingestCandidate_ok_iff]
    exact ⟨hc, Finset.notMem_empty _, Finset.notMem_empty _, fun _ hheld => by cases hheld⟩
  exact h [] _ s [] s [] _ _ [] _ .nil hn heffect .nil .nil rfl .nil (hrecovered _ _)

/-- Neither a fence nor an accepted generation outlasts a recovery. -/
theorem not_guards_recovered :
    (¬∀ config c, OutlastsRecovery config (.fenceWorker c.workerBootId) c) ∧
    (¬∀ config c, OutlastsRecovery config (.fenceSource c.sourceBootId) c) ∧
    ¬∀ config c d, d.candidateId = c.candidateId →
      c.candidateGeneration < d.candidateGeneration →
      OutlastsRecovery config (.ingestCandidate d) c := by
  refine ⟨?_, ?_, ?_⟩
  · intro h
    refine not_outlastsRecovery publishable_sample rfl ?_ (h Sample.config _)
    intro d hd
    cases hd
  · intro h
    refine not_outlastsRecovery publishable_sample rfl ?_ (h Sample.config _)
    intro d hd
    cases hd
  · intro h
    refine not_outlastsRecovery publishable_sample rfl ?_
      (h Sample.config _ (Sample.candidate ⟨1⟩ ⟨2⟩) rfl (by decide))
    intro d hd
    obtain rfl := Action.ingestCandidate.inj hd
    rfl

end System

end FabricScheduler
