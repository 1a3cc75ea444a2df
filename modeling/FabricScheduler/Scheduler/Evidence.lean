import FabricScheduler.Scheduler.Fencing

/-!
# The evidence behind a placement

The candidate store holds the newest accepted evidence of each candidate, and a plan is
built from evidence that was accepted. Commits and handoffs do not consult the store: the
evidence they succeed on may be superseded, and only a revalidation takes a stale plan out
of its way to execution.
-/

namespace FabricScheduler

namespace System

variable {config : SchedulerConfig} {s t : System} {a : Action} {k : PlacementPlanId}
  {es : List (TransitionSystem.Step System Action)}

/-- Where the evidence in a state comes from. -/
structure Evidenced (s : System) : Prop where
  /-- The store holds accepted candidates under their ids. -/
  held : ∀ id c, s.sched.candidates.find? id = some c →
    Event.ingested c ∈ s.log ∧ c.candidateId = id
  /-- No accepted candidate is newer than the one the store holds. -/
  newest : ∀ c, Event.ingested c ∈ s.log →
    ∃ held, s.sched.candidates.find? c.candidateId = some held ∧
      c.candidateGeneration ≤ held.candidateGeneration
  /-- A suspended scheduling pass evaluates accepted candidates. -/
  snapshots : ∀ n request snapshot, s.pending n = some (.scheduling request snapshot) →
    ∀ c ∈ snapshot, Event.ingested c ∈ s.log
  /-- A stored plan places on an accepted candidate. -/
  selected : ∀ k p, s.sched.plans.find? k = some p →
    ∃ c, Event.ingested c ∈ s.log ∧ p.selectedCandidate = c.candidateId ∧
      p.selectedCandidateGeneration = c.candidateGeneration

/-- What a step does to the candidate store. -/
theorem Stepped.candidates_cases (h : Stepped s a t) (hno : s.NoRestore a) :
    (∃ c, t.sched.candidates = s.sched.candidates.insert c.candidateId c ∧
        t.log = s.log ++ [.ingested c] ∧
        ∀ held, s.sched.candidates.find? c.candidateId = some held →
          held.candidateGeneration < c.candidateGeneration) ∨
      (t.sched.candidates = s.sched.candidates ∧ ∀ c, Event.ingested c ∉ s.since t) := by
  cases h with
  | @ingested candidate _ hnewer => exact Or.inl ⟨candidate, rfl, rfl, hnewer⟩
  | setEpoch epoch =>
      refine Or.inr ⟨(congrArg SchedulerState.candidates (s.sched.setEpoch_frame epoch) :), ?_⟩
      simp only [since_whole, List.not_mem_nil, not_false_eq_true, implies_true]
  | @scheduled c request snapshot _ views decision =>
      have hframe := s.sched.scheduleSecond_frame request views snapshot
      refine Or.inr ⟨(congrArg SchedulerState.candidates hframe :), ?_⟩
      simp only [since_continued, List.mem_singleton, reduceCtorEq, not_false_eq_true,
        implies_true]
  | revalidate planId current =>
      have hframe := s.sched.revalidate_frame planId current
      refine Or.inr ⟨(congrArg SchedulerState.candidates hframe :), ?_⟩
      simp only [since_whole, List.not_mem_nil, not_false_eq_true, implies_true]
  | restore => exact hno.elim
  | _ =>
      refine Or.inr ⟨rfl, ?_⟩
      simp only [since_whole, since_begun, since_continued, List.mem_cons, List.not_mem_nil,
        reduceCtorEq, or_self, not_false_eq_true, implies_true]

/-- A scheduling pass is suspended with a valid demand and the candidates the store held
when it began. -/
theorem Stepped.scheduling_cases (h : Stepped s a t) {n : Nat} {request : SchedulingRequest}
    {snapshot : List Candidate} (hn : t.pending n = some (.scheduling request snapshot)) :
    s.pending n = some (.scheduling request snapshot) ∨
      (request.demand.validate = .ok () ∧ snapshot = s.sched.candidates.values) := by
  cases h with
  | scheduleBegun hvalid =>
      rcases CallTable.pending_opened_cases hn with h | h
      · cases h
        exact Or.inr ⟨hvalid, rfl⟩
      · exact Or.inl h
  | scheduleRefused | commitRefused | commitAsks | handoffRefused | handoffAsks =>
      exact Or.inl ((CallTable.pending_opened_cases hn).resolve_left nofun)
  | scheduled hc | scheduleThrew hc | brokerAnswers hc | brokerThrows hc | commitTooLate hc
  | commitReleases hc | commitDenied hc | commitGranted hc | releaseReturns hc
  | releaseThrows hc | fabricAnswers hc | fabricThrows hc | handoffVanished hc
  | handoffFenced hc | handoffDenied hc | handoffLaunches hc | handoffThrows hc =>
      exact Or.inl ((CallTable.pending_resumed_cases hc hn).resolve_left nofun)
  | _ => exact Or.inl hn

theorem evidenced_initial (config : SchedulerConfig) : (initial config).Evidenced where
  held _ _ hc := by cases hc
  newest _ hc := by cases hc
  snapshots n _ _ hn := by
    rw [pending, initial, CallTable.pending_empty] at hn
    cases hn
  selected _ _ hp := by cases hp

/-- The evidence of the suspended passes and of the stored plans stays accepted. -/
private theorem Evidenced.accepted (h : s.Evidenced) (hstep : Stepped s a t)
    (hno : s.NoRestore a) :
    (∀ n request snapshot, t.pending n = some (.scheduling request snapshot) →
        ∀ c ∈ snapshot, Event.ingested c ∈ t.log) ∧
      ∀ k p, t.sched.plans.find? k = some p →
        ∃ c, Event.ingested c ∈ t.log ∧ p.selectedCandidate = c.candidateId ∧
          p.selectedCandidateGeneration = c.candidateGeneration := by
  have hmem : ∀ {e}, e ∈ s.log → e ∈ t.log := fun he => hstep.log_grows.subset he
  constructor
  · intro n request snapshot hn c hc
    rcases hstep.scheduling_cases hn with hold | ⟨_, rfl⟩
    · exact hmem (h.snapshots n request snapshot hold c hc)
    · obtain ⟨id, hid⟩ := OrderedMap.mem_values_iff.mp hc
      exact hmem (h.held id c hid).1
  · intro k q hq
    cases hp : s.sched.plans.find? k with
    | some p =>
        obtain ⟨r, hr, hcarried⟩ := (hstep.changed_of_noRestore hno).carries k p hp
        obtain rfl := Option.some.inj (hq.symm.trans hr)
        obtain ⟨c, hc, hid, hgen⟩ := h.selected k p hp
        exact ⟨c, hmem hc, hcarried.selectedCandidate.trans hid,
          hcarried.selectedCandidateGeneration.trans hgen⟩
    | none =>
        obtain ⟨n, request, snapshot, hpending, hcreated, _⟩ := hstep.stored hno hp hq
        obtain ⟨c, hc, hid, hgen⟩ := hcreated.selected
        exact ⟨c, hmem (h.snapshots n request snapshot hpending c hc), hid, hgen⟩

theorem Evidenced.stepped (h : s.Evidenced) (hstep : Stepped s a t) (hno : s.NoRestore a) :
    t.Evidenced := by
  obtain ⟨hsnapshots, hselected⟩ := h.accepted hstep hno
  have hmem : ∀ {e}, e ∈ s.log → e ∈ t.log := fun he => hstep.log_grows.subset he
  rcases hstep.candidates_cases hno with ⟨d, hcand, hlog, hnewer⟩ | ⟨hcand, hsilent⟩
  · refine ⟨?_, ?_, hsnapshots, hselected⟩
    · intro id c hc
      rw [hcand, OrderedMap.find?_insert] at hc
      split at hc
      · rename_i hid
        obtain rfl := Option.some.inj hc
        rw [hlog]
        exact ⟨List.mem_append_right _ (List.mem_singleton_self _), hid.symm⟩
      · obtain ⟨he, hid⟩ := h.held id c hc
        exact ⟨hmem he, hid⟩
    · intro c hc
      rw [hcand, OrderedMap.find?_insert]
      rw [hlog] at hc
      rcases List.mem_append.mp hc with hold | hlast
      · obtain ⟨held, hheld, hle⟩ := h.newest c hold
        split
        · rename_i hid
          rw [hid] at hheld
          exact ⟨d, rfl, hle.trans (hnewer held hheld).le⟩
        · exact ⟨held, hheld, hle⟩
      · cases List.mem_singleton.mp hlast
        exact ⟨d, if_pos rfl, le_refl _⟩
  · refine ⟨?_, ?_, hsnapshots, hselected⟩
    · intro id c hc
      rw [hcand] at hc
      obtain ⟨he, hid⟩ := h.held id c hc
      exact ⟨hmem he, hid⟩
    · intro c hc
      rw [hcand]
      rw [log_eq_append_since hstep.log_grows] at hc
      exact h.newest c ((List.mem_append.mp hc).resolve_right (hsilent c))

theorem evidenced (h : (scheduler config).Reachable NoRestore s) : s.Evidenced := by
  refine h.invariant Evidenced ?_ ?_
  · rintro s rfl
    exact evidenced_initial config
  · intro u a v hno hn hu
    exact hu.stepped (stepped_of_step hn) hno

/-- No two accepted candidates share their id and generation. -/
theorem ingested_unique (h : (scheduler config).Reachable NoRestore s) {c d : Candidate}
    (hc : Event.ingested c ∈ s.log) (hd : Event.ingested d ∈ s.log)
    (hid : c.candidateId = d.candidateId)
    (hgen : c.candidateGeneration = d.candidateGeneration) : c = d := by
  have hboth : s.Evidenced ∧ ∀ c d, Event.ingested c ∈ s.log → Event.ingested d ∈ s.log →
      c.candidateId = d.candidateId → c.candidateGeneration = d.candidateGeneration →
      c = d := by
    refine h.invariant (fun u => u.Evidenced ∧ ∀ c d, Event.ingested c ∈ u.log →
      Event.ingested d ∈ u.log → c.candidateId = d.candidateId →
      c.candidateGeneration = d.candidateGeneration → c = d) ?_ ?_
    · rintro s rfl
      exact ⟨evidenced_initial config, fun _ _ hc => by cases hc⟩
    · rintro u a v hno hn ⟨hu, hunique⟩
      have hstep := stepped_of_step hn
      refine ⟨hu.stepped hstep hno, ?_⟩
      have hnew : ∀ c d, Event.ingested c ∈ u.log → Event.ingested d ∈ u.since v →
          c.candidateId = d.candidateId → c.candidateGeneration < d.candidateGeneration := by
        intro c d hc hd hid
        rcases hstep.candidates_cases hno with ⟨e, _, hlog, hnewer⟩ | ⟨_, hsilent⟩
        · have hsince : u.since v = [.ingested e] := by
            rw [since, hlog, List.drop_left]
          rw [hsince] at hd
          cases List.mem_singleton.mp hd
          obtain ⟨held, hheld, hle⟩ := hu.newest c hc
          exact hle.trans_lt (hnewer held (hid ▸ hheld))
        · exact absurd hd (hsilent d)
      intro c d hc hd hid hgen
      rw [log_eq_append_since hstep.log_grows] at hc hd
      rcases List.mem_append.mp hc with hc | hc <;> rcases List.mem_append.mp hd with hd | hd
      · exact hunique c d hc hd hid hgen
      · exact absurd hgen (hnew c d hc hd hid).ne
      · exact absurd hgen (hnew d c hd hc hid.symm).ne'
      · rcases hstep.candidates_cases hno with ⟨e, _, hlog, _⟩ | ⟨_, hsilent⟩
        · have hsince : u.since v = [.ingested e] := by
            rw [since, hlog, List.drop_left]
          rw [hsince] at hc hd
          cases List.mem_singleton.mp hc
          cases List.mem_singleton.mp hd
          rfl
        · exact absurd hd (hsilent d)
  exact hboth.2 c d hc hd hid hgen

/-- A commit or a handoff of the plan returns success in the step. -/
def Succeeds (k : PlacementPlanId) (e : TransitionSystem.Step System Action) : Prop :=
  (∃ c out, Event.commitReturned c k out ∈ e.src.since e.tgt ∧ out.succeeded = true) ∨
    ∃ c out, Event.handoffReturned c k out ∈ e.src.since e.tgt ∧ out.authorized = true

/-- A call succeeds only on a stored plan. -/
theorem exists_plan_of_succeeds {e : TransitionSystem.Step System Action}
    (hs : (scheduler config).Reachable NoRestore e.src) (hstep : Stepped e.src e.act e.tgt)
    (h : Succeeds k e) : ∃ p, e.src.sched.plans.find? k = some p := by
  rcases h with ⟨c, out, hin, hout⟩ | ⟨c, out, hin, hout⟩
  · obtain ⟨_, _, ⟨p, hp, _⟩, _⟩ := commitsPlan_of_commitReturned hs hstep hin hout
    exact ⟨p, hp⟩
  · obtain ⟨p, hp, _⟩ := launches_of_handoffReturned hs hstep hin hout
    exact ⟨p, hp⟩

/-- A revalidation that finds a generation diverging fences its plan for good. -/
private theorem fenced_of_revalidate (hs : (scheduler config).Reachable NoRestore s)
    {current : GenerationFingerprint} {s' : System}
    (hn : s.step (.revalidate k current) = some s')
    (h : (scheduler config).Run NoRestore s' es t) {p : PlacementPlan}
    (hp : s.sched.plans.find? k = some p) (hstale : p.generations ≠ current) :
    (∃ q, t.sched.plans.find? k = some q ∧ q.state.isUnresolved = false) ∧
      s'.Defeated t k := by
  have hno : s.NoRestore (.revalidate k current) := trivial
  have hreach := hs.next hno hn
  obtain rfl := Option.some.inj hn
  rcases s.sched.revalidate_cases k current with ⟨hsame, _⟩ | ⟨r, hr, _, hforced⟩
  · exact absurd (hsame p hp) hstale
  · have hq : (s.sched.revalidate k current).2.plans.find? k =
        some (r.forceState .revalidationRequired s.sched.nextEventOrdinal) := by
      rw [hforced, SchedulerState.find?_withPlan_self]
    refine fenced_of_not_isUnresolved hreach h hq ?_
    rw [PlacementPlan.forceState_state]
    rfl

/-- In a run without recovery, when a commit or a handoff of a plan succeeds the candidate
store holds evidence for the plan's candidate that is at least as new as the plan's, and
exactly the plan's when nothing newer has been accepted for the candidate; and a plan whose
generations a revalidation found to diverge never gets on its way to execution again, so
that no commit or handoff of it succeeds from then on. -/
theorem evidence_of_success (h : (scheduler config).Run NoRestore (initial config) es t) :
    (∀ e ∈ es, ∀ k, Succeeds k e → ∃ p held, e.src.sched.plans.find? k = some p ∧
      e.src.sched.candidates.find? p.selectedCandidate = some held ∧
      p.selectedCandidateGeneration ≤ held.candidateGeneration ∧
      (held.candidateGeneration = p.selectedCandidateGeneration ↔
        ∀ c, Event.ingested c ∈ e.src.log → c.candidateId = p.selectedCandidate →
          c.candidateGeneration ≤ p.selectedCandidateGeneration)) ∧
    ∀ before e after k current, es = before ++ e :: after → e.act = .revalidate k current →
      ∀ p, e.src.sched.plans.find? k = some p → p.generations ≠ current →
        (∃ q, t.sched.plans.find? k = some q ∧ q.state.isUnresolved = false) ∧
          e.tgt.Defeated t k := by
  constructor
  · intro e he k hsucceeds
    obtain ⟨before, _, _, hbefore, _, hn, _⟩ := h.of_mem he
    have hreach := reachable_of_run hbefore
    obtain ⟨p, hp⟩ := exists_plan_of_succeeds hreach (stepped_of_step hn) hsucceeds
    have hevidenced := evidenced hreach
    obtain ⟨c, hc, hid, hgen⟩ := hevidenced.selected k p hp
    obtain ⟨held, hheld, hle⟩ := hevidenced.newest c hc
    rw [← hid] at hheld
    rw [← hgen] at hle
    refine ⟨p, held, hp, hheld, hle, ?_, ?_⟩
    · intro heq d hd hdid
      obtain ⟨held', hheld', hle'⟩ := hevidenced.newest d hd
      rw [hdid, hheld] at hheld'
      obtain rfl := Option.some.inj hheld'
      rwa [heq] at hle'
    · intro hnone
      obtain ⟨hingested, hheldid⟩ := hevidenced.held _ held hheld
      exact le_antisymm (hnone held hingested hheldid) hle
  · rintro before e after k current rfl hact p hp hstale
    obtain ⟨hbefore, _, hn, hafter⟩ := h.split
    rw [hact] at hn
    exact fenced_of_revalidate (reachable_of_run hbefore) hn hafter hp hstale

/-- The evidence of a plan that is committed and launched. -/
theorem evidence_of_success_launched : ∃ es t,
    (scheduler Sample.config).Run NoRestore (initial Sample.config) es t ∧
    es.map TransitionSystem.Step.act = Sample.launching ∧
    Sample.stateOf ⟨1⟩ t = some .active ∧
    ∀ e ∈ es, ∀ k, Succeeds k e → ∃ p held, e.src.sched.plans.find? k = some p ∧
      e.src.sched.candidates.find? p.selectedCandidate = some held ∧
      p.selectedCandidateGeneration ≤ held.candidateGeneration := by
  have hrun : (after Sample.config NoRestore Sample.launching).map (Sample.stateOf ⟨1⟩) =
      some (some .active) := by decide +kernel
  obtain ⟨es, t, hr, hact, hstate⟩ := exists_run_of_after hrun
  refine ⟨es, t, hr, hact, hstate, ?_⟩
  intro e he k hsucceeds
  obtain ⟨p, held, hp, hheld, hle, _⟩ := (evidence_of_success hr).1 e he k hsucceeds
  exact ⟨p, held, hp, hheld, hle⟩

/-- A plan is committed after newer evidence for its candidate was accepted. -/
theorem evidence_superseded : ¬∀ config es t,
    (scheduler config).Run NoRestore (initial config) es t →
      ∀ e ∈ es, ∀ k, Succeeds k e → ∀ p, e.src.sched.plans.find? k = some p →
        (e.src.sched.candidates.find? p.selectedCandidate).map Candidate.candidateGeneration =
          some p.selectedCandidateGeneration := by
  intro h
  have hsettling : (after Sample.config NoRestore
      (Sample.settling ++ [.ingestCandidate (Sample.candidate ⟨1⟩ ⟨2⟩)])).map
      (fun s => (s.log.length, (s.sched.plans.find? ⟨1⟩).map fun p =>
        (p.selectedCandidateGeneration, (s.sched.candidates.find? p.selectedCandidate).map
          Candidate.candidateGeneration))) =
      some (4, some (⟨1⟩, some ⟨2⟩)) := by decide +kernel
  have hcommitted : (after Sample.config NoRestore
      ((Sample.settling ++ [.ingestCandidate (Sample.candidate ⟨1⟩ ⟨2⟩)]) ++
        [.commitFinish 1])).map (fun t => (t.log.drop 4).any fun
          | .commitReturned _ k out => k = ⟨1⟩ && out.succeeded
          | _ => false) = some true := by decide +kernel
  obtain ⟨es, s, fs, t, hr, hr', _, hact, hs, ht⟩ := exists_runs_of_after hsettling hcommitted
  obtain ⟨u, gs, hno, hn, hgs, hnil⟩ := hr'.uncons hact
  obtain rfl := List.map_eq_nil_iff.mp hnil
  obtain rfl := hgs.eq_of_nil
  obtain ⟨hlen, hplan⟩ := Prod.mk.injEq .. ▸ hs
  obtain ⟨p, hp, hobs⟩ := Option.map_eq_some_iff.mp hplan
  obtain ⟨hgen, hheld⟩ := Prod.mk.injEq .. ▸ hobs
  have hsucceeds : Succeeds ⟨1⟩ ⟨s, .commitFinish 1, u⟩ := by
    obtain ⟨e, he, hsuccess⟩ := List.any_eq_true.mp ht
    rw [← hlen] at he
    cases e with
    | commitReturned c k out =>
        obtain ⟨hk, hout⟩ := Bool.and_eq_true_iff.mp hsuccess
        obtain rfl := of_decide_eq_true hk
        exact Or.inl ⟨c, out, he, hout⟩
    | _ => cases hsuccess
  have hfresh := h Sample.config _ u (hr.snoc hno hn) _
    (List.mem_append_right _ (List.mem_singleton_self _)) ⟨1⟩ hsucceeds p hp
  rw [hheld, hgen] at hfresh
  exact absurd hfresh (by decide)

end System

end FabricScheduler
