import FabricScheduler.Scheduler.Simulation

/-!
# What the log tells about a plan

The log only grows. What it holds about the commit and the handoff of a plan is read off
the ledger of the plan, and the step that returned success from a commit is found in the
run.
-/

namespace FabricScheduler

/-- A broker call for the plan that was answered. -/
def Event.isBrokerCommit (k : PlacementPlanId) : Event → Bool
  | .brokerCommit _ p _ _ => p = k
  | _ => false

/-- An execution fabric call for the plan that was answered. -/
def Event.isAuthorize (k : PlacementPlanId) : Event → Bool
  | .authorize _ p _ _ => p = k
  | _ => false

/-- A handoff of the plan that returned an authorization. -/
def Event.isLaunch (k : PlacementPlanId) : Event → Bool
  | .handoffReturned _ p out => decide (p = k) && out.authorized
  | _ => false

/-- The event belongs to a handoff. -/
def Event.ofHandoff : Event → Bool
  | .authorize _ _ _ _ | .handoffReturned _ _ _ | .handoffThrew _ _ _ => true
  | _ => false

namespace CommitPhase

variable {k k' : PlacementPlanId} {phase : CommitPhase} {c : Nat}
  {claims : List ResourceClaim} {answer out : ResourceCommitResult} {token : Bytes}

/-- The commit call past its first section. -/
def call? : CommitPhase → Option Nat
  | .unused => none
  | .asking c _ | .threw c _ | .answered c _ _ | .returning c _ _ _ _ | .settled c _ _ _
  | .unreturned c _ _ _ => some c

/-- The broker's answer. -/
def answer? : CommitPhase → Option ResourceCommitResult
  | .answered _ _ answer | .returning _ _ answer _ _ | .settled _ _ answer _
  | .unreturned _ _ answer _ => some answer
  | _ => none

theorem mem_releases {e : Event} (h : e ∈ releases k c answer out) :
    out.succeeded = false ∧ ∃ token, SchedulerState.releaseToken answer = some token ∧
      e = .brokerRelease c k token := by
  unfold releases at h
  split at h
  · cases h
  · rename_i hout
    obtain ⟨token, htoken, rfl⟩ := Option.map_eq_some_iff.mp (Option.mem_toList.mp h)
    exact ⟨Bool.not_eq_true _ ▸ hout, token, htoken, rfl⟩

/-- A settled commit has asked the broker, may have given its answer back, and returned. -/
theorem mem_events_settled {e : Event} (h : e ∈ (settled c claims answer out).events k) :
    e = .brokerCommit c k claims answer ∨
      (out.succeeded = false ∧ ∃ token, SchedulerState.releaseToken answer = some token ∧
        e = .brokerRelease c k token) ∨
      e = .commitReturned c k out := by
  simp only [events, List.mem_cons, List.mem_append, List.not_mem_nil, or_false] at h
  exact h.imp_right (Or.imp_left mem_releases)

theorem of_mem_brokerCommit (h : Event.brokerCommit c k' claims answer ∈ phase.events k) :
    k' = k ∧ phase.call? = some c ∧ phase.claims? = some claims ∧
      phase.answer? = some answer := by
  cases phase with
  | settled c₁ claims₁ answer₁ out₁ =>
      rcases mem_events_settled h with h | ⟨_, _, _, h⟩ | h
      · cases h
        exact ⟨rfl, rfl, rfl, rfl⟩
      · cases h
      · cases h
  | _ =>
      simp only [events, List.mem_cons, List.not_mem_nil, or_false, reduceCtorEq,
        Event.brokerCommit.injEq] at h
      try obtain ⟨rfl, rfl, rfl, rfl⟩ := h
      try exact ⟨rfl, rfl, rfl, rfl⟩

theorem of_mem_brokerRelease (h : Event.brokerRelease c k' token ∈ phase.events k)
    (hwf : phase.WellFormed) :
    k' = k ∧ phase.call? = some c ∧ ¬phase.Won ∧
      ∃ answer, phase.answer? = some answer ∧
        SchedulerState.releaseToken answer = some token := by
  cases phase with
  | settled c₁ claims₁ answer₁ out₁ =>
      rcases mem_events_settled h with h | ⟨hout, token', htoken, h⟩ | h
      · cases h
      · cases h
        exact ⟨rfl, rfl, not_won_settled hout, answer₁, rfl, htoken⟩
      · cases h
  | unreturned c₁ claims₁ answer₁ token₁ =>
      simp only [events, List.mem_cons, List.not_mem_nil, or_false, reduceCtorEq, false_or,
        Event.brokerRelease.injEq] at h
      obtain ⟨rfl, rfl, rfl⟩ := h
      exact ⟨rfl, rfl, id, answer₁, rfl, hwf⟩
  | _ =>
      simp only [events, List.mem_cons, List.not_mem_nil, or_false, reduceCtorEq] at h

theorem of_mem_commitReturned (h : Event.commitReturned c k' out ∈ phase.events k) :
    k' = k ∧ ∃ claims answer, phase = .settled c claims answer out := by
  cases phase with
  | settled c₁ claims₁ answer₁ out₁ =>
      rcases mem_events_settled h with h | ⟨_, _, _, h⟩ | h
      · cases h
      · cases h
      · cases h
        exact ⟨rfl, claims₁, answer₁, rfl⟩
  | _ =>
      simp only [events, List.mem_cons, List.not_mem_nil, or_false, reduceCtorEq] at h

theorem of_mem_commitThrew {e : Option FabricError}
    (h : Event.commitThrew c k' e ∈ phase.events k) :
    k' = k ∧ phase.call? = some c ∧ e = none ∧
      ((∃ claims, phase = .threw c claims) ∨
        ∃ claims answer token, phase = .unreturned c claims answer token) := by
  cases phase with
  | settled c₁ claims₁ answer₁ out₁ =>
      rcases mem_events_settled h with h | ⟨_, _, _, h⟩ | h
      · cases h
      · cases h
      · cases h
  | threw c₁ claims₁ =>
      simp only [events, List.mem_cons, List.not_mem_nil, or_false,
        Event.commitThrew.injEq] at h
      obtain ⟨rfl, rfl, rfl⟩ := h
      exact ⟨rfl, rfl, rfl, Or.inl ⟨claims₁, rfl⟩⟩
  | unreturned c₁ claims₁ answer₁ token₁ =>
      simp only [events, List.mem_cons, List.not_mem_nil, or_false, reduceCtorEq, false_or,
        Event.commitThrew.injEq] at h
      obtain ⟨rfl, rfl, rfl⟩ := h
      exact ⟨rfl, rfl, rfl, Or.inr ⟨claims₁, answer₁, token₁, rfl⟩⟩
  | _ =>
      simp only [events, List.mem_cons, List.not_mem_nil, or_false, reduceCtorEq] at h

/-- The commit phase only holds events of a commit. -/
theorem exists_of_mem_events {e : Event} (h : e ∈ phase.events k) :
    (∃ c claims answer, e = .brokerCommit c k claims answer) ∨
      (∃ c token, e = .brokerRelease c k token) ∨ (∃ c out, e = .commitReturned c k out) ∨
      ∃ c, e = .commitThrew c k none := by
  cases phase with
  | settled c₁ claims₁ answer₁ out₁ =>
      simp only [events, List.mem_cons, List.mem_append, List.not_mem_nil, or_false] at h
      rcases h with rfl | h | rfl
      · exact Or.inl ⟨_, _, _, rfl⟩
      · obtain ⟨_, token, _, rfl⟩ := mem_releases h
        exact Or.inr (Or.inl ⟨_, token, rfl⟩)
      · exact Or.inr (Or.inr (Or.inl ⟨_, _, rfl⟩))
  | unused => cases h
  | asking => cases h
  | threw c₁ claims₁ =>
      obtain rfl := List.mem_singleton.mp h
      exact Or.inr (Or.inr (Or.inr ⟨_, rfl⟩))
  | answered c₁ claims₁ answer₁ =>
      obtain rfl := List.mem_singleton.mp h
      exact Or.inl ⟨_, _, _, rfl⟩
  | returning c₁ claims₁ answer₁ token₁ out₁ =>
      obtain rfl := List.mem_singleton.mp h
      exact Or.inl ⟨_, _, _, rfl⟩
  | unreturned c₁ claims₁ answer₁ token₁ =>
      simp only [events, List.mem_cons, List.not_mem_nil, or_false] at h
      rcases h with rfl | rfl | rfl
      · exact Or.inl ⟨_, _, _, rfl⟩
      · exact Or.inr (Or.inl ⟨_, token₁, rfl⟩)
      · exact Or.inr (Or.inr (Or.inr ⟨_, rfl⟩))

end CommitPhase

namespace LaunchPhase

variable {k k' : PlacementPlanId} {phase : LaunchPhase} {c : Nat}

/-- The handoff call past its first section. -/
def call? : LaunchPhase → Option Nat
  | .unused => none
  | .asking c _ | .threw c _ | .answered c _ _ | .returned c _ _ _ | .failed c _ _ _ => some c

/-- The launch phase only holds events of a handoff, all of the one call. -/
theorem exists_of_mem_events {e : Event} (h : e ∈ phase.events k) :
    ∃ c, phase.call? = some c ∧ ((∃ plan answer, e = .authorize c k plan answer) ∨
      (∃ out, e = .handoffReturned c k out) ∨ ∃ error, e = .handoffThrew c k error) := by
  cases phase with
  | unused => cases h
  | asking => cases h
  | threw c plan =>
      obtain rfl := List.mem_singleton.mp h
      exact ⟨c, rfl, Or.inr (Or.inr ⟨_, rfl⟩)⟩
  | answered c plan answer =>
      obtain rfl := List.mem_singleton.mp h
      exact ⟨c, rfl, Or.inl ⟨_, _, rfl⟩⟩
  | returned c plan answer out =>
      simp only [events, List.mem_cons, List.not_mem_nil, or_false] at h
      rcases h with rfl | rfl
      · exact ⟨c, rfl, Or.inl ⟨_, _, rfl⟩⟩
      · exact ⟨c, rfl, Or.inr (Or.inl ⟨_, rfl⟩)⟩
  | failed c plan answer error =>
      simp only [events, List.mem_cons, List.not_mem_nil, or_false] at h
      rcases h with rfl | rfl
      · exact ⟨c, rfl, Or.inl ⟨_, _, rfl⟩⟩
      · exact ⟨c, rfl, Or.inr (Or.inr ⟨_, rfl⟩)⟩

end LaunchPhase

namespace System

section Tracked

variable {s : System} {k : PlacementPlanId} {L : Ledger} {c : Nat}
  {claims : List ResourceClaim} {answer out : ResourceCommitResult} {token : Bytes}

private theorem Tracks.mem_iff (h : s.Tracks k L) {e : Event} (hk : e.concerns k = true) :
    e ∈ s.log ↔ e ∈ L.commit.events k ∨ e ∈ L.launch.events k := by
  rw [← List.mem_append, ← h.events, List.mem_filter, and_iff_left hk]

private theorem Tracks.mem_commit (h : s.Tracks k L) {e : Event} (he : e ∈ s.log)
    (hk : e.concerns k = true) (hkind : e.ofHandoff = false) : e ∈ L.commit.events k := by
  rcases (h.mem_iff hk).mp he with he | he
  · exact he
  · obtain ⟨c, _, ⟨_, _, rfl⟩ | ⟨_, rfl⟩ | ⟨_, rfl⟩⟩ := LaunchPhase.exists_of_mem_events he <;>
      cases hkind

private theorem Tracks.mem_launch (h : s.Tracks k L) {e : Event} (he : e ∈ s.log)
    (hk : e.concerns k = true) (hkind : e.ofHandoff = true) : e ∈ L.launch.events k := by
  rcases (h.mem_iff hk).mp he with he | he
  · rcases CommitPhase.exists_of_mem_events he with
      ⟨_, _, _, rfl⟩ | ⟨_, _, rfl⟩ | ⟨_, _, rfl⟩ | ⟨_, rfl⟩ <;> cases hkind
  · exact he

/-- What the ledger holds about the commit is in the log. -/
theorem Tracks.mem_log (h : s.Tracks k L) {e : Event} (hk : e.concerns k = true)
    (he : e ∈ L.commit.events k) : e ∈ s.log := (h.mem_iff hk).mpr (Or.inl he)

theorem Tracks.brokerCommit (h : s.Tracks k L)
    (he : Event.brokerCommit c k claims answer ∈ s.log) :
    L.commit.call? = some c ∧ L.commit.claims? = some claims ∧
      L.commit.answer? = some answer :=
  (CommitPhase.of_mem_brokerCommit (h.mem_commit he (decide_eq_true rfl) rfl)).2

theorem Tracks.brokerRelease (h : s.Tracks k L) (hL : L.Consistent)
    (he : Event.brokerRelease c k token ∈ s.log) :
    L.commit.call? = some c ∧ ¬L.commit.Won ∧ ∃ answer, L.commit.answer? = some answer ∧
      SchedulerState.releaseToken answer = some token :=
  (CommitPhase.of_mem_brokerRelease (h.mem_commit he (decide_eq_true rfl) rfl) hL.wellFormed).2

theorem Tracks.commitReturned (h : s.Tracks k L)
    (he : Event.commitReturned c k out ∈ s.log) :
    ∃ claims answer, L.commit = .settled c claims answer out :=
  (CommitPhase.of_mem_commitReturned (h.mem_commit he (decide_eq_true rfl) rfl)).2

theorem Tracks.commitThrew (h : s.Tracks k L) {error : Option FabricError}
    (he : Event.commitThrew c k error ∈ s.log) :
    L.commit.call? = some c ∧ error = none ∧ ((∃ claims, L.commit = .threw c claims) ∨
      ∃ claims answer token, L.commit = .unreturned c claims answer token) :=
  (CommitPhase.of_mem_commitThrew (h.mem_commit he (decide_eq_true rfl) rfl)).2

theorem Tracks.launchEvent (h : s.Tracks k L) {e : Event} (he : e ∈ s.log)
    (hk : (∃ plan answer, e = .authorize c k plan answer) ∨
      (∃ out, e = .handoffReturned c k out) ∨ ∃ error, e = .handoffThrew c k error) :
    L.launch.call? = some c := by
  have hmem : e ∈ L.launch.events k := by
    refine h.mem_launch he ?_ ?_
    · rcases hk with ⟨_, _, rfl⟩ | ⟨_, rfl⟩ | ⟨_, rfl⟩ <;> exact decide_eq_true rfl
    · rcases hk with ⟨_, _, rfl⟩ | ⟨_, rfl⟩ | ⟨_, rfl⟩ <;> rfl
  obtain ⟨c', hc', he'⟩ := LaunchPhase.exists_of_mem_events hmem
  rcases hk with ⟨_, _, rfl⟩ | ⟨_, rfl⟩ | ⟨_, rfl⟩ <;>
    rcases he' with ⟨_, _, he'⟩ | ⟨_, he'⟩ | ⟨_, he'⟩ <;> cases he' <;> exact hc'

theorem Tracks.committing (h : s.Tracks k L)
    (hc : s.pending c = some (.committing k claims)) : L.commit = .asking c claims :=
  CommitPhase.eq_asking (h.commit.unique c _ hc rfl)

theorem Tracks.settling (h : s.Tracks k L)
    (hc : s.pending c = some (.settling k claims answer)) :
    L.commit = .answered c claims answer :=
  CommitPhase.eq_answered (h.commit.unique c _ hc rfl)

theorem Tracks.releasing (h : s.Tracks k L)
    (hc : s.pending c = some (.releasing k token out)) :
    ∃ claims answer, L.commit = .returning c claims answer token out :=
  CommitPhase.exists_returning (h.commit.unique c _ hc rfl)

theorem Tracks.authorizing (h : s.Tracks k L) {plan : PlacementPlan}
    (hc : s.pending c = some (.authorizing k plan)) : L.launch = .asking c plan :=
  LaunchPhase.eq_asking (h.launch.unique c _ hc rfl)

theorem Tracks.launching (h : s.Tracks k L) {x : ExecutionHandoff}
    (hc : s.pending c = some (.launching k x)) : ∃ plan, L.launch = .answered c plan x :=
  LaunchPhase.exists_answered (h.launch.unique c _ hc rfl)

/-- A handoff is only ever suspended on a stored plan. -/
theorem exists_plan_of_launching {config : SchedulerConfig}
    (h : (scheduler config).Reachable NoRestore s) {answer : ExecutionHandoff}
    (hc : s.pending c = some (.launching k answer)) : ∃ p, s.sched.plans.find? k = some p := by
  obtain ⟨L, htracks, hL⟩ := exists_ledger h k
  obtain ⟨plan, hlaunch⟩ := htracks.launching hc
  cases hplan : L.plan with
  | none =>
      rw [(hL.absent hplan).2] at hlaunch
      cases hlaunch
  | some p => exact ⟨p, htracks.plan.trans hplan⟩

/-- Picking the events of one kind from the log is picking them from the ledger. -/
theorem Tracks.filter (h : s.Tracks k L) {f : Event → Bool}
    (hf : ∀ e ∈ s.log, f e = true → e.concerns k = true) :
    s.log.filter f = (L.commit.events k).filter f ++ (L.launch.events k).filter f := by
  rw [← List.filter_append, ← h.events, List.filter_filter]
  refine List.filter_congr ?_
  intro e he
  cases hfe : f e with
  | false => rw [Bool.false_and]
  | true => rw [hf e he hfe, Bool.true_and]

/-- Counting the events of one kind in the log is counting them in the ledger. -/
theorem Tracks.countP (h : s.Tracks k L) {f : Event → Bool}
    (hf : ∀ e, f e = true → e.concerns k = true) :
    s.log.countP f = (L.commit.events k).countP f + (L.launch.events k).countP f := by
  simp only [List.countP_eq_length_filter, h.filter fun e _ => hf e, List.length_append]

end Tracked

/-- The log only grows. -/
theorem Stepped.log_grows {s t : System} {a : Action} (h : Stepped s a t) :
    s.log <+: t.log := by
  cases h <;> exact List.prefix_append _ _

variable {config : SchedulerConfig} {P : System → Action → Prop} {s t : System}
  {es : List (TransitionSystem.Step System Action)}

theorem log_prefix_of_run (h : (scheduler config).Run P s es t) : s.log <+: t.log :=
  h.stable (fun u => s.log <+: u.log)
    (fun _ _ _ _ hn hu => hu.trans (stepped_of_step hn).log_grows) (List.prefix_refl _)

theorem mem_log_of_run (h : (scheduler config).Run P s es t) {e : Event} (he : e ∈ s.log) :
    e ∈ t.log := (log_prefix_of_run h).subset he

/-- What has been logged between two states of a run. -/
def since (s t : System) : List Event := t.log.drop s.log.length

@[simp] theorem since_whole (s : System) (sched : SchedulerState) (events : List Event) :
    s.since (s.whole sched events) = events := List.drop_left

@[simp] theorem since_begun (s : System) (sched : SchedulerState) (call : Option Call)
    (events : List Event) : s.since (s.begun sched call events) = events := List.drop_left

@[simp] theorem since_continued (s : System) (c : Nat) (sched : SchedulerState)
    (call : Option Call) (events : List Event) :
    s.since (s.continued c sched call events) = events := List.drop_left

theorem log_eq_append_since (h : s.log <+: t.log) : t.log = s.log ++ s.since t := by
  obtain ⟨events, h⟩ := h
  rw [since, ← h, List.drop_left]

theorem since_append {u : System} (h : s.log <+: t.log) (h' : t.log <+: u.log) :
    s.since u = s.since t ++ t.since u := by
  have hall := log_eq_append_since (h.trans h')
  rw [log_eq_append_since h', log_eq_append_since h, List.append_assoc] at hall
  exact (List.append_cancel_left hall).symm

theorem mem_log_of_mem_since {e : Event} (he : e ∈ s.since t) : e ∈ t.log :=
  List.mem_of_mem_drop he

theorem mem_since_of_step {a : Action} (h : Stepped s a t) {e : Event} (he : e ∈ t.log)
    (hnot : e ∉ s.log) : e ∈ s.since t := by
  rw [log_eq_append_since h.log_grows] at he
  exact (List.mem_append.mp he).resolve_left hnot

/-- What is logged in the course of a run is logged by one of its steps. -/
theorem exists_logs (h : (scheduler config).Run P s es t) {e : Event} (he : e ∈ s.since t) :
    ∃ before x after, es = before ++ x :: after ∧ (scheduler config).Run P s before x.src ∧
      P x.src x.act ∧ Stepped x.src x.act x.tgt ∧ (scheduler config).Run P x.tgt after t ∧
      e ∈ x.src.since x.tgt := by
  induction h with
  | nil =>
      rw [since, List.drop_length] at he
      cases he
  | @snoc u v es a hr hP hn ih =>
      have hstep := stepped_of_step hn
      rw [since_append (log_prefix_of_run hr) hstep.log_grows] at he
      rcases List.mem_append.mp he with hold | hnew
      · obtain ⟨before, x, after, rfl, h₁, h₂, h₃, h₄, h₅⟩ := ih hold
        refine ⟨before, x, after ++ [⟨u, a, v⟩], ?_, h₁, h₂, h₃, h₄.snoc hP hn, h₅⟩
        rw [List.append_assoc, List.cons_append]
      · exact ⟨es, ⟨u, a, v⟩, [], rfl, hr, hP, hstep, .nil, hnew⟩

/-- The step is the second section of the call's commit of the plan, and moved the plan
from awaiting its resources to committed. -/
def CommitsPlan (c : Nat) (k : PlacementPlanId) (e : TransitionSystem.Step System Action) :
    Prop :=
  e.act = .commitFinish c ∧
    (∃ claims answer, e.src.pending c = some (.settling k claims answer)) ∧
    (∃ p, e.src.sched.plans.find? k = some p ∧ p.state = .awaitingResourceCommit) ∧
    ∃ q, e.tgt.sched.plans.find? k = some q ∧ q.state = .committed

/-- What logs the return of a commit past its first section. -/
theorem Stepped.of_commitReturned {a : Action} (hstep : Stepped s a t) {c : Nat}
    {k : PlacementPlanId} {out : ResourceCommitResult}
    (hin : Event.commitReturned c k out ∈ s.since t) :
    (a = .commitFinish c ∧ ∃ claims answer, s.pending c = some (.settling k claims answer) ∧
        (out.succeeded = false ∨ CommitsPlan c k ⟨s, a, t⟩)) ∨
      (a = .brokerRelease c true ∧ ∃ token, s.pending c = some (.releasing k token out)) := by
  cases hstep with
  | commitTooLate hc hfail =>
      cases List.mem_singleton.mp (since_continued .. ▸ hin)
      exact Or.inl ⟨rfl, _, _, hc, Or.inl hfail⟩
  | commitDenied hc _ _ _ hfail =>
      cases List.mem_singleton.mp (since_continued .. ▸ hin)
      exact Or.inl ⟨rfl, _, _, hc, Or.inl hfail⟩
  | @commitGranted c' planId claims answer p hc hp hfresh hanswer =>
      cases List.mem_singleton.mp (since_continued .. ▸ hin)
      have hstate : p.state = .awaitingResourceCommit :=
        SchedulerState.state_of_not_commitStale hfresh
      refine Or.inl ⟨rfl, _, _, hc, Or.inr ⟨rfl, ⟨_, _, hc⟩, ⟨p, hp, hstate⟩,
        SchedulerState.committedPlan p claims s.sched.nextEventOrdinal, ?_, rfl⟩⟩
      exact SchedulerState.find?_withPlan_self
  | releaseReturns hc =>
      rw [since_continued] at hin
      simp only [List.mem_cons, List.not_mem_nil, or_false, reduceCtorEq, false_or] at hin
      cases hin
      exact Or.inr ⟨rfl, _, hc⟩
  | _ =>
      simp only [since_whole, since_begun, since_continued, List.mem_cons, List.not_mem_nil,
        or_false, reduceCtorEq] at hin

/-- A commit that returned success did so in a step that committed its plan. -/
theorem commitsPlan_of_commitReturned {x : TransitionSystem.Step System Action}
    (hreach : (scheduler config).Reachable NoRestore x.src) (hstep : Stepped x.src x.act x.tgt)
    {c : Nat} {k : PlacementPlanId} {out : ResourceCommitResult}
    (hin : Event.commitReturned c k out ∈ x.src.since x.tgt) (hout : out.succeeded = true) :
    CommitsPlan c k x := by
  rcases hstep.of_commitReturned hin with ⟨_, _, _, _, hfail | hcommits⟩ | ⟨_, token, hc⟩
  · exact absurd (hfail.symm.trans hout) Bool.false_ne_true
  · exact hcommits
  · obtain ⟨L, htracks, hL⟩ := exists_ledger hreach k
    obtain ⟨claims, answer, hcommit⟩ := htracks.releasing hc
    have hwf := hL.wellFormed
    rw [hcommit] at hwf
    exact absurd (hwf.1.symm.trans hout) Bool.false_ne_true

theorem exists_commitsPlan (h : (scheduler config).Run NoRestore (initial config) es t)
    {c : Nat} {k : PlacementPlanId} {out : ResourceCommitResult}
    (he : Event.commitReturned c k out ∈ t.log) (hout : out.succeeded = true) :
    ∃ e ∈ es, CommitsPlan c k e := by
  obtain ⟨before, x, after, rfl, hr, _, hstep, _, hin⟩ := exists_logs h he
  exact ⟨x, List.mem_append_right _ (List.mem_cons_self ..),
    commitsPlan_of_commitReturned ⟨_, _, rfl, hr⟩ hstep hin hout⟩

end System

end FabricScheduler
