import FabricScheduler.Scheduler.Execution
import FabricScheduler.Scheduler.History

/-!
# At most one commitment and one launch

However many commits and handoffs of one plan overlap, one of them at most reaches the
broker, one at most reaches the execution fabric, and the second only after the first
has committed the plan.
-/

namespace FabricScheduler

namespace Event

variable {k : PlacementPlanId} {e : Event}

theorem concerns_of_isBrokerCommit (h : e.isBrokerCommit k = true) : e.concerns k = true := by
  cases e <;> first | exact h | cases h

theorem concerns_of_isAuthorize (h : e.isAuthorize k = true) : e.concerns k = true := by
  cases e <;> first | exact h | cases h

theorem concerns_of_isLaunch (h : e.isLaunch k = true) : e.concerns k = true := by
  cases e <;> first | exact (Bool.and_eq_true_iff.mp h).1 | cases h

end Event

namespace CommitPhase

variable {k : PlacementPlanId} {phase : CommitPhase}

private theorem countP_isBrokerCommit_releases {c : Nat} {answer out : ResourceCommitResult} :
    (releases k c answer out).countP (Event.isBrokerCommit k) = 0 := by
  rw [List.countP_eq_zero]
  intro e he
  obtain ⟨_, token, _, rfl⟩ := mem_releases he
  exact Bool.false_ne_true

theorem countP_isBrokerCommit_le : (phase.events k).countP (Event.isBrokerCommit k) ≤ 1 := by
  cases phase with
  | settled c claims answer out =>
      rw [events, List.countP_cons, List.countP_append, countP_isBrokerCommit_releases]
      simp [Event.isBrokerCommit]
  | _ => simp [events, Event.isBrokerCommit]

theorem countP_launch {f : Event → Bool}
    (hf : ∀ e ∈ phase.events k, f e = false) : (phase.events k).countP f = 0 := by
  rw [List.countP_eq_zero]
  intro e he
  rw [hf e he]
  exact Bool.false_ne_true

end CommitPhase

namespace LaunchPhase

variable {k : PlacementPlanId} {phase : LaunchPhase}

theorem countP_isBrokerCommit : (phase.events k).countP (Event.isBrokerCommit k) = 0 := by
  cases phase <;> rfl

theorem countP_isAuthorize_le : (phase.events k).countP (Event.isAuthorize k) ≤ 1 := by
  cases phase <;> simp [events, Event.isAuthorize]

theorem countP_isLaunch_le : (phase.events k).countP (Event.isLaunch k) ≤ 1 := by
  cases phase <;> simp [events, List.countP_cons, Event.isLaunch]
  split <;> omega

end LaunchPhase

namespace System

/-- The commit call has called the broker for the plan, which has yet to answer, has
answered or has thrown. -/
def CallsBroker (s : System) (k : PlacementPlanId) (c : Nat) : Prop :=
  (∃ claims, s.pending c = some (.committing k claims)) ∨
    (∃ claims answer, Event.brokerCommit c k claims answer ∈ s.log) ∨
    Event.commitThrew c k none ∈ s.log

/-- The handoff call has called the execution fabric for the plan, which has yet to
answer, has answered or has thrown. -/
def CallsFabric (s : System) (k : PlacementPlanId) (c : Nat) : Prop :=
  (∃ plan, s.pending c = some (.authorizing k plan)) ∨
    (∃ plan answer, Event.authorize c k plan answer ∈ s.log) ∨
    Event.handoffThrew c k none ∈ s.log

variable {config : SchedulerConfig} {s t : System} {k : PlacementPlanId} {L : Ledger} {c : Nat}
  {es : List (TransitionSystem.Step System Action)}

theorem Tracks.callsBroker (h : s.Tracks k L) (hc : s.CallsBroker k c) :
    L.commit.call? = some c := by
  rcases hc with ⟨claims, hc⟩ | ⟨claims, answer, he⟩ | he
  · rw [h.committing hc]
    rfl
  · exact (h.brokerCommit he).1
  · exact (h.commitThrew he).1

theorem Tracks.callsFabric (h : s.Tracks k L) (hc : s.CallsFabric k c) :
    L.launch.call? = some c := by
  rcases hc with ⟨plan, hc⟩ | ⟨plan, answer, he⟩ | he
  · rw [h.authorizing hc]
    rfl
  · exact h.launchEvent he (Or.inl ⟨plan, answer, rfl⟩)
  · exact h.launchEvent he (Or.inr (Or.inr ⟨none, rfl⟩))

/-- A handoff reaches the execution fabric only after the plan's commit has succeeded. -/
theorem Tracks.won_of_callsFabric (h : s.Tracks k L) (hL : L.Consistent)
    (hc : s.CallsFabric k c) : L.commit.Won := by
  refine hL.won ?_
  intro hunused
  have hcall := h.callsFabric hc
  rw [hunused] at hcall
  cases hcall

/-- A commit that succeeded has logged its success. -/
theorem Tracks.commitReturned_of_won (h : s.Tracks k L) (hwon : L.commit.Won) :
    ∃ c claims answer out, L.commit = .settled c claims answer out ∧ out.succeeded = true ∧
      Event.commitReturned c k out ∈ s.log := by
  cases hcommit : L.commit with
  | settled c claims answer out =>
      rw [hcommit] at hwon
      refine ⟨c, claims, answer, out, rfl, hwon, h.mem_log (decide_eq_true rfl) ?_⟩
      rw [hcommit]
      exact List.mem_cons_of_mem _ (List.mem_append_right _ (List.mem_singleton_self _))
  | _ =>
      rw [hcommit] at hwon
      exact hwon.elim

private theorem Stepped.of_handoffRefused {a : Action} (hstep : Stepped s a t)
    {out : ExecutionHandoff} (hin : Event.handoffRefused c k out ∈ s.since t) :
    out.authorized = false := by
  cases hstep with
  | handoffRefused _ hout =>
      cases List.mem_singleton.mp (since_begun .. ▸ hin)
      exact hout
  | _ =>
      simp only [since_whole, since_begun, since_continued, List.mem_cons, List.not_mem_nil,
        or_false, reduceCtorEq] at hin

/-- The first section of a handoff never authorizes. -/
theorem handoffRefused_not_authorized {P : System → Action → Prop}
    (h : (scheduler config).Reachable P s) {out : ExecutionHandoff}
    (he : Event.handoffRefused c k out ∈ s.log) : out.authorized = false := by
  obtain ⟨_, es, rfl, hr⟩ := h
  obtain ⟨_, e, _, _, _, _, hstep, _, hin⟩ := exists_logs hr he
  exact hstep.of_handoffRefused hin

/-- In a run without recovery a plan is submitted to the broker by one commit call at most
and to the execution fabric by one handoff call at most, each once; one handoff at most
returns an authorization; and the execution fabric is called only after the second section
of a commit has committed the plan. -/
theorem launch_at_most_once (h : (scheduler config).Run NoRestore (initial config) es s)
    (k : PlacementPlanId) :
    (∀ c c', s.CallsBroker k c → s.CallsBroker k c' → c = c') ∧
    s.log.countP (Event.isBrokerCommit k) ≤ 1 ∧
    (∀ c c', s.CallsFabric k c → s.CallsFabric k c' → c = c') ∧
    s.log.countP (Event.isAuthorize k) ≤ 1 ∧
    s.log.countP (Event.isLaunch k) ≤ 1 ∧
    (∀ c out, Event.handoffRefused c k out ∈ s.log → out.authorized = false) ∧
    ∀ c, s.CallsFabric k c → ∃ c', ∃ e ∈ es, CommitsPlan c' k e := by
  have hreach : (scheduler config).Reachable NoRestore s := ⟨_, es, rfl, h⟩
  obtain ⟨L, htracks, hL⟩ := exists_ledger hreach k
  refine ⟨?_, ?_, ?_, ?_, ?_, fun c out => handoffRefused_not_authorized hreach, ?_⟩
  · intro c c' hc hc'
    exact Option.some.inj ((htracks.callsBroker hc).symm.trans (htracks.callsBroker hc'))
  · rw [htracks.countP fun _ => Event.concerns_of_isBrokerCommit,
      LaunchPhase.countP_isBrokerCommit, Nat.add_zero]
    exact CommitPhase.countP_isBrokerCommit_le
  · intro c c' hc hc'
    exact Option.some.inj ((htracks.callsFabric hc).symm.trans (htracks.callsFabric hc'))
  · rw [htracks.countP fun _ => Event.concerns_of_isAuthorize, CommitPhase.countP_launch,
      Nat.zero_add]
    · exact LaunchPhase.countP_isAuthorize_le
    · intro e he
      rcases CommitPhase.exists_of_mem_events he with
        ⟨_, _, _, rfl⟩ | ⟨_, _, rfl⟩ | ⟨_, _, rfl⟩ | ⟨_, rfl⟩ <;> rfl
  · rw [htracks.countP fun _ => Event.concerns_of_isLaunch, CommitPhase.countP_launch,
      Nat.zero_add]
    · exact LaunchPhase.countP_isLaunch_le
    · intro e he
      rcases CommitPhase.exists_of_mem_events he with
        ⟨_, _, _, rfl⟩ | ⟨_, _, rfl⟩ | ⟨_, _, rfl⟩ | ⟨_, rfl⟩ <;> rfl
  · intro c hc
    obtain ⟨c', _, _, out, _, hout, he⟩ :=
      htracks.commitReturned_of_won (htracks.won_of_callsFabric hL hc)
    obtain ⟨e, hmem, hcommits⟩ := exists_commitsPlan h he hout
    exact ⟨c', e, hmem, hcommits⟩

/-- The commit and the handoff of one plan, each made twice. -/
theorem launch_at_most_once_repeated : ∃ es s,
    (scheduler Sample.config).Run NoRestore (initial Sample.config) es s ∧
    es.map TransitionSystem.Step.act = Sample.launching ++ [.commitBegin ⟨1⟩, .handoffBegin ⟨1⟩] ∧
    s.log.countP (Event.isBrokerCommit ⟨1⟩) = 1 ∧ s.log.countP (Event.isLaunch ⟨1⟩) = 1 ∧
    (∀ c c', s.CallsFabric ⟨1⟩ c → s.CallsFabric ⟨1⟩ c' → c = c') ∧
    ∀ c, s.CallsFabric ⟨1⟩ c → ∃ c', ∃ e ∈ es, CommitsPlan c' ⟨1⟩ e := by
  have hrun : (after Sample.config NoRestore
      (Sample.launching ++ [.commitBegin ⟨1⟩, .handoffBegin ⟨1⟩])).map
      (fun s => (s.log.countP (Event.isBrokerCommit ⟨1⟩), s.log.countP (Event.isLaunch ⟨1⟩))) =
      some (1, 1) := by decide +kernel
  obtain ⟨es, s, hr, hact, hcount⟩ := exists_run_of_after hrun
  obtain ⟨_, _, hfabric, _, _, _, hcommitted⟩ := launch_at_most_once hr ⟨1⟩
  exact ⟨es, s, hr, hact, congrArg Prod.fst hcount, congrArg Prod.snd hcount, hfabric,
    hcommitted⟩

end System

end FabricScheduler
