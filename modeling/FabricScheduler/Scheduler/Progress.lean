import FabricScheduler.Scheduler.Execution
import FabricScheduler.Scheduler.Tokens

/-!
# Calls come to their end

A suspended call waits for its external owner or for the lock, never for another call, and
whatever its owner answers it ends within three steps. A plan is left awaiting its resources
or its execution only as long as one call attends to it, unless the owner of that call threw.
-/

namespace FabricScheduler

/-- The steps a suspended call has left at most, those of its external owner included. -/
def Call.work : Call → Nat
  | .committing _ _ => 3
  | .settling _ _ _ | .authorizing _ _ => 2
  | .scheduling _ _ | .releasing _ _ _ | .launching _ _ => 1

theorem Call.work_pos (call : Call) : 0 < call.work := by
  cases call <;> exact Nat.succ_pos _

/-- The call will settle what the plan awaits in the state. -/
def Call.Attends (k : PlacementPlanId) : PlacementLifecycleState → Call → Prop
  | .awaitingResourceCommit, .committing planId _
  | .awaitingResourceCommit, .settling planId _ _
  | .awaitingExecution, .authorizing planId _
  | .awaitingExecution, .launching planId _ => planId = k
  | _, _ => False

/-- The exception of an external owner passed through a commit or a handoff. -/
def Event.isThrown : Event → Bool
  | .commitThrew _ _ none | .handoffThrew _ _ none => true
  | _ => false

namespace System

variable {config : SchedulerConfig} {s t : System} {a : Action} {k : PlacementPlanId}
  {p : PlacementPlan} {c : Nat} {L : Ledger}
  {es : List (TransitionSystem.Step System Action)}

section Awaiting

/-- Exactly one suspended call attends to the plan. -/
def Attended (s : System) (k : PlacementPlanId) (state : PlacementLifecycleState) : Prop :=
  ∃ c call, s.pending c = some call ∧ call.Attends k state ∧
    ∀ c' call', s.pending c' = some call' → call'.Attends k state → c' = c

/-- The owner of the call that attended to the plan threw. -/
def Abandoned (s : System) (k : PlacementPlanId) : PlacementLifecycleState → Prop
  | .awaitingResourceCommit => ∃ c, Event.commitThrew c k none ∈ s.log
  | .awaitingExecution => ∃ c, Event.handoffThrew c k none ∈ s.log
  | _ => False

private theorem attended_of_commit (h : s.Tracks k L) {call : Call}
    (hsuspended : L.commit.suspended k = some (c, call))
    (hattends : call.Attends k .awaitingResourceCommit) :
    s.Attended k .awaitingResourceCommit := by
  refine ⟨c, call, (h.commit.held c call hsuspended).1, hattends, ?_⟩
  intro c' call' hc' hattends'
  have hcommits : call'.Commits k := by
    cases call' with
    | committing | settling => exact hattends'
    | _ => exact hattends'.elim
  have hsame := hsuspended.symm.trans (h.commit.unique c' call' hc' hcommits)
  exact (Prod.mk.inj (Option.some.inj hsame)).1.symm

private theorem attended_of_launch (h : s.Tracks k L) {call : Call}
    (hsuspended : L.launch.suspended k = some (c, call))
    (hattends : call.Attends k .awaitingExecution) :
    s.Attended k .awaitingExecution := by
  refine ⟨c, call, (h.launch.held c call hsuspended).1, hattends, ?_⟩
  intro c' call' hc' hattends'
  have hlaunches : call'.Launches k := by
    cases call' with
    | authorizing | launching => exact hattends'
    | _ => exact hattends'.elim
  have hsame := hsuspended.symm.trans (h.launch.unique c' call' hc' hlaunches)
  exact (Prod.mk.inj (Option.some.inj hsame)).1.symm

/-- A commit whose broker threw is not suspended any more. -/
private theorem not_attended_of_threw (h : s.Tracks k L) {claims : List ResourceClaim}
    (hthrew : L.commit = .threw c claims) : ¬s.Attended k .awaitingResourceCommit := by
  rintro ⟨c', call, hc', hattends, _⟩
  cases call with
  | committing planId claims' =>
      obtain rfl : planId = k := hattends
      cases hthrew.symm.trans (h.committing hc')
  | settling planId claims' answer =>
      obtain rfl : planId = k := hattends
      cases hthrew.symm.trans (h.settling hc')
  | _ => exact hattends.elim

/-- A handoff whose fabric threw is not suspended any more. -/
private theorem not_attended_of_launchThrew (h : s.Tracks k L) {plan : PlacementPlan}
    (hthrew : L.launch = .threw c plan) : ¬s.Attended k .awaitingExecution := by
  rintro ⟨c', call, hc', hattends, _⟩
  cases call with
  | authorizing planId plan' =>
      obtain rfl : planId = k := hattends
      cases hthrew.symm.trans (h.authorizing hc')
  | launching planId answer =>
      obtain rfl : planId = k := hattends
      obtain ⟨_, hanswered⟩ := h.launching hc'
      cases hthrew.symm.trans hanswered
  | _ => exact hattends.elim

/-- The exception of an execution fabric in the log is that of the handoff of the plan. -/
private theorem exists_launchThrew (h : s.Tracks k L)
    (he : Event.handoffThrew c k none ∈ s.log) : ∃ plan, L.launch = .threw c plan := by
  have hmem : Event.handoffThrew c k none ∈ L.commit.events k ++ L.launch.events k :=
    h.events ▸ List.mem_filter.mpr ⟨he, decide_eq_true rfl⟩
  rcases List.mem_append.mp hmem with hmem | hmem
  · rcases CommitPhase.exists_of_mem_events hmem with
      ⟨_, _, _, he⟩ | ⟨_, _, he⟩ | ⟨_, _, he⟩ | ⟨_, he⟩ <;> cases he
  · cases hlaunch : L.launch with
    | threw c' plan =>
        rw [hlaunch] at hmem
        cases List.mem_singleton.mp hmem
        exact ⟨plan, rfl⟩
    | _ =>
        rw [hlaunch] at hmem
        simp [LaunchPhase.events] at hmem

theorem Tracks.attended (h : s.Tracks k L) (hL : L.Consistent)
    (hp : s.sched.plans.find? k = some p)
    (hawaiting : p.state = .awaitingResourceCommit ∨ p.state = .awaitingExecution) :
    (s.Attended k p.state ∧ ¬s.Abandoned k p.state) ∨
      (s.Abandoned k p.state ∧ ¬s.Attended k p.state) := by
  have hstage := hL.stage p (h.plan ▸ hp)
  rcases hawaiting with hstate | hstate
  · rw [hstate] at hstage ⊢
    have hthrown : ∀ c, Event.commitThrew c k none ∈ s.log →
        ∃ claims, L.commit = .threw c claims := by
      intro c he
      rcases (h.commitThrew he).2.2 with hthrew | ⟨claims, answer, token, hcommit⟩
      · exact hthrew
      · rw [Ledger.Stage, hcommit] at hstage
        exact hstage.elim
    cases hcommit : L.commit with
    | asking c claims =>
        have hsuspended : L.commit.suspended k = some (c, .committing k claims) := by
          rw [hcommit]
          rfl
        refine Or.inl ⟨attended_of_commit h hsuspended rfl, ?_⟩
        rintro ⟨c', he⟩
        obtain ⟨claims', hthrew⟩ := hthrown c' he
        cases hcommit.symm.trans hthrew
    | answered c claims answer =>
        have hsuspended : L.commit.suspended k = some (c, .settling k claims answer) := by
          rw [hcommit]
          rfl
        refine Or.inl ⟨attended_of_commit h hsuspended rfl, ?_⟩
        rintro ⟨c', he⟩
        obtain ⟨claims', hthrew⟩ := hthrown c' he
        cases hcommit.symm.trans hthrew
    | threw c claims =>
        refine Or.inr ⟨⟨c, h.mem_log (decide_eq_true rfl) ?_⟩,
          not_attended_of_threw h hcommit⟩
        rw [hcommit]
        exact List.mem_singleton_self _
    | _ =>
        rw [Ledger.Stage, hcommit] at hstage
        exact hstage.elim
  · rw [hstate] at hstage ⊢
    cases hlaunch : L.launch with
    | asking c plan =>
        have hsuspended : L.launch.suspended k = some (c, .authorizing k plan) := by
          rw [hlaunch]
          rfl
        refine Or.inl ⟨attended_of_launch h hsuspended rfl, ?_⟩
        rintro ⟨c', he⟩
        obtain ⟨plan', hthrew⟩ := exists_launchThrew h he
        cases hlaunch.symm.trans hthrew
    | answered c plan answer =>
        have hsuspended : L.launch.suspended k = some (c, .launching k answer) := by
          rw [hlaunch]
          rfl
        refine Or.inl ⟨attended_of_launch h hsuspended rfl, ?_⟩
        rintro ⟨c', he⟩
        obtain ⟨plan', hthrew⟩ := exists_launchThrew h he
        cases hlaunch.symm.trans hthrew
    | threw c plan =>
        refine Or.inr ⟨⟨c, ?_⟩, not_attended_of_launchThrew h hlaunch⟩
        have hmem : Event.handoffThrew c k none ∈ s.log.filter (Event.concerns k) := by
          rw [h.events, hlaunch]
          exact List.mem_append_right _ (List.mem_singleton_self _)
        exact (List.mem_filter.mp hmem).1
    | _ =>
        rw [Ledger.Stage, hlaunch] at hstage
        exact hstage.elim

/-- In every reachable state exactly one suspended call attends to a plan that awaits its
resources or its execution, or the external owner of that call threw and none does. -/
theorem awaiting_attended (h : (scheduler config).Reachable NoRestore s)
    (hp : s.sched.plans.find? k = some p)
    (hawaiting : p.state = .awaitingResourceCommit ∨ p.state = .awaitingExecution) :
    (s.Attended k p.state ∧ ¬s.Abandoned k p.state) ∨
      (s.Abandoned k p.state ∧ ¬s.Attended k p.state) := by
  obtain ⟨L, htracks, hL⟩ := exists_ledger h k
  exact htracks.attended hL hp hawaiting

/-- A commit that has the broker's answer attends to its plan. -/
theorem awaiting_attended_settling : ∃ s p,
    (scheduler Sample.config).Reachable NoRestore s ∧ s.sched.plans.find? ⟨1⟩ = some p ∧
    p.state = .awaitingResourceCommit ∧ s.Attended ⟨1⟩ p.state := by
  have hrun : (after Sample.config NoRestore Sample.settling).map (fun u =>
      (Sample.stateOf ⟨1⟩ u, u.log.any Event.isThrown)) =
      some (some .awaitingResourceCommit, false) := by decide +kernel
  obtain ⟨es, s, hr, _, hs⟩ := exists_run_of_after hrun
  obtain ⟨hstored, hnone⟩ := Prod.mk.inj hs
  obtain ⟨p, hp, hstate⟩ := Option.map_eq_some_iff.mp hstored
  refine ⟨s, p, reachable_of_run hr, hp, hstate, ?_⟩
  rcases awaiting_attended (reachable_of_run hr) hp (Or.inl hstate) with
    ⟨hattended, _⟩ | ⟨habandoned, _⟩
  · exact hattended
  · rw [hstate] at habandoned
    obtain ⟨c, he⟩ := habandoned
    exact absurd rfl (List.any_eq_false.mp hnone _ he)

end Awaiting

section Draining

/-- External owners return, but for the views of a scheduling pass. -/
def OwnersReturn (s : System) : Action → Prop
  | .restore _ => False
  | .unwind c => (∀ planId claims, s.pending c ≠ some (.committing planId claims)) ∧
      ∀ planId plan, s.pending c ≠ some (.authorizing planId plan)
  | .brokerRelease _ returns => returns = true
  | _ => True

/-- The action moves a suspended call on. -/
def Continues (_ : System) : Action → Prop
  | .scheduleFinish _ _ | .brokerCommit _ _ | .commitFinish _ | .authorize _ _
  | .handoffFinish _ => True
  | .brokerRelease _ returns => returns = true
  | _ => False

instance (s : System) (c : Nat) :
    Decidable (∀ planId plan, s.pending c ≠ some (.authorizing planId plan)) :=
  match s.pending c with
  | some (.authorizing planId plan) => isFalse fun hne => hne planId plan rfl
  | none => isTrue nofun
  | some (.scheduling _ _) | some (.committing _ _) | some (.settling _ _ _)
  | some (.releasing _ _ _) | some (.launching _ _) => isTrue nofun

instance (s : System) (a : Action) : Decidable (OwnersReturn s a) :=
  match a with
  | .restore _ => isFalse id
  | .unwind c => inferInstanceAs (Decidable
      ((∀ planId claims, s.pending c ≠ some (.committing planId claims)) ∧
        ∀ planId plan, s.pending c ≠ some (.authorizing planId plan)))
  | .brokerRelease _ returns => inferInstanceAs (Decidable (returns = true))
  | .setEpoch _ | .fenceWorker _ | .fenceSource _ | .ingestCandidate _ | .scheduleBegin _
  | .scheduleFinish _ _ | .commitBegin _ | .brokerCommit _ _ | .commitFinish _
  | .handoffBegin _ | .authorize _ _ | .handoffFinish _ | .revalidate _ _ | .cancel _
  | .supersede _ _ _ | .snapshot => isTrue trivial

theorem OwnersReturn.noRestore (h : s.OwnersReturn a) : s.NoRestore a := by
  cases a with
  | restore => exact h
  | _ => trivial

theorem Continues.ownersReturn (h : s.Continues a) : s.OwnersReturn a := by
  cases a with
  | brokerRelease => exact h
  | scheduleFinish | brokerCommit | commitFinish | authorize | handoffFinish => trivial
  | _ => exact h.elim

/-- The steps the suspended calls have left at most. -/
def work (s : System) : Nat := s.calls.total Call.work

theorem work_eq_zero_iff : s.work = 0 ↔ ∀ c, s.pending c = none :=
  CallTable.total_eq_zero_iff Call.work_pos

private theorem work_continued {sched : SchedulerState} {old : Call} {call : Option Call}
    {events : List Event} (hc : s.pending c = some old)
    (hlt : call.elim 0 Call.work < old.work) :
    (s.continued c sched call events).work < s.work := by
  have htotal := CallTable.total_resumed hc Call.work call
  change (s.calls.resumed c call).total Call.work < s.calls.total Call.work
  omega

/-- Moving a call on takes one of the steps it has left. -/
theorem Stepped.work_lt (h : Stepped s a t) (ha : s.Continues a) : t.work < s.work := by
  cases h with
  | scheduled hc | brokerAnswers hc | commitTooLate hc | commitReleases hc | commitDenied hc
  | commitGranted hc | releaseReturns hc | fabricAnswers hc | handoffVanished hc
  | handoffFenced hc | handoffDenied hc | handoffLaunches hc | handoffThrows hc =>
      exact work_continued hc (by simp [Call.work])
  | releaseThrows => cases ha
  | _ => exact ha.elim

/-- Whatever its owner answers, a suspended call can move on. -/
theorem exists_continues {call : Call} (hc : s.pending c = some call) (views : ScheduleViews)
    (answer : ResourceCommitResult) (x : ExecutionHandoff) :
    ∃ a t, s.Continues a ∧ s.step a = some t := by
  cases call with
  | scheduling => exact ⟨.scheduleFinish c views, _, trivial, by rw [step, hc]⟩
  | committing => exact ⟨.brokerCommit c answer, _, trivial, by rw [step, hc]⟩
  | settling => exact ⟨.commitFinish c, _, trivial, by rw [step, hc]⟩
  | releasing => exact ⟨.brokerRelease c true, _, rfl, by rw [step, hc]⟩
  | authorizing => exact ⟨.authorize c x, _, trivial, by rw [step, hc]⟩
  | launching => exact ⟨.handoffFinish c, _, trivial, by rw [step, hc]⟩

/-- A step whose owner returns logs no exception of an owner. -/
theorem Stepped.not_thrown (h : Stepped s a t) (ha : s.OwnersReturn a) {e : Event}
    (hin : e ∈ s.since t) : e.isThrown = false := by
  cases h with
  | brokerThrows hc => exact absurd hc (ha.1 _ _)
  | fabricThrows hc => exact absurd hc (ha.2 _ _)
  | releaseThrows => cases ha
  | releaseReturns =>
      rcases List.mem_cons.mp (since_continued .. ▸ hin) with rfl | hlast
      · rfl
      · cases List.mem_singleton.mp hlast
        rfl
  | ingested | scheduleRefused | scheduled | scheduleThrew | commitRefused | brokerAnswers
  | commitTooLate | commitDenied | commitGranted | handoffRefused | fabricAnswers
  | handoffVanished | handoffFenced | handoffDenied | handoffLaunches | handoffThrows
  | snapshot =>
      simp only [since_whole, since_begun, since_continued, List.mem_singleton] at hin
      subst hin
      rfl
  | _ => simp only [since_whole, since_begun, since_continued, List.not_mem_nil] at hin

/-- As long as the owners return, no exception of an owner is in the log. -/
theorem not_thrown (h : (scheduler config).Reachable OwnersReturn s) {e : Event}
    (he : e ∈ s.log) : e.isThrown = false := by
  refine h.invariant (fun u => ∀ e ∈ u.log, e.isThrown = false) ?_ ?_ e he
  · rintro u rfl e he
    cases he
  · intro u a v ha hn hu e he
    have hstep := stepped_of_step hn
    by_cases hold : e ∈ u.log
    · exact hu e hold
    · exact hstep.not_thrown ha (mem_since_of_step hstep he hold)

end Draining

end System

end FabricScheduler
