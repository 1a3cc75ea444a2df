import FabricScheduler.Scheduler.Authority
import FabricScheduler.Scheduler.Ledger

/-!
# The scheduler simulates the ledger of every plan

A ledger tracks a plan id when it agrees with the stored plan, with the suspended calls
about it and with what the log holds about it. Every step of the scheduler is a step of
the tracking ledger, so every reachable scheduler is tracked by a consistent ledger at
every plan id.
-/

namespace FabricScheduler

theorem Call.Commits.not_launches {k : PlacementPlanId} {x : Call} (h : x.Commits k) :
    ¬x.Launches k := by
  cases x <;> first | exact id | exact h.elim

theorem Call.Launches.not_commits {k : PlacementPlanId} {x : Call} (h : x.Launches k) :
    ¬x.Commits k := fun hc => hc.not_launches h

/-- The call is neither a commit nor a handoff of the plan past its first section. -/
def Call.Foreign (k : PlacementPlanId) (x : Call) : Prop := ¬x.Commits k ∧ ¬x.Launches k

namespace CommitPhase

variable {k : PlacementPlanId} {phase : CommitPhase} {c : Nat}
  {claims : List ResourceClaim} {answer out : ResourceCommitResult} {token : Bytes}

theorem eq_asking (h : phase.suspended k = some (c, .committing k claims)) :
    phase = .asking c claims := by
  cases phase <;> simp_all [suspended]

theorem eq_answered (h : phase.suspended k = some (c, .settling k claims answer)) :
    phase = .answered c claims answer := by
  cases phase <;> simp_all [suspended]

theorem exists_returning (h : phase.suspended k = some (c, .releasing k token out)) :
    ∃ claims answer, phase = .returning c claims answer token out := by
  cases phase <;> simp_all [suspended]

end CommitPhase

namespace LaunchPhase

variable {k : PlacementPlanId} {phase : LaunchPhase} {c : Nat} {plan : PlacementPlan}
  {answer : ExecutionHandoff}

theorem eq_asking (h : phase.suspended k = some (c, .authorizing k plan)) :
    phase = .asking c plan := by
  cases phase <;> simp_all [suspended]

theorem exists_answered (h : phase.suspended k = some (c, .launching k answer)) :
    ∃ plan, phase = .answered c plan answer := by
  cases phase <;> simp_all [suspended]

end LaunchPhase

namespace System

/-- The ledger agrees with everything the system holds about one plan id. -/
structure Tracks (s : System) (k : PlacementPlanId) (L : Ledger) : Prop where
  plan : s.sched.plans.find? k = L.plan
  commit : s.calls.Only (Call.Commits k) (L.commit.suspended k)
  launch : s.calls.Only (Call.Launches k) (L.launch.suspended k)
  events : s.log.filter (Event.concerns k) = L.commit.events k ++ L.launch.events k

section Frame

variable {s : System} {k : PlacementPlanId} {L : Ledger} {sched : SchedulerState}
  {call : Option Call} {events : List Event}

private theorem filter_append_other {log : List Event} {l : List Event}
    (hlog : log.filter (Event.concerns k) = l)
    (hevents : ∀ e ∈ events, e.concerns k = false) :
    (log ++ events).filter (Event.concerns k) = l := by
  have hnil : events.filter (Event.concerns k) = [] := by
    rw [List.filter_eq_nil_iff]
    intro e he
    rw [hevents e he]
    exact Bool.false_ne_true
  rw [List.filter_append, hlog, hnil, List.append_nil]

private theorem filter_append_own {log : List Event} {l : List Event}
    (hlog : log.filter (Event.concerns k) = l)
    (hevents : ∀ e ∈ events, e.concerns k = true) :
    (log ++ events).filter (Event.concerns k) = l ++ events := by
  rw [List.filter_append, hlog, List.filter_eq_self.mpr hevents]

/-- An operation of a single section keeps the account when it keeps the plan. -/
theorem Tracks.whole (h : s.Tracks k L) {plan' : Option PlacementPlan}
    (hplan : sched.plans.find? k = plan') (hevents : ∀ e ∈ events, e.concerns k = false) :
    (s.whole sched events).Tracks k { L with plan := plan' } where
  plan := hplan
  commit := h.commit
  launch := h.launch
  events := filter_append_other h.events hevents

/-- The beginning of a call about another plan keeps the account. -/
theorem Tracks.begun (h : s.Tracks k L) (hplan : sched.plans.find? k = L.plan)
    (hcall : ∀ x ∈ call, x.Foreign k) (hevents : ∀ e ∈ events, e.concerns k = false) :
    (s.begun sched call events).Tracks k L where
  plan := hplan
  commit := h.commit.opened_other fun x hx => (hcall x hx).1
  launch := h.launch.opened_other fun x hx => (hcall x hx).2
  events := filter_append_other h.events hevents

/-- The continuation of a call about another plan keeps the account. -/
theorem Tracks.continued (h : s.Tracks k L) {c : Nat} {old : Call}
    (hc : s.pending c = some old) (hold : old.Foreign k) {plan' : Option PlacementPlan}
    (hplan : sched.plans.find? k = plan') (hcall : ∀ x ∈ call, x.Foreign k)
    (hevents : ∀ e ∈ events, e.concerns k = false) :
    (s.continued c sched call events).Tracks k { L with plan := plan' } where
  plan := hplan
  commit := h.commit.resumed_other hc hold.1 fun x hx => (hcall x hx).1
  launch := h.launch.resumed_other hc hold.2 fun x hx => (hcall x hx).2
  events := filter_append_other h.events hevents

/-- The continuation of the commit of the plan moves its commit phase. -/
theorem Tracks.commitContinued {plan plan' : Option PlacementPlan}
    {commit commit' : CommitPhase} (h : s.Tracks k ⟨plan, commit, .unused⟩) {c : Nat}
    {old : Call} (hc : commit.suspended k = some (c, old))
    (hplan : sched.plans.find? k = plan')
    (hsuspended : commit'.suspended k = call.map fun x => (c, x))
    (hcall : ∀ x ∈ call, x.Commits k)
    (hevents : commit'.events k = commit.events k ++ events)
    (hconcerns : ∀ e ∈ events, e.concerns k = true) :
    (s.continued c sched call events).Tracks k ⟨plan', commit', .unused⟩ := by
  have honly := h.commit
  rw [hc] at honly
  obtain ⟨hpending, hold⟩ := honly.held c old rfl
  refine ⟨hplan, ?_, ?_, ?_⟩
  · change CallTable.Only _ _ (commit'.suspended k)
    rw [hsuspended]
    exact honly.resumed hcall
  · exact h.launch.resumed_other hpending hold.not_launches
      fun x hx => (hcall x hx).not_launches
  · have hlog := filter_append_own h.events hconcerns
    simp only [LaunchPhase.events, List.append_nil] at hlog ⊢
    rw [hevents]
    exact hlog

/-- The continuation of the handoff of the plan moves its launch phase. -/
theorem Tracks.launchContinued {plan plan' : Option PlacementPlan} {commit : CommitPhase}
    {launch launch' : LaunchPhase} (h : s.Tracks k ⟨plan, commit, launch⟩) {c : Nat}
    {old : Call} (hc : launch.suspended k = some (c, old))
    (hplan : sched.plans.find? k = plan')
    (hsuspended : launch'.suspended k = call.map fun x => (c, x))
    (hcall : ∀ x ∈ call, x.Launches k)
    (hevents : launch'.events k = launch.events k ++ events)
    (hconcerns : ∀ e ∈ events, e.concerns k = true) :
    (s.continued c sched call events).Tracks k ⟨plan', commit, launch'⟩ := by
  have honly := h.launch
  rw [hc] at honly
  obtain ⟨hpending, hold⟩ := honly.held c old rfl
  refine ⟨hplan, ?_, ?_, ?_⟩
  · exact h.commit.resumed_other hpending hold.not_commits
      fun x hx => (hcall x hx).not_commits
  · change CallTable.Only _ _ (launch'.suspended k)
    rw [hsuspended]
    exact honly.resumed hcall
  · have hlog := filter_append_own h.events hconcerns
    simp only [List.append_assoc] at hlog ⊢
    rw [hevents]
    exact hlog

/-- The beginning of the commit of the plan opens its commit phase. -/
theorem Tracks.commitBegun {plan plan' : Option PlacementPlan}
    (h : s.Tracks k ⟨plan, .unused, .unused⟩) (hplan : sched.plans.find? k = plan')
    (claims : List ResourceClaim) :
    (s.begun sched (some (.committing k claims)) []).Tracks k
      ⟨plan', .asking s.calls.fresh claims, .unused⟩ where
  plan := hplan
  commit := h.commit.opened rfl
  launch := h.launch.opened_other fun _ hx => Option.some.inj hx ▸ id
  events := filter_append_other h.events (List.forall_mem_nil _)

/-- The beginning of the handoff of the plan opens its launch phase. -/
theorem Tracks.launchBegun {plan plan' : Option PlacementPlan} {commit : CommitPhase}
    (h : s.Tracks k ⟨plan, commit, .unused⟩) (hplan : sched.plans.find? k = plan')
    (snapshot : PlacementPlan) :
    (s.begun sched (some (.authorizing k snapshot)) []).Tracks k
      ⟨plan', commit, .asking s.calls.fresh snapshot⟩ where
  plan := hplan
  commit := h.commit.opened_other fun _ hx => Option.some.inj hx ▸ id
  launch := h.launch.opened rfl
  events := filter_append_other h.events (List.forall_mem_nil _)

end Frame

/-- Displacing the plan is a step of the ledger. -/
theorem step_of_displacement {L : Ledger} {when : PlacementPlan → Prop}
    {plan' : Option PlacementPlan}
    (h : Displacement when L.plan plan') : L.Step { L with plan := plan' } := by
  obtain ⟨plan, commit, launch⟩ := L
  cases h with
  | kept => exact .stay _
  | displaced _ hd => exact .displace hd

section Simulation

variable {s t : System} {a : Action} {k planId : PlacementPlanId} {L : Ledger} {c : Nat}
  {claims : List ResourceClaim} {answer out : ResourceCommitResult} {p : PlacementPlan}

private theorem forall_mem_none {P : Call → Prop} : ∀ x ∈ (none : Option Call), P x := by
  intro x hx
  cases hx

private theorem forall_mem_some {P : Call → Prop} {x : Call} (h : P x) :
    ∀ y ∈ some x, P y := by
  intro y hy
  rwa [← Option.some.inj hy]

/-- Any continuation of a commit of another plan keeps the account. -/
private theorem continued_otherCommit (h : s.Tracks k L) {old : Call}
    (hc : s.pending c = some old) (hold : old.Commits planId) (hk : planId ≠ k)
    {sched : SchedulerState} (hplan : sched.plans.find? k = s.sched.plans.find? k)
    {call : Option Call} (hcall : ∀ x ∈ call, x.Commits planId) {events : List Event}
    (hevents : ∀ e ∈ events, e.concerns k = false) :
    ∃ L', L.Step L' ∧ (s.continued c sched call events).Tracks k L' := by
  have hforeign : ∀ x : Call, x.Commits planId → x.Foreign k := by
    intro x hx
    refine ⟨?_, ?_⟩
    · intro hx'
      cases x <;> first | exact hk (hx.symm.trans hx') | exact hx
    · intro hx'
      cases x <;> first | exact hx | exact hx'
  exact ⟨L, .stay L, h.continued hc (hforeign _ hold) (hplan.trans h.plan)
    (fun x hx => hforeign x (hcall x hx)) hevents⟩

/-- Any continuation of a handoff of another plan keeps the account. -/
private theorem continued_otherLaunch (h : s.Tracks k L) {old : Call}
    (hc : s.pending c = some old) (hold : old.Launches planId) (hk : planId ≠ k)
    {sched : SchedulerState} (hplan : sched.plans.find? k = s.sched.plans.find? k)
    {call : Option Call} (hcall : ∀ x ∈ call, x.Launches planId) {events : List Event}
    (hevents : ∀ e ∈ events, e.concerns k = false) :
    ∃ L', L.Step L' ∧ (s.continued c sched call events).Tracks k L' := by
  have hforeign : ∀ x : Call, x.Launches planId → x.Foreign k := by
    intro x hx
    refine ⟨?_, ?_⟩
    · intro hx'
      cases x <;> first | exact hx | exact hx'
    · intro hx'
      cases x <;> first | exact hk (hx.symm.trans hx') | exact hx
  exact ⟨L, .stay L, h.continued hc (hforeign _ hold) (hplan.trans h.plan)
    (fun x hx => hforeign x (hcall x hx)) hevents⟩

private theorem simulate_scheduled (h : s.Tracks k L) {request : SchedulingRequest}
    {snapshot : List Candidate} (hc : s.pending c = some (.scheduling request snapshot))
    (views : ScheduleViews) (decision : PlacementDecision) :
    ∃ L', L.Step L' ∧ (s.continued c (s.sched.scheduleSecond request views snapshot).2 none
      [.scheduleReturned c decision]).Tracks k L' := by
  have hevents : ∀ e ∈ [Event.scheduleReturned c decision], e.concerns k = false :=
    List.forall_mem_singleton.mpr rfl
  rcases s.sched.scheduleSecond_plans request views snapshot k with hk | ⟨hnone, _, q, hq, hk⟩
  · exact ⟨L, .stay L, h.continued hc ⟨id, id⟩ (hk.trans h.plan) forall_mem_none hevents⟩
  · obtain ⟨plan, commit, launch⟩ := L
    obtain rfl : none = plan := hnone.symm.trans h.plan
    exact ⟨_, .create hq.ready hq.evidence, h.continued hc ⟨id, id⟩ hk forall_mem_none hevents⟩

private theorem simulate_commitAsks (h : s.Tracks k L) (hL : L.Consistent)
    (hp : s.sched.plans.find? planId = some p) (hstate : p.state = .planReady) :
    ∃ L', L.Step L' ∧ (s.begun (s.sched.withPlan planId
      (p.enter .awaitingResourceCommit s.sched.nextEventOrdinal))
      (some (.committing planId p.claims)) []).Tracks k L' := by
  by_cases hk : planId = k
  · subst hk
    obtain ⟨plan, commit, launch⟩ := L
    obtain rfl : plan = some p := h.plan.symm.trans hp
    have hcommit : commit = .unused := by
      have hstage := hL.stage p rfl
      rw [hstate] at hstage
      exact hstage
    subst hcommit
    obtain rfl : launch = .unused := hL.launch_unused id
    exact ⟨_, .ask s.calls.fresh s.sched.nextEventOrdinal hstate,
      h.commitBegun SchedulerState.find?_withPlan_self p.claims⟩
  · refine ⟨L, .stay L, h.begun ((SchedulerState.find?_withPlan_other hk).trans h.plan) ?_
      (List.forall_mem_nil _)⟩
    rintro x hx
    obtain rfl := Option.some.inj hx
    exact ⟨hk, id⟩

private theorem simulate_handoffAsks (h : s.Tracks k L) (hL : L.Consistent)
    (hp : s.sched.plans.find? planId = some p) (hstate : p.state = .committed) :
    ∃ L', L.Step L' ∧ (s.begun (s.sched.withPlan planId
      (p.enter .awaitingExecution s.sched.nextEventOrdinal))
      (some (.authorizing planId p)) []).Tracks k L' := by
  by_cases hk : planId = k
  · subst hk
    obtain ⟨plan, commit, launch⟩ := L
    obtain rfl : plan = some p := h.plan.symm.trans hp
    have hstage := hL.stage p rfl
    rw [hstate] at hstage
    obtain ⟨hlaunch, _⟩ := hstage
    obtain rfl : launch = .unused := hlaunch
    exact ⟨_, .askFabric s.calls.fresh s.sched.nextEventOrdinal hstate,
      h.launchBegun SchedulerState.find?_withPlan_self p⟩
  · refine ⟨L, .stay L, h.begun ((SchedulerState.find?_withPlan_other hk).trans h.plan) ?_
      (List.forall_mem_nil _)⟩
    rintro x hx
    obtain rfl := Option.some.inj hx
    exact ⟨id, hk⟩

/-- A suspended commit of the plan is the one its ledger accounts for, and no handoff of
the plan has begun. -/
private theorem commit_of_pending (h : s.Tracks k L) (hL : L.Consistent) {old : Call}
    (hc : s.pending c = some old) (hold : old.Commits k) :
    L.commit.suspended k = some (c, old) ∧ L.launch = .unused := by
  have hsus := h.commit.unique c old hc hold
  refine ⟨hsus, hL.launch_unused ?_⟩
  intro hwon
  generalize L.commit = commit at hsus hwon
  cases commit <;> cases hsus <;> exact hwon

private theorem launch_of_pending (h : s.Tracks k L) {old : Call}
    (hc : s.pending c = some old) (hold : old.Launches k) :
    L.launch.suspended k = some (c, old) := h.launch.unique c old hc hold

private theorem commit_asking (h : s.Tracks k L) (hL : L.Consistent)
    (hc : s.pending c = some (.committing k claims)) :
    L = ⟨s.sched.plans.find? k, .asking c claims, .unused⟩ := by
  obtain ⟨hsus, hlaunch⟩ := commit_of_pending h hL hc rfl
  rw [h.plan, ← CommitPhase.eq_asking hsus, ← hlaunch]

private theorem commit_returning {token : Bytes} (h : s.Tracks k L) (hL : L.Consistent)
    (hc : s.pending c = some (.releasing k token out)) :
    ∃ claims answer,
      L = ⟨s.sched.plans.find? k, .returning c claims answer token out, .unused⟩ := by
  obtain ⟨hsus, hlaunch⟩ := commit_of_pending h hL hc rfl
  obtain ⟨claims, answer, hcommit⟩ := CommitPhase.exists_returning hsus
  refine ⟨claims, answer, ?_⟩
  rw [h.plan, ← hcommit, ← hlaunch]

private theorem launch_asking (h : s.Tracks k L)
    (hc : s.pending c = some (.authorizing k p)) :
    ∃ commit, L = ⟨s.sched.plans.find? k, commit, .asking c p⟩ := by
  refine ⟨L.commit, ?_⟩
  rw [h.plan, ← LaunchPhase.eq_asking (launch_of_pending h hc rfl)]

private theorem commit_answered (h : s.Tracks k L) (hL : L.Consistent)
    (hc : s.pending c = some (.settling k claims answer)) :
    L = ⟨s.sched.plans.find? k, .answered c claims answer, .unused⟩ := by
  obtain ⟨hsus, hlaunch⟩ := commit_of_pending h hL hc rfl
  rw [h.plan, ← CommitPhase.eq_answered hsus, ← hlaunch]

private theorem simulate_commitTooLate (h : s.Tracks k L) (hL : L.Consistent)
    (hcur : s.sched.Current) (hc : s.pending c = some (.settling planId claims answer))
    (hout : out.succeeded = false)
    (hstale : ∀ p, s.sched.plans.find? planId = some p → s.sched.commitStale p)
    (htoken : SchedulerState.releaseToken answer = none) :
    ∃ L', L.Step L' ∧
      (s.continued c s.sched none [.commitReturned c planId out]).Tracks k L' := by
  by_cases hk : planId = k
  · subst hk
    obtain rfl := commit_answered h hL hc
    refine ⟨_, .tooLate hout fun p hp => hcur.ne_of_commitStale hp (hstale p hp),
      h.commitContinued rfl rfl rfl forall_mem_none ?_
        (List.forall_mem_singleton.mpr (decide_eq_true rfl))⟩
    simp only [CommitPhase.events, CommitPhase.releases, hout, htoken, Bool.false_eq_true,
      ite_false, Option.map_none, Option.toList_none, List.nil_append, List.singleton_append]
  · exact continued_otherCommit h hc rfl hk rfl forall_mem_none
      (List.forall_mem_singleton.mpr (decide_eq_false hk))

private theorem simulate_commitReleases {token : Bytes} (h : s.Tracks k L)
    (hL : L.Consistent) (hcur : s.sched.Current)
    (hc : s.pending c = some (.settling planId claims answer)) (hout : out.succeeded = false)
    (hstale : ∀ p, s.sched.plans.find? planId = some p → s.sched.commitStale p)
    (htoken : SchedulerState.releaseToken answer = some token) :
    ∃ L', L.Step L' ∧
      (s.continued c s.sched (some (.releasing planId token out)) []).Tracks k L' := by
  by_cases hk : planId = k
  · subst hk
    obtain rfl := commit_answered h hL hc
    exact ⟨_, .release hout htoken fun p hp => hcur.ne_of_commitStale hp (hstale p hp),
      h.commitContinued rfl rfl rfl (forall_mem_some (by rfl))
        (List.append_nil _).symm (List.forall_mem_nil _)⟩
  · exact continued_otherCommit h hc rfl hk rfl (forall_mem_some (by rfl))
      (List.forall_mem_nil _)

private theorem simulate_commitDenied (h : s.Tracks k L) (hL : L.Consistent)
    (hc : s.pending c = some (.settling planId claims answer))
    (hp : s.sched.plans.find? planId = some p) (hanswer : answer.succeeded = false)
    (hout : out.succeeded = false) :
    ∃ L', L.Step L' ∧ (s.continued c (s.sched.withPlan planId
      (p.forceState .revalidationRequired s.sched.nextEventOrdinal)) none
      [.commitReturned c planId out]).Tracks k L' := by
  by_cases hk : planId = k
  · subst hk
    obtain rfl := commit_answered h hL hc
    rw [hp] at h ⊢
    refine ⟨_, .deny (p.displaced_forceState .revalidationRequired rfl
      s.sched.nextEventOrdinal) hout, h.commitContinued rfl SchedulerState.find?_withPlan_self rfl
        forall_mem_none ?_ (List.forall_mem_singleton.mpr (decide_eq_true rfl))⟩
    simp only [CommitPhase.events, CommitPhase.releases, hout,
      SchedulerState.releaseToken_of_not_succeeded hanswer, Bool.false_eq_true, ite_false,
      Option.map_none, Option.toList_none, List.nil_append, List.singleton_append]
  · exact continued_otherCommit h hc rfl hk (SchedulerState.find?_withPlan_other hk) forall_mem_none
      (List.forall_mem_singleton.mpr (decide_eq_false hk))

private theorem simulate_commitGranted (h : s.Tracks k L) (hL : L.Consistent)
    (hc : s.pending c = some (.settling planId claims answer))
    (hp : s.sched.plans.find? planId = some p) (hfresh : ¬s.sched.commitStale p)
    (hanswer : answer.succeeded = true) :
    ∃ L', L.Step L' ∧ (s.continued c (s.sched.withPlan planId
      (SchedulerState.committedPlan p claims s.sched.nextEventOrdinal)) none
      [.commitReturned c planId (SchedulerState.commitGranted answer)]).Tracks k L' := by
  by_cases hk : planId = k
  · subst hk
    obtain rfl := commit_answered h hL hc
    rw [hp] at h ⊢
    have hstate : p.state = .awaitingResourceCommit :=
      SchedulerState.state_of_not_commitStale hfresh
    exact ⟨_, .grant s.sched.nextEventOrdinal hstate hanswer,
      h.commitContinued rfl SchedulerState.find?_withPlan_self rfl forall_mem_none rfl
        (List.forall_mem_singleton.mpr (decide_eq_true rfl))⟩
  · exact continued_otherCommit h hc rfl hk (SchedulerState.find?_withPlan_other hk) forall_mem_none
      (List.forall_mem_singleton.mpr (decide_eq_false hk))

private theorem simulate_brokerAnswers (h : s.Tracks k L) (hL : L.Consistent)
    (hc : s.pending c = some (.committing planId claims)) (answer : ResourceCommitResult) :
    ∃ L', L.Step L' ∧ (s.continued c s.sched (some (.settling planId claims answer))
      [.brokerCommit c planId claims answer]).Tracks k L' := by
  by_cases hk : planId = k
  · subst hk
    obtain rfl := commit_asking h hL hc
    exact ⟨_, .brokerAnswers answer, h.commitContinued rfl h.plan rfl
      (forall_mem_some (by rfl)) rfl
      (List.forall_mem_singleton.mpr (decide_eq_true rfl))⟩
  · exact continued_otherCommit h hc rfl hk rfl (forall_mem_some (by rfl))
      (List.forall_mem_singleton.mpr (decide_eq_false hk))

private theorem simulate_brokerThrows (h : s.Tracks k L) (hL : L.Consistent)
    (hc : s.pending c = some (.committing planId claims)) :
    ∃ L', L.Step L' ∧
      (s.continued c s.sched none [.commitThrew c planId none]).Tracks k L' := by
  by_cases hk : planId = k
  · subst hk
    obtain rfl := commit_asking h hL hc
    exact ⟨_, .brokerThrows, h.commitContinued rfl h.plan rfl forall_mem_none rfl
      (List.forall_mem_singleton.mpr (decide_eq_true rfl))⟩
  · exact continued_otherCommit h hc rfl hk rfl forall_mem_none
      (List.forall_mem_singleton.mpr (decide_eq_false hk))

private theorem simulate_releaseReturns {token : Bytes} (h : s.Tracks k L)
    (hL : L.Consistent) (hc : s.pending c = some (.releasing planId token out)) :
    ∃ L', L.Step L' ∧ (s.continued c s.sched none
      [.brokerRelease c planId token, .commitReturned c planId out]).Tracks k L' := by
  by_cases hk : planId = k
  · subst hk
    obtain ⟨claims, answer, rfl⟩ := commit_returning h hL hc
    obtain ⟨hout, htoken⟩ := hL.wellFormed
    refine ⟨_, .released, h.commitContinued rfl h.plan rfl forall_mem_none ?_ ?_⟩
    · simp only [CommitPhase.events, CommitPhase.releases, hout, htoken, Bool.false_eq_true,
        ite_false, Option.map_some, Option.toList_some, List.singleton_append]
    · exact List.forall_mem_cons.mpr ⟨decide_eq_true rfl,
        List.forall_mem_singleton.mpr (decide_eq_true rfl)⟩
  · exact continued_otherCommit h hc rfl hk rfl forall_mem_none
      (List.forall_mem_cons.mpr ⟨decide_eq_false hk,
        List.forall_mem_singleton.mpr (decide_eq_false hk)⟩)

private theorem simulate_releaseThrows {token : Bytes} (h : s.Tracks k L)
    (hL : L.Consistent) (hc : s.pending c = some (.releasing planId token out)) :
    ∃ L', L.Step L' ∧ (s.continued c s.sched none
      [.brokerRelease c planId token, .commitThrew c planId none]).Tracks k L' := by
  by_cases hk : planId = k
  · subst hk
    obtain ⟨claims, answer, rfl⟩ := commit_returning h hL hc
    exact ⟨_, .releaseThrows, h.commitContinued rfl h.plan rfl forall_mem_none rfl
      (List.forall_mem_cons.mpr ⟨decide_eq_true rfl,
        List.forall_mem_singleton.mpr (decide_eq_true rfl)⟩)⟩
  · exact continued_otherCommit h hc rfl hk rfl forall_mem_none
      (List.forall_mem_cons.mpr ⟨decide_eq_false hk,
        List.forall_mem_singleton.mpr (decide_eq_false hk)⟩)

private theorem simulate_fabricAnswers (h : s.Tracks k L)
    (hc : s.pending c = some (.authorizing planId p)) (answer : ExecutionHandoff) :
    ∃ L', L.Step L' ∧ (s.continued c s.sched (some (.launching planId answer))
      [.authorize c planId p answer]).Tracks k L' := by
  by_cases hk : planId = k
  · subst hk
    obtain ⟨commit, rfl⟩ := launch_asking h hc
    exact ⟨_, .fabricAnswers answer, h.launchContinued rfl h.plan rfl
      (forall_mem_some (by rfl)) rfl
      (List.forall_mem_singleton.mpr (decide_eq_true rfl))⟩
  · exact continued_otherLaunch h hc rfl hk rfl (forall_mem_some (by rfl))
      (List.forall_mem_singleton.mpr (decide_eq_false hk))

private theorem simulate_fabricThrows (h : s.Tracks k L)
    (hc : s.pending c = some (.authorizing planId p)) :
    ∃ L', L.Step L' ∧
      (s.continued c s.sched none [.handoffThrew c planId none]).Tracks k L' := by
  by_cases hk : planId = k
  · subst hk
    obtain ⟨commit, rfl⟩ := launch_asking h hc
    exact ⟨_, .fabricThrows, h.launchContinued rfl h.plan rfl forall_mem_none rfl
      (List.forall_mem_singleton.mpr (decide_eq_true rfl))⟩
  · exact continued_otherLaunch h hc rfl hk rfl forall_mem_none
      (List.forall_mem_singleton.mpr (decide_eq_false hk))

/-- A suspended second section of the handoff of a stored plan is accounted for. -/
private theorem launch_answered {x : ExecutionHandoff} (h : s.Tracks k L)
    (hc : s.pending c = some (.launching k x)) (hp : s.sched.plans.find? k = some p) :
    ∃ snapshot, L = ⟨some p, L.commit, .answered c snapshot x⟩ := by
  obtain ⟨snapshot, hlaunch⟩ := LaunchPhase.exists_answered (launch_of_pending h hc rfl)
  refine ⟨snapshot, ?_⟩
  rw [← hp, h.plan, ← hlaunch]

/-- The second section of a handoff of a stored plan moves the account by the step its
outcome names. -/
private theorem simulate_handoff {x y : ExecutionHandoff} {q : Option PlacementPlan}
    (h : s.Tracks k L) (hc : s.pending c = some (.launching planId x))
    (hp : s.sched.plans.find? planId = some p) {sched : SchedulerState}
    (hother : planId ≠ k → sched.plans.find? k = s.sched.plans.find? k)
    (hself : sched.plans.find? planId = q)
    (hstep : ∀ commit snapshot, Ledger.Step ⟨some p, commit, .answered c snapshot x⟩
      ⟨q, commit, .returned c snapshot x y⟩) :
    ∃ L', L.Step L' ∧
      (s.continued c sched none [.handoffReturned c planId y]).Tracks k L' := by
  by_cases hk : planId = k
  · subst hk
    obtain ⟨snapshot, hL⟩ := launch_answered h hc hp
    rw [hL] at h ⊢
    exact ⟨_, hstep L.commit snapshot, h.launchContinued rfl hself rfl forall_mem_none rfl
      (List.forall_mem_singleton.mpr (decide_eq_true rfl))⟩
  · exact continued_otherLaunch h hc rfl hk (hother hk) forall_mem_none
      (List.forall_mem_singleton.mpr (decide_eq_false hk))

private theorem simulate_handoffThrows {x : ExecutionHandoff} (h : s.Tracks k L)
    (hc : s.pending c = some (.launching planId x))
    (hp : s.sched.plans.find? planId = some p) (hcan : p.state.canTransition .active = false)
    (e : FabricError) :
    ∃ L', L.Step L' ∧ (s.continued c
      { s.sched with nextEventOrdinal := s.sched.nextEventOrdinal + 1 } none
      [.handoffThrew c planId (some e)]).Tracks k L' := by
  by_cases hk : planId = k
  · subst hk
    obtain ⟨snapshot, hL⟩ := launch_answered h hc hp
    rw [hL] at h ⊢
    have hstate : p.state ≠ .awaitingExecution := by
      intro hs
      rw [hs] at hcan
      cases hcan
    exact ⟨_, .launchThrows e hstate, h.launchContinued rfl hp rfl forall_mem_none rfl
      (List.forall_mem_singleton.mpr (decide_eq_true rfl))⟩
  · refine continued_otherLaunch h hc rfl hk ?_ forall_mem_none
      (List.forall_mem_singleton.mpr ?_)
    · rfl
    · exact decide_eq_false hk

/-- Every step of the scheduler but a recovery is a step of the tracking ledger. -/
theorem Stepped.simulates (hstep : Stepped s a t) (hno : NoRestore s a)
    (hcur : s.sched.Current) (h : s.Tracks k L) (hL : L.Consistent) :
    ∃ L', L.Step L' ∧ t.Tracks k L' := by
  have hwhole : ∀ {when : PlacementPlan → Prop} {sched : SchedulerState},
      Displacement when (s.sched.plans.find? k) (sched.plans.find? k) →
      ∃ L', L.Step L' ∧ (s.whole sched []).Tracks k L' := by
    intro when sched hd
    rw [h.plan] at hd
    exact ⟨_, step_of_displacement hd, h.whole rfl (List.forall_mem_nil _)⟩
  cases hstep with
  | setEpoch epoch => exact hwhole (s.sched.displacement_setEpoch epoch k)
  | fenceWorker => exact ⟨L, .stay L, h.whole h.plan (List.forall_mem_nil _)⟩
  | fenceSource => exact ⟨L, .stay L, h.whole h.plan (List.forall_mem_nil _)⟩
  | ingested => exact ⟨L, .stay L, h.whole h.plan (List.forall_mem_singleton.mpr rfl)⟩
  | notIngested => exact ⟨L, .stay L, h.whole h.plan (List.forall_mem_nil _)⟩
  | scheduleRefused =>
      exact ⟨L, .stay L, h.begun h.plan forall_mem_none (List.forall_mem_singleton.mpr rfl)⟩
  | scheduleBegun =>
      exact ⟨L, .stay L, h.begun h.plan (forall_mem_some ⟨id, id⟩)
        (List.forall_mem_nil _)⟩
  | scheduled hc views decision => exact simulate_scheduled h hc views decision
  | scheduleThrew hc =>
      exact ⟨L, .stay L, h.continued hc ⟨id, id⟩ h.plan forall_mem_none
        (List.forall_mem_singleton.mpr rfl)⟩
  | commitRefused =>
      exact ⟨L, .stay L, h.begun h.plan forall_mem_none (List.forall_mem_singleton.mpr rfl)⟩
  | commitAsks hp hstate => exact simulate_commitAsks h hL hp hstate
  | brokerAnswers hc answer => exact simulate_brokerAnswers h hL hc answer
  | brokerThrows hc => exact simulate_brokerThrows h hL hc
  | commitTooLate hc hout hstale htoken =>
      exact simulate_commitTooLate h hL hcur hc hout hstale htoken
  | commitReleases hc hout hstale htoken =>
      exact simulate_commitReleases h hL hcur hc hout hstale htoken
  | commitDenied hc hp _ hanswer hout => exact simulate_commitDenied h hL hc hp hanswer hout
  | commitGranted hc hp hfresh hanswer =>
      exact simulate_commitGranted h hL hc hp hfresh hanswer
  | releaseReturns hc => exact simulate_releaseReturns h hL hc
  | releaseThrows hc => exact simulate_releaseThrows h hL hc
  | handoffRefused =>
      exact ⟨L, .stay L, h.begun h.plan forall_mem_none (List.forall_mem_singleton.mpr rfl)⟩
  | handoffAsks hp hstate => exact simulate_handoffAsks h hL hp hstate
  | fabricAnswers hc answer => exact simulate_fabricAnswers h hc answer
  | fabricThrows hc => exact simulate_fabricThrows h hc
  | @handoffVanished c planId x hc hp =>
      by_cases hk : planId = k
      · subst hk
        obtain ⟨snapshot, hlaunch⟩ := LaunchPhase.exists_answered (launch_of_pending h hc rfl)
        have habsent := (hL.absent (h.plan.symm.trans hp)).2
        rw [hlaunch] at habsent
        cases habsent
      · exact continued_otherLaunch h hc rfl hk rfl forall_mem_none
          (List.forall_mem_singleton.mpr (decide_eq_false hk))
  | handoffFenced hc hp hstale =>
      exact simulate_handoff h hc hp (fun _ => rfl) hp
        fun _ _ => .fence (hcur.ne_of_handoffStale hp hstale)
  | handoffDenied hc hp _ hanswer =>
      exact simulate_handoff h hc hp SchedulerState.find?_withPlan_other SchedulerState.find?_withPlan_self
        fun _ _ => .denyFabric (PlacementPlan.displaced_forceState _ _ rfl _) hanswer
  | handoffLaunches hc hp _ hanswer hcan =>
      exact simulate_handoff h hc hp SchedulerState.find?_withPlan_other SchedulerState.find?_withPlan_self
        fun _ _ => .launch _ hcan hanswer
  | handoffThrows hc hp _ _ hcan e => exact simulate_handoffThrows h hc hp hcan e
  | revalidate planId current => exact hwhole (s.sched.displacement_revalidate planId current k)
  | cancel requestId => exact hwhole (s.sched.displacement_cancel requestId k)
  | supersede oldRequest newRequest reason =>
      exact hwhole (s.sched.displacement_supersede oldRequest newRequest reason k)
  | snapshot => exact ⟨L, .stay L, h.whole h.plan (List.forall_mem_singleton.mpr rfl)⟩
  | restore => exact hno.elim

end Simulation

/-- A freshly constructed scheduler is tracked by the blank ledger at every plan id. -/
theorem tracks_initial (config : SchedulerConfig) (k : PlacementPlanId) :
    (initial config).Tracks k .blank where
  plan := rfl
  commit := CallTable.only_empty _
  launch := CallTable.only_empty _
  events := rfl

/-- Every scheduler reached without a recovery is tracked by a consistent ledger at every
plan id. -/
theorem exists_ledger {config : SchedulerConfig} {s : System}
    (h : (scheduler config).Reachable NoRestore s) (k : PlacementPlanId) :
    ∃ L : Ledger, s.Tracks k L ∧ L.Consistent := by
  have hboth := h.invariant
    (fun s => s.sched.Current ∧ ∃ L : Ledger, s.Tracks k L ∧ L.Consistent) ?_ ?_
  · exact hboth.2
  · rintro s rfl
    exact ⟨SchedulerState.current_initial config, .blank, tracks_initial config k,
      Ledger.consistent_blank⟩
  · rintro s a t hno hn ⟨hcur, L, htracks, hL⟩
    have hstep := stepped_of_step hn
    obtain ⟨L', hledger, htracks'⟩ := hstep.simulates hno hcur htracks hL
    refine ⟨?_, L', htracks', hledger.consistent hL⟩
    rcases hstep.changed with ⟨_, rfl, _⟩ | hchanged
    · exact hno.elim
    · exact hcur.changed hchanged

end System

end FabricScheduler
