import FabricScheduler.Scheduler.Launch
import FabricScheduler.Scheduler.Tokens

/-!
# Commitments and their tokens

A commit either commits its plan and hands the granted token to its caller, or leaves the
plan uncommitted and gives a granted token back. The scheduler keeps no token: one handed
to its caller is never given back by the scheduler, whatever happens to the plan.
-/

namespace FabricScheduler

/-- The token is given back to its broker. -/
def Event.isReleaseOf (token : Bytes) : Event → Bool
  | .brokerRelease _ _ t => t = token
  | _ => false

namespace Ledger

/-- Plans past their commitment have a commit that succeeded. -/
theorem Consistent.won_of_state {L : Ledger} (h : L.Consistent) {p : PlacementPlan}
    (hp : L.plan = some p)
    (hstate : p.state = .committed ∨ p.state = .awaitingExecution ∨ p.state = .active) :
    L.commit.Won := by
  have hstage := h.stage p hp
  rcases hstate with hs | hs | hs <;> rw [hs] at hstage
  · exact hstage.2
  · refine h.won ?_
    intro hunused
    rw [Stage, hunused] at hstage
    exact hstage
  · refine h.won ?_
    intro hunused
    rw [Stage, hunused] at hstage
    exact hstage

end Ledger

namespace System

variable {config : SchedulerConfig} {s t : System} {a : Action} {k : PlacementPlanId}
  {L : Ledger} {c : Nat} {claims : List ResourceClaim} {answer out : ResourceCommitResult}
  {token : Bytes} {es : List (TransitionSystem.Step System Action)}

/-- The commit call returned, from either of its sections. -/
def ReturnsCommit (s : System) (c : Nat) (k : PlacementPlanId) (out : ResourceCommitResult) :
    Prop :=
  Event.commitReturned c k out ∈ s.log ∨ Event.commitRefused c k out ∈ s.log

/-- The commit call of the plan is between its two sections. -/
def BetweenSections (s : System) (k : PlacementPlanId) (c : Nat) : Prop :=
  (∃ claims, s.pending c = some (.committing k claims)) ∨
    ∃ claims answer, s.pending c = some (.settling k claims answer)

/-- The step is the second section of the call's commit and moved the plan to committed. -/
def MovesToCommitted (c : Nat) (k : PlacementPlanId)
    (e : TransitionSystem.Step System Action) : Prop :=
  e.act = .commitFinish c ∧ ∃ p q, e.src.sched.plans.find? k = some p ∧
    e.tgt.sched.plans.find? k = some q ∧ p.state ≠ .committed ∧ q.state = .committed

/-- A second section that moved the plan to committed returned success. -/
theorem Stepped.commitReturned_of_moves {e : TransitionSystem.Step System Action}
    (h : Stepped e.src e.act e.tgt) (hmoves : MovesToCommitted c k e) :
    ∃ answer, Event.commitReturned c k (SchedulerState.commitGranted answer) ∈ e.tgt.log := by
  obtain ⟨src, act, tgt⟩ := e
  obtain ⟨rfl, p, q, hp, hq, hpstate, hqstate⟩ := hmoves
  change Stepped src (.commitFinish c) tgt at h
  change ∃ answer, Event.commitReturned c k (SchedulerState.commitGranted answer) ∈ tgt.log
  have hkept : tgt.sched.plans.find? k = src.sched.plans.find? k → False := by
    intro h
    have hpq := Option.some.inj ((h.trans hp).symm.trans hq)
    rw [hpq] at hpstate
    exact hpstate hqstate
  cases h with
  | commitTooLate => exact (hkept rfl).elim
  | commitReleases => exact (hkept rfl).elim
  | @commitDenied _ planId =>
      by_cases hk : planId = k
      · subst hk
        obtain rfl := Option.some.inj (SchedulerState.find?_withPlan_self.symm.trans hq)
        rw [PlacementPlan.forceState_state] at hqstate
        cases hqstate
      · exact (hkept (SchedulerState.find?_withPlan_other hk)).elim
  | @commitGranted _ planId claims answer =>
      by_cases hk : planId = k
      · subst hk
        exact ⟨answer, List.mem_append_right _ (List.mem_singleton_self _)⟩
      · exact (hkept (SchedulerState.find?_withPlan_other hk)).elim

theorem moves_of_commitsPlan {e : TransitionSystem.Step System Action}
    (h : CommitsPlan c k e) : MovesToCommitted c k e := by
  obtain ⟨hact, _, ⟨p, hp, hpstate⟩, q, hq, hqstate⟩ := h
  refine ⟨hact, p, q, hp, hq, ?_, hqstate⟩
  rw [hpstate]
  decide

/-- What logs a throw out of a commit. -/
theorem Stepped.of_commitThrew (h : Stepped s a t) {error : Option FabricError}
    (hin : Event.commitThrew c k error ∈ s.since t) : ¬s.BrokerReturns a := by
  cases h with
  | brokerThrows hc => exact fun hreturns => hreturns _ _ hc
  | releaseThrows => exact Bool.false_ne_true
  | _ =>
      simp only [since_whole, since_begun, since_continued, List.mem_cons, List.not_mem_nil,
        or_false, reduceCtorEq] at hin

/-- Under brokers that return normally a commit never throws. -/
theorem commitThrew_not_mem {P : System → Action → Prop} (hP : ∀ s a, P s a → s.BrokerReturns a)
    (h : (scheduler config).Reachable P s) (error : Option FabricError) :
    Event.commitThrew c k error ∉ s.log := by
  intro he
  obtain ⟨_, es, rfl, hr⟩ := h
  obtain ⟨_, e, _, _, _, hreturns, hstep, _, hin⟩ := exists_logs hr he
  exact hstep.of_commitThrew hin (hP _ _ hreturns)

/-- A release gives back the token its own call was granted. -/
theorem exists_grant_of_release (h : s.Tracks k L) (hL : L.Consistent)
    (he : Event.brokerRelease c k token ∈ s.log) :
    ∃ claims answer, Event.brokerCommit c k claims answer ∈ s.log ∧
      (Event.brokerCommit c k claims answer).grants? = some token ∧ L.commit.call? = some c ∧
      ¬L.commit.Won := by
  obtain ⟨hcall, hlost, answer, hanswer, htoken⟩ := h.brokerRelease hL he
  obtain ⟨hs, rfl⟩ := SchedulerState.releaseToken_eq_some htoken
  have hgrants : ∀ claims, (Event.brokerCommit c k claims answer).grants? =
      some answer.commitmentToken := by
    intro claims
    rw [Event.grants?, hs, if_pos rfl]
  cases hcommit : L.commit with
  | answered c₁ claims answer₁ | returning c₁ claims answer₁ | settled c₁ claims answer₁
  | unreturned c₁ claims answer₁ =>
      rw [hcommit] at hcall hanswer
      obtain rfl := Option.some.inj hcall
      obtain rfl := Option.some.inj hanswer
      refine ⟨claims, answer₁, h.mem_log (decide_eq_true rfl) ?_, hgrants claims, rfl,
        hcommit ▸ hlost⟩
      rw [hcommit]
      exact List.mem_cons_self ..
  | _ =>
      rw [hcommit] at hanswer
      cases hanswer

/-- A granted token is given back only by the call it was granted to, and only when that
call did not succeed. -/
theorem release_of_grant (hreach : (scheduler config).Reachable NoRestore s)
    (hfresh : s.TokensFresh) (he : Event.brokerCommit c k claims answer ∈ s.log)
    (hs : answer.succeeded = true) {c' : Nat} {k' : PlacementPlanId}
    (hrelease : Event.brokerRelease c' k' answer.commitmentToken ∈ s.log) :
    c' = c ∧ k' = k := by
  obtain ⟨L, htracks, hL⟩ := exists_ledger hreach k'
  obtain ⟨claims', answer', he', hgrant', _⟩ := exists_grant_of_release htracks hL hrelease
  have hgrant : (Event.brokerCommit c k claims answer).grants? =
      some answer.commitmentToken := by
    rw [Event.grants?, hs, if_pos rfl]
  cases hfresh.unique _ he _ he' _ hgrant hgrant'
  exact ⟨rfl, rfl⟩

/-- Commit is all or nothing. -/
structure CommitAllOrNothing (es : List (TransitionSystem.Step System Action)) (s : System) :
    Prop where
  /-- It never throws. -/
  neverThrows : ∀ c k error, Event.commitThrew c k error ∉ s.log
  /-- It returns success exactly when its second section committed the plan. -/
  succeeds : ∀ c k, (∃ out, s.ReturnsCommit c k out ∧ out.succeeded = true) ↔
    ∃ e ∈ es, CommitsPlan c k e
  /-- When it returns failure it did not commit the plan, and a token it was granted was
  given back exactly once. -/
  fails : ∀ c k out, s.ReturnsCommit c k out → out.succeeded = false →
    (¬∃ e ∈ es, MovesToCommitted c k e) ∧
      ∀ claims answer, Event.brokerCommit c k claims answer ∈ s.log → answer.succeeded = true →
        s.log.filter (Event.isReleaseOf answer.commitmentToken) =
          [.brokerRelease c k answer.commitmentToken]
  /-- A plan awaits its resources only while exactly one commit of it is between its
  sections. -/
  awaits : ∀ k p, s.sched.plans.find? k = some p → p.state = .awaitingResourceCommit →
    ∃! c, s.BetweenSections k c
  /-- A committed plan is backed by the only broker call made for it, on its own claims,
  and the token it was granted was never given back. -/
  backed : ∀ k p, s.sched.plans.find? k = some p →
    (p.state = .committed ∨ p.state = .awaitingExecution ∨ p.state = .active) →
    p.hasCommitmentEvidence = true ∧ ∃ c answer, answer.succeeded = true ∧
      s.log.filter (Event.isBrokerCommit k) = [.brokerCommit c k p.claims answer] ∧
      s.log.filter (Event.isReleaseOf answer.commitmentToken) = []

theorem grantsFresh_noRestore (s : System) (a : Action) (h : s.GrantsFresh a) :
    s.NoRestore a := by
  cases a with
  | restore => exact h
  | _ => trivial

/-- A call that returned from one of its sections did not return from the other, and
returned once. -/
private theorem returned_unique (hreach : (scheduler config).Reachable NoRestore s)
    (h : s.ReturnsCommit c k out) {out' : ResourceCommitResult}
    (h' : Event.commitReturned c k out' ∈ s.log) :
    out = out' ∧ Event.commitReturned c k out ∈ s.log := by
  rcases h with h | h
  · obtain ⟨L, htracks, _⟩ := exists_ledger hreach k
    obtain ⟨_, _, hcommit⟩ := htracks.commitReturned h
    obtain ⟨_, _, hcommit'⟩ := htracks.commitReturned h'
    rw [hcommit] at hcommit'
    cases hcommit'
    exact ⟨rfl, h⟩
  · cases (refusedOnly hreach h).only _ h' rfl

private theorem not_moves_of_failed
    (hrun : (scheduler config).Run NoRestore (initial config) es s)
    (h : s.ReturnsCommit c k out) (hout : out.succeeded = false) :
    ¬∃ e ∈ es, MovesToCommitted c k e := by
  rintro ⟨e, he, hmoves⟩
  obtain ⟨_, _, _, _, _, hn, hafter⟩ := hrun.of_mem he
  obtain ⟨answer, hin⟩ := (stepped_of_step hn).commitReturned_of_moves hmoves
  obtain ⟨rfl, _⟩ := returned_unique ⟨_, es, rfl, hrun⟩ h (mem_log_of_run hafter hin)
  cases hout

/-- Outside a successful commit the token it was granted is given back by no one else. -/
private theorem filter_isReleaseOf (hreach : (scheduler config).Reachable NoRestore s)
    (hfresh : s.TokensFresh) (htracks : s.Tracks k L)
    (he : Event.brokerCommit c k claims answer ∈ s.log) (hs : answer.succeeded = true) :
    s.log.filter (Event.isReleaseOf answer.commitmentToken) =
      (L.commit.events k).filter (Event.isReleaseOf answer.commitmentToken) := by
  have hlaunch : (L.launch.events k).filter (Event.isReleaseOf answer.commitmentToken) = [] := by
    rw [List.filter_eq_nil_iff]
    intro e he
    obtain ⟨_, _, ⟨_, _, rfl⟩ | ⟨_, rfl⟩ | ⟨_, rfl⟩⟩ :=
      LaunchPhase.exists_of_mem_events he <;> exact Bool.false_ne_true
  rw [htracks.filter, hlaunch, List.append_nil]
  intro e hmem hrelease
  cases e with
  | brokerRelease c' k' token =>
      obtain rfl : token = answer.commitmentToken := of_decide_eq_true hrelease
      obtain ⟨_, rfl⟩ := release_of_grant hreach hfresh he hs hmem
      exact decide_eq_true rfl
  | _ => cases hrelease

private theorem released_once (hreach : (scheduler config).Reachable NoRestore s)
    (hfresh : s.TokensFresh) (h : s.ReturnsCommit c k out) (hout : out.succeeded = false)
    (he : Event.brokerCommit c k claims answer ∈ s.log) (hs : answer.succeeded = true) :
    s.log.filter (Event.isReleaseOf answer.commitmentToken) =
      [.brokerRelease c k answer.commitmentToken] := by
  obtain ⟨L, htracks, _⟩ := exists_ledger hreach k
  rw [filter_isReleaseOf hreach hfresh htracks he hs]
  rcases h with h | h
  · obtain ⟨claims', answer', hcommit⟩ := htracks.commitReturned h
    obtain ⟨_, _, hanswer⟩ := htracks.brokerCommit he
    rw [hcommit] at hanswer ⊢
    obtain rfl := Option.some.inj hanswer
    have htoken : answer'.commitmentToken ≠ [] := by
      refine hfresh.nonempty _ he _ ?_
      rw [Event.grants?, hs, if_pos rfl]
    simp [CommitPhase.events, CommitPhase.releases, hout,
      SchedulerState.releaseToken_of_succeeded hs htoken, Event.isReleaseOf]
  · cases (refusedOnly hreach h).only _ he rfl

private theorem awaits_one {P : System → Action → Prop}
    (hreturns : ∀ s a, P s a → s.BrokerReturns a) (hP : (scheduler config).Reachable P s)
    (hreach : (scheduler config).Reachable NoRestore s) {p : PlacementPlan}
    (hp : s.sched.plans.find? k = some p) (hstate : p.state = .awaitingResourceCommit) :
    ∃! c, s.BetweenSections k c := by
  obtain ⟨L, htracks, hL⟩ := exists_ledger hreach k
  have hstage := hL.stage p (htracks.plan.symm.trans hp)
  rw [hstate] at hstage
  have hunique : ∀ c, s.BetweenSections k c → L.commit.call? = some c := by
    rintro c (⟨claims, hc⟩ | ⟨claims, answer, hc⟩)
    · rw [htracks.committing hc]
      rfl
    · rw [htracks.settling hc]
      rfl
  have hexists : ∃ c, s.BetweenSections k c := by
    cases hcommit : L.commit with
    | asking c claims =>
        refine ⟨c, Or.inl ⟨claims, (htracks.commit.held c _ ?_).1⟩⟩
        rw [hcommit]
        rfl
    | answered c claims answer =>
        refine ⟨c, Or.inr ⟨claims, answer, (htracks.commit.held c _ ?_).1⟩⟩
        rw [hcommit]
        rfl
    | threw c claims =>
        have he : Event.commitThrew c k none ∈ s.log := by
          refine htracks.mem_log (decide_eq_true rfl) ?_
          rw [hcommit]
          exact List.mem_singleton_self _
        exact absurd he (commitThrew_not_mem hreturns hP none)
    | _ =>
        rw [Ledger.Stage, hcommit] at hstage
        exact hstage.elim
  obtain ⟨c, hc⟩ := hexists
  refine ⟨c, hc, ?_⟩
  intro c' hc'
  exact Option.some.inj ((hunique c' hc').symm.trans (hunique c hc))

/-- A plan whose commit succeeded is backed by the one broker call made for it. -/
private theorem backed_of_won (hreach : (scheduler config).Reachable NoRestore s)
    (hfresh : s.TokensFresh) (htracks : s.Tracks k L) (hL : L.Consistent) {p : PlacementPlan}
    (hp : L.plan = some p) (hwon : L.commit.Won) :
    p.hasCommitmentEvidence = true ∧ ∃ c answer, answer.succeeded = true ∧
      s.log.filter (Event.isBrokerCommit k) = [.brokerCommit c k p.claims answer] ∧
      s.log.filter (Event.isReleaseOf answer.commitmentToken) = [] := by
  refine ⟨(hL.evidence p hp).mpr hwon, ?_⟩
  obtain ⟨c, claims, answer, out, hcommit, hout, _⟩ := htracks.commitReturned_of_won hwon
  have hwf := hL.wellFormed
  rw [hcommit] at hwf
  obtain ⟨hs, _⟩ := hwf hout
  have hclaims : claims = p.claims := by
    refine hL.claims p hp claims ?_
    rw [hcommit]
    rfl
  have hevents : L.commit.events k =
      [.brokerCommit c k p.claims answer, .commitReturned c k out] := by
    rw [hcommit, hclaims]
    simp only [CommitPhase.events, CommitPhase.releases, hout, ite_true, List.nil_append]
  have he : Event.brokerCommit c k p.claims answer ∈ s.log := by
    refine htracks.mem_log (decide_eq_true rfl) ?_
    rw [hevents]
    exact List.mem_cons_self ..
  refine ⟨c, answer, hs, ?_, ?_⟩
  · have hlaunch : (L.launch.events k).filter (Event.isBrokerCommit k) = [] :=
      List.countP_eq_zero.mp LaunchPhase.countP_isBrokerCommit |> List.filter_eq_nil_iff.mpr
    rw [htracks.filter fun _ _ => Event.concerns_of_isBrokerCommit, hevents, hlaunch]
    simp [Event.isBrokerCommit]
  · rw [filter_isReleaseOf hreach hfresh htracks he hs, hevents]
    rfl

/-- Under brokers that return normally, reserve nothing on failure and grant a fresh
non-empty token on success, commit is all or nothing in every interleaving. -/
theorem commit_all_or_nothing
    (h : (scheduler config).Run BrokerContract (initial config) es s) :
    CommitAllOrNothing es s := by
  have hcontract : (scheduler config).Reachable BrokerContract s := ⟨_, es, rfl, h⟩
  have hfresh : s.TokensFresh := tokensFresh (hcontract.mono fun _ _ h => h.1)
  have hrun : (scheduler config).Run NoRestore (initial config) es s :=
    h.mono fun s a h => grantsFresh_noRestore s a h.1
  have hreach : (scheduler config).Reachable NoRestore s := ⟨_, es, rfl, hrun⟩
  have hreturns : ∀ s a, BrokerContract s a → s.BrokerReturns a := fun _ _ h => h.2
  refine ⟨?_, ?_, ?_, ?_, ?_⟩
  · intro c k error
    exact commitThrew_not_mem hreturns hcontract error
  · intro c k
    constructor
    · rintro ⟨out, hret | hret, hout⟩
      · exact exists_commitsPlan hrun hret hout
      · exact absurd ((refusedOnly hreach hret).failed.symm.trans hout) Bool.false_ne_true
    · rintro ⟨e, he, hcommits⟩
      obtain ⟨_, _, _, _, _, hn, hafter⟩ := hrun.of_mem he
      obtain ⟨answer, hin⟩ :=
        (stepped_of_step hn).commitReturned_of_moves (moves_of_commitsPlan hcommits)
      exact ⟨_, Or.inl (mem_log_of_run hafter hin), rfl⟩
  · intro c k out hret hout
    exact ⟨not_moves_of_failed hrun hret hout,
      fun _ _ he hs => released_once hreach hfresh hret hout he hs⟩
  · intro k p hp hstate
    exact awaits_one hreturns hcontract hreach hp hstate
  · intro k p hp hstate
    obtain ⟨L, htracks, hL⟩ := exists_ledger hreach k
    have hplan : L.plan = some p := htracks.plan.symm.trans hp
    exact backed_of_won hreach hfresh htracks hL hplan (hL.won_of_state hplan hstate)

/-- A commit overtaken by a cancellation. -/
theorem commit_all_or_nothing_raced : ∃ es s,
    (scheduler Sample.config).Run BrokerContract (initial Sample.config) es s ∧
    es.map TransitionSystem.Step.act = Sample.scheduling ++ [.commitBegin ⟨1⟩,
      .brokerCommit 1 (Sample.grant [1]), .cancel ⟨1⟩, .commitFinish 1, .brokerRelease 1 true] ∧
    Sample.stateOf ⟨1⟩ s = some .cancelled ∧ CommitAllOrNothing es s := by
  have hrun : (after Sample.config BrokerContract (Sample.scheduling ++ [.commitBegin ⟨1⟩,
      .brokerCommit 1 (Sample.grant [1]), .cancel ⟨1⟩, .commitFinish 1,
      .brokerRelease 1 true])).map (Sample.stateOf ⟨1⟩) = some (some .cancelled) := by
    decide +kernel
  obtain ⟨es, s, hr, hact, hstate⟩ := exists_run_of_after hrun
  exact ⟨es, s, hr, hact, hstate, commit_all_or_nothing hr⟩

/-- A granted token whose commit is over and did not succeed has been given back. -/
theorem Tracks.released_of_over (h : s.Tracks k L) (hL : L.Consistent)
    (he : Event.brokerCommit c k claims answer ∈ s.log) (hs : answer.succeeded = true)
    (htoken : answer.commitmentToken ≠ [])
    (hlost : ∀ out, Event.commitReturned c k out ∈ s.log → out.succeeded = false)
    (hover : ∀ call, s.pending c = some call → ¬call.Commits k) :
    Event.brokerRelease c k answer.commitmentToken ∈ s.log := by
  obtain ⟨hcall, _, hanswer⟩ := h.brokerCommit he
  have hrelease := SchedulerState.releaseToken_of_succeeded hs htoken
  have hwf := hL.wellFormed
  have hkept : ∀ {e}, e.concerns k = true → e ∈ L.commit.events k → e ∈ s.log :=
    fun hk he => h.mem_log hk he
  have hheld := h.commit.held c
  cases hcommit : L.commit with
  | settled c₁ claims₁ answer₁ out₁ =>
      rw [hcommit] at hcall hanswer hkept
      obtain rfl := Option.some.inj hcall
      obtain rfl := Option.some.inj hanswer
      have hout : out₁.succeeded = false := by
        refine hlost out₁ (hkept (decide_eq_true rfl) ?_)
        exact List.mem_cons_of_mem _ (List.mem_append_right _ (List.mem_singleton_self _))
      refine hkept (decide_eq_true rfl) ?_
      simp [CommitPhase.events, CommitPhase.releases, hout, hrelease]
  | answered c₁ claims₁ answer₁ | returning c₁ claims₁ answer₁ =>
      rw [hcommit] at hcall hheld
      obtain rfl := Option.some.inj hcall
      obtain ⟨hpending, hcommits⟩ := hheld _ rfl
      exact absurd hcommits (hover _ hpending)
  | unreturned c₁ claims₁ answer₁ token₁ =>
      rw [hcommit] at hcall hanswer hwf hkept
      obtain rfl := Option.some.inj hcall
      obtain rfl := Option.some.inj hanswer
      obtain rfl := Option.some.inj (hrelease.symm.trans hwf)
      exact hkept (decide_eq_true rfl) (List.mem_cons_of_mem _ (List.mem_cons_self ..))
  | _ =>
      rw [hcommit] at hanswer
      cases hanswer

/-- No commit call is suspended. -/
def NoCommitInFlight (s : System) : Prop :=
  ∀ c call, s.pending c = some call → ∀ k, ¬call.Commits k

/-- The token was granted for the plan and not given back. -/
def Outstanding (s : System) (c : Nat) (k : PlacementPlanId) (claims : List ResourceClaim)
    (answer : ResourceCommitResult) : Prop :=
  Event.brokerCommit c k claims answer ∈ s.log ∧ answer.succeeded = true ∧
    ∀ c' k', Event.brokerRelease c' k' answer.commitmentToken ∉ s.log

/-- With no commit in flight an outstanding token belongs to a commit that succeeded. -/
theorem Tracks.won_of_outstanding (h : s.Tracks k L) (hL : L.Consistent)
    (hfresh : s.TokensFresh) (hidle : s.NoCommitInFlight)
    (hout : s.Outstanding c k claims answer) :
    L.commit = .settled c claims answer (SchedulerState.commitGranted answer) := by
  obtain ⟨he, hs, hkept⟩ := hout
  have htoken : answer.commitmentToken ≠ [] := by
    refine hfresh.nonempty _ he _ ?_
    rw [Event.grants?, hs, if_pos rfl]
  by_cases hlost : ∀ out, Event.commitReturned c k out ∈ s.log → out.succeeded = false
  · exact absurd (h.released_of_over hL he hs htoken hlost fun call hc => hidle c call hc k)
      (hkept c k)
  · obtain ⟨out, hlost⟩ := not_forall.mp hlost
    obtain ⟨hreturned, hout⟩ := Classical.not_imp.mp hlost
    obtain ⟨claims₁, answer₁, hcommit⟩ := h.commitReturned hreturned
    obtain ⟨_, hclaims, hanswer⟩ := h.brokerCommit he
    have hwf := hL.wellFormed
    rw [hcommit] at hclaims hanswer hwf
    obtain rfl := Option.some.inj hclaims
    obtain rfl := Option.some.inj hanswer
    rw [hcommit, (hwf (Bool.not_eq_false _ ▸ hout)).2]

/-- Under brokers that grant a fresh non-empty token on success, whenever no commit is in
flight an outstanding token was returned with success to the caller of the one commit of
its plan, which carries the evidence and the claims and may have been displaced since; and
a token that was returned with success is never given back by the scheduler. -/
theorem outstanding_held_by_caller (h : (scheduler config).Reachable GrantsFresh s)
    (hidle : s.NoCommitInFlight) :
    (∀ c k claims answer, s.Outstanding c k claims answer →
      Event.commitReturned c k (SchedulerState.commitGranted answer) ∈ s.log ∧
        ∃ p, s.sched.plans.find? k = some p ∧ p.hasCommitmentEvidence = true ∧
          p.claims = claims ∧ (p.state = .committed ∨ p.state = .awaitingExecution ∨
            p.state = .active ∨ p.state.isDisplacement = true)) ∧
    ∀ c k out, Event.commitReturned c k out ∈ s.log → out.succeeded = true →
      s.log.filter (Event.isReleaseOf out.commitmentToken) = [] := by
  have hfresh : s.TokensFresh := tokensFresh h
  have hreach := h.mono grantsFresh_noRestore
  constructor
  · intro c k claims answer hout
    obtain ⟨L, htracks, hL⟩ := exists_ledger hreach k
    have hcommit := htracks.won_of_outstanding hL hfresh hidle hout
    have hwon : L.commit.Won := by
      rw [hcommit]
      rfl
    refine ⟨htracks.mem_log (decide_eq_true rfl) ?_, ?_⟩
    · rw [hcommit]
      exact List.mem_cons_of_mem _ (List.mem_append_right _ (List.mem_singleton_self _))
    · cases hplan : L.plan with
      | none =>
          rw [(hL.absent hplan).1] at hcommit
          cases hcommit
      | some p =>
          refine ⟨p, htracks.plan.trans hplan, (hL.evidence p hplan).mpr hwon, ?_, ?_⟩
          · refine (hL.claims p hplan claims ?_).symm
            rw [hcommit]
            rfl
          · exact (hL.stage p hplan).of_won hwon
  · intro c k out he hout
    obtain ⟨L, htracks, hL⟩ := exists_ledger hreach k
    obtain ⟨claims, answer, hcommit⟩ := htracks.commitReturned he
    have hwf := hL.wellFormed
    rw [hcommit] at hwf
    obtain ⟨hs, rfl⟩ := hwf hout
    have hgrant : Event.brokerCommit c k claims answer ∈ s.log := by
      refine htracks.mem_log (decide_eq_true rfl) ?_
      rw [hcommit]
      exact List.mem_cons_self ..
    change s.log.filter (Event.isReleaseOf answer.commitmentToken) = []
    rw [filter_isReleaseOf hreach hfresh htracks hgrant hs, hcommit]
    rfl

/-- The observation of an execution with one granted token. -/
private def commitmentOf (s : System) :
    List Bytes × Nat × Bool × List PlacementLifecycleState :=
  (s.granted, s.log.countP (Event.isReleaseOf [1]), s.calls.slots.all Option.isNone,
    s.sched.plans.values.map PlacementPlan.state)

private theorem noCommitInFlight_of_slots (h : s.calls.slots.all Option.isNone = true) :
    s.NoCommitInFlight := by
  intro c call hc
  rw [pending, CallTable.pending] at hc
  have hslot : s.calls.slots[c]? = some (some call) := Option.join_eq_some_iff.mp hc
  have hnone := List.all_eq_true.mp h _ (List.mem_of_getElem? hslot)
  cases hnone

private theorem exists_outstanding (hgranted : s.granted = [[1]])
    (hkept : s.log.countP (Event.isReleaseOf [1]) = 0) :
    ∃ c k claims answer, s.Outstanding c k claims answer := by
  have hmem : [1] ∈ s.granted := by
    rw [hgranted]
    exact List.mem_singleton_self _
  obtain ⟨e, he, hgrant⟩ := List.mem_filterMap.mp hmem
  cases e with
  | brokerCommit c k claims answer =>
      cases hs : answer.succeeded with
      | false =>
          rw [Event.grants?, hs, if_neg Bool.false_ne_true] at hgrant
          cases hgrant
      | true =>
          rw [Event.grants?, hs, if_pos rfl] at hgrant
          refine ⟨c, k, claims, answer, he, hs, ?_⟩
          intro c' k' hrelease
          rw [Option.some.inj hgrant] at hrelease
          exact List.countP_eq_zero.mp hkept _ hrelease rfl
  | _ => cases hgrant

/-- A committed plan and its outstanding token. -/
theorem outstanding_held_committed : ∃ s c k claims answer p,
    (scheduler Sample.config).Reachable GrantsFresh s ∧ s.Outstanding c k claims answer ∧
    Event.commitReturned c k (SchedulerState.commitGranted answer) ∈ s.log ∧
    s.sched.plans.find? k = some p ∧ p.hasCommitmentEvidence = true := by
  have hrun : (after Sample.config GrantsFresh Sample.committing).map commitmentOf =
      some ([[1]], 0, true, [.committed]) := by decide +kernel
  obtain ⟨es, s, hr, _, hobs⟩ := exists_run_of_after hrun
  simp only [commitmentOf, Prod.mk.injEq] at hobs
  obtain ⟨hgranted, hkept, hslots, _⟩ := hobs
  obtain ⟨c, k, claims, answer, hout⟩ := exists_outstanding hgranted hkept
  obtain ⟨hheld, _⟩ :=
    outstanding_held_by_caller (reachable_of_run hr) (noCommitInFlight_of_slots hslots)
  obtain ⟨hret, p, hp, hevidence, _⟩ := hheld c k claims answer hout
  exact ⟨s, c, k, claims, answer, p, reachable_of_run hr, hout, hret, hp, hevidence⟩

/-- The token of a committed plan that is cancelled stays outstanding. -/
theorem outstanding_after_cancel : ¬∀ config s,
    (scheduler config).Reachable GrantsFresh s → s.NoCommitInFlight →
      ∀ c k claims answer, s.Outstanding c k claims answer →
        ∃ p, s.sched.plans.find? k = some p ∧
          (p.state = .committed ∨ p.state = .awaitingExecution ∨ p.state = .active) := by
  intro h
  have hrun : (after Sample.config GrantsFresh (Sample.committing ++ [.cancel ⟨1⟩])).map
      commitmentOf = some ([[1]], 0, true, [.cancelled]) := by decide +kernel
  obtain ⟨es, s, hr, _, hobs⟩ := exists_run_of_after hrun
  simp only [commitmentOf, Prod.mk.injEq] at hobs
  obtain ⟨hgranted, hkept, hslots, hplans⟩ := hobs
  obtain ⟨c, k, claims, answer, hout⟩ := exists_outstanding hgranted hkept
  obtain ⟨p, hp, hstate⟩ := h Sample.config s (reachable_of_run hr)
    (noCommitInFlight_of_slots hslots) c k claims answer hout
  have hmem : p.state ∈ s.sched.plans.values.map PlacementPlan.state :=
    List.mem_map_of_mem (OrderedMap.mem_values_iff.mpr ⟨k, hp⟩)
  rw [hplans, List.mem_singleton] at hmem
  rw [hmem] at hstate
  rcases hstate with hs | hs | hs <;> cases hs

end System

end FabricScheduler
