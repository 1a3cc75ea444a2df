import FabricScheduler.Scheduler.Steps

/-!
# The ledger of one plan

An abstract account of one plan id: the plan stored under it, how far its one commit has
come and how far its one handoff has come. Whatever the concurrent calls do, a ledger
only makes the steps listed here, and a consistent ledger stays consistent. The stored
state then tells which of the two has happened.
-/

namespace FabricScheduler

/-- The call is a commit of the plan, suspended after its first section. -/
def Call.Commits (planId : PlacementPlanId) : Call → Prop
  | .committing p _ | .settling p _ _ | .releasing p _ _ => p = planId
  | _ => False

/-- The call is a handoff of the plan, suspended after its first section. -/
def Call.Launches (planId : PlacementPlanId) : Call → Prop
  | .authorizing p _ | .launching p _ => p = planId
  | _ => False

/-- The event is about a commit or handoff of the plan that got past its first section. -/
def Event.concerns (planId : PlacementPlanId) : Event → Bool
  | .brokerCommit _ p _ _ | .brokerRelease _ p _ | .commitReturned _ p _
  | .commitThrew _ p _ | .authorize _ p _ _ | .handoffReturned _ p _
  | .handoffThrew _ p _ => p = planId
  | _ => false

/-- How far the commit of a plan has come. -/
inductive CommitPhase
  | unused
  | asking (call : Nat) (claims : List ResourceClaim)
  /-- The broker threw. -/
  | threw (call : Nat) (claims : List ResourceClaim)
  | answered (call : Nat) (claims : List ResourceClaim) (answer : ResourceCommitResult)
  | returning (call : Nat) (claims : List ResourceClaim) (answer : ResourceCommitResult)
      (token : Bytes) (out : ResourceCommitResult)
  | settled (call : Nat) (claims : List ResourceClaim) (answer out : ResourceCommitResult)
  /-- The broker threw when the token was released. -/
  | unreturned (call : Nat) (claims : List ResourceClaim) (answer : ResourceCommitResult)
      (token : Bytes)

namespace CommitPhase

/-- The suspended commit, and what it carries over. -/
def suspended (planId : PlacementPlanId) : CommitPhase → Option (Nat × Call)
  | .asking c claims => some (c, .committing planId claims)
  | .answered c claims answer => some (c, .settling planId claims answer)
  | .returning c _ _ token out => some (c, .releasing planId token out)
  | _ => none

/-- The releases a settled commit has made. -/
def releases (planId : PlacementPlanId) (c : Nat) (answer out : ResourceCommitResult) :
    List Event :=
  if out.succeeded then []
  else ((SchedulerState.releaseToken answer).map fun token =>
    Event.brokerRelease c planId token).toList

/-- What the log holds about the commit. -/
def events (planId : PlacementPlanId) : CommitPhase → List Event
  | .unused | .asking _ _ => []
  | .threw c _ => [.commitThrew c planId none]
  | .answered c claims answer | .returning c claims answer _ _ =>
      [.brokerCommit c planId claims answer]
  | .settled c claims answer out =>
      .brokerCommit c planId claims answer ::
        (releases planId c answer out ++ [.commitReturned c planId out])
  | .unreturned c claims answer token =>
      [.brokerCommit c planId claims answer, .brokerRelease c planId token,
        .commitThrew c planId none]

/-- The claims submitted to the broker. -/
def claims? : CommitPhase → Option (List ResourceClaim)
  | .unused => none
  | .asking _ claims | .threw _ claims | .answered _ claims _ | .returning _ claims _ _ _
  | .settled _ claims _ _ | .unreturned _ claims _ _ => some claims

/-- The commit is before its second section, or never reached it. -/
def Unsettled : CommitPhase → Prop
  | .asking _ _ | .threw _ _ | .answered _ _ _ => True
  | _ => False

/-- The commit returned success. -/
def Won : CommitPhase → Prop
  | .settled _ _ _ out => out.succeeded = true
  | _ => False

theorem not_won_settled {c : Nat} {claims : List ResourceClaim}
    {answer out : ResourceCommitResult} (h : out.succeeded = false) :
    ¬(settled c claims answer out).Won := by
  intro hwon
  rw [Won, h] at hwon
  cases hwon

/-- What a commit carries over or returned is what its sections compute. -/
def WellFormed : CommitPhase → Prop
  | .returning _ _ answer token out =>
      out.succeeded = false ∧ SchedulerState.releaseToken answer = some token
  | .settled _ _ answer out =>
      out.succeeded = true →
        answer.succeeded = true ∧ out = SchedulerState.commitGranted answer
  | .unreturned _ _ answer token => SchedulerState.releaseToken answer = some token
  | _ => True

/-- A commit that settled without success has nothing more to account for. -/
theorem wellFormed_settled {c : Nat} {claims : List ResourceClaim}
    {answer out : ResourceCommitResult} (h : out.succeeded = false) :
    (settled c claims answer out).WellFormed := by
  intro hwon
  rw [h] at hwon
  cases hwon

end CommitPhase

/-- How far the handoff of a plan has come. -/
inductive LaunchPhase
  | unused
  | asking (call : Nat) (plan : PlacementPlan)
  /-- The execution fabric threw. -/
  | threw (call : Nat) (plan : PlacementPlan)
  | answered (call : Nat) (plan : PlacementPlan) (answer : ExecutionHandoff)
  | returned (call : Nat) (plan : PlacementPlan) (answer out : ExecutionHandoff)
  /-- The plan could not become active any more. -/
  | failed (call : Nat) (plan : PlacementPlan) (answer : ExecutionHandoff)
      (error : FabricError)

namespace LaunchPhase

/-- The suspended handoff, and what it carries over. -/
def suspended (planId : PlacementPlanId) : LaunchPhase → Option (Nat × Call)
  | .asking c plan => some (c, .authorizing planId plan)
  | .answered c _ answer => some (c, .launching planId answer)
  | _ => none

/-- What the log holds about the handoff. -/
def events (planId : PlacementPlanId) : LaunchPhase → List Event
  | .unused | .asking _ _ => []
  | .threw c _ => [.handoffThrew c planId none]
  | .answered c plan answer => [.authorize c planId plan answer]
  | .returned c plan answer out =>
      [.authorize c planId plan answer, .handoffReturned c planId out]
  | .failed c plan answer error =>
      [.authorize c planId plan answer, .handoffThrew c planId (some error)]

/-- The handoff is before its second section, or never reached it. -/
def Unsettled : LaunchPhase → Prop
  | .asking _ _ | .threw _ _ | .answered _ _ _ => True
  | _ => False

/-- The handoff returned an authorization. -/
def Launched : LaunchPhase → Prop
  | .returned _ _ _ out => out.authorized = true
  | _ => False

end LaunchPhase

/-- The account of one plan id. -/
structure Ledger where
  plan : Option PlacementPlan
  commit : CommitPhase
  launch : LaunchPhase

namespace Ledger

/-- The account of an id that was never used. -/
def blank : Ledger := ⟨none, .unused, .unused⟩

/-- The steps of a ledger. -/
inductive Step : Ledger → Ledger → Prop
  | stay (L : Ledger) : Step L L
  | create {q : PlacementPlan} {commit : CommitPhase} {launch : LaunchPhase}
      (hstate : q.state = .planReady) (hevidence : q.hasCommitmentEvidence = false) :
      Step ⟨none, commit, launch⟩ ⟨some q, commit, launch⟩
  | displace {p q : PlacementPlan} {commit : CommitPhase} {launch : LaunchPhase}
      (h : p.Displaced q) : Step ⟨some p, commit, launch⟩ ⟨some q, commit, launch⟩
  | ask {p : PlacementPlan} {commit : CommitPhase} {launch : LaunchPhase} (c : Nat)
      (ordinal : UInt64) (hstate : p.state = .planReady) :
      Step ⟨some p, commit, launch⟩
        ⟨some (p.enter .awaitingResourceCommit ordinal), .asking c p.claims, launch⟩
  | brokerAnswers {plan : Option PlacementPlan} {launch : LaunchPhase} {c : Nat}
      {claims : List ResourceClaim} (answer : ResourceCommitResult) :
      Step ⟨plan, .asking c claims, launch⟩ ⟨plan, .answered c claims answer, launch⟩
  | brokerThrows {plan : Option PlacementPlan} {launch : LaunchPhase} {c : Nat}
      {claims : List ResourceClaim} :
      Step ⟨plan, .asking c claims, launch⟩ ⟨plan, .threw c claims, launch⟩
  | tooLate {plan : Option PlacementPlan} {launch : LaunchPhase} {c : Nat}
      {claims : List ResourceClaim} {answer out : ResourceCommitResult}
      (hout : out.succeeded = false)
      (hstate : ∀ p ∈ plan, p.state ≠ .awaitingResourceCommit) :
      Step ⟨plan, .answered c claims answer, launch⟩
        ⟨plan, .settled c claims answer out, launch⟩
  | release {plan : Option PlacementPlan} {launch : LaunchPhase} {c : Nat}
      {claims : List ResourceClaim} {answer out : ResourceCommitResult} {token : Bytes}
      (hout : out.succeeded = false)
      (htoken : SchedulerState.releaseToken answer = some token)
      (hstate : ∀ p ∈ plan, p.state ≠ .awaitingResourceCommit) :
      Step ⟨plan, .answered c claims answer, launch⟩
        ⟨plan, .returning c claims answer token out, launch⟩
  | deny {p q : PlacementPlan} {launch : LaunchPhase} {c : Nat}
      {claims : List ResourceClaim} {answer out : ResourceCommitResult}
      (h : p.Displaced q) (hout : out.succeeded = false) :
      Step ⟨some p, .answered c claims answer, launch⟩
        ⟨some q, .settled c claims answer out, launch⟩
  | grant {p : PlacementPlan} {launch : LaunchPhase} {c : Nat}
      {claims : List ResourceClaim} {answer : ResourceCommitResult} (ordinal : UInt64)
      (hstate : p.state = .awaitingResourceCommit) (hanswer : answer.succeeded = true) :
      Step ⟨some p, .answered c claims answer, launch⟩
        ⟨some (SchedulerState.committedPlan p claims ordinal),
          .settled c claims answer (SchedulerState.commitGranted answer), launch⟩
  | released {plan : Option PlacementPlan} {launch : LaunchPhase} {c : Nat}
      {claims : List ResourceClaim} {answer out : ResourceCommitResult} {token : Bytes} :
      Step ⟨plan, .returning c claims answer token out, launch⟩
        ⟨plan, .settled c claims answer out, launch⟩
  | releaseThrows {plan : Option PlacementPlan} {launch : LaunchPhase} {c : Nat}
      {claims : List ResourceClaim} {answer out : ResourceCommitResult} {token : Bytes} :
      Step ⟨plan, .returning c claims answer token out, launch⟩
        ⟨plan, .unreturned c claims answer token, launch⟩
  | askFabric {p : PlacementPlan} {commit : CommitPhase} {launch : LaunchPhase} (c : Nat)
      (ordinal : UInt64) (hstate : p.state = .committed) :
      Step ⟨some p, commit, launch⟩
        ⟨some (p.enter .awaitingExecution ordinal), commit, .asking c p⟩
  | fabricAnswers {plan : Option PlacementPlan} {commit : CommitPhase} {c : Nat}
      {snapshot : PlacementPlan} (answer : ExecutionHandoff) :
      Step ⟨plan, commit, .asking c snapshot⟩ ⟨plan, commit, .answered c snapshot answer⟩
  | fabricThrows {plan : Option PlacementPlan} {commit : CommitPhase} {c : Nat}
      {snapshot : PlacementPlan} :
      Step ⟨plan, commit, .asking c snapshot⟩ ⟨plan, commit, .threw c snapshot⟩
  | fence {p : PlacementPlan} {commit : CommitPhase} {c : Nat} {snapshot : PlacementPlan}
      {answer : ExecutionHandoff} (hstate : p.state ≠ .awaitingExecution) :
      Step ⟨some p, commit, .answered c snapshot answer⟩
        ⟨some p, commit, .returned c snapshot answer { answer with authorized := false }⟩
  | denyFabric {p q : PlacementPlan} {commit : CommitPhase} {c : Nat}
      {snapshot : PlacementPlan} {answer : ExecutionHandoff} (h : p.Displaced q)
      (hanswer : answer.authorized = false) :
      Step ⟨some p, commit, .answered c snapshot answer⟩
        ⟨some q, commit, .returned c snapshot answer answer⟩
  | launch {p : PlacementPlan} {commit : CommitPhase} {c : Nat} {snapshot : PlacementPlan}
      {answer : ExecutionHandoff} (ordinal : UInt64)
      (hcan : p.state.canTransition .active = true) (hanswer : answer.authorized = true) :
      Step ⟨some p, commit, .answered c snapshot answer⟩
        ⟨some (p.forceState .active ordinal), commit, .returned c snapshot answer answer⟩
  | launchThrows {p : PlacementPlan} {commit : CommitPhase} {c : Nat}
      {snapshot : PlacementPlan} {answer : ExecutionHandoff} (error : FabricError)
      (hstate : p.state ≠ .awaitingExecution) :
      Step ⟨some p, commit, .answered c snapshot answer⟩
        ⟨some p, commit, .failed c snapshot answer error⟩

/-- What the lifecycle state of the stored plan says about the two phases. -/
def Stage (L : Ledger) : PlacementLifecycleState → Prop
  | .planReady => L.commit = .unused
  | .awaitingResourceCommit => L.commit.Unsettled
  | .committed => L.launch = .unused ∧ L.commit.Won
  | .awaitingExecution => L.launch.Unsettled
  | .active => L.launch.Launched
  | .revalidationRequired | .superseded | .cancelled => True
  | _ => False

/-- The invariant of a ledger. -/
structure Consistent (L : Ledger) : Prop where
  absent : L.plan = none → L.commit = .unused ∧ L.launch = .unused
  stage : ∀ p, L.plan = some p → L.Stage p.state
  evidence : ∀ p, L.plan = some p → (p.hasCommitmentEvidence = true ↔ L.commit.Won)
  won : L.launch ≠ .unused → L.commit.Won
  claims : ∀ p, L.plan = some p → ∀ claims ∈ L.commit.claims?, claims = p.claims
  wellFormed : L.commit.WellFormed

theorem consistent_blank : blank.Consistent where
  absent _ := ⟨rfl, rfl⟩
  stage _ hp := by cases hp
  evidence _ hp := by cases hp
  won h := absurd rfl h
  claims _ hp := by cases hp
  wellFormed := trivial

theorem stage_of_isDisplacement (L : Ledger) {s : PlacementLifecycleState}
    (h : s.isDisplacement = true) : L.Stage s := by
  cases s <;> cases h <;> trivial

/-- A stored plan off its way to execution requires a revalidation or is terminal. -/
theorem Stage.of_not_isUnresolved {L : Ledger} {s : PlacementLifecycleState} (h : L.Stage s)
    (hs : s.isUnresolved = false) : s = .revalidationRequired ∨ s.isTerminal = true := by
  cases s with
  | revalidationRequired => exact Or.inl rfl
  | superseded => exact Or.inr rfl
  | cancelled => exact Or.inr rfl
  | planReady | awaitingResourceCommit | committed | awaitingExecution | active => cases hs
  | _ => exact h.elim

/-- A plan not awaiting its resources keeps its stage when the commit settles otherwise
than by success. -/
theorem Stage.settle {plan plan' : Option PlacementPlan} {commit commit' : CommitPhase}
    {launch : LaunchPhase} {s : PlacementLifecycleState}
    (h : Stage ⟨plan, commit, launch⟩ s) (hs : s ≠ .awaitingResourceCommit)
    (hcommit : commit ≠ .unused) (hwon : ¬commit.Won) : Stage ⟨plan', commit', launch⟩ s := by
  cases s with
  | planReady => exact absurd h hcommit
  | awaitingResourceCommit => exact absurd rfl hs
  | committed => exact absurd h.2 hwon
  | awaitingExecution => exact h
  | active => exact h
  | revalidationRequired => trivial
  | superseded => trivial
  | cancelled => trivial
  | _ => exact h.elim

/-- A plan not awaiting its execution keeps its stage when the handoff settles. -/
theorem Stage.settleLaunch {plan plan' : Option PlacementPlan} {commit : CommitPhase}
    {launch launch' : LaunchPhase} {s : PlacementLifecycleState}
    (h : Stage ⟨plan, commit, launch⟩ s) (hs : s ≠ .awaitingExecution)
    (hlaunch : launch ≠ .unused) (hlaunched : ¬launch.Launched) :
    Stage ⟨plan', commit, launch'⟩ s := by
  cases s with
  | planReady => exact h
  | awaitingResourceCommit => exact h
  | committed => exact absurd h.1 hlaunch
  | awaitingExecution => exact absurd rfl hs
  | active => exact absurd h hlaunched
  | revalidationRequired => trivial
  | superseded => trivial
  | cancelled => trivial
  | _ => exact h.elim

theorem Stage.ne_of_settled {L : Ledger} {s : PlacementLifecycleState} (h : L.Stage s)
    (hcommit : ¬L.commit.Unsettled) : s ≠ .awaitingResourceCommit := by
  rintro rfl
  exact hcommit h

/-- A plan whose commit succeeded is past its commitment or was displaced. -/
theorem Stage.of_won {L : Ledger} {s : PlacementLifecycleState} (h : L.Stage s)
    (hwon : L.commit.Won) :
    s = .committed ∨ s = .awaitingExecution ∨ s = .active ∨ s.isDisplacement = true := by
  cases s with
  | planReady =>
      rw [Stage] at h
      rw [h] at hwon
      exact hwon.elim
  | awaitingResourceCommit =>
      rw [Stage] at h
      cases hcommit : L.commit with
      | settled =>
          rw [hcommit] at h
          exact h.elim
      | _ =>
          rw [hcommit] at hwon
          exact hwon.elim
  | committed => exact Or.inl rfl
  | awaitingExecution => exact Or.inr (Or.inl rfl)
  | active => exact Or.inr (Or.inr (Or.inl rfl))
  | revalidationRequired => exact Or.inr (Or.inr (Or.inr rfl))
  | superseded => exact Or.inr (Or.inr (Or.inr rfl))
  | cancelled => exact Or.inr (Or.inr (Or.inr rfl))
  | _ => exact h.elim

/-- Every plan keeps its stage while its commit proceeds. -/
theorem Stage.proceed {plan plan' : Option PlacementPlan} {commit commit' : CommitPhase}
    {launch : LaunchPhase} {s : PlacementLifecycleState}
    (h : Stage ⟨plan, commit, launch⟩ s) (hcommit' : commit'.Unsettled)
    (hcommit : commit ≠ .unused) (hwon : ¬commit.Won) : Stage ⟨plan', commit', launch⟩ s := by
  by_cases hs : s = .awaitingResourceCommit
  · rw [hs]
    exact hcommit'
  · exact h.settle hs hcommit hwon

/-- Every plan keeps its stage while its handoff proceeds. -/
theorem Stage.proceedLaunch {plan plan' : Option PlacementPlan} {commit : CommitPhase}
    {launch launch' : LaunchPhase} {s : PlacementLifecycleState}
    (h : Stage ⟨plan, commit, launch⟩ s) (hlaunch' : launch'.Unsettled)
    (hlaunch : launch ≠ .unused) (hlaunched : ¬launch.Launched) :
    Stage ⟨plan', commit, launch'⟩ s := by
  by_cases hs : s = .awaitingExecution
  · rw [hs]
    exact hlaunch'
  · exact h.settleLaunch hs hlaunch hlaunched

theorem Consistent.launch_unused {L : Ledger} (h : L.Consistent) (hwon : ¬L.commit.Won) :
    L.launch = .unused := by
  by_contra hne
  exact hwon (h.won hne)

/-- A step that neither wins nor loses the commitment keeps the ledger consistent when it
keeps the plan's claims, its evidence and its stage. -/
theorem Consistent.moved {plan plan' : Option PlacementPlan} {commit commit' : CommitPhase}
    {launch launch' : LaunchPhase} (h : Consistent ⟨plan, commit, launch⟩)
    (hused : commit ≠ .unused ∨ launch ≠ .unused) (hnone : plan' = none → plan = none)
    (hplan : ∀ q ∈ plan', ∃ p ∈ plan, q.claims = p.claims ∧
      q.hasCommitmentEvidence = p.hasCommitmentEvidence ∧
      Stage ⟨plan', commit', launch'⟩ q.state)
    (hwon : commit'.Won ↔ commit.Won) (hclaims : commit'.claims? = commit.claims?)
    (hlaunch : launch' ≠ .unused → launch ≠ .unused) (hwf : commit'.WellFormed) :
    Consistent ⟨plan', commit', launch'⟩ where
  absent hp := by
    obtain ⟨hc, hl⟩ := h.absent (hnone hp)
    exact (hused.elim (absurd hc) (absurd hl))
  stage q hq := by
    obtain ⟨_, _, _, _, hstage⟩ := hplan q hq
    exact hstage
  evidence q hq := by
    obtain ⟨p, hp, _, hevidence, _⟩ := hplan q hq
    rw [hevidence, hwon]
    exact h.evidence p hp
  won hl := hwon.mpr (h.won (hlaunch hl))
  claims q hq claims hc := by
    obtain ⟨p, hp, hsame, _, _⟩ := hplan q hq
    rw [hsame]
    exact h.claims p hp claims (hclaims ▸ hc)
  wellFormed := hwf

private theorem consistent_create {q : PlacementPlan} {commit : CommitPhase}
    {launch : LaunchPhase} (h : Consistent ⟨none, commit, launch⟩)
    (hstate : q.state = .planReady) (hevidence : q.hasCommitmentEvidence = false) :
    Consistent ⟨some q, commit, launch⟩ := by
  obtain ⟨rfl, rfl⟩ := h.absent rfl
  refine ⟨nofun, ?_, ?_, fun hl => absurd rfl hl, ?_, trivial⟩
  · intro p hp
    obtain rfl := Option.some.inj hp
    rw [hstate]
    rfl
  · intro p hp
    obtain rfl := Option.some.inj hp
    rw [hevidence]
    exact ⟨nofun, False.elim⟩
  · intro p _ claims hc
    cases hc

private theorem consistent_displace {p q : PlacementPlan} {commit : CommitPhase}
    {launch : LaunchPhase} (h : Consistent ⟨some p, commit, launch⟩) (hd : p.Displaced q) :
    Consistent ⟨some q, commit, launch⟩ := by
  refine ⟨nofun, ?_, ?_, h.won, ?_, h.wellFormed⟩
  · intro r hr
    obtain rfl := Option.some.inj hr
    exact stage_of_isDisplacement _ hd.displacement
  · intro r hr
    obtain rfl := Option.some.inj hr
    rw [hd.evidence]
    exact h.evidence p rfl
  · intro r hr claims hc
    obtain rfl := Option.some.inj hr
    rw [hd.claims]
    exact h.claims p rfl claims hc

private theorem consistent_ask {p : PlacementPlan} {commit : CommitPhase}
    {launch : LaunchPhase} (h : Consistent ⟨some p, commit, launch⟩) (c : Nat)
    (ordinal : UInt64) (hstate : p.state = .planReady) :
    Consistent ⟨some (p.enter .awaitingResourceCommit ordinal), .asking c p.claims, launch⟩ := by
  have hcommit : commit = .unused := by
    have hstage := h.stage p rfl
    rw [hstate] at hstage
    exact hstage
  subst hcommit
  have hlaunch : launch = .unused := h.launch_unused id
  subst hlaunch
  refine ⟨nofun, ?_, ?_, fun hl => absurd rfl hl, ?_, trivial⟩
  · intro q hq
    obtain rfl := Option.some.inj hq
    trivial
  · intro q hq
    obtain rfl := Option.some.inj hq
    exact h.evidence p rfl
  · intro q hq claims hc
    obtain rfl := Option.some.inj hq
    exact (Option.some.inj hc).symm

private theorem consistent_grant {p : PlacementPlan} {launch : LaunchPhase} {c : Nat}
    {claims : List ResourceClaim} {answer : ResourceCommitResult}
    (h : Consistent ⟨some p, .answered c claims answer, launch⟩) (ordinal : UInt64)
    (hanswer : answer.succeeded = true) :
    Consistent ⟨some (SchedulerState.committedPlan p claims ordinal),
      .settled c claims answer (SchedulerState.commitGranted answer), launch⟩ := by
  have hlaunch : launch = .unused := h.launch_unused id
  subst hlaunch
  refine ⟨nofun, ?_, ?_, fun hl => absurd rfl hl, ?_, fun _ => ⟨hanswer, rfl⟩⟩
  · intro q hq
    obtain rfl := Option.some.inj hq
    exact ⟨rfl, rfl⟩
  · intro q hq
    obtain rfl := Option.some.inj hq
    exact ⟨fun _ => rfl, fun _ => rfl⟩
  · intro q hq claims hc
    obtain rfl := Option.some.inj hq
    exact (Option.some.inj hc).symm

private theorem consistent_askFabric {p : PlacementPlan} {commit : CommitPhase}
    {launch : LaunchPhase} (h : Consistent ⟨some p, commit, launch⟩) (c : Nat)
    (ordinal : UInt64) (hstate : p.state = .committed) :
    Consistent ⟨some (p.enter .awaitingExecution ordinal), commit, .asking c p⟩ := by
  have hwon : commit.Won := by
    have hstage := h.stage p rfl
    rw [hstate] at hstage
    exact hstage.2
  refine ⟨nofun, ?_, ?_, fun _ => hwon, ?_, h.wellFormed⟩
  · intro q hq
    obtain rfl := Option.some.inj hq
    trivial
  · intro q hq
    obtain rfl := Option.some.inj hq
    exact h.evidence p rfl
  · intro q hq claims hc
    obtain rfl := Option.some.inj hq
    exact h.claims p rfl claims hc

/-- The account stays consistent whatever happens to its plan. -/
theorem Step.consistent {L L' : Ledger} (hstep : Step L L') (h : L.Consistent) :
    L'.Consistent := by
  cases hstep with
  | stay => exact h
  | create hstate hevidence => exact consistent_create h hstate hevidence
  | displace hd => exact consistent_displace h hd
  | ask c ordinal hstate => exact consistent_ask h c ordinal hstate
  | brokerAnswers answer =>
      refine h.moved (Or.inl nofun) id ?_ Iff.rfl rfl id trivial
      intro q hq
      exact ⟨q, hq, rfl, rfl, (h.stage q hq).proceed trivial nofun id⟩
  | brokerThrows =>
      refine h.moved (Or.inl nofun) id ?_ Iff.rfl rfl id trivial
      intro q hq
      exact ⟨q, hq, rfl, rfl, (h.stage q hq).proceed trivial nofun id⟩
  | tooLate hout hstate =>
      refine h.moved (Or.inl nofun) id ?_
        (iff_of_false (CommitPhase.not_won_settled hout) id) rfl id
        (CommitPhase.wellFormed_settled hout)
      intro q hq
      exact ⟨q, hq, rfl, rfl, (h.stage q hq).settle (hstate q hq) nofun id⟩
  | release hout htoken hstate =>
      refine h.moved (Or.inl nofun) id ?_ Iff.rfl rfl id ⟨hout, htoken⟩
      intro q hq
      exact ⟨q, hq, rfl, rfl, (h.stage q hq).settle (hstate q hq) nofun id⟩
  | deny hd hout =>
      refine h.moved (Or.inl nofun) nofun ?_
        (iff_of_false (CommitPhase.not_won_settled hout) id) rfl id
        (CommitPhase.wellFormed_settled hout)
      intro q hq
      obtain rfl := Option.some.inj hq
      exact ⟨_, rfl, hd.claims, hd.evidence, stage_of_isDisplacement _ hd.displacement⟩
  | grant ordinal _ hanswer => exact consistent_grant h ordinal hanswer
  | released =>
      obtain ⟨hout, _⟩ := h.wellFormed
      refine h.moved (Or.inl nofun) id ?_
        (iff_of_false (CommitPhase.not_won_settled hout) id) rfl id
        (CommitPhase.wellFormed_settled hout)
      intro q hq
      have hne : q.state ≠ .awaitingResourceCommit := (h.stage q hq).ne_of_settled id
      exact ⟨q, hq, rfl, rfl, (h.stage q hq).settle hne nofun id⟩
  | releaseThrows =>
      obtain ⟨_, htoken⟩ := h.wellFormed
      refine h.moved (Or.inl nofun) id ?_ Iff.rfl rfl id htoken
      intro q hq
      have hne : q.state ≠ .awaitingResourceCommit := (h.stage q hq).ne_of_settled id
      exact ⟨q, hq, rfl, rfl, (h.stage q hq).settle hne nofun id⟩
  | askFabric c ordinal hstate => exact consistent_askFabric h c ordinal hstate
  | fabricAnswers answer =>
      refine h.moved (Or.inr nofun) id ?_ Iff.rfl rfl (fun _ => nofun) h.wellFormed
      intro q hq
      exact ⟨q, hq, rfl, rfl, (h.stage q hq).proceedLaunch trivial nofun id⟩
  | fabricThrows =>
      refine h.moved (Or.inr nofun) id ?_ Iff.rfl rfl (fun _ => nofun) h.wellFormed
      intro q hq
      exact ⟨q, hq, rfl, rfl, (h.stage q hq).proceedLaunch trivial nofun id⟩
  | @fence p _ _ _ _ hstate =>
      refine h.moved (Or.inr nofun) nofun ?_ Iff.rfl rfl (fun _ => nofun) h.wellFormed
      intro q hq
      obtain rfl := Option.some.inj hq
      exact ⟨p, rfl, rfl, rfl, (h.stage p rfl).settleLaunch hstate nofun id⟩
  | denyFabric hd _ =>
      refine h.moved (Or.inr nofun) nofun ?_ Iff.rfl rfl (fun _ => nofun) h.wellFormed
      intro q hq
      obtain rfl := Option.some.inj hq
      exact ⟨_, rfl, hd.claims, hd.evidence, stage_of_isDisplacement _ hd.displacement⟩
  | @launch p _ _ _ _ ordinal _ hanswer =>
      refine h.moved (Or.inr nofun) nofun ?_ Iff.rfl rfl (fun _ => nofun) h.wellFormed
      intro q hq
      obtain rfl := Option.some.inj hq
      refine ⟨p, rfl, (p.sameDecision_forceState _ _).claims,
        p.forceState_hasCommitmentEvidence _ _, ?_⟩
      rw [PlacementPlan.forceState_state]
      exact hanswer
  | @launchThrows p _ _ _ _ error hstate =>
      refine h.moved (Or.inr nofun) nofun ?_ Iff.rfl rfl (fun _ => nofun) h.wellFormed
      intro q hq
      obtain rfl := Option.some.inj hq
      exact ⟨p, rfl, rfl, rfl, (h.stage p rfl).settleLaunch hstate nofun id⟩

end Ledger

end FabricScheduler
