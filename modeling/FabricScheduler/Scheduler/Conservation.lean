import FabricScheduler.Scheduler.Commitment

/-!
# Accounting for commitment tokens

From the broker's answer on, a token is in exactly one place: with a commit call that has
yet to settle it or is giving it back, back with the broker, or evidenced by the plan that
was committed with it. No interleaving loses one or counts one twice.
-/

namespace FabricScheduler

/-- The tokens a call was granted that are neither given back nor evidenced yet. -/
def Call.tokens : Call → Nat
  | .settling _ _ answer => answer.succeeded.toNat
  | .releasing _ _ _ => 1
  | _ => 0

/-- The event gives a token back. -/
def Event.isRelease : Event → Bool
  | .brokerRelease _ _ _ => true
  | _ => false

/-- The event is about no token that is granted or given back. -/
def Event.Tokenless (e : Event) : Prop := e.grants? = none ∧ e.isRelease = false

/-- A displacement leaves the evidence. -/
theorem Displacement.map_evidence {when : PlacementPlan → Prop}
    {before after : Option PlacementPlan} (h : Displacement when before after) :
    after.map PlacementPlan.hasCommitmentEvidence =
      before.map PlacementPlan.hasCommitmentEvidence := by
  cases h with
  | kept => rfl
  | displaced _ h => exact congrArg some h.evidence

namespace Sample

/-- Three commits, of which one has settled, one finds its plan cancelled and one has yet to
settle. -/
def settlingThrice : List Action :=
  committing ++
    [.scheduleBegin (request ⟨2⟩), .scheduleFinish 2 (.pure none none),
      .scheduleBegin (request ⟨3⟩), .scheduleFinish 3 (.pure none none), .commitBegin ⟨2⟩,
      .commitBegin ⟨3⟩, .brokerCommit 4 (grant [2]), .cancel ⟨2⟩, .commitFinish 4,
      .brokerRelease 4 true, .brokerCommit 5 (grant [3])]

end Sample

namespace SchedulerState

variable {st st' : SchedulerState} {k : PlacementPlanId} {p q : PlacementPlan}

/-- How many stored plans carry the evidence of a commitment. -/
def evidenced (st : SchedulerState) : Nat :=
  st.plans.values.countP PlacementPlan.hasCommitmentEvidence

/-- The count is determined by what each lookup tells of the evidence. -/
theorem evidenced_congr (h : ∀ k, (st'.plans.find? k).map PlacementPlan.hasCommitmentEvidence =
    (st.plans.find? k).map PlacementPlan.hasCommitmentEvidence) :
    st'.evidenced = st.evidenced := by
  have hmap := OrderedMap.map_values_of_find? PlacementPlan.hasCommitmentEvidence h
  have hcount : ∀ st : SchedulerState, st.evidenced =
      (st.plans.values.map PlacementPlan.hasCommitmentEvidence).countP id := by
    intro st
    rw [List.countP_map]
    rfl
  rw [hcount, hcount, hmap]

theorem evidenced_withPlan (hp : st.plans.find? k = some p) :
    (st.withPlan k q).evidenced + p.hasCommitmentEvidence.toNat =
      st.evidenced + q.hasCommitmentEvidence.toNat := by
  have hcount := st.plans.countP_insert k q PlacementPlan.hasCommitmentEvidence
  rw [hp, Option.any_some] at hcount
  exact hcount

/-- Storing a plan anew with its evidence unchanged changes no count. -/
theorem evidenced_withPlan_of_eq (hp : st.plans.find? k = some p)
    (h : q.hasCommitmentEvidence = p.hasCommitmentEvidence) :
    (st.withPlan k q).evidenced = st.evidenced := by
  have hcount := evidenced_withPlan (q := q) hp
  rw [h] at hcount
  exact Nat.add_right_cancel hcount

theorem evidenced_scheduleSecond (st : SchedulerState) (request : SchedulingRequest)
    (views : ScheduleViews) (snapshot : List Candidate) :
    (st.scheduleSecond request views snapshot).2.evidenced = st.evidenced := by
  cases hrank : rankSnapshot st.rankOptions request views snapshot with
  | nil => rw [scheduleSecond_of_nil hrank]; rfl
  | cons winner others =>
      rw [scheduleSecond_of_cons hrank]
      exact st.plans.countP_emplace_of_not _ (created_storedPlan hrank).evidence

end SchedulerState

namespace System

variable {config : SchedulerConfig} {s t : System} {a : Action} {c : Nat} {old : Call}
  {sched : SchedulerState} {call : Option Call} {events : List Event}

/-- The tokens that commit calls hold. -/
def held (s : System) : Nat := s.calls.total Call.tokens

/-- How often a token was given back. -/
def released (s : System) : Nat := s.log.countP Event.isRelease

/-- Every granted token is accounted for. -/
def Balanced (s : System) : Prop :=
  s.granted.length = s.held + s.released + s.sched.evidenced

private theorem tokenless_counts (h : ∀ e ∈ events, e.Tokenless) :
    (events.filterMap Event.grants?).length = 0 ∧ events.countP Event.isRelease = 0 := by
  have hgrants : events.filterMap Event.grants? = [] :=
    List.filterMap_eq_nil_iff.mpr fun e he => (h e he).1
  refine ⟨by rw [hgrants, List.length_nil], ?_⟩
  refine List.countP_eq_zero.mpr fun e he hrelease => ?_
  rw [(h e he).2] at hrelease
  cases hrelease

theorem Balanced.whole (h : s.Balanced) (hsched : sched.evidenced = s.sched.evidenced)
    (hevents : ∀ e ∈ events, e.Tokenless) : (s.whole sched events).Balanced := by
  obtain ⟨hgrants, hreleases⟩ := tokenless_counts hevents
  simp only [Balanced, granted, held, released, System.whole, List.filterMap_append,
    List.length_append, List.countP_append, hgrants, hreleases, hsched] at h ⊢
  omega

theorem Balanced.begun (h : s.Balanced) (hsched : sched.evidenced = s.sched.evidenced)
    (hcall : call.elim 0 Call.tokens = 0) (hevents : ∀ e ∈ events, e.Tokenless) :
    (s.begun sched call events).Balanced := by
  obtain ⟨hgrants, hreleases⟩ := tokenless_counts hevents
  simp only [Balanced, granted, held, released, System.begun, List.filterMap_append,
    List.length_append, List.countP_append, CallTable.total_opened, hgrants, hreleases, hsched,
    hcall] at h ⊢
  omega

/-- A suspended call moves on, and what it held or was granted is held by it still, given
back or evidenced. -/
theorem Balanced.continued (h : s.Balanced) (hc : s.pending c = some old)
    (hsum : (events.filterMap Event.grants?).length + old.tokens + s.sched.evidenced =
      call.elim 0 Call.tokens + events.countP Event.isRelease + sched.evidenced) :
    (s.continued c sched call events).Balanced := by
  have hcount := CallTable.total_resumed hc Call.tokens call
  simp only [Balanced, granted, held, released, System.continued, List.filterMap_append,
    List.length_append, List.countP_append] at h ⊢
  omega

/-- A step keeps the account balanced when a granted token is not empty and a plan without
a settled commit carries no evidence. -/
theorem Stepped.balanced (h : Stepped s a t) (hno : s.NoRestore a)
    (htokens : ∀ c k claims answer, s.pending c = some (.settling k claims answer) →
      answer.succeeded = true → answer.commitmentToken ≠ [])
    (hplans : ∀ c k claims answer p, s.pending c = some (.settling k claims answer) →
      s.sched.plans.find? k = some p → p.hasCommitmentEvidence = false)
    (hs : s.Balanced) : t.Balanced := by
  have hnone : ∀ e ∈ ([] : List Event), e.Tokenless := fun e he => (List.not_mem_nil he).elim
  have hone : ∀ {e : Event}, e.Tokenless → ∀ e' ∈ [e], e'.Tokenless :=
    fun he e' he' => List.mem_singleton.mp he' ▸ he
  cases h with
  | setEpoch epoch =>
      exact hs.whole (SchedulerState.evidenced_congr fun k =>
        (s.sched.displacement_setEpoch epoch k).map_evidence) hnone
  | cancel requestId =>
      exact hs.whole (SchedulerState.evidenced_congr fun k =>
        (s.sched.displacement_cancel requestId k).map_evidence) hnone
  | supersede oldRequest newRequest reason =>
      exact hs.whole (SchedulerState.evidenced_congr fun k =>
        (s.sched.displacement_supersede oldRequest newRequest reason k).map_evidence) hnone
  | revalidate planId current =>
      exact hs.whole (SchedulerState.evidenced_congr fun k =>
        (s.sched.displacement_revalidate planId current k).map_evidence) hnone
  | fenceWorker | fenceSource | notIngested => exact hs.whole rfl hnone
  | ingested | snapshot => exact hs.whole rfl (hone ⟨rfl, rfl⟩)
  | scheduleRefused | commitRefused | handoffRefused =>
      exact hs.begun rfl rfl (hone ⟨rfl, rfl⟩)
  | scheduleBegun => exact hs.begun rfl rfl hnone
  | commitAsks hp | handoffAsks hp =>
      exact hs.begun (SchedulerState.evidenced_withPlan_of_eq hp rfl) rfl hnone
  | @scheduled c request snapshot hc views decision =>
      refine hs.continued hc ?_
      rw [s.sched.evidenced_scheduleSecond request views snapshot]
      rfl
  | scheduleThrew hc | brokerThrows hc | fabricAnswers hc | fabricThrows hc
  | handoffVanished hc | handoffFenced hc | handoffThrows hc | releaseReturns hc
  | releaseThrows hc => exact hs.continued hc rfl
  | @brokerAnswers c planId claims hc answer =>
      refine hs.continued hc ?_
      cases hanswer : answer.succeeded <;>
        simp [Event.grants?, Call.tokens, Event.isRelease, hanswer]
  | @commitTooLate c planId claims answer out hc hout hstale htoken =>
      have hanswer : answer.succeeded = false := by
        by_contra hne
        have hs : answer.succeeded = true := Bool.not_eq_false _ ▸ hne
        rw [SchedulerState.releaseToken, if_pos ⟨hs, htokens c planId claims answer hc hs⟩]
          at htoken
        cases htoken
      refine hs.continued hc ?_
      simp [Event.grants?, Call.tokens, Event.isRelease, hanswer]
  | @commitReleases c planId claims answer out token hc hout hstale htoken =>
      have hanswer : answer.succeeded = true := by
        rw [SchedulerState.releaseToken] at htoken
        split at htoken
        · rename_i hgranted
          exact hgranted.1
        · cases htoken
      refine hs.continued hc ?_
      simp [Call.tokens, hanswer]
  | @commitDenied c planId claims answer out p hc hp hfresh hanswer hout =>
      refine hs.continued hc ?_
      rw [SchedulerState.evidenced_withPlan_of_eq hp
        (p.forceState_hasCommitmentEvidence .revalidationRequired _)]
      simp [Event.grants?, Call.tokens, Event.isRelease, hanswer]
  | @commitGranted c planId claims answer p hc hp hfresh hanswer =>
      have hcount := SchedulerState.evidenced_withPlan
        (q := SchedulerState.committedPlan p claims s.sched.nextEventOrdinal) hp
      rw [hplans c planId claims answer p hc hp] at hcount
      refine hs.continued hc ?_
      change 0 + answer.succeeded.toNat + s.sched.evidenced = 0 + 0 + _
      rw [hanswer, Nat.zero_add, Nat.zero_add, Nat.add_comm]
      exact hcount.symm
  | @handoffDenied c planId x p hc hp hfresh hanswer =>
      refine hs.continued hc ?_
      rw [SchedulerState.evidenced_withPlan_of_eq hp
        (p.forceState_hasCommitmentEvidence .revalidationRequired _)]
      rfl
  | @handoffLaunches c planId x p hc hp hfresh hanswer hcan =>
      refine hs.continued hc ?_
      rw [SchedulerState.evidenced_withPlan_of_eq hp
        (p.forceState_hasCommitmentEvidence .active _)]
      rfl
  | restore => exact hno.elim

end System

end FabricScheduler
