import FabricScheduler.Scheduler.Operations

/-!
# What each critical section does

One characterisation for each section: its outcome, and what it leaves under every plan
id. Later proofs use these and never unfold a section.
-/

namespace FabricScheduler

namespace PlacementLifecycleState

/-- The states of a plan that is still on its way to execution. -/
def isUnresolved : PlacementLifecycleState → Bool
  | .planReady | .awaitingResourceCommit | .committed | .awaitingExecution | .active => true
  | _ => false

theorem isUnresolved_of_isTerminal {s : PlacementLifecycleState} (h : s.isTerminal = true) :
    s.isUnresolved = false := by
  cases s <;> first | rfl | cases h

theorem isUnresolved_of_isAuthoritative {s : PlacementLifecycleState}
    (h : s.isAuthoritative = true) : s.isUnresolved = true := by
  cases s <;> first | rfl | cases h

/-- The states an operation moves a stored plan to when it takes it out of its way to
execution. -/
def isDisplacement : PlacementLifecycleState → Bool
  | .revalidationRequired | .superseded | .cancelled => true
  | _ => false

theorem isUnresolved_of_isDisplacement {s : PlacementLifecycleState}
    (h : s.isDisplacement = true) : s.isUnresolved = false := by
  cases s <;> first | rfl | cases h

/-- A plan past `REQUESTED` that is not terminal may be displaced. -/
theorem canTransition_of_isDisplacement {s t : PlacementLifecycleState}
    (hs : s ≠ .requested) (hterm : s.isTerminal = false) (ht : t.isDisplacement = true) :
    s.canTransition t = true := by
  cases t <;> cases ht <;> cases s <;> first | rfl | exact absurd rfl hs | cases hterm

end PlacementLifecycleState

namespace PlacementPlan

/-- `q` is the plan `p` taken out of its way to execution. -/
structure Displaced (p q : PlacementPlan) : Prop extends SameDecision p q where
  evidence : q.hasCommitmentEvidence = p.hasCommitmentEvidence
  displacement : q.state.isDisplacement = true

theorem displaced_forceState (p : PlacementPlan) (dst : PlacementLifecycleState)
    (h : dst.isDisplacement = true) (ordinal : UInt64) :
    p.Displaced (p.forceState dst ordinal) where
  toSameDecision := p.sameDecision_forceState dst ordinal
  evidence := p.forceState_hasCommitmentEvidence dst ordinal
  displacement := by rw [forceState_state, h]

end PlacementPlan

/-- What an operation does to the plan stored under one id: nothing, or it displaces a
plan meeting `when`. -/
inductive Displacement (when : PlacementPlan → Prop) :
    Option PlacementPlan → Option PlacementPlan → Prop
  | kept (plan : Option PlacementPlan) : Displacement when plan plan
  | displaced {p q : PlacementPlan} (hwhen : when p) (h : p.Displaced q) :
      Displacement when (some p) (some q)

theorem Displacement.imp {when when' : PlacementPlan → Prop} {before after : Option PlacementPlan}
    (h : Displacement when before after) (hw : ∀ p, when p → when' p) :
    Displacement when' before after := by
  cases h with
  | kept => exact .kept _
  | displaced hwhen h => exact .displaced (hw _ hwhen) h

theorem Displacement.eq_none {when : PlacementPlan → Prop} {after : Option PlacementPlan}
    (h : Displacement when none after) : after = none := by
  cases h
  rfl

namespace SchedulerState

/-- The state with one plan rewritten and one event ordinal consumed. -/
def withPlan (st : SchedulerState) (planId : PlacementPlanId) (plan : PlacementPlan) :
    SchedulerState :=
  { st with
    nextEventOrdinal := st.nextEventOrdinal + 1
    plans := st.plans.insert planId plan }

@[simp] theorem find?_withPlan (st : SchedulerState) (planId k : PlacementPlanId)
    (plan : PlacementPlan) :
    (st.withPlan planId plan).plans.find? k =
      if k = planId then some plan else st.plans.find? k :=
  st.plans.find?_insert planId k plan

theorem find?_withPlan_self {st : SchedulerState} {k : PlacementPlanId} {plan : PlacementPlan} :
    (st.withPlan k plan).plans.find? k = some plan := by
  rw [find?_withPlan, if_pos rfl]

theorem find?_withPlan_other {st : SchedulerState} {planId k : PlacementPlanId}
    {plan : PlacementPlan} (h : planId ≠ k) :
    (st.withPlan planId plan).plans.find? k = st.plans.find? k := by
  rw [find?_withPlan, if_neg (Ne.symm h)]

private theorem foldl_ordinals (when : PlacementPlan → Bool) (plans : List PlacementPlan)
    (ordinal : UInt64) :
    plans.foldl (fun ordinal plan => if when plan then ordinal + 1 else ordinal) ordinal =
      ordinal + UInt64.ofNat (plans.countP when) := by
  induction plans generalizing ordinal with
  | nil => simp
  | cons plan rest ih =>
      rw [List.foldl_cons, ih, List.countP_cons]
      cases when plan with
      | false => simp
      | true => simp [UInt64.ofNat_add, UInt64.add_assoc, UInt64.add_comm 1]

private theorem fst_forced (when : PlacementPlan → Bool)
    (edit : PlacementPlan → PlacementPlan) (dst : PlacementLifecycleState) (ordinal : UInt64)
    (plan : PlacementPlan) :
    (if when plan then (ordinal + 1, (edit plan).forceState dst ordinal)
      else (ordinal, plan)).1 = if when plan then ordinal + 1 else ordinal := by
  split <;> rfl

/-- The fencing loop rewrites each plan in place, with an ordinal of its own: the plans
meeting the test are numbered in the order of their ids. -/
theorem find?_forcePlans_before (st : SchedulerState) (when : PlacementPlan → Bool)
    (edit : PlacementPlan → PlacementPlan) (dst : PlacementLifecycleState)
    (k : PlacementPlanId) :
    (st.forcePlans when edit dst).plans.find? k = (st.plans.find? k).map fun p =>
      if when p then (edit p).forceState dst
        (st.nextEventOrdinal + UInt64.ofNat ((st.plans.before k).countP when)) else p := by
  rw [← foldl_ordinals]
  have hpass := st.plans.find?_pass_before
    (fun ordinal _ plan => fst_forced when edit dst ordinal plan) st.nextEventOrdinal k
  refine hpass.trans ?_
  congr 1
  funext p
  split <;> rfl

/-- The fencing loop rewrites each plan in place. -/
theorem find?_forcePlans (st : SchedulerState) (when : PlacementPlan → Bool)
    (edit : PlacementPlan → PlacementPlan) (dst : PlacementLifecycleState)
    (k : PlacementPlanId) :
    ∃ ordinal, (st.forcePlans when edit dst).plans.find? k =
      (st.plans.find? k).map fun p =>
        if when p then (edit p).forceState dst ordinal else p :=
  ⟨_, st.find?_forcePlans_before when edit dst k⟩

/-- The fencing loop consumes one event ordinal for each plan meeting its test. -/
theorem nextEventOrdinal_forcePlans (st : SchedulerState) (when : PlacementPlan → Bool)
    (edit : PlacementPlan → PlacementPlan) (dst : PlacementLifecycleState) :
    (st.forcePlans when edit dst).nextEventOrdinal =
      st.nextEventOrdinal + UInt64.ofNat (st.plans.values.countP when) := by
  rw [← foldl_ordinals]
  refine st.plans.fst_pass ?_ st.nextEventOrdinal
  intro ordinal k plan
  exact fst_forced when edit dst ordinal plan

theorem displacement_forcePlans (st : SchedulerState) (when : PlacementPlan → Bool)
    (edit : PlacementPlan → PlacementPlan) (dst : PlacementLifecycleState)
    (hdst : dst.isDisplacement = true) (hedit : ∀ p : PlacementPlan, p.SameDecision (edit p))
    (hevidence : ∀ p, (edit p).hasCommitmentEvidence = p.hasCommitmentEvidence)
    (k : PlacementPlanId) :
    Displacement (fun p => when p = true) (st.plans.find? k)
      ((st.forcePlans when edit dst).plans.find? k) := by
  obtain ⟨ordinal, h⟩ := st.find?_forcePlans when edit dst k
  rw [h]
  cases st.plans.find? k with
  | none => exact .kept none
  | some p =>
      rw [Option.map_some]
      cases hw : when p with
      | false => exact .kept (some p)
      | true =>
          have hd := (edit p).displaced_forceState dst hdst ordinal
          exact .displaced hw
            { toSameDecision := (hedit p).trans hd.toSameDecision
              evidence := hd.evidence.trans (hevidence p)
              displacement := hd.displacement }

/-- A publishable candidate that is not fenced and newer than the one held. -/
def Takes (st : SchedulerState) (candidate : Candidate) : Prop :=
  candidate.Publishable ∧ candidate.workerBootId ∉ st.fencedWorkers ∧
    candidate.sourceBootId ∉ st.fencedSources ∧
    ∀ held, st.candidates.find? candidate.candidateId = some held →
      held.candidateGeneration < candidate.candidateGeneration

/-- An ingest is refused without effect, or the candidate is stored; `out` is its outcome. -/
def Ingests (st : SchedulerState) (candidate : Candidate)
    (out : Except FabricError Unit × SchedulerState) : Prop :=
  (∃ e, out = (.error e, st) ∧ ¬st.Takes candidate) ∨
    out = (.ok (), { st with
      candidates := st.candidates.insert candidate.candidateId candidate
      ingestWatermark := st.ingestWatermark + 1 }) ∧ st.Takes candidate

/-- A guard in front of an ingest refuses only what is not to be taken. -/
private theorem Ingests.guard {st : SchedulerState} {candidate : Candidate} {c : Prop}
    [Decidable c] {code : ErrorCode} {message : String}
    {out : Except FabricError Unit × SchedulerState} (hc : st.Takes candidate → ¬c)
    (h : ¬c → st.Ingests candidate out) :
    st.Ingests candidate (if c then (fail code message, st) else out) := by
  split
  · rename_i hrefused
    exact Or.inl ⟨_, rfl, fun htakes => hc htakes hrefused⟩
  · rename_i hpassed
    exact h hpassed

/-- An ingest is refused without effect, or stores the candidate, which is to be taken. -/
theorem ingestCandidate_cases (st : SchedulerState) (candidate : Candidate) :
    st.Ingests candidate (st.ingestCandidate candidate) := by
  unfold ingestCandidate
  refine .guard (fun h => by simp [h.1.candidateId]) fun hid => ?_
  refine .guard (fun h => by simp [h.1.candidateGeneration]) fun hgeneration => ?_
  refine .guard (fun h => by simp [h.1.sourceBootId]) fun hsource => ?_
  refine .guard (fun h => by simp [h.1.workerBootId]) fun hworker => ?_
  refine .guard (fun h => h.1.evidence) fun hevidence => ?_
  refine .guard (fun h => h.2.1) fun hfenced => ?_
  refine .guard (fun h => h.2.2.1) fun hfenced' => ?_
  have hpublishable : candidate.Publishable :=
    ⟨by simpa using hid, by simpa using hgeneration, by simpa using hsource,
      by simpa using hworker, hevidence⟩
  cases hheld : st.candidates.find? candidate.candidateId with
  | none =>
      refine Or.inr ⟨rfl, hpublishable, hfenced, hfenced', ?_⟩
      intro held hfound
      cases hheld.symm.trans hfound
  | some held =>
      refine .guard (fun h => not_le.mpr (h.2.2.2 held hheld)) fun hnewer => ?_
      refine Or.inr ⟨rfl, hpublishable, hfenced, hfenced', ?_⟩
      intro held' hfound
      rw [hheld] at hfound
      rw [← Option.some.inj hfound]
      exact not_le.mp hnewer

/-- The state after an accepted epoch change. -/
def advanced (st : SchedulerState) (epoch : CoordinatorEpoch) : SchedulerState :=
  { st with epoch, authority := st.authority.next }.forcePlans
    (fun plan => !plan.state.isTerminal) id .revalidationRequired

/-- An epoch change has no effect unless it moves forward. -/
theorem setEpoch_cases (st : SchedulerState) (epoch : CoordinatorEpoch) :
    (epoch ≤ st.epoch ∧ (st.setEpoch epoch).2 = st) ∨
      (st.epoch < epoch ∧ (st.setEpoch epoch).2 = st.advanced epoch) := by
  unfold setEpoch
  split
  · rename_i h
    exact Or.inl ⟨h.ge, rfl⟩
  · split
    · rename_i h
      exact Or.inl ⟨h, rfl⟩
    · rename_i h
      exact Or.inr ⟨not_le.mp h, rfl⟩

/-- An epoch change changes no more than epoch, authority, plans and event ordinals. -/
theorem setEpoch_frame (st : SchedulerState) (epoch : CoordinatorEpoch) :
    (st.setEpoch epoch).2 = { st with
      epoch := (st.setEpoch epoch).2.epoch
      authority := (st.setEpoch epoch).2.authority
      nextEventOrdinal := (st.setEpoch epoch).2.nextEventOrdinal
      plans := (st.setEpoch epoch).2.plans } := by
  rcases st.setEpoch_cases epoch with ⟨_, h⟩ | ⟨_, h⟩
  · rw [h]
  · rw [h]
    rfl

/-- An accepted epoch change displaces plans that are not terminal, and no others. -/
theorem displacement_advanced (st : SchedulerState) (epoch : CoordinatorEpoch)
    (k : PlacementPlanId) :
    Displacement (fun p => p.state.isTerminal = false) (st.plans.find? k)
      ((st.advanced epoch).plans.find? k) := by
  refine (displacement_forcePlans { st with epoch, authority := st.authority.next }
    (fun plan => !plan.state.isTerminal) id .revalidationRequired rfl .refl (fun _ => rfl)
    k).imp ?_
  intro p hp
  simpa using hp

/-- An epoch change displaces plans that are not terminal, and no others. -/
theorem displacement_setEpoch (st : SchedulerState) (epoch : CoordinatorEpoch)
    (k : PlacementPlanId) :
    Displacement (fun p => p.state.isTerminal = false) (st.plans.find? k)
      ((st.setEpoch epoch).2.plans.find? k) := by
  rcases st.setEpoch_cases epoch with ⟨_, h⟩ | ⟨_, h⟩
  · rw [h]
    exact .kept _
  · rw [h]
    exact st.displacement_advanced epoch k

/-- A cancellation displaces plans of its request that are not terminal, and no others. -/
theorem displacement_cancel (st : SchedulerState) (requestId : SchedulingRequestId)
    (k : PlacementPlanId) :
    Displacement (fun p => p.state.isTerminal = false) (st.plans.find? k)
      ((st.cancel requestId).plans.find? k) := by
  refine (displacement_forcePlans
    { st with cancelledRequests := insert requestId st.cancelledRequests }
    (fun plan => plan.requestId = requestId && !plan.state.isTerminal) id .cancelled rfl
    .refl (fun _ => rfl) k).imp ?_
  intro p hp
  simp only [Bool.and_eq_true, Bool.not_eq_true'] at hp
  exact hp.2

/-- A supersession displaces plans of the old request that are not terminal, and no
others. -/
theorem displacement_supersede (st : SchedulerState)
    (oldRequest newRequest : SchedulingRequestId) (reason : Bytes) (k : PlacementPlanId) :
    Displacement (fun p => p.state.isTerminal = false) (st.plans.find? k)
      ((st.supersede oldRequest newRequest reason).plans.find? k) := by
  refine (displacement_forcePlans st
    (fun plan => plan.requestId = oldRequest && !plan.state.isTerminal)
    (fun plan =>
      { plan with
        supersededBy := (st.latestPlanByRequest.find? newRequest).getD ⟨0⟩
        supersessionReason := reason })
    .superseded rfl (fun p => ⟨rfl, rfl, rfl, rfl, rfl, rfl, rfl, rfl⟩) (fun _ => rfl) k).imp ?_
  intro p hp
  simp only [Bool.and_eq_true, Bool.not_eq_true'] at hp
  exact hp.2

/-- A revalidation either has no effect or forces a plan whose generations diverge. -/
theorem revalidate_cases (st : SchedulerState) (planId : PlacementPlanId)
    (current : GenerationFingerprint) :
    ((∀ p, st.plans.find? planId = some p → p.generations = current) ∧
        (st.revalidate planId current).2 = st) ∨
      ∃ p, st.plans.find? planId = some p ∧ p.generations ≠ current ∧
        (st.revalidate planId current).2 =
          st.withPlan planId (p.forceState .revalidationRequired st.nextEventOrdinal) := by
  cases hp : st.plans.find? planId with
  | none =>
      refine Or.inl ⟨?_, by simp only [revalidate, hp]⟩
      intro p hp
      cases hp
  | some p =>
      by_cases hg : p.generations = current
      · refine Or.inl ⟨?_, ?_⟩
        · intro q hq
          rwa [← Option.some.inj hq]
        · simp only [revalidate, hp, revalidatePlan, hg, decide_true, ite_true]
      · refine Or.inr ⟨p, rfl, hg, ?_⟩
        simp only [revalidate, hp, revalidatePlan, hg, decide_false, Bool.false_eq_true,
          ite_false, withPlan]

/-- A revalidation changes no more than plans and event ordinals. -/
theorem revalidate_frame (st : SchedulerState) (planId : PlacementPlanId)
    (current : GenerationFingerprint) :
    (st.revalidate planId current).2 = { st with
      nextEventOrdinal := (st.revalidate planId current).2.nextEventOrdinal
      plans := (st.revalidate planId current).2.plans } := by
  rcases st.revalidate_cases planId current with ⟨_, h⟩ | ⟨_, _, _, h⟩
  · rw [h]
  · rw [h]
    rfl

/-- A revalidation displaces its plan when a generation diverges, terminal or not, and
touches no other plan. -/
theorem displacement_revalidate (st : SchedulerState) (planId : PlacementPlanId)
    (current : GenerationFingerprint) (k : PlacementPlanId) :
    Displacement (fun p => k = planId ∧ p.generations ≠ current) (st.plans.find? k)
      ((st.revalidate planId current).2.plans.find? k) := by
  rcases st.revalidate_cases planId current with ⟨_, h⟩ | ⟨p, hp, hg, h⟩
  · rw [h]
    exact .kept _
  · rw [h, find?_withPlan]
    split
    · rename_i hk
      rw [hk, hp]
      exact .displaced ⟨rfl, hg⟩
        (p.displaced_forceState .revalidationRequired rfl st.nextEventOrdinal)
    · exact .kept _

/-- A plan found after the fencing loop was forced by it or did not meet its test. -/
theorem forcePlans_cases {st : SchedulerState} {when : PlacementPlan → Bool}
    {edit : PlacementPlan → PlacementPlan} {dst : PlacementLifecycleState}
    {k : PlacementPlanId} {q : PlacementPlan}
    (h : (st.forcePlans when edit dst).plans.find? k = some q) :
    q.state = dst ∨ (st.plans.find? k = some q ∧ when q = false) := by
  obtain ⟨ordinal, hk⟩ := st.find?_forcePlans when edit dst k
  rw [hk] at h
  obtain ⟨p, hp, hq⟩ := Option.map_eq_some_iff.mp h
  cases hw : when p with
  | true =>
      rw [hw, if_pos rfl] at hq
      rw [← hq]
      exact Or.inl (PlacementPlan.forceState_state ..)
  | false =>
      rw [hw, if_neg Bool.false_ne_true] at hq
      rw [← hq]
      exact Or.inr ⟨hp, hw⟩

/-- After an accepted epoch change no plan is on its way to execution. -/
theorem isUnresolved_advanced {st : SchedulerState} {epoch : CoordinatorEpoch}
    {k : PlacementPlanId} {q : PlacementPlan}
    (h : (st.advanced epoch).plans.find? k = some q) : q.state.isUnresolved = false := by
  rcases forcePlans_cases h with hq | ⟨_, hw⟩
  · rw [hq]
    rfl
  · refine PlacementLifecycleState.isUnresolved_of_isTerminal ?_
    simpa using hw

/-- After a recovery no plan is on its way to execution. -/
theorem isUnresolved_restore {st : SchedulerState} {persisted : Persisted}
    {k : PlacementPlanId} {q : PlacementPlan}
    (h : (st.restore persisted).plans.find? k = some q) : q.state.isUnresolved = false := by
  rcases forcePlans_cases h with hq | ⟨_, hw⟩
  · rw [hq]
    rfl
  · refine PlacementLifecycleState.isUnresolved_of_isTerminal ?_
    simpa using hw

/-- The plan after the four steps of its pipeline. -/
def pipelined (plan : PlacementPlan) (ordinal : UInt64) : PlacementPlan :=
  (((plan.enter .discovering ordinal).enter .filtering (ordinal + 1)).enter .ranking
    (ordinal + 2)).enter .planReady (ordinal + 3)

/-- The pipeline of a plan in its initial state runs through. -/
theorem advancePipeline_eq {plan : PlacementPlan} (h : plan.state = .requested)
    (ordinal : UInt64) : advancePipeline plan ordinal = .ok (pipelined plan ordinal) := by
  have hne : ∀ dst : PlacementLifecycleState, dst ≠ .requested → plan.state ≠ dst := by
    intro dst hdst
    rw [h]
    exact hdst.symm
  rw [advancePipeline,
    PlacementPlan.advanceLocal_eq_enter (hne .discovering (by decide)) (by rw [h]; rfl)]
  simp only [Bind.bind, Except.bind]
  rw [PlacementPlan.advanceLocal_eq_enter (by rw [PlacementPlan.enter_state]; decide) rfl]
  simp only
  rw [PlacementPlan.advanceLocal_eq_enter (by rw [PlacementPlan.enter_state]; decide) rfl]
  simp only
  exact PlacementPlan.advanceLocal_eq_enter (by rw [PlacementPlan.enter_state]; decide) rfl _

/-- What is known of a plan when it is stored. -/
structure Created (st : SchedulerState) (request : SchedulingRequest)
    (snapshot : List Candidate) (q : PlacementPlan) : Prop where
  planId : q.planId = ⟨st.nextPlanId⟩
  ready : q.state = .planReady
  evidence : q.hasCommitmentEvidence = false
  requestId : q.requestId = request.requestId
  authority : q.authorityGeneration = st.authority
  epoch : q.coordinatorEpoch = st.epoch
  selected : ∃ c ∈ snapshot, q.selectedCandidate = c.candidateId ∧
    q.selectedCandidateGeneration = c.candidateGeneration

/-- Every ranked entry ranks its own candidate, which is one of the snapshot and eligible. -/
theorem mem_rankSnapshot {options : RankOptions} {request : SchedulingRequest}
    {views : ScheduleViews} {snapshot : List Candidate} {e : RankedEntry}
    (h : e ∈ rankSnapshot options request views snapshot) :
    e.candidate ∈ snapshot ∧ e.rank = rankerEvaluate request e.candidate options ∧
      (hardFilterEvaluate request e.candidate (views.dependency e.candidate)
        (views.policy e.candidate)).eligible = true := by
  rw [rankSnapshot, List.mem_insertionSort, List.mem_filterMap] at h
  obtain ⟨c, hc, he⟩ := h
  simp only [evaluateCandidate] at he
  split at he
  · rename_i heligible
    obtain rfl := Option.some.inj he
    exact ⟨hc, rfl, heligible⟩
  · cases he

/-- The plan a pass stores for its winner. -/
def storedPlan (st : SchedulerState) (request : SchedulingRequest) (views : ScheduleViews)
    (snapshot : List Candidate) (winner : RankedEntry) (others : List RankedEntry) :
    PlacementPlan :=
  pipelined (st.buildPlan request views
    (rejectSnapshot st.rankOptions request views snapshot) winner others) st.nextEventOrdinal

private theorem advancePipeline_buildPlan (st : SchedulerState) (request : SchedulingRequest)
    (views : ScheduleViews) (rejections : List RejectedAlternative) (winner : RankedEntry)
    (others : List RankedEntry) (ordinal : UInt64) :
    advancePipeline (st.buildPlan request views rejections winner others) ordinal =
      .ok (pipelined (st.buildPlan request views rejections winner others) ordinal) :=
  advancePipeline_eq rfl ordinal

theorem created_storedPlan {st : SchedulerState} {request : SchedulingRequest}
    {views : ScheduleViews} {snapshot : List Candidate} {winner : RankedEntry}
    {others : List RankedEntry}
    (h : rankSnapshot st.rankOptions request views snapshot = winner :: others) :
    Created st request snapshot (st.storedPlan request views snapshot winner others) := by
  obtain ⟨hmem, hrank, _⟩ := mem_rankSnapshot (h ▸ List.mem_cons_self ..)
  refine ⟨rfl, rfl, rfl, rfl, rfl, rfl, winner.candidate, hmem, ?_, ?_⟩
  · exact congrArg RankedCandidate.candidateId hrank
  · exact congrArg RankedCandidate.candidateGeneration hrank

/-- A pass with an eligible candidate stores the plan of the winner. -/
theorem scheduleSecond_of_cons {st : SchedulerState} {request : SchedulingRequest}
    {views : ScheduleViews} {snapshot : List Candidate} {winner : RankedEntry}
    {others : List RankedEntry}
    (h : rankSnapshot st.rankOptions request views snapshot = winner :: others) :
    (st.scheduleSecond request views snapshot).2 =
      { st with
        nextPlanId := st.nextPlanId + 1
        nextEventOrdinal := st.nextEventOrdinal + 4
        plans := st.plans.emplace ⟨st.nextPlanId⟩
          (st.storedPlan request views snapshot winner others)
        latestPlanByRequest :=
          st.latestPlanByRequest.insert request.requestId ⟨st.nextPlanId⟩ } := by
  simp only [scheduleSecond, h, advancePipeline_buildPlan]
  rfl

/-- A pass with an eligible candidate creates a plan under the next id, if that is free, and
records no request. -/
theorem exists_created {st : SchedulerState} {request : SchedulingRequest}
    {views : ScheduleViews} {snapshot : List Candidate}
    (hranks : rankSnapshot st.rankOptions request views snapshot ≠ [])
    (hfree : st.plans.find? ⟨st.nextPlanId⟩ = none) :
    ∃ p, (st.scheduleSecond request views snapshot).2.plans.find? ⟨st.nextPlanId⟩ = some p ∧
      Created st request snapshot p ∧
      (st.scheduleSecond request views snapshot).2.requests = st.requests ∧
      (st.scheduleSecond request views snapshot).2.cancelledRequests =
        st.cancelledRequests := by
  obtain ⟨winner, others, h⟩ := List.exists_cons_of_ne_nil hranks
  have hplan := OrderedMap.find?_emplace_of_none
    (st.storedPlan request views snapshot winner others) hfree ⟨st.nextPlanId⟩
  rw [if_pos rfl] at hplan
  rw [scheduleSecond_of_cons h]
  exact ⟨_, hplan, created_storedPlan h, rfl, rfl⟩

/-- A pass without an eligible candidate only records its request. -/
theorem scheduleSecond_of_nil {st : SchedulerState} {request : SchedulingRequest}
    {views : ScheduleViews} {snapshot : List Candidate}
    (h : rankSnapshot st.rankOptions request views snapshot = []) :
    (st.scheduleSecond request views snapshot).2 =
      { st with requests := st.requests.insert request.requestId request } := by
  simp only [scheduleSecond, h]

/-- A pass changes no more than the plans, their index, the requests and the counters. -/
theorem scheduleSecond_frame (st : SchedulerState) (request : SchedulingRequest)
    (views : ScheduleViews) (snapshot : List Candidate) :
    (st.scheduleSecond request views snapshot).2 = { st with
      nextPlanId := (st.scheduleSecond request views snapshot).2.nextPlanId
      nextEventOrdinal := (st.scheduleSecond request views snapshot).2.nextEventOrdinal
      requests := (st.scheduleSecond request views snapshot).2.requests
      plans := (st.scheduleSecond request views snapshot).2.plans
      latestPlanByRequest :=
        (st.scheduleSecond request views snapshot).2.latestPlanByRequest } := by
  cases h : rankSnapshot st.rankOptions request views snapshot with
  | nil => rw [scheduleSecond_of_nil h]
  | cons winner others => rw [scheduleSecond_of_cons h]

/-- The decision of a pass with an eligible candidate. -/
theorem scheduleSecond_decision_of_cons {st : SchedulerState} {request : SchedulingRequest}
    {views : ScheduleViews} {snapshot : List Candidate} {winner : RankedEntry}
    {others : List RankedEntry}
    (h : rankSnapshot st.rankOptions request views snapshot = winner :: others) :
    (st.scheduleSecond request views snapshot).1 = .ok
      { request
        plan := st.storedPlan request views snapshot winner others
        eligible := (winner :: others).map fun e => e.rank.candidateId
        disqualified := (rejectSnapshot st.rankOptions request views snapshot).map
          RejectedAlternative.candidateId
        rejections := rejectSnapshot st.rankOptions request views snapshot
        producedPlan := true
        summary := text "selected candidate " ++ decimal winner.rank.candidateId.value } := by
  simp only [scheduleSecond, h, advancePipeline_buildPlan]
  rfl

/-- The decision of a pass without an eligible candidate. -/
theorem scheduleSecond_decision_of_nil {st : SchedulerState} {request : SchedulingRequest}
    {views : ScheduleViews} {snapshot : List Candidate}
    (h : rankSnapshot st.rankOptions request views snapshot = []) :
    (st.scheduleSecond request views snapshot).1 = .ok
      { request
        plan := default
        eligible := []
        disqualified := (rejectSnapshot st.rankOptions request views snapshot).map
          RejectedAlternative.candidateId
        rejections := rejectSnapshot st.rankOptions request views snapshot
        producedPlan := false
        summary :=
          if rejectSnapshot st.rankOptions request views snapshot = [] then
            text "no candidates"
          else text "all candidates hard-rejected" } := by
  simp only [scheduleSecond, h, List.map_nil]

/-- A decision with a plan comes from a winner, and its plan is the one stored for it. -/
theorem exists_storedPlan_of_producedPlan {st : SchedulerState} {request : SchedulingRequest}
    {views : ScheduleViews} {snapshot : List Candidate} {d : PlacementDecision}
    (hd : (st.scheduleSecond request views snapshot).1 = .ok d) (hplan : d.producedPlan = true) :
    ∃ winner others,
      rankSnapshot st.rankOptions request views snapshot = winner :: others ∧
      d.request = request ∧ d.plan = st.storedPlan request views snapshot winner others := by
  cases h : rankSnapshot st.rankOptions request views snapshot with
  | nil =>
      rw [scheduleSecond_decision_of_nil h] at hd
      obtain rfl := Except.ok.inj hd
      cases hplan
  | cons winner others =>
      rw [scheduleSecond_decision_of_cons h] at hd
      obtain rfl := Except.ok.inj hd
      exact ⟨winner, others, rfl, rfl, rfl⟩

/-- A pass never throws. -/
theorem scheduleSecond_isOk (st : SchedulerState) (request : SchedulingRequest)
    (views : ScheduleViews) (snapshot : List Candidate) :
    ∃ decision, (st.scheduleSecond request views snapshot).1 = .ok decision := by
  cases h : rankSnapshot st.rankOptions request views snapshot with
  | nil => exact ⟨_, scheduleSecond_decision_of_nil h⟩
  | cons winner others => exact ⟨_, scheduleSecond_decision_of_cons h⟩

/-- The ids a stored plan places its work on are those of ranked entries. -/
theorem mem_placed_storedPlan {st : SchedulerState} {request : SchedulingRequest}
    {views : ScheduleViews} {snapshot : List Candidate} {winner : RankedEntry}
    {others : List RankedEntry} {id : CandidateId}
    (h : id ∈ (st.storedPlan request views snapshot winner others).selectedCandidate ::
      (st.storedPlan request views snapshot winner others).fallbackCandidates) :
    ∃ e ∈ winner :: others, e.rank.candidateId = id := by
  rcases List.mem_cons.mp h with hselected | hfallback
  · exact ⟨winner, List.mem_cons_self .., hselected.symm⟩
  · obtain ⟨e, he, hid⟩ := List.mem_map.mp hfallback
    exact ⟨e, List.mem_cons_of_mem _ (List.mem_of_mem_take he), hid⟩

/-- What a pass does to the plan stored under one id: nothing, or it stores a new one
under the next id, which was unused. -/
theorem scheduleSecond_plans (st : SchedulerState) (request : SchedulingRequest)
    (views : ScheduleViews) (snapshot : List Candidate) (k : PlacementPlanId) :
    (st.scheduleSecond request views snapshot).2.plans.find? k = st.plans.find? k ∨
      (st.plans.find? k = none ∧ k = ⟨st.nextPlanId⟩ ∧ ∃ q, Created st request snapshot q ∧
        (st.scheduleSecond request views snapshot).2.plans.find? k = some q) := by
  cases h : rankSnapshot st.rankOptions request views snapshot with
  | nil =>
      rw [scheduleSecond_of_nil h]
      exact Or.inl rfl
  | cons winner others =>
      rw [scheduleSecond_of_cons h]
      simp only [OrderedMap.find?_emplace]
      split
      · rename_i hk
        rw [hk]
        cases hp : st.plans.find? ⟨st.nextPlanId⟩ with
        | none => exact Or.inr ⟨rfl, rfl, _, created_storedPlan h, rfl⟩
        | some p => exact Or.inl rfl
      · exact Or.inl rfl

/-- The plan a pass stores places on an eligible candidate. -/
theorem exists_eligible_of_stored {st : SchedulerState} {request : SchedulingRequest}
    {views : ScheduleViews} {snapshot : List Candidate} {k : PlacementPlanId}
    {q : PlacementPlan} (hnone : st.plans.find? k = none)
    (hq : (st.scheduleSecond request views snapshot).2.plans.find? k = some q) :
    ∃ c ∈ snapshot, q.selectedCandidate = c.candidateId ∧
      q.selectedCandidateGeneration = c.candidateGeneration ∧
      (hardFilterEvaluate request c (views.dependency c) (views.policy c)).eligible =
        true := by
  cases h : rankSnapshot st.rankOptions request views snapshot with
  | nil =>
      rw [scheduleSecond_of_nil h] at hq
      cases hnone.symm.trans hq
  | cons winner others =>
      obtain ⟨hmem, hrank, heligible⟩ := mem_rankSnapshot (h ▸ List.mem_cons_self ..)
      rw [scheduleSecond_of_cons h, OrderedMap.find?_emplace] at hq
      split at hq
      · rename_i hk
        rw [← hk, hnone] at hq
        obtain rfl := Option.some.inj hq
        exact ⟨winner.candidate, hmem, congrArg RankedCandidate.candidateId hrank,
          congrArg RankedCandidate.candidateGeneration hrank, heligible⟩
      · cases hnone.symm.trans hq

/-- The guards a plan passes before an external owner is asked: one of three refusals, or
the plan is in the state asked for, not cancelled and of the current authority. -/
theorem guards_cases {ρ : Type} (st : SchedulerState) (p : PlacementPlan)
    (src : PlacementLifecycleState) (unready cancelled stale passed : ρ) :
    let outcome :=
      if p.state ≠ src then unready
      else if p.requestId ∈ st.cancelledRequests then cancelled
      else if p.authorityGeneration ≠ st.authority then stale
      else passed
    (outcome = unready ∨ outcome = cancelled ∨ outcome = stale) ∨
      (p.state = src ∧ p.requestId ∉ st.cancelledRequests ∧
        p.authorityGeneration = st.authority ∧ outcome = passed) := by
  by_cases hstate : p.state = src
  · by_cases hcancel : p.requestId ∈ st.cancelledRequests
    · simp [hstate, hcancel]
    · by_cases hauth : p.authorityGeneration = st.authority
      · exact Or.inr ⟨hstate, hcancel, hauth, by simp [hstate, hcancel, hauth]⟩
      · simp [hstate, hcancel, hauth]
  · simp [hstate]

/-- First section of a commit: refused without effect, or the ready plan starts to await
its commitment. -/
theorem commitFirst_cases (st : SchedulerState) (planId : PlacementPlanId) :
    (∃ out, out.succeeded = false ∧ st.commitFirst planId = (.ok (.inl out), st)) ∨
      ∃ p, st.plans.find? planId = some p ∧ p.state = .planReady ∧
        p.requestId ∉ st.cancelledRequests ∧ p.authorityGeneration = st.authority ∧
        st.commitFirst planId = (.ok (.inr p.claims),
          st.withPlan planId (p.enter .awaitingResourceCommit st.nextEventOrdinal)) := by
  unfold commitFirst
  cases hp : st.plans.find? planId with
  | none => exact Or.inl ⟨_, rfl, rfl⟩
  | some p =>
      rcases st.guards_cases p .planReady _ _ _ _ with (h | h | h) |
        ⟨hstate, hcancel, hauth, h⟩
      · exact Or.inl ⟨_, rfl, h⟩
      · exact Or.inl ⟨_, rfl, h⟩
      · exact Or.inl ⟨_, rfl, h⟩
      · refine Or.inr ⟨p, rfl, hstate, hcancel, hauth, h.trans ?_⟩
        rw [PlacementPlan.advanceLocal_eq_enter (by rw [hstate]; decide) (by rw [hstate]; rfl)]
        rfl

/-- The plan a successful commit leaves. -/
def committedPlan (p : PlacementPlan) (claims : List ResourceClaim) (ordinal : UInt64) :
    PlacementPlan :=
  { { p with hasCommitmentEvidence := true }.enter .committed ordinal with claims }

/-- The result of a successful commit. -/
def commitGranted (answer : ResourceCommitResult) : ResourceCommitResult :=
  ⟨true, answer.commitmentToken, answer.resourceGeneration, [], false⟩

/-- A plan whose commit is resumed too late, or whose commit the broker refused. -/
theorem releaseToken_of_not_succeeded {answer : ResourceCommitResult}
    (h : answer.succeeded = false) : releaseToken answer = none := by
  simp only [releaseToken, h, Bool.false_eq_true, false_and, ite_false]

theorem releaseToken_of_succeeded {answer : ResourceCommitResult}
    (h : answer.succeeded = true) (ht : answer.commitmentToken ≠ []) :
    releaseToken answer = some answer.commitmentToken := by
  simp only [releaseToken, h, ht, ne_eq, not_false_eq_true, and_self, ite_true]

theorem releaseToken_eq_some {answer : ResourceCommitResult} {token : Bytes}
    (h : releaseToken answer = some token) :
    answer.succeeded = true ∧ answer.commitmentToken = token := by
  unfold releaseToken at h
  split at h
  · rename_i hs
    exact ⟨hs.1, Option.some.inj h⟩
  · cases h

/-- Second section of a commit: too late and without effect, refused by the broker, or
committed. -/
theorem commitSecond_cases (st : SchedulerState) (planId : PlacementPlanId)
    (claims : List ResourceClaim) (answer : ResourceCommitResult) :
    (∃ out, out.succeeded = false ∧
        (∀ p, st.plans.find? planId = some p → st.commitStale p) ∧
        st.commitSecond planId claims answer = (.ok (out, releaseToken answer), st)) ∨
      ∃ p, st.plans.find? planId = some p ∧ ¬st.commitStale p ∧
        ((answer.succeeded = false ∧ ∃ out, out.succeeded = false ∧
            st.commitSecond planId claims answer = (.ok (out, none),
              st.withPlan planId (p.forceState .revalidationRequired st.nextEventOrdinal))) ∨
          (answer.succeeded = true ∧ st.commitSecond planId claims answer =
            (.ok (commitGranted answer, none),
              st.withPlan planId (committedPlan p claims st.nextEventOrdinal)))) := by
  unfold commitSecond
  cases hp : st.plans.find? planId with
  | none =>
      refine Or.inl ⟨_, rfl, ?_, rfl⟩
      intro p hp
      cases hp
  | some p =>
      by_cases hstale : st.commitStale p
      · simp only [hstale, ite_true]
        refine Or.inl ⟨_, rfl, ?_, rfl⟩
        intro q hq
        rwa [← Option.some.inj hq]
      · refine Or.inr ⟨p, rfl, hstale, ?_⟩
        have hstate : p.state = .awaitingResourceCommit := by
          by_contra hne
          exact hstale (Or.inr (Or.inr hne))
        cases hs : answer.succeeded with
        | false =>
            have hadvance : p.advanceLocal .revalidationRequired st.nextEventOrdinal =
                .ok (p.forceState .revalidationRequired st.nextEventOrdinal) :=
              PlacementPlan.advanceLocal_eq_ok (by rw [hstate]; rfl) _
            simp only [hstale, hadvance, ite_false, Bool.not_false, ite_true]
            exact Or.inl ⟨trivial, _, rfl, rfl⟩
        | true =>
            have hadvance : ({ p with hasCommitmentEvidence := true } : PlacementPlan).advanceLocal
                .committed st.nextEventOrdinal = .ok (({ p with hasCommitmentEvidence := true } :
                  PlacementPlan).enter .committed st.nextEventOrdinal) :=
              PlacementPlan.advanceLocal_eq_enter
                (by change p.state ≠ _; rw [hstate]; decide)
                (by change p.state.canTransition _ = _; rw [hstate]; rfl) _
            simp only [hstale, hadvance, ite_false, Bool.not_true, Bool.false_eq_true]
            exact Or.inr ⟨trivial, rfl⟩

/-- First section of a handoff: refused without effect, or the committed plan starts to
await its execution. -/
theorem handoffFirst_cases (st : SchedulerState) (planId : PlacementPlanId) :
    (∃ out, out.authorized = false ∧ st.handoffFirst planId = (.ok (.inl out), st)) ∨
      ∃ p, st.plans.find? planId = some p ∧ p.state = .committed ∧
        p.requestId ∉ st.cancelledRequests ∧ p.authorityGeneration = st.authority ∧
        st.handoffFirst planId = (.ok (.inr p),
          st.withPlan planId (p.enter .awaitingExecution st.nextEventOrdinal)) := by
  unfold handoffFirst
  cases hp : st.plans.find? planId with
  | none => exact Or.inl ⟨_, rfl, rfl⟩
  | some p =>
      rcases st.guards_cases p .committed _ _ _ _ with (h | h | h) |
        ⟨hstate, hcancel, hauth, h⟩
      · exact Or.inl ⟨_, rfl, h⟩
      · exact Or.inl ⟨_, rfl, h⟩
      · exact Or.inl ⟨_, rfl, h⟩
      · refine Or.inr ⟨p, rfl, hstate, hcancel, hauth, h.trans ?_⟩
        rw [PlacementPlan.advanceLocal_eq_enter (by rw [hstate]; decide) (by rw [hstate]; rfl)]
        rfl

/-- The staleness test of the second section of `Scheduler::handoff`. -/
def handoffStale (st : SchedulerState) (p : PlacementPlan) : Prop :=
  p.requestId ∈ st.cancelledRequests ∨ p.authorityGeneration ≠ st.authority

instance (st : SchedulerState) (p : PlacementPlan) : Decidable (st.handoffStale p) :=
  inferInstanceAs (Decidable (_ ∨ _))

/-- Second section of a handoff on a stored plan: fenced without effect, refused by the
execution fabric, launched, or thrown because the plan may not become active. -/
theorem handoffSecond_cases {st : SchedulerState} {planId : PlacementPlanId}
    {p : PlacementPlan} (hp : st.plans.find? planId = some p) (h : ExecutionHandoff) :
    (st.handoffStale p ∧ st.handoffSecond planId h = (.ok { h with authorized := false }, st)) ∨
      (¬st.handoffStale p ∧ h.authorized = false ∧ st.handoffSecond planId h = (.ok h,
        st.withPlan planId (p.forceState .revalidationRequired st.nextEventOrdinal))) ∨
      (¬st.handoffStale p ∧ h.authorized = true ∧ p.state.canTransition .active = true ∧
        st.handoffSecond planId h = (.ok h,
          st.withPlan planId (p.forceState .active st.nextEventOrdinal))) ∨
      (¬st.handoffStale p ∧ h.authorized = true ∧ p.state.canTransition .active = false ∧
        ∃ e, st.handoffSecond planId h =
          (.error e, { st with nextEventOrdinal := st.nextEventOrdinal + 1 })) := by
  by_cases hstale : st.handoffStale p
  · refine Or.inl ⟨hstale, ?_⟩
    unfold handoffStale at hstale
    simp only [handoffSecond, hp, hstale, ite_true]
  · refine Or.inr ?_
    have hstale' := hstale
    unfold handoffStale at hstale'
    cases hauth : h.authorized with
    | false =>
        refine Or.inl ⟨hstale, rfl, ?_⟩
        simp only [handoffSecond, hp, hstale', hauth, Bool.false_eq_true, ite_false]
        rfl
    | true =>
        refine Or.inr ?_
        cases hcan : p.state.canTransition .active with
        | true =>
            refine Or.inl ⟨hstale, rfl, rfl, ?_⟩
            simp only [handoffSecond, hp, hstale', hauth, PlacementPlan.advanceLocal_eq_ok hcan,
              ite_true, ite_false]
            rfl
        | false =>
            refine Or.inr ⟨hstale, rfl, rfl, ?_⟩
            simp only [handoffSecond, hp, hstale', hauth, PlacementPlan.advanceLocal_eq_error hcan,
              ite_true, ite_false]
            exact ⟨_, rfl⟩

end SchedulerState

end FabricScheduler
