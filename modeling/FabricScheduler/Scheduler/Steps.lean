import FabricScheduler.Scheduler.Sections
import FabricScheduler.Scheduler.System

/-!
# Everything a step can do

The inversion of the step function: which calls it resumes, which plan it rewrites and
what it logs, with the guards that held. Every invariant is derived from this list, and
those about the guarded state alone from the shorter list of its changes.
-/

namespace FabricScheduler

namespace SchedulerState

/-- What a step other than a recovery does to the guarded state. -/
inductive Changed (st : SchedulerState) : SchedulerState → Prop
  | same : Changed st st
  | ticked : Changed st { st with nextEventOrdinal := st.nextEventOrdinal + 1 }
  | advanced {epoch : CoordinatorEpoch} (h : st.epoch < epoch) :
      Changed st (st.advanced epoch)
  | fenceWorker (bootId : WorkerBootId) : Changed st (st.fenceWorker bootId)
  | fenceSource (bootId : SourceBootId) : Changed st (st.fenceSource bootId)
  | ingested {candidate : Candidate}
      (hnewer : ∀ held, st.candidates.find? candidate.candidateId = some held →
        held.candidateGeneration < candidate.candidateGeneration) :
      Changed st { st with
        candidates := st.candidates.insert candidate.candidateId candidate
        ingestWatermark := st.ingestWatermark + 1 }
  | scheduled (request : SchedulingRequest) (views : ScheduleViews)
      (snapshot : List Candidate) :
      Changed st (st.scheduleSecond request views snapshot).2
  | asked {k : PlacementPlanId} {p : PlacementPlan} {dst : PlacementLifecycleState}
      (hp : st.plans.find? k = some p) (hcancel : p.requestId ∉ st.cancelledRequests)
      (hstate : p.state = .planReady ∧ dst = .awaitingResourceCommit ∨
        p.state = .committed ∧ dst = .awaitingExecution) :
      Changed st (st.withPlan k (p.enter dst st.nextEventOrdinal))
  | granted {k : PlacementPlanId} {p : PlacementPlan} (claims : List ResourceClaim)
      (hp : st.plans.find? k = some p) (hfresh : ¬st.commitStale p) :
      Changed st (st.withPlan k (committedPlan p claims st.nextEventOrdinal))
  | launched {k : PlacementPlanId} {p : PlacementPlan} (hp : st.plans.find? k = some p)
      (hfresh : ¬st.handoffStale p) (hcan : p.state.canTransition .active = true) :
      Changed st (st.withPlan k (p.forceState .active st.nextEventOrdinal))
  | withdrawn {k : PlacementPlanId} {p : PlacementPlan} (hp : st.plans.find? k = some p) :
      Changed st (st.withPlan k (p.forceState .revalidationRequired st.nextEventOrdinal))
  | cancel (requestId : SchedulingRequestId) : Changed st (st.cancel requestId)
  | supersede (oldRequest newRequest : SchedulingRequestId) (reason : Bytes) :
      Changed st (st.supersede oldRequest newRequest reason)

end SchedulerState

namespace System

/-- What an enabled action does. -/
inductive Stepped (s : System) : Action → System → Prop
  | setEpoch (epoch : CoordinatorEpoch) :
      Stepped s (.setEpoch epoch) (s.whole (s.sched.setEpoch epoch).2 [])
  | fenceWorker (bootId : WorkerBootId) :
      Stepped s (.fenceWorker bootId) (s.whole (s.sched.fenceWorker bootId) [])
  | fenceSource (bootId : SourceBootId) :
      Stepped s (.fenceSource bootId) (s.whole (s.sched.fenceSource bootId) [])
  | ingested {candidate : Candidate}
      (h : s.sched.ingestCandidate candidate = (.ok (), { s.sched with
        candidates := s.sched.candidates.insert candidate.candidateId candidate
        ingestWatermark := s.sched.ingestWatermark + 1 }))
      (hnewer : ∀ held, s.sched.candidates.find? candidate.candidateId = some held →
        held.candidateGeneration < candidate.candidateGeneration) :
      Stepped s (.ingestCandidate candidate) (s.whole { s.sched with
        candidates := s.sched.candidates.insert candidate.candidateId candidate
        ingestWatermark := s.sched.ingestWatermark + 1 } [.ingested candidate])
  | notIngested (candidate : Candidate) :
      Stepped s (.ingestCandidate candidate) (s.whole s.sched [])
  | scheduleRefused {request : SchedulingRequest} {e : FabricError}
      (h : request.demand.validate = .error e) :
      Stepped s (.scheduleBegin request)
        (s.begun s.sched none [.scheduleThrew s.calls.fresh (some e)])
  | scheduleBegun {request : SchedulingRequest} (h : request.demand.validate = .ok ()) :
      Stepped s (.scheduleBegin request)
        (s.begun s.sched (some (.scheduling request s.sched.candidates.values)) [])
  | scheduled {c : Nat} {request : SchedulingRequest} {snapshot : List Candidate}
      (hc : s.pending c = some (.scheduling request snapshot)) (views : ScheduleViews)
      (decision : PlacementDecision) :
      Stepped s (.scheduleFinish c views)
        (s.continued c (s.sched.scheduleSecond request views snapshot).2 none
          [.scheduleReturned c decision])
  | scheduleThrew {c : Nat} {request : SchedulingRequest} {snapshot : List Candidate}
      (hc : s.pending c = some (.scheduling request snapshot)) :
      Stepped s (.unwind c) (s.continued c s.sched none [.scheduleThrew c none])
  | commitRefused (planId : PlacementPlanId) {out : ResourceCommitResult}
      (hout : out.succeeded = false) :
      Stepped s (.commitBegin planId)
        (s.begun s.sched none [.commitRefused s.calls.fresh planId out])
  | commitAsks {planId : PlacementPlanId} {p : PlacementPlan}
      (hp : s.sched.plans.find? planId = some p) (hstate : p.state = .planReady)
      (hcancel : p.requestId ∉ s.sched.cancelledRequests)
      (hauth : p.authorityGeneration = s.sched.authority) :
      Stepped s (.commitBegin planId) (s.begun (s.sched.withPlan planId
        (p.enter .awaitingResourceCommit s.sched.nextEventOrdinal))
        (some (.committing planId p.claims)) [])
  | brokerAnswers {c : Nat} {planId : PlacementPlanId} {claims : List ResourceClaim}
      (hc : s.pending c = some (.committing planId claims)) (answer : ResourceCommitResult) :
      Stepped s (.brokerCommit c answer)
        (s.continued c s.sched (some (.settling planId claims answer))
          [.brokerCommit c planId claims answer])
  | brokerThrows {c : Nat} {planId : PlacementPlanId} {claims : List ResourceClaim}
      (hc : s.pending c = some (.committing planId claims)) :
      Stepped s (.unwind c) (s.continued c s.sched none [.commitThrew c planId none])
  | commitTooLate {c : Nat} {planId : PlacementPlanId} {claims : List ResourceClaim}
      {answer out : ResourceCommitResult}
      (hc : s.pending c = some (.settling planId claims answer))
      (hout : out.succeeded = false)
      (hstale : ∀ p, s.sched.plans.find? planId = some p → s.sched.commitStale p)
      (htoken : SchedulerState.releaseToken answer = none) :
      Stepped s (.commitFinish c) (s.continued c s.sched none [.commitReturned c planId out])
  | commitReleases {c : Nat} {planId : PlacementPlanId} {claims : List ResourceClaim}
      {answer out : ResourceCommitResult} {token : Bytes}
      (hc : s.pending c = some (.settling planId claims answer))
      (hout : out.succeeded = false)
      (hstale : ∀ p, s.sched.plans.find? planId = some p → s.sched.commitStale p)
      (htoken : SchedulerState.releaseToken answer = some token) :
      Stepped s (.commitFinish c)
        (s.continued c s.sched (some (.releasing planId token out)) [])
  | commitDenied {c : Nat} {planId : PlacementPlanId} {claims : List ResourceClaim}
      {answer out : ResourceCommitResult} {p : PlacementPlan}
      (hc : s.pending c = some (.settling planId claims answer))
      (hp : s.sched.plans.find? planId = some p) (hfresh : ¬s.sched.commitStale p)
      (hanswer : answer.succeeded = false) (hout : out.succeeded = false) :
      Stepped s (.commitFinish c) (s.continued c (s.sched.withPlan planId
        (p.forceState .revalidationRequired s.sched.nextEventOrdinal)) none
        [.commitReturned c planId out])
  | commitGranted {c : Nat} {planId : PlacementPlanId} {claims : List ResourceClaim}
      {answer : ResourceCommitResult} {p : PlacementPlan}
      (hc : s.pending c = some (.settling planId claims answer))
      (hp : s.sched.plans.find? planId = some p) (hfresh : ¬s.sched.commitStale p)
      (hanswer : answer.succeeded = true) :
      Stepped s (.commitFinish c) (s.continued c (s.sched.withPlan planId
        (SchedulerState.committedPlan p claims s.sched.nextEventOrdinal)) none
        [.commitReturned c planId (SchedulerState.commitGranted answer)])
  | releaseReturns {c : Nat} {planId : PlacementPlanId} {token : Bytes}
      {out : ResourceCommitResult} (hc : s.pending c = some (.releasing planId token out)) :
      Stepped s (.brokerRelease c true) (s.continued c s.sched none
        [.brokerRelease c planId token, .commitReturned c planId out])
  | releaseThrows {c : Nat} {planId : PlacementPlanId} {token : Bytes}
      {out : ResourceCommitResult} (hc : s.pending c = some (.releasing planId token out)) :
      Stepped s (.brokerRelease c false) (s.continued c s.sched none
        [.brokerRelease c planId token, .commitThrew c planId none])
  | handoffRefused (planId : PlacementPlanId) {out : ExecutionHandoff}
      (hout : out.authorized = false) :
      Stepped s (.handoffBegin planId)
        (s.begun s.sched none [.handoffRefused s.calls.fresh planId out])
  | handoffAsks {planId : PlacementPlanId} {p : PlacementPlan}
      (hp : s.sched.plans.find? planId = some p) (hstate : p.state = .committed)
      (hcancel : p.requestId ∉ s.sched.cancelledRequests)
      (hauth : p.authorityGeneration = s.sched.authority) :
      Stepped s (.handoffBegin planId) (s.begun (s.sched.withPlan planId
        (p.enter .awaitingExecution s.sched.nextEventOrdinal))
        (some (.authorizing planId p)) [])
  | fabricAnswers {c : Nat} {planId : PlacementPlanId} {plan : PlacementPlan}
      (hc : s.pending c = some (.authorizing planId plan)) (answer : ExecutionHandoff) :
      Stepped s (.authorize c answer)
        (s.continued c s.sched (some (.launching planId answer))
          [.authorize c planId plan answer])
  | fabricThrows {c : Nat} {planId : PlacementPlanId} {plan : PlacementPlan}
      (hc : s.pending c = some (.authorizing planId plan)) :
      Stepped s (.unwind c) (s.continued c s.sched none [.handoffThrew c planId none])
  | handoffVanished {c : Nat} {planId : PlacementPlanId} {h : ExecutionHandoff}
      (hc : s.pending c = some (.launching planId h))
      (hp : s.sched.plans.find? planId = none) :
      Stepped s (.handoffFinish c) (s.continued c s.sched none [.handoffReturned c planId h])
  | handoffFenced {c : Nat} {planId : PlacementPlanId} {h : ExecutionHandoff}
      {p : PlacementPlan} (hc : s.pending c = some (.launching planId h))
      (hp : s.sched.plans.find? planId = some p) (hstale : s.sched.handoffStale p) :
      Stepped s (.handoffFinish c) (s.continued c s.sched none
        [.handoffReturned c planId { h with authorized := false }])
  | handoffDenied {c : Nat} {planId : PlacementPlanId} {h : ExecutionHandoff}
      {p : PlacementPlan} (hc : s.pending c = some (.launching planId h))
      (hp : s.sched.plans.find? planId = some p) (hfresh : ¬s.sched.handoffStale p)
      (hanswer : h.authorized = false) :
      Stepped s (.handoffFinish c) (s.continued c (s.sched.withPlan planId
        (p.forceState .revalidationRequired s.sched.nextEventOrdinal)) none
        [.handoffReturned c planId h])
  | handoffLaunches {c : Nat} {planId : PlacementPlanId} {h : ExecutionHandoff}
      {p : PlacementPlan} (hc : s.pending c = some (.launching planId h))
      (hp : s.sched.plans.find? planId = some p) (hfresh : ¬s.sched.handoffStale p)
      (hanswer : h.authorized = true) (hcan : p.state.canTransition .active = true) :
      Stepped s (.handoffFinish c) (s.continued c (s.sched.withPlan planId
        (p.forceState .active s.sched.nextEventOrdinal)) none [.handoffReturned c planId h])
  | handoffThrows {c : Nat} {planId : PlacementPlanId} {h : ExecutionHandoff}
      {p : PlacementPlan} (hc : s.pending c = some (.launching planId h))
      (hp : s.sched.plans.find? planId = some p) (hfresh : ¬s.sched.handoffStale p)
      (hanswer : h.authorized = true) (hcan : p.state.canTransition .active = false)
      (e : FabricError) :
      Stepped s (.handoffFinish c) (s.continued c
        { s.sched with nextEventOrdinal := s.sched.nextEventOrdinal + 1 } none
        [.handoffThrew c planId (some e)])
  | revalidate (planId : PlacementPlanId) (current : GenerationFingerprint) :
      Stepped s (.revalidate planId current) (s.whole (s.sched.revalidate planId current).2 [])
  | cancel (requestId : SchedulingRequestId) :
      Stepped s (.cancel requestId) (s.whole (s.sched.cancel requestId) [])
  | supersede (oldRequest newRequest : SchedulingRequestId) (reason : Bytes) :
      Stepped s (.supersede oldRequest newRequest reason)
        (s.whole (s.sched.supersede oldRequest newRequest reason) [])
  | snapshot : Stepped s .snapshot (s.whole s.sched [.saved s.sched.snapshot])
  | restore (persisted : Persisted) :
      Stepped s (.restore persisted) (s.whole (s.sched.restore persisted) [])

private theorem stepped_ingestCandidate (s : System) (candidate : Candidate) :
    Stepped s (.ingestCandidate candidate) (s.ingestCandidate candidate) := by
  unfold System.ingestCandidate
  rcases s.sched.ingestCandidate_cases candidate with ⟨e, he, _⟩ | ⟨hok, _, _, _, hnewer⟩
  · rw [he]
    exact .notIngested candidate
  · rw [hok]
    exact .ingested hok hnewer

private theorem stepped_commitBegin (s : System) (planId : PlacementPlanId) :
    Stepped s (.commitBegin planId) (s.commitBegin planId) := by
  unfold System.commitBegin
  rcases s.sched.commitFirst_cases planId with
    ⟨out, hout, h⟩ | ⟨p, hp, hstate, hcancel, hauth, h⟩
  · rw [h]
    exact .commitRefused planId hout
  · rw [h]
    exact .commitAsks hp hstate hcancel hauth

private theorem stepped_commitFinish {s : System} {c : Nat} {planId : PlacementPlanId}
    {claims : List ResourceClaim} {answer : ResourceCommitResult}
    (hc : s.pending c = some (.settling planId claims answer)) :
    Stepped s (.commitFinish c) (s.commitFinish c planId claims answer) := by
  unfold System.commitFinish
  rcases s.sched.commitSecond_cases planId claims answer with
    ⟨out, hout, hstale, h⟩ | ⟨p, hp, hfresh, ⟨hanswer, out, hout, h⟩ | ⟨hanswer, h⟩⟩
  · rw [h]
    cases htoken : SchedulerState.releaseToken answer with
    | none => exact .commitTooLate hc hout hstale htoken
    | some token => exact .commitReleases hc hout hstale htoken
  · rw [h]
    exact .commitDenied hc hp hfresh hanswer hout
  · rw [h]
    exact .commitGranted hc hp hfresh hanswer

private theorem stepped_handoffBegin (s : System) (planId : PlacementPlanId) :
    Stepped s (.handoffBegin planId) (s.handoffBegin planId) := by
  unfold System.handoffBegin
  rcases s.sched.handoffFirst_cases planId with
    ⟨out, hout, h⟩ | ⟨p, hp, hstate, hcancel, hauth, h⟩
  · rw [h]
    exact .handoffRefused planId hout
  · rw [h]
    exact .handoffAsks hp hstate hcancel hauth

private theorem stepped_handoffFinish {s : System} {c : Nat} {planId : PlacementPlanId}
    {h : ExecutionHandoff} (hc : s.pending c = some (.launching planId h)) :
    Stepped s (.handoffFinish c) (s.handoffFinish c planId h) := by
  unfold System.handoffFinish
  cases hp : s.sched.plans.find? planId with
  | none =>
      have heq : s.sched.handoffSecond planId h = (.ok h, s.sched) := by
        simp only [SchedulerState.handoffSecond, hp]
      rw [heq]
      exact .handoffVanished hc hp
  | some p =>
      rcases SchedulerState.handoffSecond_cases hp h with
        ⟨hstale, heq⟩ | ⟨hfresh, hanswer, heq⟩ | ⟨hfresh, hanswer, hcan, heq⟩ |
        ⟨hfresh, hanswer, hcan, e, heq⟩
      · rw [heq]
        exact .handoffFenced hc hp hstale
      · rw [heq]
        exact .handoffDenied hc hp hfresh hanswer
      · rw [heq]
        exact .handoffLaunches hc hp hfresh hanswer hcan
      · rw [heq]
        exact .handoffThrows hc hp hfresh hanswer hcan e

private theorem stepped_scheduleBegin (s : System) (request : SchedulingRequest) :
    Stepped s (.scheduleBegin request) (s.scheduleBegin request) := by
  unfold System.scheduleBegin
  cases h : request.demand.validate with
  | ok u => exact .scheduleBegun h
  | error e => exact .scheduleRefused h

private theorem stepped_scheduleFinish {s : System} {c : Nat} {request : SchedulingRequest}
    {snapshot : List Candidate} (hc : s.pending c = some (.scheduling request snapshot))
    (views : ScheduleViews) :
    Stepped s (.scheduleFinish c views) (s.scheduleFinish c request snapshot views) := by
  obtain ⟨decision, h⟩ := s.sched.scheduleSecond_isOk request views snapshot
  have heq : s.sched.scheduleSecond request views snapshot =
      (.ok decision, (s.sched.scheduleSecond request views snapshot).2) := by
    rw [← h]
  unfold System.scheduleFinish
  rw [heq]
  exact .scheduled hc views decision

/-- Every enabled action does what is listed. -/
theorem stepped_of_step {s t : System} {a : Action} (h : s.step a = some t) :
    Stepped s a t := by
  cases a with
  | setEpoch epoch => exact Option.some.inj h ▸ .setEpoch epoch
  | fenceWorker bootId => exact Option.some.inj h ▸ .fenceWorker bootId
  | fenceSource bootId => exact Option.some.inj h ▸ .fenceSource bootId
  | ingestCandidate candidate => exact Option.some.inj h ▸ stepped_ingestCandidate s candidate
  | scheduleBegin request => exact Option.some.inj h ▸ stepped_scheduleBegin s request
  | scheduleFinish c views =>
      simp only [step] at h
      split at h
      · rename_i hc
        exact Option.some.inj h ▸ stepped_scheduleFinish hc views
      · cases h
  | commitBegin planId => exact Option.some.inj h ▸ stepped_commitBegin s planId
  | brokerCommit c answer =>
      simp only [step] at h
      split at h
      · rename_i hc
        exact Option.some.inj h ▸ .brokerAnswers hc answer
      · cases h
  | commitFinish c =>
      simp only [step] at h
      split at h
      · rename_i hc
        exact Option.some.inj h ▸ stepped_commitFinish hc
      · cases h
  | brokerRelease c returns =>
      simp only [step] at h
      split at h
      · rename_i hc
        cases returns with
        | true => exact Option.some.inj h ▸ .releaseReturns hc
        | false => exact Option.some.inj h ▸ .releaseThrows hc
      · cases h
  | handoffBegin planId => exact Option.some.inj h ▸ stepped_handoffBegin s planId
  | authorize c answer =>
      simp only [step] at h
      split at h
      · rename_i hc
        exact Option.some.inj h ▸ .fabricAnswers hc answer
      · cases h
  | handoffFinish c =>
      simp only [step] at h
      split at h
      · rename_i hc
        exact Option.some.inj h ▸ stepped_handoffFinish hc
      · cases h
  | unwind c =>
      simp only [step] at h
      split at h
      · rename_i hc
        exact Option.some.inj h ▸ .scheduleThrew hc
      · rename_i hc
        exact Option.some.inj h ▸ .brokerThrows hc
      · rename_i hc
        exact Option.some.inj h ▸ .fabricThrows hc
      · cases h
  | revalidate planId current => exact Option.some.inj h ▸ .revalidate planId current
  | cancel requestId => exact Option.some.inj h ▸ .cancel requestId
  | supersede oldRequest newRequest reason =>
      exact Option.some.inj h ▸ .supersede oldRequest newRequest reason
  | snapshot => exact Option.some.inj h ▸ .snapshot
  | restore persisted => exact Option.some.inj h ▸ .restore persisted

/-- What a step does to the guarded state. -/
theorem Stepped.changed {s t : System} {a : Action} (h : Stepped s a t) :
    (∃ persisted, a = .restore persisted ∧ t.sched = s.sched.restore persisted) ∨
      s.sched.Changed t.sched := by
  cases h with
  | setEpoch epoch =>
      rcases s.sched.setEpoch_cases epoch with ⟨_, h⟩ | ⟨hlt, h⟩
      · exact Or.inr (h.symm ▸ .same)
      · exact Or.inr (h.symm ▸ .advanced hlt)
  | fenceWorker bootId => exact Or.inr (.fenceWorker bootId)
  | fenceSource bootId => exact Or.inr (.fenceSource bootId)
  | ingested _ hnewer => exact Or.inr (.ingested hnewer)
  | scheduled _ views _ => exact Or.inr (.scheduled _ views _)
  | commitAsks hp hstate hcancel _ => exact Or.inr (.asked hp hcancel (Or.inl ⟨hstate, rfl⟩))
  | commitDenied _ hp _ _ _ => exact Or.inr (.withdrawn hp)
  | commitGranted _ hp hfresh _ => exact Or.inr (.granted _ hp hfresh)
  | handoffAsks hp hstate hcancel _ => exact Or.inr (.asked hp hcancel (Or.inr ⟨hstate, rfl⟩))
  | handoffDenied _ hp _ _ => exact Or.inr (.withdrawn hp)
  | handoffLaunches _ hp hfresh _ hcan => exact Or.inr (.launched hp hfresh hcan)
  | handoffThrows => exact Or.inr .ticked
  | revalidate planId current =>
      rcases s.sched.revalidate_cases planId current with ⟨_, h⟩ | ⟨p, hp, _, h⟩
      · exact Or.inr (h.symm ▸ .same)
      · exact Or.inr (h.symm ▸ .withdrawn hp)
  | cancel requestId => exact Or.inr (.cancel requestId)
  | supersede oldRequest newRequest reason =>
      exact Or.inr (.supersede oldRequest newRequest reason)
  | restore persisted => exact Or.inl ⟨persisted, rfl, rfl⟩
  | _ => exact Or.inr .same

end System

end FabricScheduler
