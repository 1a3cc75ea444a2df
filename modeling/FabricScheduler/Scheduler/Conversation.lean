import FabricScheduler.Scheduler.Execution
import FabricScheduler.Scheduler.Steps

/-!
# What a call exchanges

A call of `schedule`, `commit` or `handoff` runs in sections, and the sections of other calls
stand between them in the log. The events of the call alone spell a word of a small language
that depends on its operation: what it asks its external owner, the answer, a token handed
back, and one outcome at the end.
-/

namespace FabricScheduler

/-- The operations that drop the lock on the way. -/
inductive Operation
  | schedule (request : SchedulingRequest)
  | commit (planId : PlacementPlanId)
  | handoff (planId : PlacementPlanId)

/-- The operation an action calls. -/
def Action.operation? : Action → Option Operation
  | .scheduleBegin request => some (.schedule request)
  | .commitBegin planId => some (.commit planId)
  | .handoffBegin planId => some (.handoff planId)
  | _ => none

/-- What call `c` of an operation may have exchanged, and what it is then suspended with. -/
inductive Conversation (c : Nat) : Operation → List Event → Option Call → Prop
  | evaluating (request : SchedulingRequest) (snapshot : List Candidate) :
      Conversation c (.schedule request) [] (some (.scheduling request snapshot))
  | decided (d : PlacementDecision) :
      Conversation c (.schedule d.request) [.scheduleReturned c d] none
  | undecided (request : SchedulingRequest) (error : Option FabricError) :
      Conversation c (.schedule request) [.scheduleThrew c error] none
  | asking (planId : PlacementPlanId) (claims : List ResourceClaim) :
      Conversation c (.commit planId) [] (some (.committing planId claims))
  | refused (planId : PlacementPlanId) {out : ResourceCommitResult}
      (hout : out.succeeded = false) :
      Conversation c (.commit planId) [.commitRefused c planId out] none
  | unanswered (planId : PlacementPlanId) :
      Conversation c (.commit planId) [.commitThrew c planId none] none
  | answered (planId : PlacementPlanId) (claims : List ResourceClaim)
      (answer : ResourceCommitResult) :
      Conversation c (.commit planId) [.brokerCommit c planId claims answer]
        (some (.settling planId claims answer))
  | granted (planId : PlacementPlanId) (claims : List ResourceClaim)
      {answer : ResourceCommitResult} (hanswer : answer.succeeded = true) :
      Conversation c (.commit planId) [.brokerCommit c planId claims answer,
        .commitReturned c planId (SchedulerState.commitGranted answer)] none
  /-- The answer holds no token, or the broker denied. -/
  | denied (planId : PlacementPlanId) (claims : List ResourceClaim)
      {answer out : ResourceCommitResult} (hout : out.succeeded = false)
      (htoken : SchedulerState.releaseToken answer = none) :
      Conversation c (.commit planId)
        [.brokerCommit c planId claims answer, .commitReturned c planId out] none
  | releasing (planId : PlacementPlanId) (claims : List ResourceClaim)
      {answer out : ResourceCommitResult} {token : Bytes} (hout : out.succeeded = false)
      (htoken : SchedulerState.releaseToken answer = some token) :
      Conversation c (.commit planId) [.brokerCommit c planId claims answer]
        (some (.releasing planId token out))
  | released (planId : PlacementPlanId) (claims : List ResourceClaim)
      {answer out : ResourceCommitResult} {token : Bytes} (hout : out.succeeded = false)
      (htoken : SchedulerState.releaseToken answer = some token) :
      Conversation c (.commit planId) [.brokerCommit c planId claims answer,
        .brokerRelease c planId token, .commitReturned c planId out] none
  | unreleased (planId : PlacementPlanId) (claims : List ResourceClaim)
      {answer : ResourceCommitResult} {token : Bytes}
      (htoken : SchedulerState.releaseToken answer = some token) :
      Conversation c (.commit planId) [.brokerCommit c planId claims answer,
        .brokerRelease c planId token, .commitThrew c planId none] none
  | authorizing (planId : PlacementPlanId) (plan : PlacementPlan) :
      Conversation c (.handoff planId) [] (some (.authorizing planId plan))
  | notAuthorizing (planId : PlacementPlanId) {out : ExecutionHandoff}
      (hout : out.authorized = false) :
      Conversation c (.handoff planId) [.handoffRefused c planId out] none
  | unauthorized (planId : PlacementPlanId) :
      Conversation c (.handoff planId) [.handoffThrew c planId none] none
  | authorized (planId : PlacementPlanId) (plan : PlacementPlan) (answer : ExecutionHandoff) :
      Conversation c (.handoff planId) [.authorize c planId plan answer]
        (some (.launching planId answer))
  /-- The caller gets the answer of the fabric, with the authorization taken back if need be. -/
  | handedOff (planId : PlacementPlanId) (plan : PlacementPlan) {answer out : ExecutionHandoff}
      (hout : out = answer ∨ out = { answer with authorized := false }) :
      Conversation c (.handoff planId)
        [.authorize c planId plan answer, .handoffReturned c planId out] none
  | notHandedOff (planId : PlacementPlanId) (plan : PlacementPlan) {answer : ExecutionHandoff}
      (hanswer : answer.authorized = true) (e : FabricError) :
      Conversation c (.handoff planId)
        [.authorize c planId plan answer, .handoffThrew c planId (some e)] none

/-- The event is what the caller of an operation gets. -/
def Event.isOutcome : Event → Bool
  | .scheduleReturned _ _ | .scheduleThrew _ _ | .commitRefused _ _ _ | .commitReturned _ _ _
  | .commitThrew _ _ _ | .handoffRefused _ _ _ | .handoffReturned _ _ _ | .handoffThrew _ _ _ => true
  | .ingested _ | .brokerCommit _ _ _ _ | .brokerRelease _ _ _ | .authorize _ _ _ _ | .saved _ =>
      false

/-- A conversation that is over has one outcome, and one that goes on has none. -/
theorem Conversation.countP_isOutcome {c : Nat} {op : Operation} {word : List Event}
    {call : Option Call} (h : Conversation c op word call) :
    word.countP Event.isOutcome = if call.isNone then 1 else 0 := by
  cases h <;> rfl

/-- The operations called by recorded steps, in the order of the calls. -/
def operations (es : List (TransitionSystem.Step System Action)) : List Operation :=
  es.filterMap fun e => e.act.operation?

namespace System

variable {config : SchedulerConfig} {P : System → Action → Prop} {s t : System} {a : Action}
  {es : List (TransitionSystem.Step System Action)}

/-- The events of a call. -/
def conversation (s : System) (c : Nat) : List Event := s.log.filter fun e => e.call? = some c

/-- How a step takes part in the conversations of the calls. -/
inductive Speaks (s : System) : Option Operation → System → Prop
  | aside (sched : SchedulerState) {events : List Event}
      (hevents : ∀ e ∈ events, e.call? = none) : Speaks s none (s.whole sched events)
  | opens {op : Operation} (sched : SchedulerState) {call : Option Call} {events : List Event}
      (hevents : ∀ e ∈ events, e.call? = some s.calls.fresh)
      (hword : Conversation s.calls.fresh op events call) :
      Speaks s (some op) (s.begun sched call events)
  | goesOn {c : Nat} {old : Call} (sched : SchedulerState) {call : Option Call}
      {events : List Event} (hc : s.pending c = some old)
      (hevents : ∀ e ∈ events, e.call? = some c)
      (hword : ∀ op word, Conversation c op word (some old) →
        Conversation c op (word ++ events) call) : Speaks s none (s.continued c sched call events)

/-- A pass decides on the request it was called with. -/
theorem request_of_scheduleSecond {st : SchedulerState} {request : SchedulingRequest}
    {views : ScheduleViews} {snapshot : List Candidate} {d : PlacementDecision}
    (h : (st.scheduleSecond request views snapshot).1 = .ok d) : d.request = request := by
  cases hranked : rankSnapshot st.rankOptions request views snapshot with
  | nil =>
      rw [SchedulerState.scheduleSecond_decision_of_nil hranked] at h
      rw [← Except.ok.inj h]
  | cons winner others =>
      rw [SchedulerState.scheduleSecond_decision_of_cons hranked] at h
      rw [← Except.ok.inj h]

private theorem speaks_scheduleFinish {c : Nat} {request : SchedulingRequest}
    {snapshot : List Candidate} (hc : s.pending c = some (.scheduling request snapshot))
    (views : ScheduleViews) : s.Speaks none (s.scheduleFinish c request snapshot views) := by
  obtain ⟨d, hd⟩ := s.sched.scheduleSecond_isOk request views snapshot
  have hpass : s.sched.scheduleSecond request views snapshot =
      (.ok d, (s.sched.scheduleSecond request views snapshot).2) := by
    rw [← hd]
  unfold System.scheduleFinish
  rw [hpass]
  refine .goesOn _ hc (by simp [Event.call?]) ?_
  intro op word h
  cases h
  rw [← request_of_scheduleSecond hd]
  exact .decided d

/-- What a step says, by the operation it calls. -/
theorem speaks_of_step (h : s.step a = some t) : s.Speaks a.operation? t := by
  cases stepped_of_step h with
  | scheduleRefused h => exact .opens _ (by simp [Event.call?]) (.undecided _ _)
  | scheduleBegun h => exact .opens _ (by simp) (.evaluating _ _)
  | scheduled hc views decision =>
      simp only [step, hc] at h
      rw [← Option.some.inj h]
      exact speaks_scheduleFinish hc views
  | scheduleThrew hc =>
      refine .goesOn _ hc (by simp [Event.call?]) ?_
      intro op word h
      cases h
      exact .undecided _ _
  | commitRefused planId hout => exact .opens _ (by simp [Event.call?]) (.refused planId hout)
  | commitAsks => exact .opens _ (by simp) (.asking _ _)
  | brokerAnswers hc answer =>
      refine .goesOn _ hc (by simp [Event.call?]) ?_
      intro op word h
      cases h
      exact .answered _ _ answer
  | brokerThrows hc =>
      refine .goesOn _ hc (by simp [Event.call?]) ?_
      intro op word h
      cases h
      exact .unanswered _
  | commitTooLate hc hout _ htoken =>
      refine .goesOn _ hc (by simp [Event.call?]) ?_
      intro op word h
      cases h
      exact .denied _ _ hout htoken
  | commitReleases hc hout _ htoken =>
      refine .goesOn _ hc (by simp) ?_
      intro op word h
      cases h
      exact .releasing _ _ hout htoken
  | commitDenied hc _ _ hanswer hout =>
      refine .goesOn _ hc (by simp [Event.call?]) ?_
      intro op word h
      cases h
      refine .denied _ _ hout ?_
      simp [SchedulerState.releaseToken, hanswer]
  | commitGranted hc _ _ hanswer =>
      refine .goesOn _ hc (by simp [Event.call?]) ?_
      intro op word h
      cases h
      exact .granted _ _ hanswer
  | releaseReturns hc =>
      refine .goesOn _ hc (by simp [Event.call?]) ?_
      intro op word h
      cases h with
      | releasing _ _ hout htoken => exact .released _ _ hout htoken
  | releaseThrows hc =>
      refine .goesOn _ hc (by simp [Event.call?]) ?_
      intro op word h
      cases h with
      | releasing _ _ _ htoken => exact .unreleased _ _ htoken
  | handoffRefused planId hout =>
      exact .opens _ (by simp [Event.call?]) (.notAuthorizing planId hout)
  | handoffAsks => exact .opens _ (by simp) (.authorizing _ _)
  | fabricAnswers hc answer =>
      refine .goesOn _ hc (by simp [Event.call?]) ?_
      intro op word h
      cases h
      exact .authorized _ _ answer
  | fabricThrows hc =>
      refine .goesOn _ hc (by simp [Event.call?]) ?_
      intro op word h
      cases h
      exact .unauthorized _
  | handoffVanished hc =>
      refine .goesOn _ hc (by simp [Event.call?]) ?_
      intro op word h
      cases h
      exact .handedOff _ _ (Or.inl rfl)
  | handoffFenced hc =>
      refine .goesOn _ hc (by simp [Event.call?]) ?_
      intro op word h
      cases h
      exact .handedOff _ _ (Or.inr rfl)
  | handoffDenied hc =>
      refine .goesOn _ hc (by simp [Event.call?]) ?_
      intro op word h
      cases h
      exact .handedOff _ _ (Or.inl rfl)
  | handoffLaunches hc =>
      refine .goesOn _ hc (by simp [Event.call?]) ?_
      intro op word h
      cases h
      exact .handedOff _ _ (Or.inl rfl)
  | handoffThrows hc _ _ hanswer _ e =>
      refine .goesOn _ hc (by simp [Event.call?]) ?_
      intro op word h
      cases h
      exact .notHandedOff _ _ hanswer e
  | _ => exact .aside _ (by simp [Event.call?])

/-- Every call opened so far has a word of its operation behind it, and no other call has any
event. -/
structure Converses (s : System) (ops : List Operation) : Prop where
  counted : s.calls.fresh = ops.length
  spoken : ∀ c op, ops[c]? = some op → Conversation c op (s.conversation c) (s.pending c)
  silent : ∀ c, s.calls.fresh ≤ c → s.conversation c = []

private theorem events_of_call {events : List Event} {c₀ : Nat}
    (h : ∀ e ∈ events, e.call? = some c₀) (c : Nat) :
    (events.filter fun e => e.call? = some c) = if c = c₀ then events else [] := by
  split
  · rename_i hc
    rw [hc, List.filter_eq_self]
    exact fun e he => decide_eq_true (h e he)
  · rename_i hc
    rw [List.filter_eq_nil_iff]
    intro e he hcall
    rw [h e he] at hcall
    exact hc (Option.some.inj (of_decide_eq_true hcall)).symm

/-- A step keeps every conversation a word, whichever call it belongs to. -/
theorem Converses.step {ops : List Operation} {op? : Option Operation} (h : s.Converses ops)
    (hspeaks : s.Speaks op? t) : t.Converses (ops ++ op?.toList) := by
  cases hspeaks with
  | @aside sched events hevents =>
      have hquiet : ∀ c, (s.whole sched events).conversation c = s.conversation c := by
        intro c
        have hnone : (events.filter fun e => e.call? = some c) = [] := by
          rw [List.filter_eq_nil_iff]
          intro e he hcall
          rw [hevents e he] at hcall
          cases of_decide_eq_true hcall
        rw [conversation, whole, List.filter_append, hnone, List.append_nil]
        rfl
      rw [Option.toList_none, List.append_nil]
      refine ⟨h.counted, ?_, ?_⟩
      · intro c op hop
        rw [hquiet]
        exact h.spoken c op hop
      · intro c hc
        rw [hquiet]
        exact h.silent c hc
  | @opens op sched call events hevents hword =>
      have hsaid : ∀ c, (s.begun sched call events).conversation c =
          s.conversation c ++ if c = s.calls.fresh then events else [] := by
        intro c
        rw [conversation, begun, List.filter_append, events_of_call hevents]
        rfl
      have hpending : ∀ c, (s.begun sched call events).pending c =
          if c = s.calls.fresh then call else s.pending c :=
        fun c => CallTable.pending_opened call c
      refine ⟨?_, ?_, ?_⟩
      · rw [begun, CallTable.fresh_opened, h.counted, Option.toList_some, List.length_append,
          List.length_singleton]
      · intro c op' hop
        rw [hsaid, hpending]
        rcases Nat.lt_trichotomy c s.calls.fresh with hlt | rfl | hgt
        · rw [if_neg (by omega), if_neg (by omega), List.append_nil]
          rw [List.getElem?_append_left (h.counted ▸ hlt)] at hop
          exact h.spoken c op' hop
        · rw [if_pos rfl, if_pos rfl, h.silent _ (Nat.le_refl _), List.nil_append]
          rw [h.counted, Option.toList_some, List.getElem?_concat_length] at hop
          exact Option.some.inj hop ▸ hword
        · have hlen := h.counted
          rw [List.getElem?_eq_none (by simp; omega)] at hop
          cases hop
      · intro c hc
        rw [begun, CallTable.fresh_opened] at hc
        rw [hsaid, if_neg (by omega), List.append_nil]
        exact h.silent c (by omega)
  | @goesOn c₀ old sched call events hc₀ hevents hword =>
      have hsaid : ∀ c, (s.continued c₀ sched call events).conversation c =
          s.conversation c ++ if c = c₀ then events else [] := by
        intro c
        rw [conversation, continued, List.filter_append, events_of_call hevents]
        rfl
      have hpending : ∀ c, (s.continued c₀ sched call events).pending c =
          if c = c₀ then call else s.pending c :=
        fun c => CallTable.pending_resumed hc₀ call c
      have hopen : c₀ < s.calls.fresh := CallTable.lt_fresh_of_pending hc₀
      rw [Option.toList_none, List.append_nil]
      refine ⟨?_, ?_, ?_⟩
      · rw [continued, CallTable.fresh_resumed, h.counted]
      · intro c op hop
        rw [hsaid, hpending]
        split
        · rename_i hc
          rw [hc] at hop ⊢
          exact hword op _ (hc₀ ▸ h.spoken c₀ op hop)
        · rw [List.append_nil]
          exact h.spoken c op hop
      · intro c hc
        rw [continued, CallTable.fresh_resumed] at hc
        rw [hsaid, if_neg (by omega), List.append_nil]
        exact h.silent c hc

/-- In every run, with the sections of any calls and any recovery between those of a call,
each call has exchanged a word of its operation, and its caller has one outcome of it once it
is over and none before. -/
theorem calls_converse (hr : (scheduler config).Run P (initial config) es t) :
    t.Converses (operations es) ∧ ∀ c < t.calls.fresh,
      (t.conversation c).countP Event.isOutcome = if (t.pending c).isNone then 1 else 0 := by
  have hconverses : t.Converses (operations es) := by
    refine hr.traced (fun fs u => u.Converses (operations fs)) ?_ ?_
    · refine ⟨rfl, ?_, fun _ _ => rfl⟩
      intro c op hop
      cases hop
    · intro fs u a v _ hn hu
      have hlast : operations (fs ++ [⟨u, a, v⟩]) = operations fs ++ a.operation?.toList := by
        rw [operations, List.filterMap_append]
        cases ha : a.operation? <;> simp [operations, ha]
      rw [hlast]
      exact hu.step (speaks_of_step hn)
  refine ⟨hconverses, ?_⟩
  intro c hc
  rw [hconverses.counted] at hc
  exact (hconverses.spoken c _ (List.getElem?_eq_getElem hc)).countP_isOutcome

/-- A request is scheduled, its plan committed and handed off, each by a call of its own. -/
theorem calls_converse_launching : ∃ es t,
    (scheduler Sample.config).Run NoRestore (initial Sample.config) es t ∧
      t.Converses (operations es) ∧ t.calls.fresh = 3 ∧ ∀ c < 3,
        (t.conversation c).countP Event.isOutcome = 1 := by
  have hlaunched : (after Sample.config NoRestore Sample.launching).map (fun t =>
      (t.calls.fresh, (List.range 3).all fun c => (t.pending c).isNone)) = some (3, true) := by
    decide +kernel
  obtain ⟨es, t, hr, _, hobs⟩ := exists_run_of_after hlaunched
  obtain ⟨hfresh, hover⟩ := Prod.mk.injEq .. ▸ hobs
  obtain ⟨hconverses, houtcome⟩ := calls_converse hr
  refine ⟨es, t, hr, hconverses, hfresh, ?_⟩
  intro c hc
  rw [houtcome c (hfresh ▸ hc), if_pos (List.all_eq_true.mp hover c (List.mem_range.mpr hc))]

end System

end FabricScheduler
