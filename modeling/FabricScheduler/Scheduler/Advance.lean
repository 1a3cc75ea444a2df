import FabricScheduler.Library.Trail
import FabricScheduler.Library.TransitionSystem
import FabricScheduler.Scheduler.State

/-!
# Advancing a plan call by call

The writer of the lifecycle that is offered with the plan itself. It consults the transition
table like the scheduler's own checked writer, but it keeps the whole history and draws an
ordinal from a counter when it is given none. However it is called, the history of a fresh
plan is a trail of the table, and the table alone leads a plan through its commitment before
it is active.
-/

namespace FabricScheduler

namespace PlacementLifecycleState

/-- A legal transition to another state. -/
def Moves (src dst : PlacementLifecycleState) : Prop :=
  src ≠ dst ∧ src.canTransition dst = true

instance (src dst : PlacementLifecycleState) : Decidable (src.Moves dst) :=
  inferInstanceAs (Decidable (_ ∧ _))

/-- The one other state from which a state that holds a commitment is entered. -/
def enteredFrom? : PlacementLifecycleState → Option PlacementLifecycleState
  | .committed => some .awaitingResourceCommit
  | .awaitingExecution => some .committed
  | .active => some .awaitingExecution
  | _ => none

theorem eq_of_moves {s t u : PlacementLifecycleState} (h : s.Moves t)
    (hu : t.enteredFrom? = some u) : s = u := by
  cases t <;> cases hu <;> cases s <;> first | rfl | exact absurd h (by decide)

/-- A terminal state is left for `RETIRED` only. -/
theorem eq_retired_of_moves {s t : PlacementLifecycleState} (hs : s.isTerminal = true)
    (h : s.Moves t) : t = .retired := by
  cases s <;> cases hs <;> cases t <;> first | rfl | exact absurd h (by decide)

theorem not_moves_retired (t : PlacementLifecycleState) : ¬retired.Moves t := by
  cases t <;> decide

end PlacementLifecycleState

namespace PlacementPlan

/-- The lifecycle states in the order in which the plan has entered them. -/
def entered (plan : PlacementPlan) : List PlacementLifecycleState :=
  plan.stateHistory.map Prod.fst

/-- Set the lifecycle state and record the entry. -/
def record (plan : PlacementPlan) (dst : PlacementLifecycleState) (ordinal : UInt64) :
    PlacementPlan :=
  { plan with state := dst, stateHistory := plan.stateHistory ++ [(dst, ordinal)] }

@[simp] theorem record_state (plan : PlacementPlan) (dst : PlacementLifecycleState)
    (ordinal : UInt64) : (plan.record dst ordinal).state = dst := rfl

@[simp] theorem entered_record (plan : PlacementPlan) (dst : PlacementLifecycleState)
    (ordinal : UInt64) : (plan.record dst ordinal).entered = plan.entered ++ [dst] :=
  List.map_append

/-- A default-constructed plan. -/
structure Fresh (plan : PlacementPlan) : Prop where
  requested : plan.state = .requested
  unrecorded : plan.stateHistory = []

end PlacementPlan

/-- `placement_advance`: its outcome, and the plan and the next ordinal as it leaves them,
also when it throws. -/
def placementAdvance (plan : PlacementPlan) (dst : PlacementLifecycleState)
    (eventOrdinal nextOrdinal : UInt64) : Except FabricError Unit × PlacementPlan × UInt64 :=
  if plan.state = dst then (.ok (), plan, nextOrdinal)
  else if !plan.state.canTransition dst then
    (fail .illegalLifecycleTransition
      ("illegal placement lifecycle transition " ++ plan.state.name ++ " -> " ++ dst.name),
      plan, nextOrdinal)
  else if eventOrdinal ≠ 0 then (.ok (), plan.record dst eventOrdinal, nextOrdinal)
  else (.ok (), plan.record dst nextOrdinal, nextOrdinal + 1)

/-- An advance is a throw or a return that changes nothing, or records a legal transition. -/
theorem placementAdvance_cases (plan : PlacementPlan) (dst : PlacementLifecycleState)
    (eventOrdinal nextOrdinal : UInt64) :
    (placementAdvance plan dst eventOrdinal nextOrdinal).2 = (plan, nextOrdinal) ∨
      plan.state.Moves dst ∧ ∃ ordinal next,
        placementAdvance plan dst eventOrdinal nextOrdinal =
          (.ok (), plan.record dst ordinal, next) := by
  unfold placementAdvance
  split
  · exact Or.inl rfl
  · rename_i hne
    split
    · exact Or.inl rfl
    · rename_i hcan
      have hmoves : plan.state.Moves dst := ⟨hne, by simpa using hcan⟩
      split
      · exact Or.inr ⟨hmoves, _, _, rfl⟩
      · exact Or.inr ⟨hmoves, _, _, rfl⟩

/-- An advance that throws changes neither the plan nor the next ordinal. -/
theorem placementAdvance_error {plan : PlacementPlan} {dst : PlacementLifecycleState}
    {eventOrdinal nextOrdinal : UInt64} {e : FabricError}
    (h : (placementAdvance plan dst eventOrdinal nextOrdinal).1 = .error e) :
    (placementAdvance plan dst eventOrdinal nextOrdinal).2 = (plan, nextOrdinal) := by
  rcases placementAdvance_cases plan dst eventOrdinal nextOrdinal with hsame | ⟨_, _, _, heq⟩
  · exact hsame
  · rw [heq] at h
    cases h

/-- With an ordinal of its own and room in the history it does what the scheduler's checked
writer does. -/
theorem advanceLocal_eq_placementAdvance {plan : PlacementPlan} {ordinal : UInt64}
    (hordinal : ordinal ≠ 0) (hroom : plan.stateHistory.length < maxPlanHistory)
    (dst : PlacementLifecycleState) (nextOrdinal : UInt64) :
    plan.advanceLocal dst ordinal = (placementAdvance plan dst ordinal nextOrdinal).1.map
      fun _ => (placementAdvance plan dst ordinal nextOrdinal).2.1 := by
  by_cases hsame : plan.state = dst
  · simp only [PlacementPlan.advanceLocal, placementAdvance, hsame, ite_true]
    rfl
  · cases hcan : plan.state.canTransition dst with
    | true =>
        simp only [placementAdvance, hsame, hcan, hordinal, ne_eq, not_false_eq_true,
          Bool.not_true, Bool.false_eq_true, ite_true, ite_false]
        rw [PlacementPlan.advanceLocal_eq_enter hsame hcan, PlacementPlan.enter, if_pos hroom]
        rfl
    | false =>
        simp only [placementAdvance, hsame, hcan, Bool.not_false, ite_true, ite_false]
        exact PlacementPlan.advanceLocal_eq_error hcan ordinal

/-- A plan, and the counter that its calls without an ordinal of their own draw from. -/
structure Advancing where
  plan : PlacementPlan
  nextOrdinal : UInt64

/-- The arguments of one call. -/
structure AdvanceCall where
  dst : PlacementLifecycleState
  eventOrdinal : UInt64

namespace Advancing

/-- What a call returns or throws. -/
def outcome (s : Advancing) (call : AdvanceCall) : Except FabricError Unit :=
  (placementAdvance s.plan call.dst call.eventOrdinal s.nextOrdinal).1

/-- What a call leaves; what it throws is caught. -/
def after (s : Advancing) (call : AdvanceCall) : Advancing :=
  let (plan, nextOrdinal) :=
    (placementAdvance s.plan call.dst call.eventOrdinal s.nextOrdinal).2
  ⟨plan, nextOrdinal⟩

end Advancing

/-- Calls made one after the other on a fresh plan. -/
def advancing : TransitionSystem Advancing AdvanceCall where
  init s := s.plan.Fresh
  next s call := some (s.after call)

namespace Advancing

variable {s t : Advancing} {es : List (TransitionSystem.Step Advancing AdvanceCall)}

/-- The recorded history leads from the initial state to the current one. -/
def Recorded (s : Advancing) : Prop :=
  Trail PlacementLifecycleState.Moves .requested s.plan.entered s.plan.state

/-- A call that throws leaves everything as it was. -/
theorem after_of_error {call : AdvanceCall} {e : FabricError}
    (h : s.outcome call = .error e) : s.after call = s := by
  simp only [after, placementAdvance_error h]

theorem recorded_of_fresh (h : s.plan.Fresh) : s.Recorded := by
  rw [Recorded, PlacementPlan.entered, h.requested, h.unrecorded]
  exact .nil _

/-- A call extends the history by a link of the table, if at all. -/
theorem Recorded.after (h : s.Recorded) (call : AdvanceCall) : (s.after call).Recorded := by
  rcases placementAdvance_cases s.plan call.dst call.eventOrdinal s.nextOrdinal with
    hsame | ⟨hmoves, ordinal, next, heq⟩
  · simp only [Advancing.after, hsame]
    exact h
  · simp only [Advancing.after, heq, Recorded, PlacementPlan.entered_record,
      PlacementPlan.record_state]
    exact Trail.snoc h hmoves

/-- The history is recorded however often the plan is advanced. -/
theorem recorded_of_run (h : advancing.Run (fun _ _ => True) s es t) (hs : advancing.init s) :
    t.Recorded := by
  refine h.stable Recorded ?_ (recorded_of_fresh hs)
  rintro u call v - hnext hu
  obtain rfl := Option.some.inj hnext
  exact hu.after call

end Advancing

namespace PlacementLifecycleState

variable {before after : List PlacementLifecycleState} {s : PlacementLifecycleState}

/-- On a trail of the table `ACTIVE` stands right after the three states of a commitment. -/
theorem committed_before_active (h : Trail Moves .requested (before ++ .active :: after) s) :
    ∃ earlier, before = earlier ++ [.awaitingResourceCommit, .committed, .awaitingExecution] := by
  obtain ⟨executing, rfl⟩ := h.exists_before (fun _ hm => eq_of_moves hm rfl) (by decide)
  rw [List.append_assoc] at h
  obtain ⟨committing, rfl⟩ := h.exists_before (fun _ hm => eq_of_moves hm rfl) (by decide)
  rw [List.append_assoc] at h
  obtain ⟨earlier, rfl⟩ := h.exists_before (fun _ hm => eq_of_moves hm rfl) (by decide)
  exact ⟨earlier, by simp only [List.append_assoc, List.cons_append, List.nil_append]⟩

/-- On a trail of the table a terminal state is the last one or followed by `RETIRED` alone. -/
theorem retired_after_terminal {u : PlacementLifecycleState}
    (h : Trail Moves .requested (before ++ u :: after) s) (hu : u.isTerminal = true) :
    after = [] ∨ after = [.retired] :=
  h.split.2.eq_nil_or_singleton (fun _ hm => eq_retired_of_moves hu hm) not_moves_retired

end PlacementLifecycleState

namespace Advancing

variable {s t : Advancing} {es : List (TransitionSystem.Step Advancing AdvanceCall)}

/-- However a fresh plan is advanced: a call that throws changes nothing, the history is a
path of legal transitions from `REQUESTED` to the current state, every `ACTIVE` stands right
after the states of a commitment, and nothing but one `RETIRED` follows a terminal state. -/
theorem history_of_run (h : advancing.Run (fun _ _ => True) s es t) (hs : advancing.init s) :
    (∀ f ∈ es, ∀ e, f.src.outcome f.act = .error e → f.tgt = f.src) ∧
    Trail PlacementLifecycleState.Moves .requested t.plan.entered t.plan.state ∧
    (∀ before after, t.plan.entered = before ++ .active :: after → ∃ earlier,
      before = earlier ++ [.awaitingResourceCommit, .committed, .awaitingExecution]) ∧
    ∀ before u after, t.plan.entered = before ++ u :: after → u.isTerminal = true →
      after = [] ∨ after = [.retired] := by
  have hrecorded : t.Recorded := recorded_of_run h hs
  refine ⟨?_, hrecorded, ?_, ?_⟩
  · intro f hf e herror
    obtain ⟨_, _, _, _, _, hnext, _⟩ := h.of_mem hf
    rw [← Option.some.inj hnext]
    exact after_of_error herror
  · intro before after hentered
    rw [Recorded, hentered] at hrecorded
    exact PlacementLifecycleState.committed_before_active hrecorded
  · intro before u after hentered hu
    rw [Recorded, hentered] at hrecorded
    exact PlacementLifecycleState.retired_after_terminal hrecorded hu

/-- A plan that is led through its commitment to its retirement, with one call out of turn. -/
theorem history_of_run_retired : ∃ es t,
    advancing.Run (fun _ _ => True) ⟨default, 1⟩ es t ∧
    t.plan.entered = [.discovering, .filtering, .ranking, .planReady, .awaitingResourceCommit,
      .committed, .awaitingExecution, .active, .failed, .retired] ∧ t.nextOrdinal = 11 ∧
    ∀ f ∈ es, ∀ e, f.src.outcome f.act = .error e → f.tgt = f.src := by
  have hcalls : (advancing.exec (fun _ _ => True) ⟨default, 1⟩
      (([.discovering, .filtering, .ranking, .planReady, .active, .awaitingResourceCommit,
        .committed, .awaitingExecution, .active, .failed, .retired, .active] :
          List PlacementLifecycleState).map fun dst => ⟨dst, 0⟩)).map
        (fun t => (t.plan.entered, t.nextOrdinal)) =
      some ([.discovering, .filtering, .ranking, .planReady, .awaitingResourceCommit,
        .committed, .awaitingExecution, .active, .failed, .retired], 11) := by decide +kernel
  obtain ⟨es, t, hr, _, hobs⟩ := TransitionSystem.exists_run_of_exec hcalls
  obtain ⟨hentered, hordinal⟩ := Prod.mk.injEq .. ▸ hobs
  exact ⟨es, t, hr, hentered, hordinal, (history_of_run hr ⟨rfl, rfl⟩).1⟩

end Advancing

end FabricScheduler
