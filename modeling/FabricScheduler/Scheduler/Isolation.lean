import Mathlib.Logic.Function.Basic
import FabricScheduler.Scheduler.Execution
import FabricScheduler.Scheduler.Steps

/-!
# One request at a time

The scheduler keeps the plans of all requests in one store under one lock, and its calls
interleave freely. What a single request sees of it is a sequential machine: the epoch and
the authority, whether the request is cancelled, and its own plans, moved by the operations
on that request, by a new epoch and by a recovery. Operations on other requests are not
among the moves. The event ordinals number the events of all requests and are left out.
-/

namespace FabricScheduler

namespace PlacementPlan

/-- The plan without the ordinals of its history. -/
def unnumbered (p : PlacementPlan) : PlacementPlan :=
  { p with stateHistory := p.stateHistory.map fun e => (e.1, 0) }

@[simp] theorem unnumbered_state (p : PlacementPlan) : p.unnumbered.state = p.state := rfl

@[simp] theorem unnumbered_enter (p : PlacementPlan) (dst : PlacementLifecycleState)
    (ordinal : UInt64) : (p.enter dst ordinal).unnumbered = p.unnumbered.enter dst 0 := by
  simp only [unnumbered, enter, List.length_map]
  split <;> simp

@[simp] theorem unnumbered_forceState (p : PlacementPlan) (dst : PlacementLifecycleState)
    (ordinal : UInt64) :
    (p.forceState dst ordinal).unnumbered = p.unnumbered.forceState dst 0 := by
  unfold forceState
  rw [unnumbered_state]
  split
  · rfl
  · exact unnumbered_enter p dst ordinal

@[simp] theorem forceState_requestId (p : PlacementPlan) (dst : PlacementLifecycleState)
    (ordinal : UInt64) : (p.forceState dst ordinal).requestId = p.requestId :=
  (p.sameDecision_forceState dst ordinal).requestId

@[simp] theorem unnumbered_committedPlan (p : PlacementPlan) (claims : List ResourceClaim)
    (ordinal : UInt64) : (SchedulerState.committedPlan p claims ordinal).unnumbered =
      SchedulerState.committedPlan p.unnumbered claims 0 := by
  have henter := unnumbered_enter { p with hasCommitmentEvidence := true } .committed ordinal
  exact congrArg (fun q : PlacementPlan => { q with claims }) henter

end PlacementPlan

/-- What the scheduler is to one request. -/
@[ext] structure RequestView where
  epoch : CoordinatorEpoch
  authority : AuthorityGeneration
  cancelled : Bool
  /-- The plans of the request. -/
  plans : PlacementPlanId → Option PlacementPlan

/-- What moves a request's view. -/
inductive RequestOp
  | setEpoch (epoch : CoordinatorEpoch)
  /-- A pass stored a plan for the request. -/
  | stored (plan : PlacementPlan)
  | commitFirst (planId : PlacementPlanId)
  | commitSecond (planId : PlacementPlanId) (claims : List ResourceClaim) (succeeded : Bool)
  | handoffFirst (planId : PlacementPlanId)
  | handoffSecond (planId : PlacementPlanId) (authorized : Bool)
  | revalidate (planId : PlacementPlanId) (current : GenerationFingerprint)
  | cancel
  /-- The request is superseded, in favour of a plan of some request. -/
  | supersede (newer : PlacementPlanId) (reason : Bytes)
  | restored (view : RequestView)

namespace RequestView

/-- One plan of the view is rewritten. -/
def onPlan (v : RequestView) (k : PlacementPlanId) (f : PlacementPlan → PlacementPlan) :
    RequestView := { v with plans := Function.update v.plans k ((v.plans k).map f) }

/-- Every plan of the view that is not terminal is edited and forced into one state. -/
def force (v : RequestView) (edit : PlacementPlan → PlacementPlan)
    (dst : PlacementLifecycleState) : RequestView :=
  { v with plans := fun k => (v.plans k).map fun p =>
      if p.state.isTerminal then p else (edit p).forceState dst 0 }

/-- A first section moves a plan on from one state under three guards. -/
def claim (v : RequestView) (k : PlacementPlanId) (src dst : PlacementLifecycleState) :
    RequestView :=
  v.onPlan k fun p =>
    if p.state = src ∧ v.cancelled = false ∧ p.authorityGeneration = v.authority then
      p.enter dst 0
    else p

/-- The move of an operation. -/
def move (v : RequestView) : RequestOp → RequestView
  | .setEpoch epoch =>
      if epoch ≤ v.epoch then v
      else { v with epoch, authority := v.authority.next }.force id .revalidationRequired
  | .stored plan => { v with plans := Function.update v.plans plan.planId (some plan) }
  | .commitFirst k => v.claim k .planReady .awaitingResourceCommit
  | .commitSecond k claims succeeded =>
      v.onPlan k fun p =>
        if v.cancelled ∨ p.authorityGeneration ≠ v.authority ∨
            p.state ≠ .awaitingResourceCommit then p
        else if succeeded then SchedulerState.committedPlan p claims 0
        else p.forceState .revalidationRequired 0
  | .handoffFirst k => v.claim k .committed .awaitingExecution
  | .handoffSecond k authorized =>
      v.onPlan k fun p =>
        if v.cancelled ∨ p.authorityGeneration ≠ v.authority then p
        else if authorized then
          if p.state.canTransition .active then p.forceState .active 0 else p
        else p.forceState .revalidationRequired 0
  | .revalidate k current =>
      v.onPlan k fun p =>
        if p.generations = current then p else p.forceState .revalidationRequired 0
  | .cancel => { v with cancelled := true }.force id .cancelled
  | .supersede newer reason =>
      v.force (fun p => { p with supersededBy := newer, supersessionReason := reason })
        .superseded
  | .restored view => view.force id .revalidationRequired

theorem onPlan_of_eq {v : RequestView} {k : PlacementPlanId} {p : PlacementPlan}
    (h : v.plans k = some p) {f : PlacementPlan → PlacementPlan} (hf : f p = p) :
    v.onPlan k f = v := by
  ext1 <;> try rfl
  change Function.update v.plans k ((v.plans k).map f) = v.plans
  rw [h, Option.map_some, hf, ← h, Function.update_eq_self]

end RequestView

/-- The plans of one request, without their ordinals. -/
def plansOf (r : SchedulingRequestId) (plans : OrderedMap PlacementPlanId PlacementPlan)
    (k : PlacementPlanId) : Option PlacementPlan :=
  ((plans.find? k).filter fun p => p.requestId = r).map PlacementPlan.unnumbered

/-- What the scheduler is to a request. -/
def SchedulerState.requestView (st : SchedulerState) (r : SchedulingRequestId) :
    RequestView := ⟨st.epoch, st.authority, r ∈ st.cancelledRequests, plansOf r st.plans⟩

/-- What a snapshot tells about a request. -/
def Persisted.requestView (p : Persisted) (r : SchedulingRequestId) : RequestView :=
  ⟨p.epoch, p.authority, r ∈ p.cancelledRequests,
    plansOf r (.collect PlacementPlan.planId p.plans)⟩

namespace SchedulerState

variable {st : SchedulerState} {r : SchedulingRequestId} {k : PlacementPlanId}
  {p q : PlacementPlan}

theorem plansOf_eq_some {plans : OrderedMap PlacementPlanId PlacementPlan}
    (hp : plans.find? k = some p) (hr : p.requestId = r) :
    plansOf r plans k = some p.unnumbered := by
  simp only [plansOf, hp, Option.filter_some, hr, decide_true, if_true, Option.map_some]

theorem plansOf_eq_none {plans : OrderedMap PlacementPlanId PlacementPlan}
    (h : ∀ p, plans.find? k = some p → p.requestId ≠ r) : plansOf r plans k = none := by
  cases hp : plans.find? k with
  | none => simp only [plansOf, hp, Option.filter_none, Option.map_none]
  | some p => simp only [plansOf, hp, Option.filter_some, h p hp, decide_false,
      Bool.false_eq_true, if_false, Option.map_none]

/-- A plan is stored under an unused id. -/
private theorem plansOf_emplace {plans : OrderedMap PlacementPlanId PlacementPlan}
    (hfree : plans.find? k = none) (q : PlacementPlan) : plansOf r (plans.emplace k q) =
      if q.requestId = r then Function.update (plansOf r plans) k (some q.unnumbered)
      else plansOf r plans := by
  funext j
  have hfind := OrderedMap.find?_emplace_of_none q hfree j
  by_cases hj : j = k
  · rw [if_pos hj] at hfind
    split
    · rename_i hr
      rw [hj, Function.update_self, plansOf_eq_some (hj ▸ hfind) hr]
    · rename_i hr
      rw [plansOf_eq_none (by simp [hfind, hr]), plansOf_eq_none (by simp [hj, hfree])]
  · rw [if_neg hj] at hfind
    have hsame : plansOf r (plans.emplace k q) j = plansOf r plans j := by
      rw [plansOf, plansOf, hfind]
    rw [hsame]
    split
    · rw [Function.update_of_ne hj]
    · rfl

/-- The plan is stored and of the request. -/
def Owns (st : SchedulerState) (r : SchedulingRequestId) (k : PlacementPlanId) : Bool :=
  (st.plans.find? k).any fun p => p.requestId = r

/-- The plan a pass stores, if it stores one. -/
def storedBy (st : SchedulerState) (request : SchedulingRequest) (views : ScheduleViews)
    (snapshot : List Candidate) : Option PlacementPlan :=
  match rankSnapshot st.rankOptions request views snapshot with
  | [] => none
  | winner :: others =>
      if (st.plans.find? ⟨st.nextPlanId⟩).isNone then
        some (st.storedPlan request views snapshot winner others)
      else none

/-- A pass over the store is a pass over the view. -/
private theorem plansOf_forcePlans {when : PlacementPlan → Bool}
    {edit : PlacementPlan → PlacementPlan} {dst : PlacementLifecycleState}
    (when' : PlacementPlan → Bool)
    (hwhen : ∀ p, p.requestId = r → when p = when' p.unnumbered)
    (hedit : ∀ p, (edit p).unnumbered = edit p.unnumbered)
    (hrequest : ∀ p, (edit p).requestId = p.requestId) :
    plansOf r (st.forcePlans when edit dst).plans = fun k => (plansOf r st.plans k).map fun p =>
      if when' p then (edit p).forceState dst 0 else p := by
  funext k
  obtain ⟨ordinal, hfind⟩ := st.find?_forcePlans when edit dst k
  cases hp : st.plans.find? k with
  | none =>
      rw [hp, Option.map_none] at hfind
      rw [plansOf_eq_none (by simp [hfind]), plansOf_eq_none (by simp [hp]), Option.map_none]
  | some p =>
      rw [hp, Option.map_some] at hfind
      have hsame : (if when p then (edit p).forceState dst ordinal else p).requestId =
          p.requestId := by
        split
        · rw [PlacementPlan.forceState_requestId, hrequest]
        · rfl
      by_cases hr : p.requestId = r
      · rw [plansOf_eq_some hfind (hsame.trans hr), plansOf_eq_some hp hr, Option.map_some,
          hwhen p hr]
        split
        · rw [PlacementPlan.unnumbered_forceState, hedit]
        · rfl
      · rw [plansOf_eq_none (by simp [hfind, hsame, hr]), plansOf_eq_none (by simp [hp, hr]),
          Option.map_none]

/-- One stored plan is rewritten. -/
private theorem plansOf_withPlan (hp : st.plans.find? k = some p)
    (hq : q.requestId = p.requestId) : plansOf r (st.withPlan k q).plans =
      if p.requestId = r then Function.update (plansOf r st.plans) k (some q.unnumbered)
      else plansOf r st.plans := by
  funext j
  by_cases hr : p.requestId = r
  · rw [if_pos hr]
    by_cases hj : j = k
    · rw [hj, Function.update_self, plansOf_eq_some find?_withPlan_self (hq.trans hr)]
    · rw [Function.update_of_ne hj, plansOf, plansOf, find?_withPlan, if_neg hj]
  · rw [if_neg hr]
    by_cases hj : j = k
    · rw [hj, plansOf_eq_none (by simp [hq, hr]),
        plansOf_eq_none (by simp [hp, hr])]
    · rw [plansOf, plansOf, find?_withPlan, if_neg hj]

/-- An operation on a plan is one on the request that owns it. -/
def ownOp (st : SchedulerState) (r : SchedulingRequestId) (k : PlacementPlanId)
    (op : RequestOp) : Option RequestOp := if st.Owns r k then some op else none

/-- The view moves by the operation, if there is one. -/
def Follows (st st' : SchedulerState) (r : SchedulingRequestId) (op : Option RequestOp) : Prop :=
  st'.requestView r = (op.map (st.requestView r).move).getD (st.requestView r)

/-- A section that leaves a plan or rewrites it, as its request sees it. -/
private theorem follows_ownOp {st' : SchedulerState} {op : RequestOp}
    {f : PlacementPlan → PlacementPlan}
    (hmove : (st.requestView r).move op = (st.requestView r).onPlan k f)
    (hnone : st.plans.find? k = none → st' = st)
    (hsome : ∀ p, st.plans.find? k = some p →
      st'.requestView r = st.requestView r ∧ (p.requestId = r → f p.unnumbered = p.unnumbered) ∨
        ∃ q, st' = st.withPlan k q ∧ q.requestId = p.requestId ∧
          (p.requestId = r → f p.unnumbered = q.unnumbered)) :
    st.Follows st' r (st.ownOp r k op) := by
  unfold Follows ownOp Owns
  cases hp : st.plans.find? k with
  | none => rw [hnone hp, Option.any_none, if_neg Bool.false_ne_true, Option.map_none,
      Option.getD_none]
  | some p =>
      rw [Option.any_some]
      by_cases hr : p.requestId = r
      · have hview : (st.requestView r).plans k = some p.unnumbered := plansOf_eq_some hp hr
        rw [if_pos (decide_eq_true hr), Option.map_some, Option.getD_some, hmove]
        rcases hsome p hp with ⟨hsame, hf⟩ | ⟨q, rfl, hq, hf⟩
        · rw [hsame, RequestView.onPlan_of_eq hview (hf hr)]
        · refine RequestView.ext rfl rfl rfl ?_
          change plansOf r (st.withPlan k q).plans =
            Function.update (plansOf r st.plans) k (((st.requestView r).plans k).map f)
          rw [plansOf_withPlan hp hq, if_pos hr, hview, Option.map_some, hf hr]
      · rw [if_neg (by simp [hr]), Option.map_none, Option.getD_none]
        rcases hsome p hp with ⟨hsame, _⟩ | ⟨q, rfl, hq, _⟩
        · exact hsame
        · refine RequestView.ext rfl rfl rfl ?_
          change plansOf r (st.withPlan k q).plans = plansOf r st.plans
          rw [plansOf_withPlan hp hq, if_neg hr]

/-- The state after a first section. -/
def claimed (st : SchedulerState) (k : PlacementPlanId) (src dst : PlacementLifecycleState) :
    SchedulerState :=
  match st.plans.find? k with
  | none => st
  | some p =>
      if p.state = src ∧ p.requestId ∉ st.cancelledRequests ∧
          p.authorityGeneration = st.authority then
        st.withPlan k (p.enter dst st.nextEventOrdinal)
      else st

/-- The guards of a first section, and the checked write behind them. -/
private theorem snd_guarded {α : Type} {src dst : PlacementLifecycleState} (hne : src ≠ dst)
    (hcan : src.canTransition dst = true) {unready cancelled stale : α × SchedulerState}
    {thrown : FabricError → α × SchedulerState} {passed : PlacementPlan → α × SchedulerState}
    (hunready : unready.2 = st) (hcancelled : cancelled.2 = st) (hstale : stale.2 = st) :
    (if p.state ≠ src then unready
      else if p.requestId ∈ st.cancelledRequests then cancelled
      else if p.authorityGeneration ≠ st.authority then stale
      else match p.advanceLocal dst st.nextEventOrdinal with
        | .error e => thrown e
        | .ok moved => passed moved).2 =
    if p.state = src ∧ p.requestId ∉ st.cancelledRequests ∧
        p.authorityGeneration = st.authority then (passed (p.enter dst st.nextEventOrdinal)).2
    else st := by
  by_cases hstate : p.state = src
  · have henter := PlacementPlan.advanceLocal_eq_enter (hstate ▸ hne) (hstate ▸ hcan)
      st.nextEventOrdinal
    by_cases hcancel : p.requestId ∈ st.cancelledRequests
    · simp [hstate, hcancel, hcancelled]
    · by_cases hauth : p.authorityGeneration = st.authority
      · simp [hstate, hcancel, hauth, henter]
      · simp [hstate, hcancel, hauth, hstale]
  · simp [hstate, hunready]

private theorem snd_commitFirst (st : SchedulerState) (k : PlacementPlanId) :
    (st.commitFirst k).2 = st.claimed k .planReady .awaitingResourceCommit := by
  unfold commitFirst claimed
  cases st.plans.find? k with
  | none => rfl
  | some p => exact snd_guarded (by decide) rfl rfl rfl rfl

private theorem snd_handoffFirst (st : SchedulerState) (k : PlacementPlanId) :
    (st.handoffFirst k).2 = st.claimed k .committed .awaitingExecution := by
  unfold handoffFirst claimed
  cases st.plans.find? k with
  | none => rfl
  | some p => exact snd_guarded (by decide) rfl rfl rfl rfl

private theorem follows_claimed {op : RequestOp} {src dst : PlacementLifecycleState}
    (hmove : (st.requestView r).move op = (st.requestView r).claim k src dst) :
    st.Follows (st.claimed k src dst) r (st.ownOp r k op) := by
  refine follows_ownOp hmove ?_ ?_
  · intro hp
    rw [claimed, hp]
  · intro p hp
    rw [claimed, hp]
    by_cases hpass : p.state = src ∧ p.requestId ∉ st.cancelledRequests ∧
        p.authorityGeneration = st.authority
    · refine Or.inr ⟨_, if_pos hpass, rfl, fun hr => ?_⟩
      rw [if_pos ⟨hpass.1, decide_eq_false (hr ▸ hpass.2.1), hpass.2.2⟩]
      exact (PlacementPlan.unnumbered_enter ..).symm
    · refine Or.inl ⟨by simp only [if_neg hpass], fun hr => if_neg fun hview => hpass ?_⟩
      exact ⟨hview.1, hr ▸ of_decide_eq_false hview.2.1, hview.2.2⟩

private theorem follows_commitSecond (k : PlacementPlanId) (claims : List ResourceClaim)
    (answer : ResourceCommitResult) :
    st.Follows (st.commitSecond k claims answer).2 r
      (st.ownOp r k (.commitSecond k claims answer.succeeded)) := by
  refine follows_ownOp rfl ?_ ?_
  · intro hp
    rw [commitSecond, hp]
  · intro p hp
    have hguard : p.requestId = r →
        ((st.requestView r).cancelled = true ∨ p.authorityGeneration ≠ st.authority ∨
          p.state ≠ .awaitingResourceCommit ↔ st.commitStale p) := by
      rintro rfl
      exact or_congr_left decide_eq_true_iff
    rcases st.commitSecond_cases k claims answer with
      ⟨out, _, hstale, h⟩ | ⟨p', hp', hfresh, hcase⟩
    · refine Or.inl ⟨by rw [h], fun hr => if_pos ((hguard hr).mpr (hstale p hp))⟩
    · obtain rfl := Option.some.inj (hp.symm.trans hp')
      rcases hcase with ⟨hanswer, out, _, h⟩ | ⟨hanswer, h⟩
      · refine Or.inr ⟨_, by rw [h], PlacementPlan.forceState_requestId .., fun hr => ?_⟩
        rw [hanswer]
        refine (if_neg (hfresh ∘ (hguard hr).mp)).trans ?_
        exact (PlacementPlan.unnumbered_forceState ..).symm
      · refine Or.inr ⟨committedPlan p claims st.nextEventOrdinal, by rw [h], rfl, fun hr => ?_⟩
        rw [hanswer]
        refine (if_neg (hfresh ∘ (hguard hr).mp)).trans ?_
        exact (PlacementPlan.unnumbered_committedPlan ..).symm

private theorem follows_handoffSecond (k : PlacementPlanId) (h : ExecutionHandoff) :
    st.Follows (st.handoffSecond k h).2 r (st.ownOp r k (.handoffSecond k h.authorized)) := by
  refine follows_ownOp rfl ?_ ?_
  · intro hp
    rw [handoffSecond, hp]
  · intro p hp
    have hguard : p.requestId = r →
        ((st.requestView r).cancelled = true ∨ p.authorityGeneration ≠ st.authority ↔
          st.handoffStale p) := by
      rintro rfl
      exact or_congr_left decide_eq_true_iff
    rcases handoffSecond_cases hp h with ⟨hstale, heq⟩ | ⟨hfresh, hauth, heq⟩ |
      ⟨hfresh, hauth, hcan, heq⟩ | ⟨hfresh, hauth, hcan, e, heq⟩
    · exact Or.inl ⟨by rw [heq], fun hr => if_pos ((hguard hr).mpr hstale)⟩
    · refine Or.inr ⟨_, by rw [heq], PlacementPlan.forceState_requestId .., fun hr => ?_⟩
      rw [hauth]
      refine (if_neg (hfresh ∘ (hguard hr).mp)).trans ?_
      exact (PlacementPlan.unnumbered_forceState ..).symm
    · refine Or.inr ⟨_, by rw [heq], PlacementPlan.forceState_requestId .., fun hr => ?_⟩
      rw [hauth]
      refine (if_neg (hfresh ∘ (hguard hr).mp)).trans ?_
      exact (if_pos hcan).trans (PlacementPlan.unnumbered_forceState ..).symm
    · refine Or.inl ⟨by rw [heq]; rfl, fun hr => ?_⟩
      have hstuck : ¬p.state.canTransition .active = true := by
        rw [hcan]
        exact Bool.false_ne_true
      rw [hauth]
      exact (if_neg (hfresh ∘ (hguard hr).mp)).trans (if_neg hstuck)

private theorem follows_revalidate (k : PlacementPlanId) (current : GenerationFingerprint) :
    st.Follows (st.revalidate k current).2 r (st.ownOp r k (.revalidate k current)) := by
  refine follows_ownOp rfl ?_ ?_
  · intro hp
    rw [revalidate, hp]
  · intro p hp
    rcases st.revalidate_cases k current with ⟨hsame, heq⟩ | ⟨p', hp', hmoved, heq⟩
    · exact Or.inl ⟨by rw [heq], fun _ => if_pos (hsame p hp)⟩
    · obtain rfl := Option.some.inj (hp.symm.trans hp')
      refine Or.inr ⟨_, heq, PlacementPlan.forceState_requestId .., fun _ => ?_⟩
      exact (if_neg hmoved).trans (PlacementPlan.unnumbered_forceState ..).symm

/-- A pass over the plans of the view that are not terminal. -/
private theorem requestView_forcePlans (edit : PlacementPlan → PlacementPlan)
    {when : PlacementPlan → Bool} {dst : PlacementLifecycleState}
    (hwhen : ∀ p, p.requestId = r → when p = !p.state.isTerminal)
    (hedit : ∀ p, (edit p).unnumbered = edit p.unnumbered)
    (hrequest : ∀ p, (edit p).requestId = p.requestId) :
    (st.forcePlans when edit dst).requestView r = (st.requestView r).force edit dst := by
  refine RequestView.ext rfl rfl rfl ?_
  change plansOf r (st.forcePlans when edit dst).plans = fun k => (plansOf r st.plans k).map _
  rw [plansOf_forcePlans (fun p => !p.state.isTerminal) hwhen hedit hrequest]
  funext k
  congr 1
  funext p
  cases p.state.isTerminal <;> rfl

/-- A pass over the plans of another request. -/
private theorem requestView_forcePlans_other (edit : PlacementPlan → PlacementPlan)
    {when : PlacementPlan → Bool} {dst : PlacementLifecycleState}
    (hwhen : ∀ p, p.requestId = r → when p = false)
    (hedit : ∀ p, (edit p).unnumbered = edit p.unnumbered)
    (hrequest : ∀ p, (edit p).requestId = p.requestId) :
    (st.forcePlans when edit dst).requestView r = st.requestView r := by
  refine RequestView.ext rfl rfl rfl ?_
  change plansOf r (st.forcePlans when edit dst).plans = plansOf r st.plans
  rw [plansOf_forcePlans (fun _ => false) hwhen hedit hrequest]
  simp only [Bool.false_eq_true, if_false, Option.map_id_fun', id_eq]

private theorem follows_setEpoch (epoch : CoordinatorEpoch) :
    st.Follows (st.setEpoch epoch).2 r (some (.setEpoch epoch)) := by
  unfold Follows
  rw [Option.map_some, Option.getD_some]
  rcases st.setEpoch_cases epoch with ⟨hle, heq⟩ | ⟨hlt, heq⟩
  · rw [heq]
    exact (if_pos hle).symm
  · rw [heq]
    refine Eq.trans ?_ (if_neg (not_le_of_gt hlt)).symm
    exact requestView_forcePlans id (fun _ _ => rfl) (fun _ => rfl) (fun _ => rfl)

private theorem follows_cancel (requestId : SchedulingRequestId) :
    st.Follows (st.cancel requestId) r (if requestId = r then some .cancel else none) := by
  unfold Follows
  split
  · rename_i hr
    subst hr
    refine (requestView_forcePlans id (fun p hp => ?_) (fun _ => rfl) (fun _ => rfl)).trans ?_
    · simp only [hp, decide_true, Bool.true_and]
    · refine RequestView.ext rfl rfl ?_ rfl
      exact decide_eq_true (Finset.mem_insert_self ..)
  · rename_i hr
    refine (requestView_forcePlans_other id (fun p hp => ?_) (fun _ => rfl)
      (fun _ => rfl)).trans ?_
    · simp only [hp, Ne.symm hr, decide_false, Bool.false_and]
    · refine RequestView.ext rfl rfl ?_ rfl
      exact decide_eq_decide.mpr (by simp [Ne.symm hr])

private theorem follows_supersede (oldRequest newRequest : SchedulingRequestId)
    (reason : Bytes) : st.Follows (st.supersede oldRequest newRequest reason) r
      (if oldRequest = r then
        some (.supersede ((st.latestPlanByRequest.find? newRequest).getD ⟨0⟩) reason)
      else none) := by
  unfold Follows
  split
  · rename_i hr
    subst hr
    refine Eq.trans (b := (st.forcePlans _ _ .superseded).requestView oldRequest) rfl ?_
    refine requestView_forcePlans _ (fun p hp => ?_) (fun _ => rfl) (fun _ => rfl)
    simp only [hp, decide_true, Bool.true_and]
  · rename_i hr
    refine Eq.trans (b := (st.forcePlans _ _ .superseded).requestView r) rfl ?_
    refine requestView_forcePlans_other _ (fun p hp => ?_) (fun _ => rfl) (fun _ => rfl)
    simp only [hp, Ne.symm hr, decide_false, Bool.false_and]

private theorem follows_restore (persisted : Persisted) :
    st.Follows (st.restore persisted) r (some (.restored (persisted.requestView r))) :=
  requestView_forcePlans id (fun _ _ => rfl) (fun _ => rfl) (fun _ => rfl)

private theorem follows_scheduleSecond (request : SchedulingRequest) (views : ScheduleViews)
    (snapshot : List Candidate) :
    st.Follows (st.scheduleSecond request views snapshot).2 r
      (if request.requestId = r then
        (st.storedBy request views snapshot).map fun p => .stored p.unnumbered
      else none) := by
  unfold Follows storedBy
  cases hrank : rankSnapshot st.rankOptions request views snapshot with
  | nil =>
      rw [scheduleSecond_of_nil hrank]
      split <;> rfl
  | cons winner others =>
      rw [scheduleSecond_of_cons hrank]
      cases hfree : st.plans.find? ⟨st.nextPlanId⟩ with
      | some held =>
          simp only [OrderedMap.emplace, hfree, Option.isSome_some, if_true, Option.isNone_some,
            Bool.false_eq_true, if_false, Option.map_none, ite_self, Option.getD_none]
          rfl
      | none =>
          have hcreated := created_storedPlan hrank
          simp only [Option.isNone_none, if_true, Option.map_some]
          generalize st.storedPlan request views snapshot winner others = q at hcreated
          have hid : q.unnumbered.planId = ⟨st.nextPlanId⟩ := hcreated.planId
          have hplans := plansOf_emplace (r := r) hfree q
          rw [hcreated.requestId] at hplans
          split
          · rename_i hr
            refine RequestView.ext rfl rfl rfl ?_
            rw [if_pos hr] at hplans
            exact hid ▸ hplans
          · rename_i hr
            refine RequestView.ext rfl rfl rfl ?_
            rwa [if_neg hr] at hplans

end SchedulerState

namespace System

variable {config config' : SchedulerConfig} {P P' : System → Action → Prop} {s t t' : System}
  {a : Action} {r : SchedulingRequestId} {es es' : List (TransitionSystem.Step System Action)}

/-- The operation on a request that a step is, if it is one. -/
def requestOp (r : SchedulingRequestId) (s : System) : Action → Option RequestOp
  | .setEpoch epoch => some (.setEpoch epoch)
  | .scheduleFinish c views =>
      match s.pending c with
      | some (.scheduling request snapshot) =>
          if request.requestId = r then
            (s.sched.storedBy request views snapshot).map fun p => .stored p.unnumbered
          else none
      | _ => none
  | .commitBegin k => s.sched.ownOp r k (.commitFirst k)
  | .commitFinish c =>
      match s.pending c with
      | some (.settling k claims answer) =>
          s.sched.ownOp r k (.commitSecond k claims answer.succeeded)
      | _ => none
  | .handoffBegin k => s.sched.ownOp r k (.handoffFirst k)
  | .handoffFinish c =>
      match s.pending c with
      | some (.launching k h) => s.sched.ownOp r k (.handoffSecond k h.authorized)
      | _ => none
  | .revalidate k current => s.sched.ownOp r k (.revalidate k current)
  | .cancel requestId => if requestId = r then some .cancel else none
  | .supersede oldRequest newRequest reason =>
      if oldRequest = r then
        some (.supersede ((s.sched.latestPlanByRequest.find? newRequest).getD ⟨0⟩) reason)
      else none
  | .restore persisted => some (.restored (persisted.requestView r))
  | .fenceWorker _ | .fenceSource _ | .ingestCandidate _ | .scheduleBegin _
  | .brokerCommit _ _ | .brokerRelease _ _ | .authorize _ _ | .unwind _ | .snapshot => none

private theorem sched_commitBegin (s : System) (k : PlacementPlanId) :
    (s.commitBegin k).sched = (s.sched.commitFirst k).2 := by
  unfold commitBegin
  split <;> rename_i h <;> rw [h] <;> rfl

private theorem sched_commitFinish (s : System) (c : Nat) (k : PlacementPlanId)
    (claims : List ResourceClaim) (answer : ResourceCommitResult) :
    (s.commitFinish c k claims answer).sched = (s.sched.commitSecond k claims answer).2 := by
  unfold commitFinish
  split <;> rename_i h <;> rw [h] <;> rfl

private theorem sched_handoffBegin (s : System) (k : PlacementPlanId) :
    (s.handoffBegin k).sched = (s.sched.handoffFirst k).2 := by
  unfold handoffBegin
  split <;> rename_i h <;> rw [h] <;> rfl

private theorem sched_handoffFinish (s : System) (c : Nat) (k : PlacementPlanId)
    (h : ExecutionHandoff) :
    (s.handoffFinish c k h).sched = (s.sched.handoffSecond k h).2 := by
  unfold handoffFinish
  split <;> rename_i h <;> rw [h] <;> rfl

private theorem sched_scheduleFinish (s : System) (c : Nat) (request : SchedulingRequest)
    (snapshot : List Candidate) (views : ScheduleViews) :
    (s.scheduleFinish c request snapshot views).sched =
      (s.sched.scheduleSecond request views snapshot).2 := by
  unfold scheduleFinish
  split <;> rename_i h <;> rw [h] <;> rfl

private theorem requestView_ingestCandidate (s : System) (candidate : Candidate) :
    (s.ingestCandidate candidate).sched.requestView r = s.sched.requestView r := by
  unfold ingestCandidate
  rcases s.sched.ingestCandidate_cases candidate with ⟨e, he, _⟩ | ⟨hok, _⟩
  · rw [he]
    rfl
  · rw [hok]
    rfl

/-- A step is one of the view, or none. -/
theorem follows_step (h : s.step a = some t) :
    s.sched.Follows t.sched r (s.requestOp r a) := by
  cases a with
  | setEpoch epoch =>
      obtain rfl := Option.some.inj h
      exact SchedulerState.follows_setEpoch epoch
  | ingestCandidate candidate =>
      obtain rfl := Option.some.inj h
      exact requestView_ingestCandidate s candidate
  | scheduleBegin request =>
      obtain rfl := Option.some.inj h
      change SchedulerState.requestView (scheduleBegin s request).sched r = _
      unfold scheduleBegin
      split <;> rfl
  | scheduleFinish c views =>
      simp only [step] at h
      split at h
      · rename_i request snapshot hc
        obtain rfl := Option.some.inj h
        have hop : s.requestOp r (.scheduleFinish c views) = if request.requestId = r then
            (s.sched.storedBy request views snapshot).map fun p => .stored p.unnumbered
          else none := by
          simp only [requestOp, hc]
        rw [sched_scheduleFinish, hop]
        exact SchedulerState.follows_scheduleSecond _ views _
      · cases h
  | commitBegin k =>
      obtain rfl := Option.some.inj h
      rw [sched_commitBegin, SchedulerState.snd_commitFirst]
      exact SchedulerState.follows_claimed rfl
  | commitFinish c =>
      simp only [step] at h
      split at h
      · rename_i k claims answer hc
        obtain rfl := Option.some.inj h
        have hop : s.requestOp r (.commitFinish c) = s.sched.ownOp r k
            (.commitSecond k claims answer.succeeded) := by
          simp only [requestOp, hc]
        rw [sched_commitFinish, hop]
        exact SchedulerState.follows_commitSecond _ _ _
      · cases h
  | handoffBegin k =>
      obtain rfl := Option.some.inj h
      rw [sched_handoffBegin, SchedulerState.snd_handoffFirst]
      exact SchedulerState.follows_claimed rfl
  | handoffFinish c =>
      simp only [step] at h
      split at h
      · rename_i k handoff hc
        obtain rfl := Option.some.inj h
        have hop : s.requestOp r (.handoffFinish c) = s.sched.ownOp r k
            (.handoffSecond k handoff.authorized) := by
          simp only [requestOp, hc]
        rw [sched_handoffFinish, hop]
        exact SchedulerState.follows_handoffSecond _ _
      · cases h
  | revalidate k current =>
      obtain rfl := Option.some.inj h
      exact SchedulerState.follows_revalidate k current
  | cancel requestId =>
      obtain rfl := Option.some.inj h
      exact SchedulerState.follows_cancel requestId
  | supersede oldRequest newRequest reason =>
      obtain rfl := Option.some.inj h
      exact SchedulerState.follows_supersede oldRequest newRequest reason
  | restore persisted =>
      obtain rfl := Option.some.inj h
      exact SchedulerState.follows_restore persisted
  | fenceWorker _ | fenceSource _ | snapshot =>
      obtain rfl := Option.some.inj h
      rfl
  | brokerCommit _ _ | brokerRelease _ _ | authorize _ _ | unwind _ =>
      simp only [step] at h
      split at h <;> first | cases h; rfl | cases h

/-- The operations on a request among the steps of a run. -/
def requestOps (r : SchedulingRequestId) (es : List (TransitionSystem.Step System Action)) :
    List RequestOp := es.filterMap fun e => e.src.requestOp r e.act

/-- What a request sees of a run is a run of its own machine. -/
theorem requestView_of_run (h : (scheduler config).Run P s es t) (r : SchedulingRequestId) :
    t.sched.requestView r =
      (requestOps r es).foldl RequestView.move (s.sched.requestView r) := by
  refine h.followed (fun s => s.sched.requestView r) (requestOp r) RequestView.move ?_
  intro u a v _ hn
  exact follows_step hn

/-- Requests are isolated from each other: two runs that agree in the operations on a request
leave it with the same plans, whatever else the two schedulers did in between. -/
theorem requests_isolated
    (h : (scheduler config).Run P (initial config) es t)
    (h' : (scheduler config').Run P' (initial config') es' t')
    (hauthority : config.initialAuthority = config'.initialAuthority)
    (hops : requestOps r es = requestOps r es') :
    t.sched.requestView r = t'.sched.requestView r := by
  have hinit : (initial config).sched.requestView r = (initial config').sched.requestView r := by
    refine RequestView.ext rfl hauthority rfl rfl
  rw [requestView_of_run h, requestView_of_run h', hops, hinit]

/-- What becomes of the second request does not show in the first. -/
theorem requests_isolated_cancelled : ∃ es t es' t',
    (scheduler Sample.config).Run NoRestore (initial Sample.config) es t ∧
    (scheduler Sample.config).Run NoRestore (initial Sample.config) es' t' ∧
    es'.map TransitionSystem.Step.act =
      es.map TransitionSystem.Step.act ++ [.cancel ⟨2⟩, .supersede ⟨2⟩ ⟨1⟩ []] ∧
    Sample.stateOf ⟨1⟩ t = some .committed ∧
    t.sched.requestView ⟨1⟩ = t'.sched.requestView ⟨1⟩ := by
  have hrun : (after Sample.config NoRestore Sample.committing).map (Sample.stateOf ⟨1⟩) =
      some (some .committed) := by decide +kernel
  obtain ⟨es, t, hr, _, hstate⟩ := exists_run_of_after hrun
  have hcancel : NoRestore t (.cancel ⟨2⟩) := trivial
  have hsupersede : NoRestore (t.whole (t.sched.cancel ⟨2⟩) []) (.supersede ⟨2⟩ ⟨1⟩ []) :=
    trivial
  have hr' := (hr.snoc hcancel rfl).snoc hsupersede rfl
  refine ⟨es, t, _, _, hr, hr', ?_, hstate, requests_isolated hr hr' rfl ?_⟩
  · simp only [List.map_append, List.map_cons, List.map_nil, List.append_assoc, List.cons_append,
      List.nil_append]
  · simp [requestOps, requestOp]

end System

end FabricScheduler
