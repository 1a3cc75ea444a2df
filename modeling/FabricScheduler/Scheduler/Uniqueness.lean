import FabricScheduler.Scheduler.Fencing

/-!
# How many plans of a request are authoritative

Authority is checked per plan, so a request has as many committed plans as its callers
commit. A request keeps a single plan exactly when its earlier plans are out of the way
before a later one is committed, and a supersession puts them out of the way for good.
-/

namespace FabricScheduler

namespace SchedulerState

variable {st st' : SchedulerState} {sel : PlacementLifecycleState → Bool}

/-- At most one plan of each request is in one of the chosen states. -/
def AtMostOne (sel : PlacementLifecycleState → Bool) (st : SchedulerState) : Prop :=
  ∀ k p k' p', st.plans.find? k = some p → st.plans.find? k' = some p' →
    sel p.state = true → sel p'.state = true → p.requestId = p'.requestId → k = k'

theorem atMostOne_initial (config : SchedulerConfig) : (initial config).AtMostOne sel := by
  intro k p k' p' hp
  cases hp

theorem AtMostOne.mono {sel' : PlacementLifecycleState → Bool} (h : st.AtMostOne sel)
    (hsel : ∀ s, sel' s = true → sel s = true) : st.AtMostOne sel' := by
  intro k p k' p' hp hp' hs hs'
  exact h k p k' p' hp hp' (hsel _ hs) (hsel _ hs')

/-- The plan enters the chosen states. -/
def Enters (sel : PlacementLifecycleState → Bool) (st st' : SchedulerState)
    (k : PlacementPlanId) : Prop :=
  (∃ q, st'.plans.find? k = some q ∧ sel q.state = true) ∧
    ∀ p, st.plans.find? k = some p → sel p.state = false

/-- A change keeps to one plan for each request when a plan that enters the chosen states
finds no other plan of its request there. -/
theorem AtMostOne.changed (h : st.AtMostOne sel) (hc : st.Changed st')
    (halone : ∀ k, Enters sel st st' k → ∀ q, st'.plans.find? k = some q →
      ∀ k' p', k' ≠ k → st'.plans.find? k' = some p' → p'.requestId = q.requestId →
        sel p'.state = false) : st'.AtMostOne sel := by
  have hold : ∀ {k q}, st'.plans.find? k = some q → sel q.state = true →
      Enters sel st st' k ∨ ∃ p, st.plans.find? k = some p ∧ sel p.state = true ∧
        p.requestId = q.requestId := by
    intro k q hq hs
    by_cases henters : Enters sel st st' k
    · exact Or.inl henters
    · obtain ⟨p, hp⟩ := not_forall.mp fun hall => henters ⟨⟨q, hq, hs⟩, hall⟩
      obtain ⟨hp, hsel⟩ := Classical.not_imp.mp hp
      obtain ⟨r, hr, hcarried⟩ := hc.carries k p hp
      obtain rfl := Option.some.inj (hq.symm.trans hr)
      exact Or.inr ⟨p, hp, Bool.not_eq_false _ ▸ hsel, hcarried.requestId.symm⟩
  intro k q k' q' hq hq' hs hs' hrequest
  by_contra hne
  rcases hold hq hs with henters | ⟨p, hp, hsel, hpr⟩
  · rw [halone k henters q hq k' q' (Ne.symm hne) hq' hrequest.symm] at hs'
    cases hs'
  · rcases hold hq' hs' with henters' | ⟨p', hp', hsel', hpr'⟩
    · rw [halone k' henters' q' hq' k q hne hq hrequest] at hs
      cases hs
    · exact hne (h k p k' p' hp hp' hsel hsel' (hpr.trans (hrequest.trans hpr'.symm)))

/-- A plan gets on its way to execution only when it is stored. -/
theorem Changed.eq_none_of_enters (h : st.Changed st') {k : PlacementPlanId}
    (henters : Enters PlacementLifecycleState.isUnresolved st st' k) :
    st.plans.find? k = none := by
  obtain ⟨⟨q, hq, hu⟩, hnot⟩ := henters
  by_contra hne
  obtain ⟨p, hp⟩ := Option.ne_none_iff_exists'.mp hne
  obtain ⟨r, hr, hcarried⟩ := h.carries k p hp
  obtain rfl := Option.some.inj (hq.symm.trans hr)
  have hfalse := hnot p hp
  rw [hcarried.unresolved hu] at hfalse
  cases hfalse

/-- After a supersession no plan of the old request is on its way to execution. -/
theorem isUnresolved_supersede {oldRequest newRequest : SchedulingRequestId} {reason : Bytes}
    {k : PlacementPlanId} {q : PlacementPlan}
    (h : (st.supersede oldRequest newRequest reason).plans.find? k = some q)
    (hrequest : q.requestId = oldRequest) : q.state.isUnresolved = false := by
  rcases forcePlans_cases h with hq | ⟨_, hw⟩
  · rw [hq]
    rfl
  · refine PlacementLifecycleState.isUnresolved_of_isTerminal ?_
    simpa [hrequest] using hw

end SchedulerState

namespace System

variable {config : SchedulerConfig} {s s' t : System} {a : Action} {k : PlacementPlanId}
  {c : Nat} {es fs : List (TransitionSystem.Step System Action)}

/-- A step that commits a plan leaves the other plans as they were. -/
theorem CommitsPlan.frame {e : TransitionSystem.Step System Action} (h : CommitsPlan c k e)
    (hstep : Stepped e.src e.act e.tgt) {k' : PlacementPlanId} (hk : k' ≠ k) :
    e.tgt.sched.plans.find? k' = e.src.sched.plans.find? k' := by
  obtain ⟨src, act, tgt⟩ := e
  obtain ⟨rfl, ⟨claims, answer, hc⟩, _⟩ := h
  change Stepped src (.commitFinish c) tgt at hstep
  change src.pending c = some (.settling k claims answer) at hc
  cases hstep with
  | commitTooLate => rfl
  | commitReleases => rfl
  | commitDenied hc' | commitGranted hc' =>
      cases hc.symm.trans hc'
      exact SchedulerState.find?_withPlan_other (Ne.symm hk)

/-- A plan gets its commitment only in the second section of a commit. -/
theorem Stepped.commitsPlan_of_enters (hstep : Stepped s a t) (hno : s.NoRestore a)
    (h : SchedulerState.Enters PlacementLifecycleState.isAuthoritative s.sched t.sched k) :
    ∃ c, CommitsPlan c k ⟨s, a, t⟩ := by
  obtain ⟨⟨q, hq, hauth⟩, hnot⟩ := h
  have hkept : s.sched.plans.find? k ≠ some q := by
    intro hp
    rw [hnot q hp] at hauth
    cases hauth
  have hdisplaced : ∀ {when}, ¬Displacement when (s.sched.plans.find? k)
      (t.sched.plans.find? k) := by
    intro when hd
    rw [hq] at hd
    generalize hp : s.sched.plans.find? k = before at hd
    cases hd with
    | kept => exact hkept hp
    | displaced _ hdis =>
        have hu := PlacementLifecycleState.isUnresolved_of_isDisplacement hdis.displacement
        rw [PlacementLifecycleState.isUnresolved_of_isAuthoritative hauth] at hu
        cases hu
  have hwritten : ∀ {planId r}, t.sched = s.sched.withPlan planId r → planId = k ∧ r = q := by
    intro planId r ht
    rw [ht] at hq
    by_cases hk : planId = k
    · subst hk
      exact ⟨rfl, Option.some.inj (SchedulerState.find?_withPlan_self.symm.trans hq)⟩
    · exact absurd ((SchedulerState.find?_withPlan_other hk).symm.trans hq) hkept
  cases hstep with
  | setEpoch epoch => exact absurd (s.sched.displacement_setEpoch epoch k) hdisplaced
  | cancel requestId => exact absurd (s.sched.displacement_cancel requestId k) hdisplaced
  | supersede oldRequest newRequest reason =>
      exact absurd (s.sched.displacement_supersede oldRequest newRequest reason k) hdisplaced
  | revalidate planId current =>
      exact absurd (s.sched.displacement_revalidate planId current k) hdisplaced
  | @scheduled c request snapshot hc views decision =>
      rcases s.sched.scheduleSecond_plans request views snapshot k with hk | ⟨_, _, r, hr, hk⟩
      · exact absurd (hk.symm.trans hq) hkept
      · obtain rfl := Option.some.inj (hk.symm.trans hq)
        rw [hr.ready] at hauth
        cases hauth
  | commitAsks | commitDenied | handoffDenied =>
      obtain ⟨rfl, rfl⟩ := hwritten rfl
      simp only [PlacementPlan.enter_state, PlacementPlan.forceState_state] at hauth
      cases hauth
  | @commitGranted c planId claims answer p hc hp hfresh hanswer =>
      obtain ⟨rfl, rfl⟩ := hwritten rfl
      have hstate : p.state = .awaitingResourceCommit :=
        SchedulerState.state_of_not_commitStale hfresh
      exact ⟨c, rfl, ⟨_, _, hc⟩, ⟨p, hp, hstate⟩, _, hq, rfl⟩
  | handoffAsks hp hstate =>
      obtain ⟨rfl, rfl⟩ := hwritten rfl
      have hfalse := hnot _ hp
      rw [hstate] at hfalse
      cases hfalse
  | handoffLaunches hc hp _ _ hcan =>
      obtain ⟨rfl, rfl⟩ := hwritten rfl
      have hfalse := hnot _ hp
      rw [PlacementLifecycleState.isAuthoritative_of_canTransition_active hcan] at hfalse
      cases hfalse
  | restore => exact hno.elim
  | _ => exact absurd hq hkept

/-- A commit that succeeds in the step finds no other plan of its request holding a
commitment. -/
def CommitsAlone (e : TransitionSystem.Step System Action) : Prop :=
  ∀ c k, CommitsPlan c k e → ∀ p, e.src.sched.plans.find? k = some p →
    ∀ k' p', k' ≠ k → e.src.sched.plans.find? k' = some p' → p'.requestId = p.requestId →
      p'.state.isAuthoritative = false

/-- A plan stored in the step finds no plan of its request on its way to execution. -/
def SchedulesAlone (e : TransitionSystem.Step System Action) : Prop :=
  ∀ k q, e.src.sched.plans.find? k = none → e.tgt.sched.plans.find? k = some q →
    ∀ k' p', e.src.sched.plans.find? k' = some p' → p'.requestId = q.requestId →
      p'.state.isUnresolved = false

private theorem atMostOne_of_commitsAlone {e : TransitionSystem.Step System Action}
    (hstep : Stepped e.src e.act e.tgt) (hno : e.src.NoRestore e.act) (halone : CommitsAlone e)
    (h : e.src.sched.AtMostOne PlacementLifecycleState.isAuthoritative) :
    e.tgt.sched.AtMostOne PlacementLifecycleState.isAuthoritative := by
  have hchanged := hstep.changed_of_noRestore hno
  refine h.changed hchanged ?_
  intro k henters q hq k' q' hk hq' hrequest
  obtain ⟨c, hcommits⟩ := hstep.commitsPlan_of_enters hno henters
  obtain ⟨p, hp, _⟩ := hcommits.2.2.1
  obtain ⟨r, hr, hcarried⟩ := hchanged.carries k p hp
  obtain rfl := Option.some.inj (hq.symm.trans hr)
  exact halone c k hcommits p hp k' q' hk ((hcommits.frame hstep hk).symm.trans hq')
    (hrequest.trans hcarried.requestId)

private theorem commitsAlone_of_atMostOne {e : TransitionSystem.Step System Action}
    (hstep : Stepped e.src e.act e.tgt) (hno : e.src.NoRestore e.act)
    (h : e.tgt.sched.AtMostOne PlacementLifecycleState.isAuthoritative) : CommitsAlone e := by
  intro c k hcommits p hp k' p' hk hp' hrequest
  have hframe := hcommits.frame hstep hk
  obtain ⟨_, _, _, q, hq, hstate⟩ := hcommits
  obtain ⟨r, hr, hcarried⟩ := (hstep.changed_of_noRestore hno).carries k p hp
  obtain rfl := Option.some.inj (hq.symm.trans hr)
  by_contra hauth
  refine hk (h k' p' k q (hframe.trans hp') hq
    (Bool.not_eq_false _ ▸ hauth) (by rw [hstate]; rfl) ?_)
  rw [hrequest, hcarried.requestId]

private theorem atMostOne_of_schedulesAlone {e : TransitionSystem.Step System Action}
    (hstep : Stepped e.src e.act e.tgt) (hno : e.src.NoRestore e.act)
    (halone : SchedulesAlone e)
    (h : e.src.sched.AtMostOne PlacementLifecycleState.isUnresolved) :
    e.tgt.sched.AtMostOne PlacementLifecycleState.isUnresolved := by
  have hchanged := hstep.changed_of_noRestore hno
  refine h.changed hchanged ?_
  intro k henters q hq k' q' hk hq' hrequest
  have hnone := hchanged.eq_none_of_enters henters
  obtain ⟨_, _, _, _, _, hframe, _⟩ := hstep.stored hno hnone hq
  exact halone k q hnone hq k' q' ((hframe k' hk).symm.trans hq') hrequest

private theorem schedulesAlone_of_atMostOne {e : TransitionSystem.Step System Action}
    (hstep : Stepped e.src e.act e.tgt) (hno : e.src.NoRestore e.act)
    (h : e.tgt.sched.AtMostOne PlacementLifecycleState.isUnresolved) : SchedulesAlone e := by
  intro k q hnone hq k' p' hp' hrequest
  obtain ⟨_, _, _, _, hcreated, hframe, _⟩ := hstep.stored hno hnone hq
  have hk : k' ≠ k := by
    intro hk
    rw [hk, hnone] at hp'
    cases hp'
  by_contra hu
  exact hk (h k' p' k q ((hframe k' hk).trans hp') hq (Bool.not_eq_false _ ▸ hu)
    (by rw [hcreated.ready]; rfl) hrequest)

/-- A supersession fences the stored plans of the old request for good. -/
private theorem fenced_of_supersede (hs : (scheduler config).Reachable NoRestore s)
    {oldRequest newRequest : SchedulingRequestId} {reason : Bytes}
    (hn : s.step (.supersede oldRequest newRequest reason) = some s')
    (h : (scheduler config).Run NoRestore s' es t) {p : PlacementPlan}
    (hp : s.sched.plans.find? k = some p) (hrequest : p.requestId = oldRequest) :
    (∃ q, t.sched.plans.find? k = some q ∧ q.state.isUnresolved = false) ∧
      s'.Defeated t k := by
  have hno : s.NoRestore (.supersede oldRequest newRequest reason) := trivial
  obtain ⟨q, hq, hcarried⟩ := ((stepped_of_step hn).changed_of_noRestore hno).carries k p hp
  refine fenced_of_not_isUnresolved (hs.next hno hn) h hq ?_
  obtain rfl := Option.some.inj hn
  exact SchedulerState.isUnresolved_supersede hq (hcarried.requestId.trans hrequest)

/-- In a run without recovery a request has at most one committed, awaiting or active plan
in every state exactly when no commit succeeds beside another such plan of the request, and
at most one plan on its way to execution exactly when no plan is stored beside another such
plan of the request, which is enough for the first; and the plans of a request that are
stored when it is superseded never get on their way to execution again. -/
theorem one_authoritative_iff (h : (scheduler config).Run NoRestore (initial config) es t) :
    ((∀ e ∈ es, e.tgt.sched.AtMostOne PlacementLifecycleState.isAuthoritative) ↔
      ∀ e ∈ es, CommitsAlone e) ∧
    ((∀ e ∈ es, e.tgt.sched.AtMostOne PlacementLifecycleState.isUnresolved) ↔
      ∀ e ∈ es, SchedulesAlone e) ∧
    ((∀ e ∈ es, SchedulesAlone e) → ∀ e ∈ es, CommitsAlone e) ∧
    ∀ before e after oldRequest newRequest reason, es = before ++ e :: after →
      e.act = .supersede oldRequest newRequest reason →
      ∀ k p, e.src.sched.plans.find? k = some p → p.requestId = oldRequest →
        (∃ q, t.sched.plans.find? k = some q ∧ q.state.isUnresolved = false) ∧
          e.tgt.Defeated t k := by
  have hcommits := h.forall_tgt_iff
    (fun u => u.sched.AtMostOne PlacementLifecycleState.isAuthoritative) CommitsAlone
    (SchedulerState.atMostOne_initial config)
    (fun _ hno hn => atMostOne_of_commitsAlone (stepped_of_step hn) hno)
    (fun _ hno hn => commitsAlone_of_atMostOne (stepped_of_step hn) hno)
  have hschedules := h.forall_tgt_iff
    (fun u => u.sched.AtMostOne PlacementLifecycleState.isUnresolved) SchedulesAlone
    (SchedulerState.atMostOne_initial config)
    (fun _ hno hn => atMostOne_of_schedulesAlone (stepped_of_step hn) hno)
    (fun _ hno hn => schedulesAlone_of_atMostOne (stepped_of_step hn) hno)
  refine ⟨hcommits, hschedules, ?_, ?_⟩
  · intro halone
    refine hcommits.mp ?_
    intro e he
    exact (hschedules.mpr halone e he).mono
      fun _ => PlacementLifecycleState.isUnresolved_of_isAuthoritative
  · rintro before e after oldRequest newRequest reason rfl hact k p hp hrequest
    obtain ⟨hbefore, _, hn, hafter⟩ := h.split
    rw [hact] at hn
    exact fenced_of_supersede (reachable_of_run hbefore) hn hafter hp hrequest

/-- A request whose first plan is superseded before its second is scheduled. -/
theorem one_authoritative_superseded : ∃ es t,
    (scheduler Sample.config).Run NoRestore (initial Sample.config) es t ∧
    es.map TransitionSystem.Step.act = Sample.committing ++
      [.supersede ⟨1⟩ ⟨1⟩ [], .scheduleBegin (Sample.request ⟨1⟩),
        .scheduleFinish 2 (.pure none none)] ∧
    ((∀ e ∈ es, e.tgt.sched.AtMostOne PlacementLifecycleState.isUnresolved) ↔
      ∀ e ∈ es, SchedulesAlone e) := by
  have hrun : (after Sample.config NoRestore (Sample.committing ++
      [.supersede ⟨1⟩ ⟨1⟩ [], .scheduleBegin (Sample.request ⟨1⟩),
        .scheduleFinish 2 (.pure none none)])).map (Sample.stateOf ⟨1⟩) =
      some (some .superseded) := by decide +kernel
  obtain ⟨es, t, hr, hact, _⟩ := exists_run_of_after hrun
  exact ⟨es, t, hr, hact, (one_authoritative_iff hr).2.1⟩

/-- A request scheduled twice, both of whose plans are committed. -/
theorem two_authoritative_scheduled : ¬∀ config es t,
    (scheduler config).Run NoRestore (initial config) es t →
      t.sched.AtMostOne PlacementLifecycleState.isAuthoritative := by
  intro h
  have hrun : (after Sample.config NoRestore (Sample.committing ++
      [.scheduleBegin (Sample.request ⟨1⟩), .scheduleFinish 2 (.pure none none),
        .commitBegin ⟨2⟩, .brokerCommit 3 (Sample.grant [2]), .commitFinish 3])).map
      (fun t => ((t.sched.plans.find? ⟨1⟩).map fun p => (p.requestId, p.state.isAuthoritative),
        (t.sched.plans.find? ⟨2⟩).map fun p => (p.requestId, p.state.isAuthoritative))) =
      some (some (⟨1⟩, true), some (⟨1⟩, true)) := by decide +kernel
  obtain ⟨es, t, hr, _, hobs⟩ := exists_run_of_after hrun
  obtain ⟨hfirst, hsecond⟩ := Prod.mk.injEq .. ▸ hobs
  obtain ⟨p, hp, hpobs⟩ := Option.map_eq_some_iff.mp hfirst
  obtain ⟨q, hq, hqobs⟩ := Option.map_eq_some_iff.mp hsecond
  obtain ⟨hpr, hpauth⟩ := Prod.mk.injEq .. ▸ hpobs
  obtain ⟨hqr, hqauth⟩ := Prod.mk.injEq .. ▸ hqobs
  have hsame := h Sample.config es t hr ⟨1⟩ p ⟨2⟩ q hp hq hpauth hqauth (hpr.trans hqr.symm)
  exact absurd hsame (by decide)

end System

end FabricScheduler
