import FabricScheduler.Scheduler.Durability
import FabricScheduler.Scheduler.Execution

/-!
# Which plans can be planned again

After a recovery only the requests of its snapshot are known. A scheduling pass records its
request when no candidate is eligible, and a pass that makes a plan does not, so a plan can
be planned again only when an earlier pass for its request came to nothing.
-/

namespace FabricScheduler

namespace SchedulerState

variable {st st' : SchedulerState}

/-- The snapshot holds a request for every stored plan. -/
def PlansRequested (st : SchedulerState) : Prop :=
  ∀ k p, st.plans.find? k = some p → ∃ r ∈ st.snapshot.requests, r.requestId = p.requestId

/-- The requests in the snapshot of a durable state are those stored under their ids. -/
theorem Durable.exists_request_iff (h : st.Durable) {id : SchedulingRequestId} :
    (∃ r ∈ st.snapshot.requests, r.requestId = id) ↔ id ∈ st.requests.keys := by
  simp only [snapshot, OrderedMap.mem_values_iff, OrderedMap.mem_keys_iff]
  constructor
  · rintro ⟨r, ⟨key, hr⟩, rfl⟩
    exact ⟨r, (h.requests key r hr).1 ▸ hr⟩
  · rintro ⟨r, hr⟩
    exact ⟨r, ⟨id, hr⟩, (h.requests id r hr).1⟩

/-- The request store knows the request of every stored plan. -/
def RequestsHeld (st : SchedulerState) : Prop :=
  ∀ k p, st.plans.find? k = some p → p.requestId ∈ st.requests.keys

theorem Durable.plansRequested_iff (h : st.Durable) : st.PlansRequested ↔ st.RequestsHeld := by
  simp only [PlansRequested, RequestsHeld, h.exists_request_iff]

/-- A recovery keeps the requests of the plans it keeps. -/
theorem RequestsHeld.restore {st₀ : SchedulerState} (h : st₀.RequestsHeld)
    (hdurable : st₀.Durable) (st : SchedulerState) :
    (st.restore st₀.snapshot).RequestsHeld := by
  intro k q hq
  have hmem := OrderedMap.mem_keys_iff.mpr ⟨q, hq⟩
  rw [hdurable.keys_restore] at hmem
  obtain ⟨p, hp⟩ := OrderedMap.mem_keys_iff.mp hmem
  obtain ⟨r, hr, hcarried⟩ := hdurable.carries_restore st k p hp
  obtain rfl := Option.some.inj (hq.symm.trans hr)
  rw [hcarried.requestId, hdurable.restore_eq]
  exact h k p hp

end SchedulerState

namespace System

variable {config : SchedulerConfig} {s t : System} {a : Action}
  {es : List (TransitionSystem.Step System Action)}

/-- The step makes no plan, or one whose request is already recorded. -/
def PlansRecorded (s : System) : Action → Prop
  | .scheduleFinish c views => ∀ request snapshot,
      s.pending c = some (.scheduling request snapshot) →
      rankSnapshot s.sched.rankOptions request views snapshot = [] ∨
        s.sched.plans.find? ⟨s.sched.nextPlanId⟩ ≠ none ∨
        request.requestId ∈ s.sched.requests.keys
  | _ => True

instance (s : System) (a : Action) : Decidable (s.PlansRecorded a) :=
  match a with
  | .scheduleFinish c views =>
      match h : s.pending c with
      | some (.scheduling request snapshot) =>
          decidable_of_iff (rankSnapshot s.sched.rankOptions request views snapshot = [] ∨
              s.sched.plans.find? ⟨s.sched.nextPlanId⟩ ≠ none ∨
              request.requestId ∈ s.sched.requests.keys) <| by
            simp [PlansRecorded, h]
      | none | some (.committing _ _) | some (.settling _ _ _) | some (.releasing _ _ _)
      | some (.authorizing _ _) | some (.launching _ _) => isTrue <| by simp [PlansRecorded, h]
  | .setEpoch _ | .fenceWorker _ | .fenceSource _ | .ingestCandidate _ | .scheduleBegin _
  | .commitBegin _ | .brokerCommit _ _ | .commitFinish _ | .brokerRelease _ _
  | .handoffBegin _ | .authorize _ _ | .handoffFinish _ | .unwind _ | .revalidate _ _
  | .cancel _ | .supersede _ _ _ | .snapshot | .restore _ => isTrue trivial

/-- Other than by a recovery a recorded request is never dropped. -/
theorem Stepped.mem_requests (hstep : Stepped s a t) (hno : s.NoRestore a)
    {id : SchedulingRequestId} (h : id ∈ s.sched.requests.keys) :
    id ∈ t.sched.requests.keys := by
  rcases hstep.requests_cases hno with hsame | ⟨_, r, _, _, hinsert⟩
  · rwa [hsame]
  · obtain ⟨r', hr'⟩ := OrderedMap.mem_keys_iff.mp h
    rw [hinsert, OrderedMap.mem_keys_iff, OrderedMap.find?_insert]
    split
    · exact ⟨r, rfl⟩
    · exact ⟨r', hr'⟩

/-- A plan that appears in a step which makes only recorded plans has its request recorded. -/
theorem Stepped.requested_of_stored (hstep : Stepped s a t) (hno : s.NoRestore a)
    (hrecorded : s.PlansRecorded a) {k : PlacementPlanId} {q : PlacementPlan}
    (hnone : s.sched.plans.find? k = none) (hq : t.sched.plans.find? k = some q) :
    q.requestId ∈ t.sched.requests.keys := by
  obtain ⟨n, request, snapshot, hn, hcreated, _, views, rfl⟩ := hstep.stored hno hnone hq
  refine hstep.mem_requests hno (hcreated.requestId ▸ ?_)
  cases hstep with
  | scheduled hc _ _ =>
      obtain ⟨rfl, rfl⟩ := Call.scheduling.inj (Option.some.inj (hn.symm.trans hc))
      rcases hrecorded _ _ hn with hnil | htaken | hmem
      · change (s.sched.scheduleSecond request views snapshot).2.plans.find? k = _ at hq
        rw [SchedulerState.scheduleSecond_of_nil hnil] at hq
        exact absurd (hnone.symm.trans hq) nofun
      · rcases s.sched.scheduleSecond_plans request views snapshot k with hk | ⟨hfree, rfl, _⟩
        · exact absurd (hnone.symm.trans (hk.symm.trans hq)) nofun
        · exact absurd hfree htaken
      · exact hmem

/-- A step that makes only recorded plans keeps the requests of all plans. -/
theorem Stepped.requestsHeld (hstep : Stepped s a t) (hno : s.NoRestore a)
    (hrecorded : s.PlansRecorded a) (h : s.sched.RequestsHeld) : t.sched.RequestsHeld := by
  intro k q hq
  cases hp : s.sched.plans.find? k with
  | none => exact hstep.requested_of_stored hno hrecorded hp hq
  | some p =>
      obtain ⟨r, hr, hcarried⟩ := (hstep.changed_of_noRestore hno).carries k p hp
      obtain rfl := Option.some.inj (hq.symm.trans hr)
      rw [hcarried.requestId]
      exact hstep.mem_requests hno (h k p hp)

/-- A step after which every plan has its request made only recorded plans. -/
theorem Stepped.plansRecorded (hstep : Stepped s a t) (h : t.sched.RequestsHeld) :
    s.PlansRecorded a := by
  cases a with
  | scheduleFinish c views =>
      intro request snapshot hc
      by_contra hnot
      obtain ⟨hrank, hnot⟩ := not_or.mp hnot
      obtain ⟨hfree, hmissing⟩ := not_or.mp hnot
      cases hstep with
      | scheduled hc' _ _ =>
          cases hc.symm.trans hc'
          obtain ⟨p, hp, hcreated, hkept, _⟩ :=
            SchedulerState.exists_created hrank (not_not.mp hfree)
          have hheld : p.requestId ∈
              (s.sched.scheduleSecond request views snapshot).2.requests.keys := h _ _ hp
          exact hmissing (hcreated.requestId ▸ hkept ▸ hheld)
  | _ => trivial

/-- Where every pass so far made only recorded plans, every plan has its request. -/
theorem requestsHeld (h : (scheduler config).Reachable
    (fun s a => RestoresOwn s a ∧ PlansRecorded s a) s) : s.sched.RequestsHeld := by
  refine (invariant_of_permitted h (fun _ _ hP => hP.1) SchedulerState.RequestsHeld
    (fun _ _ hp => by cases hp) ?_ ?_).1
  · rintro u a v ⟨_, hrecorded⟩ hn hno _ _ hu
    exact (stepped_of_step hn).requestsHeld hno hrecorded hu
  · exact fun u st₀ _ hdurable hst₀ => hst₀.restore hdurable u.sched

/-- In a run whose recoveries read back its own snapshots every plan has its request in every
state exactly when no pass makes a plan for a request that is not recorded. -/
theorem plans_requested_iff (h : (scheduler config).Run RestoresOwn (initial config) es t) :
    (∀ e ∈ es, e.tgt.sched.PlansRequested) ↔ ∀ e ∈ es, e.src.PlansRecorded e.act := by
  have hdurable : ∀ e ∈ es, e.tgt.sched.Durable := fun e he =>
    (recoverable (h.reachable_tgt rfl he)).durable
  constructor
  · intro hall e he
    obtain ⟨_, _, _, _, _, hn, _⟩ := h.of_mem he
    exact (stepped_of_step hn).plansRecorded ((hdurable e he).plansRequested_iff.mp (hall e he))
  · intro hall e he
    have hreach := (h.strengthen PlansRecorded hall).reachable_tgt rfl he
    exact (hdurable e he).plansRequested_iff.mpr (requestsHeld hreach)

/-- A request that first finds no candidate is recorded, and its later plan can be planned
again after a recovery. -/
theorem plans_requested_retried : ∃ es t,
    (scheduler Sample.config).Run RestoresOwn (initial Sample.config) es t ∧
    Sample.stateOf ⟨1⟩ t = some .revalidationRequired ∧
    ∀ e ∈ es, e.tgt.sched.PlansRequested := by
  have hrun : (after Sample.config (fun s a => NoRestore s a ∧ PlansRecorded s a)
      [.scheduleBegin (Sample.request ⟨1⟩), .scheduleFinish 0 (.pure none none),
        .ingestCandidate (Sample.candidate ⟨1⟩ ⟨1⟩), .scheduleBegin (Sample.request ⟨1⟩),
        .scheduleFinish 1 (.pure none none)]).map (fun t => Sample.stateOf ⟨1⟩ t.cycled) =
      some (some .revalidationRequired) := by decide +kernel
  obtain ⟨es, t, hr, _, hobs⟩ := exists_run_of_after hrun
  have hcycled := run_cycled (hr.mono fun s a h => RestoresOwn.of_noRestore s a h.1)
  refine ⟨_, _, hcycled, hobs, (plans_requested_iff hcycled).mpr ?_⟩
  intro e he
  simp only [List.mem_append, List.mem_singleton] at he
  rcases he with (he | rfl) | rfl
  · obtain ⟨_, _, _, _, hP, _⟩ := hr.of_mem he
    exact hP.2
  · trivial
  · trivial

/-- The plan of a request that finds a candidate at once has no request in the snapshot. -/
theorem scheduled_not_requested : ¬∀ config es t,
    (scheduler config).Run RestoresOwn (initial config) es t → t.sched.PlansRequested := by
  intro h
  have hrun : (after Sample.config NoRestore Sample.scheduling).map
      (fun t => (Sample.stateOf ⟨1⟩ t, decide (t.sched.snapshot.requests = []))) =
      some (some .planReady, true) := by decide +kernel
  obtain ⟨es, t, hr, _, hobs⟩ := exists_run_of_after hrun
  obtain ⟨hstate, hempty⟩ := Prod.mk.injEq .. ▸ hobs
  obtain ⟨p, hp, _⟩ := Option.map_eq_some_iff.mp hstate
  obtain ⟨r, hmem, _⟩ := h _ es t (hr.mono RestoresOwn.of_noRestore) ⟨1⟩ p hp
  rw [of_decide_eq_true hempty] at hmem
  cases hmem

end System

end FabricScheduler
