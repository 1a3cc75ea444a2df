import FabricScheduler.Persistence.File
import FabricScheduler.Scheduler.Durability

/-!
# Loading what a scheduler saved

The records of a snapshot are well formed in every reachable state, so the file of a
snapshot loads exactly when the candidate of each of its plans is among its candidates. A
recovery drops the candidates and keeps the plans, and what is saved right after it does
not load.
-/

namespace FabricScheduler

/-- The same epoch and authority, counters, plans, candidate identities, history and
cancelled requests. -/
structure Persisted.Recovers (q p : Persisted) : Prop where
  epoch : q.epoch = p.epoch
  authority : q.authority = p.authority
  nextPlanId : q.nextPlanId = p.nextPlanId
  nextSubmitOrdinal : q.nextSubmitOrdinal = p.nextSubmitOrdinal
  nextEventOrdinal : q.nextEventOrdinal = p.nextEventOrdinal
  ingestWatermark : q.ingestWatermark = p.ingestWatermark
  plans : q.plans = p.plans
  candidateIdentities : q.candidateIdentities = p.candidateIdentities
  supersessionHistory : q.supersessionHistory = p.supersessionHistory
  cancelledRequests : q.cancelledRequests = p.cancelledRequests

theorem Persisted.recovers_withoutTopology (p : Persisted) : p.withoutTopology.Recovers p :=
  ⟨rfl, rfl, rfl, rfl, rfl, rfl, rfl, rfl, rfl, rfl⟩

namespace SchedulerState

variable {st : SchedulerState} {cancelled : List SchedulingRequestId}

/-- The file of the state's snapshot is loaded back. -/
def Loads (st : SchedulerState) (cancelled : List SchedulingRequestId) : Prop :=
  ∃ q, persistLoad (persistSave cancelled st.snapshot) = .ok q ∧ q.Recovers st.snapshot

/-- The records of a durable state are well formed. -/
theorem Durable.wellFormed (h : st.Durable) (hsize : st.plans.values.length ≤ maxRecords) :
    st.snapshot.WellFormed := by
  have hbound : st.plans.keys.length + 1 < 2 ^ 64 := by
    rw [OrderedMap.length_values] at hsize
    rw [OrderedMap.length_keys]
    exact Nat.lt_of_le_of_lt (Nat.succ_le_succ hsize) (by decide)
  obtain ⟨hnext, hbelow⟩ := h.issued hbound
  refine ⟨rfl, h.epoch, ?_, ?_, ?_, ⟨?_, ?_⟩, ?_⟩
  · change (st.requests.values.map SchedulingRequest.requestId).Nodup
    rw [OrderedMap.map_values _ fun id r hr => (h.requests id r hr).1]
    exact st.requests.nodup_keys
  · intro r hr
    obtain ⟨id, hid⟩ := OrderedMap.mem_values_iff.mp hr
    exact (h.requests id r hid).2
  · change (st.plans.values.map PlacementPlan.planId).Nodup
    rw [OrderedMap.map_values _ fun k p hp => (h.plans k p hp).1]
    exact st.plans.nodup_keys
  · change 0 < st.nextPlanId
    rw [UInt64.lt_iff_toNat_lt, hnext]
    exact Nat.succ_pos _
  · intro p hp
    obtain ⟨k, hk⟩ := OrderedMap.mem_values_iff.mp hp
    rw [(h.plans k p hk).1]
    exact hbelow k (OrderedMap.mem_keys_iff.mpr ⟨p, hk⟩)
  · change ((st.candidates.values.map identityOf).map CandidateIdentity.candidateId).Nodup
    rw [List.map_map]
    change (st.candidates.values.map Candidate.candidateId).Nodup
    rw [OrderedMap.map_values _ h.candidates]
    exact st.candidates.nodup_keys

/-- The plans of a durable state pass the loader's cross-record checks exactly when their
candidates are known. -/
theorem Durable.checkPlans_iff (h : st.Durable) :
    checkPlans st.snapshot.candidateIdentities st.snapshot.plans = .ok () ↔
      st.SelectionsHeld := by
  have hknown : ∀ id, (∃ c ∈ st.snapshot.candidateIdentities, c.candidateId = id) ↔
      ∃ c, st.candidates.find? id = some c := by
    intro id
    constructor
    · rintro ⟨c, hc, rfl⟩
      obtain ⟨candidate, hmem, rfl⟩ := List.mem_map.mp hc
      obtain ⟨k, hk⟩ := OrderedMap.mem_values_iff.mp hmem
      refine ⟨candidate, ?_⟩
      change st.candidates.find? candidate.candidateId = some candidate
      rw [h.candidates k candidate hk, hk]
    · rintro ⟨candidate, hfind⟩
      have hmem := OrderedMap.mem_values_iff.mpr ⟨id, hfind⟩
      exact ⟨identityOf candidate, List.mem_map_of_mem hmem, h.candidates id candidate hfind⟩
  rw [checkPlans_ok_iff]
  constructor
  · intro hall k p hp
    have hmem := OrderedMap.mem_values_iff.mpr ⟨k, hp⟩
    exact (hknown _).mp (checkPlan_ok_iff.mp (hall p hmem)).1
  · intro hheld p hp
    obtain ⟨k, hk⟩ := OrderedMap.mem_values_iff.mp hp
    exact checkPlan_ok_iff.mpr ⟨(hknown _).mpr (hheld k p hk), (h.plans k p hk).2⟩

/-- The file of a durable state within the loader's bounds is loaded back exactly when the
candidates of its plans are known. -/
theorem Durable.loads_iff (h : st.Durable)
    (hcancelled : cancelled.toFinset = st.cancelledRequests)
    (hb : st.snapshot.Bounded cancelled) : st.Loads cancelled ↔ st.SelectionsHeld := by
  rw [← h.checkPlans_iff, Loads,
    persistLoad_persistSave (h.wellFormed hb.plans.1) hb hcancelled]
  constructor
  · rintro ⟨q, hq, _⟩
    cases hcheck : checkPlans st.snapshot.candidateIdentities st.snapshot.plans with
    | ok u => rfl
    | error e =>
        rw [hcheck] at hq
        cases hq
  · intro hcheck
    rw [hcheck]
    exact ⟨_, rfl, Persisted.recovers_withoutTopology _⟩

end SchedulerState

namespace System

variable {config : SchedulerConfig} {t : System}
  {es : List (TransitionSystem.Step System Action)} {cancelled : List SchedulingRequestId}

/-- In every run that only recovers what was saved in it, the file of a snapshot within the
loader's bounds is loaded back exactly when the candidate of each stored plan is in the
candidate store. That is so in every run whose recoveries leave no plan and no scheduling
pass behind. -/
theorem loads_iff_selectionsHeld (h : (scheduler config).Run RestoresOwn (initial config) es t)
    (hcancelled : cancelled.toFinset = t.sched.cancelledRequests)
    (hb : t.sched.snapshot.Bounded cancelled) :
    (t.sched.Loads cancelled ↔ t.sched.SelectionsHeld) ∧
      ((∀ e ∈ es, e.src.KeepsEvidence e.act) → t.sched.Loads cancelled) := by
  have hiff := (recoverable ⟨_, es, rfl, h⟩).durable.loads_iff hcancelled hb
  exact ⟨hiff, fun hkeeps => hiff.mpr (selectionsHeld_of_run h hkeeps)⟩

/-- What is saved after a recovery loads once the candidate of the plan is published
again. -/
theorem loads_republished : ∃ es t,
    (scheduler Sample.config).Run RestoresOwn (initial Sample.config) es t ∧
    Sample.stateOf ⟨1⟩ t = some .revalidationRequired ∧ t.sched.Loads [] := by
  have hrun : ((after Sample.config NoRestore Sample.scheduling).bind fun u =>
      (scheduler Sample.config).exec NoRestore u.cycled
        [.ingestCandidate (Sample.candidate ⟨1⟩ ⟨1⟩)]).map (fun t =>
          (Sample.stateOf ⟨1⟩ t, decide (List.toFinset [] = t.sched.cancelledRequests),
            decide (t.sched.snapshot.Bounded []), decide t.sched.SelectionsHeld)) =
      some (some .revalidationRequired, true, true, true) := by decide +kernel
  obtain ⟨es, t, hr, hobs⟩ := exists_run_cycled hrun
  obtain ⟨hstate, hobs⟩ := Prod.mk.injEq .. ▸ hobs
  obtain ⟨hcancelled, hobs⟩ := Prod.mk.injEq .. ▸ hobs
  obtain ⟨hb, hheld⟩ := Prod.mk.injEq .. ▸ hobs
  refine ⟨es, t, hr, hstate, ?_⟩
  exact (loads_iff_selectionsHeld hr (of_decide_eq_true hcancelled) (of_decide_eq_true hb)).1.mpr
    (of_decide_eq_true hheld)

/-- What is saved right after a recovery does not load. -/
theorem not_loads_recovered : ¬∀ config es t cancelled,
    (scheduler config).Run RestoresOwn (initial config) es t →
      cancelled.toFinset = t.sched.cancelledRequests → t.sched.snapshot.Bounded cancelled →
        t.sched.Loads cancelled := by
  intro h
  have hrun : ((after Sample.config NoRestore Sample.scheduling).bind fun u =>
      (scheduler Sample.config).exec NoRestore u.cycled []).map (fun t =>
          (decide (List.toFinset [] = t.sched.cancelledRequests),
            decide (t.sched.snapshot.Bounded []), decide t.sched.SelectionsHeld)) =
      some (true, true, false) := by decide +kernel
  obtain ⟨es, t, hr, hobs⟩ := exists_run_cycled hrun
  obtain ⟨hcancelled, hobs⟩ := Prod.mk.injEq .. ▸ hobs
  obtain ⟨hb, hheld⟩ := Prod.mk.injEq .. ▸ hobs
  have hdurable := (recoverable ⟨_, es, rfl, hr⟩).durable
  have hloads := h _ es t [] hr (of_decide_eq_true hcancelled) (of_decide_eq_true hb)
  exact of_decide_eq_false hheld
    ((hdurable.loads_iff (of_decide_eq_true hcancelled) (of_decide_eq_true hb)).mp hloads)

end System

end FabricScheduler
