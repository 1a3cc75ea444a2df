import FabricScheduler.Scheduler.Durability
import FabricScheduler.Scheduler.Execution

/-!
# What a recovery restores

A recovery from a snapshot rebuilds what the snapshot was taken of, but for the evidence and
the fences, which are dropped, and the plans that are not over, which are forced to be
revalidated. The latest-plan index is rebuilt from the plan ids alone, and it is the one the
scheduling passes have kept, because they give out increasing ids.
-/

namespace FabricScheduler

namespace SchedulerState

variable {st st' : SchedulerState}

section Index

/-- The request of a plan and its id, which is what the latest-plan index is made of. -/
def latestEntry (plan : PlacementPlan) : SchedulingRequestId × PlacementPlanId :=
  (plan.requestId, plan.planId)

/-- One step of rebuilding the index: the entry replaces an older one of its request. -/
def enterLatest (latest : OrderedMap SchedulingRequestId PlacementPlanId)
    (entry : SchedulingRequestId × PlacementPlanId) :
    OrderedMap SchedulingRequestId PlacementPlanId :=
  match latest.find? entry.1 with
  | none => latest.insert entry.1 entry.2
  | some held => if held < entry.2 then latest.insert entry.1 entry.2 else latest

theorem rebuildLatest_eq (plans : List PlacementPlan) :
    rebuildLatest plans = (plans.map latestEntry).foldl enterLatest .empty := by
  rw [List.foldl_map]
  rfl

/-- An index names ids that were entered. -/
private theorem mem_of_find?_foldl {entries : List (SchedulingRequestId × PlacementPlanId)}
    {request : SchedulingRequestId} {id : PlacementPlanId}
    (h : (entries.foldl enterLatest .empty).find? request = some id) :
    id ∈ entries.map Prod.snd := by
  induction entries using List.reverseRecOn with
  | nil => cases h
  | append_singleton entries entry ih =>
      rw [List.foldl_append, List.foldl_cons, List.foldl_nil] at h
      rw [List.map_append, List.mem_append]
      generalize entries.foldl enterLatest .empty = latest at h ih
      have hinserted : (latest.insert entry.1 entry.2).find? request = some id →
          id ∈ entries.map Prod.snd ∨ id ∈ [entry].map Prod.snd := by
        intro hfind
        rw [OrderedMap.find?_insert] at hfind
        split at hfind
        · exact Or.inr (List.mem_singleton.mpr (Option.some.inj hfind).symm)
        · exact Or.inl (ih hfind)
      rw [enterLatest] at h
      split at h
      · exact hinserted h
      · split at h
        · exact hinserted h
        · exact Or.inl (ih h)

/-- A plan with an id above all others is the latest of its request. -/
theorem rebuildLatest_append {plans : List PlacementPlan} {q : PlacementPlan}
    (h : ∀ p ∈ plans, p.planId < q.planId) :
    rebuildLatest (plans ++ [q]) = (rebuildLatest plans).insert q.requestId q.planId := by
  rw [rebuildLatest_eq, rebuildLatest_eq, List.map_append, List.foldl_append]
  change enterLatest _ (latestEntry q) = _
  rw [enterLatest]
  split
  · rfl
  · rename_i held hheld
    have hmem := mem_of_find?_foldl hheld
    rw [List.map_map] at hmem
    obtain ⟨p, hp, rfl⟩ := List.mem_map.mp hmem
    exact if_pos (h p hp)

end Index

/-- The latest-plan index is the one a recovery rebuilds. -/
def Indexed (st : SchedulerState) : Prop :=
  st.plans.size + 1 < 2 ^ 64 → st.latestPlanByRequest = rebuildLatest st.plans.values

/-- The index rebuilt from plans depends only on what a plan never changes. -/
private theorem rebuildLatest_carried (hcarries : st.Carries st')
    (hkeys : st'.plans.keys = st.plans.keys) :
    rebuildLatest st'.plans.values = rebuildLatest st.plans.values := by
  rw [rebuildLatest_eq, rebuildLatest_eq]
  congr 1
  refine OrderedMap.map_values_congr latestEntry hkeys ?_
  intro k p hp
  obtain ⟨q, hq, hcarried⟩ := hcarries k p hp
  exact ⟨q, hq, by rw [latestEntry, latestEntry, hcarried.requestId, hcarried.planId]⟩

/-- A pass with an eligible candidate keeps the index right. -/
private theorem Indexed.scheduled (h : st.Indexed) (hdurable : st.Durable)
    (request : SchedulingRequest) (views : ScheduleViews) (snapshot : List Candidate) :
    (st.scheduleSecond request views snapshot).2.Indexed := by
  cases hrank : rankSnapshot st.rankOptions request views snapshot with
  | nil =>
      rw [scheduleSecond_of_nil hrank]
      exact h
  | cons winner others =>
      rw [scheduleSecond_of_cons hrank]
      have hcreated := created_storedPlan hrank
      generalize st.storedPlan request views snapshot winner others = q at hcreated
      intro hsize
      have hold : st.plans.size + 1 < 2 ^ 64 := by
        have hle := st.plans.size_le_size_emplace ⟨st.nextPlanId⟩ q
        exact Nat.lt_of_le_of_lt (Nat.succ_le_succ hle) hsize
      have habove := IssuedIds.lt_next hdurable.issued hold
      have hbelow : ∀ p ∈ st.plans.values, p.planId < q.planId := by
        intro p hp
        obtain ⟨k, hk⟩ := OrderedMap.mem_values_iff.mp hp
        rw [(hdurable.plans k p hk).1, hcreated.planId]
        exact habove k (OrderedMap.mem_keys_iff.mpr ⟨p, hk⟩)
      change st.latestPlanByRequest.insert request.requestId ⟨st.nextPlanId⟩ =
        rebuildLatest (st.plans.emplace ⟨st.nextPlanId⟩ q).values
      rw [OrderedMap.values_emplace_of_above q habove, rebuildLatest_append hbelow,
        hcreated.requestId, hcreated.planId, h hold]

/-- A change keeps the index right. -/
theorem Indexed.changed (h : st.Indexed) (hdurable : st.Durable) (hc : st.Changed st') :
    st'.Indexed := by
  rcases hc.keys_cases with ⟨hkeys, _, hlatest⟩ | ⟨request, views, snapshot, rfl⟩
  · intro hsize
    rw [← OrderedMap.length_keys, hkeys, OrderedMap.length_keys] at hsize
    rw [hlatest, h hsize, rebuildLatest_carried hc.carries hkeys]
  · exact h.scheduled hdurable request views snapshot

/-- The index is right after a recovery from a snapshot. -/
theorem Durable.indexed_restore {st₀ : SchedulerState} (h : st₀.Durable)
    (st : SchedulerState) : (st.restore st₀.snapshot).Indexed := by
  intro _
  rw [rebuildLatest_carried (h.carries_restore st) (h.keys_restore st)]
  rfl

/-- What a recovery from a snapshot makes of a plan. -/
theorem Durable.find?_restore {st₀ : SchedulerState} (h : st₀.Durable) (st : SchedulerState)
    {k : PlacementPlanId} {p : PlacementPlan} (hp : st₀.plans.find? k = some p) :
    ∃ ordinal, (st.restore st₀.snapshot).plans.find? k =
      some (if p.state.isTerminal then p else p.forceState .revalidationRequired ordinal) := by
  obtain ⟨ordinal, hk⟩ := (st.recovered st₀).find?_forcePlans
    (fun plan => !plan.state.isTerminal) id .revalidationRequired k
  refine ⟨ordinal, ?_⟩
  rw [h.restore_eq st, hk]
  change (st₀.plans.find? k).map _ = _
  rw [hp, Option.map_some]
  cases p.state.isTerminal <;> rfl

/-- A recovery from the snapshot of a state with the right index restores the state, but for
the configuration, the evidence, the fences and the plans. -/
theorem Durable.restore_eq_with {st₀ : SchedulerState} (h : st₀.Durable)
    (hindex : st₀.latestPlanByRequest = rebuildLatest st₀.plans.values)
    (st : SchedulerState) : st.restore st₀.snapshot = { st₀ with
      policy := st.policy
      rankOptions := st.rankOptions
      candidates := .empty
      fencedWorkers := ∅
      fencedSources := ∅
      plans := (st.restore st₀.snapshot).plans
      nextEventOrdinal := st₀.nextEventOrdinal +
        UInt64.ofNat (st₀.plans.values.countP fun p => !p.state.isTerminal) } := by
  have hordinal := (st.recovered st₀).nextEventOrdinal_forcePlans
    (fun plan => !plan.state.isTerminal) id .revalidationRequired
  have hfields : ∀ forced : SchedulerState,
      forced = (st.recovered st₀).forcePlans (fun plan => !plan.state.isTerminal) id
        .revalidationRequired →
      forced = { st.recovered st₀ with
        nextEventOrdinal := forced.nextEventOrdinal
        plans := forced.plans } := by
    intro forced hforced
    subst hforced
    rfl
  apply (hfields _ (h.restore_eq st)).trans
  rw [h.restore_eq st, hordinal]
  simp only [recovered, hindex]

end SchedulerState

namespace System

variable {config : SchedulerConfig} {s : System}

/-- The latest-plan index is the rebuilt one in every state recoveries of own snapshots
lead to. -/
theorem indexed_of_reachable (h : (scheduler config).Reachable RestoresOwn s) :
    s.sched.Indexed := by
  refine (invariant_of_reachable h SchedulerState.Indexed (fun _ => rfl) ?_ ?_).1
  · intro st st' hdurable hchanged hindexed
    exact hindexed.changed hdurable hchanged
  · intro st st₀ hdurable _
    exact hdurable.indexed_restore st

/-- A recovery from a snapshot restores the state it was taken of: only the configuration,
the evidence and the fences are not its own, and the plans that are not over are forced to
be revalidated, each at the cost of an event ordinal. The bound is on what a map can hold. -/
theorem restore_snapshot (h : (scheduler config).Reachable RestoresOwn s)
    (hsize : s.sched.plans.size + 1 < 2 ^ 64) (st : SchedulerState) :
    let t := st.restore s.sched.snapshot
    t = { s.sched with
      policy := st.policy
      rankOptions := st.rankOptions
      candidates := .empty
      fencedWorkers := ∅
      fencedSources := ∅
      plans := t.plans
      nextEventOrdinal := s.sched.nextEventOrdinal +
        UInt64.ofNat (s.sched.plans.values.countP fun p => !p.state.isTerminal) } ∧
    t.plans.keys = s.sched.plans.keys ∧
    ∀ k p, s.sched.plans.find? k = some p →
      ∃ ordinal, t.plans.find? k = some (if p.state.isTerminal then p else { p with
        state := .revalidationRequired
        stateHistory :=
          if p.state ≠ .revalidationRequired ∧ p.stateHistory.length < 64 then
            p.stateHistory ++ [(.revalidationRequired, ordinal)]
          else p.stateHistory }) := by
  have hdurable := (recoverable h).durable
  have hindex := indexed_of_reachable h hsize
  refine ⟨hdurable.restore_eq_with hindex st, hdurable.keys_restore st, ?_⟩
  intro k p hp
  obtain ⟨ordinal, hk⟩ := hdurable.find?_restore st hp
  refine ⟨ordinal, ?_⟩
  rw [hk, PlacementPlan.forceState_eq]
  rfl

/-- A scheduled plan is recovered for the price of one event ordinal. -/
theorem restore_snapshot_scheduled : ∃ s, (scheduler Sample.config).Reachable RestoresOwn s ∧
    s.sched.plans.size = 1 ∧
    ((SchedulerState.initial Sample.config).restore s.sched.snapshot).latestPlanByRequest =
      s.sched.latestPlanByRequest ∧
    ((SchedulerState.initial Sample.config).restore s.sched.snapshot).nextEventOrdinal =
      s.sched.nextEventOrdinal + 1 := by
  have hscheduled : (after Sample.config NoRestore Sample.scheduling).map (fun s =>
      (s.sched.plans.size, s.sched.plans.values.countP fun p => !p.state.isTerminal)) =
      some (1, 1) := by decide +kernel
  obtain ⟨es, s, hr, _, hs⟩ := exists_run_of_after hscheduled
  obtain ⟨hsize, hcount⟩ := Prod.mk.injEq .. ▸ hs
  have hreach := (reachable_of_run hr).mono RestoresOwn.of_noRestore
  have hbound : s.sched.plans.size + 1 < 2 ^ 64 := by
    rw [hsize]
    decide
  obtain ⟨heq, _⟩ := restore_snapshot hreach hbound (.initial Sample.config)
  refine ⟨s, hreach, hsize, (congrArg SchedulerState.latestPlanByRequest heq :), ?_⟩
  apply (congrArg SchedulerState.nextEventOrdinal heq).trans
  change _ + UInt64.ofNat (s.sched.plans.values.countP _) = _
  rw [hcount]
  rfl

end System

end FabricScheduler
