import FabricScheduler.Scheduler.History
import FabricScheduler.Scheduler.Revalidation

/-!
# What a plan states twice

The fingerprint of a plan repeats the policy, the epoch and the communication plan that the
plan states itself, and its claims repeat the resources of its bindings. The two copies of a
fact are computed apart. For a request that names no policy the fingerprint falls back on the
first generation, and the plan on the generation the scheduler is configured with.
-/

namespace FabricScheduler

/-- The copies of every fact that a plan states twice agree. -/
structure PlacementPlan.Agrees (p : PlacementPlan) : Prop where
  policy : p.generations.policy = p.policyGeneration
  coordinatorEpoch : p.generations.coordinatorEpoch = p.coordinatorEpoch
  communicationPlan : p.generations.communicationPlan = p.communicationPlan
  claims : (p.claims.map fun c => (c.resourceId, c.resourceGeneration)) =
    p.bindings.map fun b => (b.resourceId, b.resourceGeneration)

/-- The decision a pass returns with the event. -/
def Event.decision? : Event → Option PlacementDecision
  | .scheduleReturned _ d => some d
  | _ => none

namespace SchedulerState

variable {st st' : SchedulerState} {request : SchedulingRequest} {views : ScheduleViews}
  {snapshot : List Candidate} {winner : RankedEntry} {others : List RankedEntry}

/-- The claims repeat the resources of the bindings in their order. -/
theorem map_buildClaims (bindings : List DeviceBinding) :
    ((buildClaims bindings).map fun c => (c.resourceId, c.resourceGeneration)) =
      bindings.map fun b => (b.resourceId, b.resourceGeneration) := by
  rw [buildClaims, List.map_map]
  rfl

/-- The two copies of the policy agree when they are taken from the request or fall back on
the same generation. -/
theorem policy_storedPlan_iff :
    (st.storedPlan request views snapshot winner others).generations.policy =
        (st.storedPlan request views snapshot winner others).policyGeneration ↔
      request.demand.policyGeneration.isValid = true ∨ st.policy.generation = ⟨1⟩ := by
  change (if request.demand.policyGeneration.isValid then request.demand.policyGeneration
    else ⟨1⟩) = (if request.demand.policyGeneration.isValid then
      request.demand.policyGeneration else st.policy.generation) ↔ _
  split
  · rename_i hvalid
    exact ⟨fun _ => Or.inl hvalid, fun _ => rfl⟩
  · rename_i hvalid
    exact ⟨fun h => Or.inr h.symm, fun h => (h.resolve_left hvalid).symm⟩

/-- A plan that is stored agrees with itself exactly when the copies of its policy do. -/
theorem agrees_storedPlan_iff :
    (st.storedPlan request views snapshot winner others).Agrees ↔
      request.demand.policyGeneration.isValid = true ∨ st.policy.generation = ⟨1⟩ := by
  rw [← policy_storedPlan_iff]
  exact ⟨PlacementPlan.Agrees.policy, fun h => ⟨h, rfl, rfl, map_buildClaims _⟩⟩

/-- A pass returns the request with its plan, and that plan agrees with itself exactly when
the request names a policy or the scheduler is configured with the first. -/
theorem agrees_of_scheduleSecond {d : PlacementDecision}
    (hd : (st.scheduleSecond request views snapshot).1 = .ok d) (hplan : d.producedPlan = true) :
    d.plan.Agrees ↔
      d.request.demand.policyGeneration.isValid = true ∨ st.policy.generation = ⟨1⟩ := by
  obtain ⟨winner, others, _, hrequest, hstored⟩ := exists_storedPlan_of_producedPlan hd hplan
  rw [hrequest, hstored]
  exact agrees_storedPlan_iff

/-- No step changes the policy of the configuration. -/
theorem Changed.policy_eq (h : st.Changed st') : st'.policy = st.policy := by
  cases h with
  | scheduled request views snapshot => rw [scheduleSecond_frame]
  | _ => rfl

end SchedulerState

namespace System

variable {config : SchedulerConfig} {P : System → Action → Prop} {s t : System} {a : Action}

theorem policy_eq (h : (scheduler config).Reachable P s) : s.sched.policy = config.policy := by
  refine h.invariant (fun u => u.sched.policy = config.policy) ?_ ?_
  · rintro _ rfl
    rfl
  · intro u a v _ hn hu
    rcases (stepped_of_step hn).changed with ⟨persisted, _, hv⟩ | hchanged
    · rw [hv, ← hu]
      rfl
    · rw [hchanged.policy_eq, hu]

/-- A decision is returned by the second section of a pass. -/
theorem exists_pass_of_returned (hn : s.step a = some t) {c : Nat} {d : PlacementDecision}
    (hd : Event.scheduleReturned c d ∈ s.since t) : ∃ request views snapshot,
      (s.sched.scheduleSecond request views snapshot).1 = .ok d := by
  cases stepped_of_step hn with
  | @scheduled _ request snapshot hc views decision =>
      obtain ⟨d', hd'⟩ := s.sched.scheduleSecond_isOk request views snapshot
      rw [since_continued, List.mem_singleton] at hd
      obtain ⟨rfl, rfl⟩ := Event.scheduleReturned.inj hd
      have hpass : s.sched.scheduleSecond request views snapshot =
          (.ok d', (s.sched.scheduleSecond request views snapshot).2) := by rw [← hd']
      simp only [step, hc, scheduleFinish] at hn
      rw [hpass] at hn
      have hlog := congrArg System.log (Option.some.inj hn)
      have hevent := List.singleton_inj.mp (List.append_cancel_left hlog)
      obtain ⟨_, rfl⟩ := Event.scheduleReturned.inj hevent
      exact ⟨request, views, snapshot, hd'⟩
  | _ => simp at hd

/-- In every run, a plan that a pass has returned agrees with itself exactly when its request
names a policy or the scheduler is configured with the first. -/
theorem agrees_iff_of_returned (h : (scheduler config).Reachable P s) {c : Nat}
    {d : PlacementDecision} (hd : Event.scheduleReturned c d ∈ s.log)
    (hplan : d.producedPlan = true) :
    d.plan.Agrees ↔ d.request.demand.policyGeneration.isValid = true ∨
      config.policy.generation = ⟨1⟩ := by
  obtain ⟨s₀, es, rfl, hr⟩ := h
  obtain ⟨before, x, after, rfl, hbefore, _, _, _, hx⟩ := exists_logs hr hd
  obtain ⟨request, views, snapshot, hpass⟩ := exists_pass_of_returned hr.split.2.2.1 hx
  have hpolicy := policy_eq ⟨_, before, rfl, hbefore⟩
  rw [SchedulerState.agrees_of_scheduleSecond hpass hplan, hpolicy]

/-- An execution that logs one decision with a certain observation returns that decision in
a reachable state. -/
theorem exists_returned_of_after {β : Type} {actions : List Action} {f : PlacementDecision → β}
    {b : β} (h : (after config NoRestore actions).map (fun s =>
      (s.log.filterMap Event.decision?).map f) = some [b]) :
    ∃ s c d, (scheduler config).Reachable NoRestore s ∧ Event.scheduleReturned c d ∈ s.log ∧
      f d = b := by
  obtain ⟨es, s, hr, _, hobs⟩ := exists_run_of_after h
  obtain ⟨d, hmem, hd⟩ := List.mem_map.mp (hobs ▸ List.mem_singleton_self b)
  obtain ⟨e, he, hdecision⟩ := List.mem_filterMap.mp hmem
  cases e with
  | scheduleReturned c d' =>
      obtain rfl := Option.some.inj hdecision
      exact ⟨s, c, d', reachable_of_run hr, he, hd⟩
  | _ => cases hdecision

/-- The plan of a request that names its policy agrees with itself. -/
theorem agrees_iff_of_returned_named : ∃ s c d,
    (scheduler Sample.config).Reachable NoRestore s ∧ Event.scheduleReturned c d ∈ s.log ∧
      d.producedPlan = true ∧ d.plan.Agrees := by
  have hscheduled : (after Sample.config NoRestore Sample.scheduling).map (fun s =>
      (s.log.filterMap Event.decision?).map fun d =>
        (d.producedPlan, d.request.demand.policyGeneration.isValid)) = some [(true, true)] := by
    decide +kernel
  obtain ⟨s, c, d, hreach, hd, hobs⟩ := exists_returned_of_after hscheduled
  obtain ⟨hplan, hvalid⟩ := Prod.mk.injEq .. ▸ hobs
  exact ⟨s, c, d, hreach, hd, hplan,
    (agrees_iff_of_returned hreach hd hplan).mpr (Or.inl hvalid)⟩

/-- Under the second policy the plan of a request that names none contradicts itself. -/
theorem not_agrees_of_returned : ¬∀ config s c d,
    (scheduler config).Reachable NoRestore s → Event.scheduleReturned c d ∈ s.log →
      d.producedPlan = true → d.plan.Agrees := by
  intro h
  have hscheduled : (after { Sample.config with policy := ⟨⟨2⟩, 0⟩ } NoRestore
      [.ingestCandidate (Sample.candidate ⟨1⟩ ⟨1⟩),
        .scheduleBegin { Sample.request ⟨1⟩ with
          demand := { Sample.demand ⟨1⟩ with policyGeneration := ⟨0⟩ } },
        .scheduleFinish 0 (.pure none none)]).map (fun s =>
      (s.log.filterMap Event.decision?).map fun d =>
        (d.producedPlan, d.plan.generations.policy, d.plan.policyGeneration)) =
      some [(true, ⟨1⟩, ⟨2⟩)] := by decide +kernel
  obtain ⟨s, c, d, hreach, hd, hobs⟩ := exists_returned_of_after hscheduled
  obtain ⟨hplan, hcopies⟩ := Prod.mk.injEq .. ▸ hobs
  obtain ⟨hfingerprint, hpolicy⟩ := Prod.mk.injEq .. ▸ hcopies
  have hagree := (h _ s c d hreach hd hplan).policy
  rw [hfingerprint, hpolicy] at hagree
  exact absurd hagree (by decide)

end System

end FabricScheduler
