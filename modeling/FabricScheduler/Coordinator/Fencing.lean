import FabricScheduler.Coordinator.System
import FabricScheduler.Scheduler.Evidence

/-!
# Fencing the boots of lost workers

Between the insertion of a boot in the live fenced set and the return of its fence, some
fence moves the epoch on, though not always its own. Plans stored before that movement are
out of the way; a plan stored after it may still be placed on the boot, by a pass that
consulted the live set too early.
-/

namespace FabricScheduler

/-- The action is a step of `fence_worker_and_bump`. -/
def CoordinatorAction.fences : CoordinatorAction → Bool
  | .fenceWorker _ | .fenceInsert _ | .fenceRead _ | .fenceBump _ => true
  | _ => false

/-- The boot is in the live set and the fence is still to move the epoch past the given
one. -/
def FenceStage.Outdates (epoch : CoordinatorEpoch) : FenceStage → Prop
  | .fencing _ => False
  | .inserted _ => True
  | .read _ cur => epoch < cur.next

namespace Sample

/-- The candidate is published and a workload is placed on it by call 0. -/
def placing : List CoordinatorAction :=
  [.publish (candidate ⟨1⟩ ⟨1⟩), .submitWorkload (request ⟨1⟩), .consult 0, .submitFinish 0]

/-- Then two fences are entered. -/
def entering : List CoordinatorAction := placing ++ [.fenceWorker ⟨1⟩, .fenceWorker ⟨2⟩]

/-- Both read the same epoch, and the one entered first writes last. -/
def racing : List CoordinatorAction :=
  [.fenceInsert 1, .fenceRead 0, .fenceRead 1, .fenceBump 1]

end Sample

namespace Coordinator

variable {config : SchedulerConfig} {s t : Coordinator} {a : CoordinatorAction}
  {k : PlacementPlanId} {c : Nat}

section Steps

/-- What an enabled action does. -/
inductive Stepped (s : Coordinator) : CoordinatorAction → Coordinator → Prop
  /-- A section of a request, the end of a scheduling pass excepted. -/
  | served {a : CoordinatorAction} {b : Action} {system : System} (broker : InMemoryBroker)
      (hno : s.system.NoRestore b) (hn : s.system.step b = some system)
      (hplaces : ∀ n views, b ≠ .scheduleFinish n views) (hfences : a.fences = false) :
      Stepped s a { s with system, broker }
  | consulted (c : Nat) :
      Stepped s (.consult c) { s with
        consulted := Function.update s.consulted c (s.consulted c ++ [s.fenced]) }
  | submitted {c : Nat} {request : SchedulingRequest} {snapshot : List Candidate}
      {system : System} (hc : s.system.pending c = some (.scheduling request snapshot))
      (hn : s.system.step (.scheduleFinish c (liveViews snapshot (s.consulted c))) =
        some system) : Stepped s (.submitFinish c) { s with system }
  | fenceWorker {boot : WorkerBootId} {system : System}
      (hn : s.system.step (.fenceWorker boot) = some system) :
      Stepped s (.fenceWorker boot) { s with
        system, fences := s.fences.opened (some (.fencing boot)) }
  | fenceInsert {c : Nat} {boot : WorkerBootId}
      (hc : s.fences.pending c = some (.fencing boot)) :
      Stepped s (.fenceInsert c) { s with
        fenced := insert boot s.fenced
        fences := s.fences.resumed c (some (.inserted boot)) }
  | fenceRead {c : Nat} {boot : WorkerBootId}
      (hc : s.fences.pending c = some (.inserted boot)) :
      Stepped s (.fenceRead c) { s with
        fences := s.fences.resumed c (some (.read boot s.system.sched.epoch)) }
  | fenceBump {c : Nat} {boot : WorkerBootId} {cur : CoordinatorEpoch} {system : System}
      (hc : s.fences.pending c = some (.read boot cur))
      (hn : s.system.step (.setEpoch cur.next) = some system) :
      Stepped s (.fenceBump c) { s with
        system, returned := insert boot s.returned, fences := s.fences.resumed c none }

private theorem served_of_serve {b : Action} (h : s.serve b = some t)
    (hno : s.system.NoRestore b) (hplaces : ∀ n views, b ≠ .scheduleFinish n views)
    (hfences : a.fences = false) : Stepped s a t := by
  obtain ⟨system, hn, rfl⟩ := Option.map_eq_some_iff.mp h
  exact .served s.broker hno hn hplaces hfences

theorem stepped_of_step (h : s.step a = some t) : Stepped s a t := by
  cases a with
  | consult c =>
      simp only [step] at h
      split at h
      · split at h
        · cases h
          exact .consulted c
        · cases h
      · cases h
  | submitFinish c =>
      simp only [step] at h
      split at h
      · rename_i hc
        split at h
        · obtain ⟨system, hn, rfl⟩ := Option.map_eq_some_iff.mp h
          exact .submitted hc hn
        · cases h
      · cases h
  | brokerCommit c =>
      simp only [step] at h
      split at h
      · rename_i claims _
        obtain ⟨system, hn, rfl⟩ := Option.map_eq_some_iff.mp h
        have hno : s.system.NoRestore (.brokerCommit c (s.broker.commit claims).1) := trivial
        exact .served (s.broker.commit claims).2 hno hn (fun _ _ hb => Action.noConfusion hb)
          rfl
      · cases h
  | authorize c =>
      simp only [step] at h
      split at h
      · exact served_of_serve h trivial (fun _ _ hb => Action.noConfusion hb) rfl
      · cases h
  | fenceWorker boot =>
      simp only [step] at h
      obtain ⟨u, hu, rfl⟩ := Option.map_eq_some_iff.mp h
      obtain ⟨system, hn, rfl⟩ := Option.map_eq_some_iff.mp hu
      exact .fenceWorker hn
  | fenceInsert c =>
      simp only [step] at h
      split at h
      · rename_i hc
        cases h
        exact .fenceInsert hc
      · cases h
  | fenceRead c =>
      simp only [step] at h
      split at h
      · rename_i hc
        cases h
        exact .fenceRead hc
      · cases h
  | fenceBump c =>
      simp only [step] at h
      split at h
      · rename_i hc
        obtain ⟨u, hu, rfl⟩ := Option.map_eq_some_iff.mp h
        obtain ⟨system, hn, rfl⟩ := Option.map_eq_some_iff.mp hu
        exact .fenceBump hc hn
      · cases h
  | _ => exact served_of_serve h trivial (fun _ _ hb => Action.noConfusion hb) rfl

/-- A step of the coordinator is none or one step of its scheduler, and never a recovery. -/
theorem Stepped.system_step (h : Stepped s a t) : t.system = s.system ∨
    ∃ b, s.system.NoRestore b ∧ s.system.step b = some t.system := by
  cases h with
  | served _ hno hn => exact Or.inr ⟨_, hno, hn⟩
  | consulted => exact Or.inl rfl
  | submitted _ hn => exact Or.inr ⟨.scheduleFinish _ _, trivial, hn⟩
  | fenceWorker hn => exact Or.inr ⟨.fenceWorker _, trivial, hn⟩
  | fenceInsert => exact Or.inl rfl
  | fenceRead => exact Or.inl rfl
  | fenceBump _ hn => exact Or.inr ⟨.setEpoch _, trivial, hn⟩

theorem Stepped.reachable (h : Stepped s a t)
    (hs : (scheduler config).Reachable System.NoRestore s.system) :
    (scheduler config).Reachable System.NoRestore t.system := by
  rcases h.system_step with hsame | ⟨b, hno, hn⟩
  · rw [hsame]
    exact hs
  · exact hs.next hno hn

theorem Stepped.log_grows (h : Stepped s a t) : s.system.log <+: t.system.log := by
  rcases h.system_step with hsame | ⟨b, _, hn⟩
  · rw [hsame]
  · exact (System.stepped_of_step hn).log_grows

/-- What a step of the coordinator does to the guarded state of its scheduler. -/
theorem Stepped.changed (h : Stepped s a t) : s.system.sched.Changed t.system.sched := by
  rcases h.system_step with hsame | ⟨b, hno, hn⟩
  · rw [hsame]
    exact .same
  · exact (System.stepped_of_step hn).changed_of_noRestore hno

end Steps

/-- The scheduler of a coordinator makes a run of its own. -/
theorem exists_run_system {P : Coordinator → CoordinatorAction → Prop}
    {es : List (TransitionSystem.Step Coordinator CoordinatorAction)}
    (h : (coordinator config).Run P s es t) :
    ∃ fs, (scheduler config).Run System.NoRestore s.system fs t.system :=
  h.project Coordinator.system fun _ _ _ _ hn => (stepped_of_step hn).system_step

theorem reachable_system {P : Coordinator → CoordinatorAction → Prop}
    {es : List (TransitionSystem.Step Coordinator CoordinatorAction)}
    (h : (coordinator config).Run P (initial config) es t) :
    (scheduler config).Reachable System.NoRestore t.system := by
  obtain ⟨fs, hfs⟩ := exists_run_system h
  exact System.reachable_of_run hfs

/-- The epoch a fence reads is not the largest. -/
def EpochsFit (s : Coordinator) : CoordinatorAction → Prop
  | .fenceRead _ => s.system.sched.epoch.value.toNat + 1 < 2 ^ 64
  | _ => True

instance (s : Coordinator) (a : CoordinatorAction) : Decidable (EpochsFit s a) :=
  match a with
  | .fenceRead _ => Nat.decLt _ _
  | .publish _ | .submitWorkload _ | .consult _ | .submitFinish _ | .commitRequest _
  | .brokerCommit _ | .commitFinish _ | .brokerRelease _ | .executionHandoff _
  | .authorize _ | .handoffFinish _ | .revalidate _ _ | .cancel _ | .supersede _ _ | .save
  | .fenceWorker _ | .fenceInsert _ | .fenceBump _ => isTrue trivial

section Effect

/-- The plan is stored, and off its way to execution unless the fence of the call has
inserted its boot and is still to move the epoch on. -/
def Covered (s : Coordinator) (c : Nat) (k : PlacementPlanId) : Prop :=
  ∃ p, s.system.sched.plans.find? k = some p ∧ (p.state.isUnresolved = true →
    ∃ stage, s.fences.pending c = some stage ∧ stage.Outdates s.system.sched.epoch)

/-- A fence that is to move the epoch on does so in its last step, if nothing moves it
before. -/
theorem Stepped.outdates (h : Stepped s a t) (hfit : s.EpochsFit a) {stage : FenceStage}
    (hc : s.fences.pending c = some stage) (hout : stage.Outdates s.system.sched.epoch)
    (hepoch : t.system.sched.epoch = s.system.sched.epoch) :
    ∃ stage', t.fences.pending c = some stage' ∧
      stage'.Outdates s.system.sched.epoch := by
  cases h with
  | fenceWorker => exact ⟨stage, CallTable.pending_opened_of_pending hc _, hout⟩
  | @fenceInsert c₀ boot hc₀ =>
      have hne : c ≠ c₀ := by
        rintro rfl
        rw [hc₀] at hc
        obtain rfl := Option.some.inj hc
        exact hout
      exact ⟨stage, CallTable.pending_resumed_other hc₀ hne hc _, hout⟩
  | @fenceRead c₀ boot hc₀ =>
      by_cases hcc : c = c₀
      · subst hcc
        exact ⟨_, CallTable.pending_resumed_self hc₀ _, StrongId.lt_next hfit⟩
      · exact ⟨stage, CallTable.pending_resumed_other hc₀ hcc hc _, hout⟩
  | @fenceBump c₀ boot cur system hc₀ hn =>
      have hne : c ≠ c₀ := by
        rintro rfl
        rw [hc₀] at hc
        obtain rfl := Option.some.inj hc
        obtain rfl := Option.some.inj hn
        change (s.system.sched.setEpoch cur.next).2.epoch = _ at hepoch
        rcases s.system.sched.setEpoch_cases cur.next with ⟨hle, _⟩ | ⟨_, hset⟩
        · exact absurd hout (not_lt.mpr hle)
        · rw [hset] at hepoch
          exact absurd hepoch hout.ne'
      exact ⟨stage, CallTable.pending_resumed_other hc₀ hne hc _, hout⟩
  | _ => exact ⟨stage, hc, hout⟩

/-- A covered plan stays covered: whoever moves the epoch on takes it off its way to
execution. -/
theorem Covered.stepped (h : s.Covered c k) (hstep : Stepped s a t) (hfit : s.EpochsFit a) :
    t.Covered c k := by
  obtain ⟨p, hp, hpending⟩ := h
  obtain ⟨q, hq, hcarried⟩ := hstep.changed.carries k p hp
  refine ⟨q, hq, ?_⟩
  intro hu
  have hepoch : t.system.sched.epoch = s.system.sched.epoch := by
    by_contra hne
    rw [hstep.changed.isUnresolved_of_epoch_ne hne hq] at hu
    cases hu
  obtain ⟨stage, hc, hout⟩ := hpending (hcarried.unresolved hu)
  rw [hepoch]
  exact hstep.outdates hfit hc hout hepoch

/-- A call is over after the last step of its fence. -/
theorem pending_fenceBump (h : s.step (.fenceBump c) = some t) :
    t.fences.pending c = none := by
  cases stepped_of_step h with
  | served _ _ _ _ hfences => cases hfences
  | fenceBump hc => exact CallTable.pending_resumed_self hc none

/-- Every stored plan is covered once the boot is inserted. -/
theorem covered_fenceInsert (h : s.step (.fenceInsert c) = some t) {p : PlacementPlan}
    (hp : t.system.sched.plans.find? k = some p) : t.Covered c k := by
  cases stepped_of_step h with
  | served _ _ _ _ hfences => cases hfences
  | @fenceInsert _ boot hc =>
      exact ⟨p, hp, fun _ => ⟨.inserted boot, CallTable.pending_resumed_self hc _, trivial⟩⟩

/-- When no fence reads the largest epoch, however many fences race each other and all other
requests, a plan stored when a fence inserts its boot requires a revalidation or is terminal
by the time that fence returns, whether its own epoch change was a success, a repetition or
a swallowed refusal; and no commit or handoff of the plan that returns later succeeds. -/
theorem fence_effective
    {es before mid after : List (TransitionSystem.Step Coordinator CoordinatorAction)}
    {i g : TransitionSystem.Step Coordinator CoordinatorAction}
    (h : (coordinator config).Run EpochsFit (initial config) es t)
    (hes : es = before ++ i :: (mid ++ g :: after)) (hi : i.act = .fenceInsert c)
    (hg : g.act = .fenceBump c) {p : PlacementPlan}
    (hp : i.src.system.sched.plans.find? k = some p) :
    (∃ q, g.tgt.system.sched.plans.find? k = some q ∧
        (q.state = .revalidationRequired ∨ q.state.isTerminal = true)) ∧
      g.tgt.system.Defeated t.system k := by
  subst hes
  obtain ⟨hbefore, hfit, hni, hrest⟩ := h.split
  obtain ⟨hmid, hfit', hng, hafter⟩ := hrest.split
  have hinsert : i.src.step (.fenceInsert c) = some i.tgt := hi ▸ hni
  have hbump : g.src.step (.fenceBump c) = some g.tgt := hg ▸ hng
  have hcovered : i.tgt.Covered c k := by
    obtain ⟨r, hr, _⟩ := (stepped_of_step hinsert).changed.carries k p hp
    exact covered_fenceInsert hinsert hr
  have hlast : g.src.Covered c k := by
    refine hmid.stable (fun u => u.Covered c k) ?_ hcovered
    intro u a v hfit hn hu
    exact hu.stepped (stepped_of_step hn) hfit
  obtain ⟨q, hq, hpending⟩ := hlast.stepped (stepped_of_step hng) hfit'
  have hu : q.state.isUnresolved = false := by
    by_contra hne
    obtain ⟨stage, hstage, _⟩ := hpending (Bool.not_eq_false _ ▸ hne)
    rw [pending_fenceBump hbump] at hstage
    cases hstage
  have hreach : (scheduler config).Reachable System.NoRestore g.tgt.system :=
    reachable_system (((hbefore.snoc hfit hni).append hmid).snoc hfit' hng)
  obtain ⟨L, htracks, hL⟩ := System.exists_ledger hreach k
  obtain ⟨fs, hfs⟩ := exists_run_system hafter
  have hstage := hL.stage q (htracks.plan.symm.trans hq)
  exact ⟨⟨q, hq, hstage.of_not_isUnresolved hu⟩,
    (System.fenced_of_not_isUnresolved hreach hfs hq hu).2⟩

/-- The fence that loses the race for the epoch takes effect all the same. -/
theorem fence_effective_raced :
    ∃ (es before mid after : List (TransitionSystem.Step Coordinator CoordinatorAction))
      (i g : TransitionSystem.Step Coordinator CoordinatorAction) (t : Coordinator),
      (coordinator Sample.config).Run EpochsFit (initial Sample.config) es t ∧
      es = before ++ i :: (mid ++ g :: after) ∧ i.act = .fenceInsert 0 ∧
      mid.map TransitionSystem.Step.act = Sample.racing ∧ g.act = .fenceBump 0 ∧
      Sample.stateOf ⟨1⟩ i.src.system = some .planReady ∧
      (∃ q, g.tgt.system.sched.plans.find? ⟨1⟩ = some q ∧
        (q.state = .revalidationRequired ∨ q.state.isTerminal = true)) ∧
      g.tgt.system.Defeated t.system ⟨1⟩ := by
  have hready : ((coordinator Sample.config).exec EpochsFit (initial Sample.config)
      Sample.entering).map (fun u => Sample.stateOf ⟨1⟩ u.system) =
      some (some .planReady) := by decide +kernel
  have hraced : ((coordinator Sample.config).exec EpochsFit (initial Sample.config)
      (Sample.entering ++ .fenceInsert 0 :: (Sample.racing ++
        .fenceBump 0 :: [.commitRequest ⟨1⟩]))).map (fun _ => ()) = some () := by
    decide +kernel
  obtain ⟨before, u, fs, t, hr, hr', _, hact, hstate, _⟩ :=
    TransitionSystem.exists_runs_of_exec hready hraced
  obtain ⟨i, rest, rfl, hi, hrest⟩ := List.map_eq_cons_iff.mp hact
  obtain ⟨mid, g, after, rfl, hg, hmid, _⟩ := TransitionSystem.exists_cut hrest
  have hcut : (coordinator Sample.config).Run EpochsFit u ([] ++ i :: (mid ++ g :: after)) t :=
    hr'
  obtain ⟨hnil, _⟩ := hcut.split
  obtain rfl := hnil.eq_of_nil
  obtain ⟨p, hp, _⟩ := Option.map_eq_some_iff.mp hstate
  have hrun := hr.append hr'
  exact ⟨_, before, mid, after, i, g, t, hrun, rfl, hi, hmid, hg, hstate,
    fence_effective hrun rfl hi hg hp⟩

end Effect

end Coordinator

end FabricScheduler
