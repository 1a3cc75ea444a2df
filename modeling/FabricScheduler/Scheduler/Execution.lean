import FabricScheduler.Scheduler.System

/-!
# Executing the scheduler

The conditions restricting a run are decidable at every state, so a list of actions can
be executed under them. The executions used to exercise the results start from one small
configuration with one candidate.
-/

namespace FabricScheduler

namespace System

instance (s : System) (a : Action) : Decidable (NoRestore s a) :=
  match a with
  | .restore _ => isFalse id
  | .setEpoch _ | .fenceWorker _ | .fenceSource _ | .ingestCandidate _ | .scheduleBegin _
  | .scheduleFinish _ _ | .commitBegin _ | .brokerCommit _ _ | .commitFinish _
  | .brokerRelease _ _ | .handoffBegin _ | .authorize _ _ | .handoffFinish _ | .unwind _
  | .revalidate _ _ | .cancel _ | .supersede _ _ _ | .snapshot => isTrue trivial

instance (s : System) (a : Action) : Decidable (GrantsFresh s a) :=
  match a with
  | .restore _ => isFalse id
  | .brokerCommit _ _ => inferInstanceAs (Decidable (_ → _ ∧ _))
  | .setEpoch _ | .fenceWorker _ | .fenceSource _ | .ingestCandidate _ | .scheduleBegin _
  | .scheduleFinish _ _ | .commitBegin _ | .commitFinish _ | .brokerRelease _ _
  | .handoffBegin _ | .authorize _ _ | .handoffFinish _ | .unwind _ | .revalidate _ _
  | .cancel _ | .supersede _ _ _ | .snapshot => isTrue trivial

instance (s : System) (c : Nat) :
    Decidable (∀ planId claims, s.pending c ≠ some (.committing planId claims)) :=
  match s.pending c with
  | some (.committing planId claims) => isFalse fun hne => hne planId claims rfl
  | none => isTrue nofun
  | some (.scheduling _ _) | some (.settling _ _ _) | some (.releasing _ _ _)
  | some (.authorizing _ _) | some (.launching _ _) => isTrue nofun

instance (s : System) (a : Action) : Decidable (BrokerReturns s a) :=
  match a with
  | .unwind c =>
      inferInstanceAs (Decidable (∀ planId claims, s.pending c ≠ some (.committing planId claims)))
  | .brokerRelease _ returns => inferInstanceAs (Decidable (returns = true))
  | .setEpoch _ | .fenceWorker _ | .fenceSource _ | .ingestCandidate _ | .scheduleBegin _
  | .scheduleFinish _ _ | .commitBegin _ | .brokerCommit _ _ | .commitFinish _
  | .handoffBegin _ | .authorize _ _ | .handoffFinish _ | .revalidate _ _ | .cancel _
  | .supersede _ _ _ | .snapshot | .restore _ => isTrue trivial

instance (s : System) (a : Action) : Decidable (BrokerContract s a) :=
  inferInstanceAs (Decidable (_ ∧ _))

/-- The state an execution from the fresh scheduler ends in. -/
def after (config : SchedulerConfig) (P : System → Action → Prop)
    [∀ s a, Decidable (P s a)] (actions : List Action) : Option System :=
  (scheduler config).exec P (initial config) actions

variable {config : SchedulerConfig} {P : System → Action → Prop} [∀ s a, Decidable (P s a)]

/-- An execution that completes with a certain observation is a run to a state with that
observation. -/
theorem exists_run_of_after {β : Type} {actions : List Action} {f : System → β} {b : β}
    (h : (after config P actions).map f = some b) :
    ∃ es t, (scheduler config).Run P (initial config) es t ∧
      es.map TransitionSystem.Step.act = actions ∧ f t = b :=
  TransitionSystem.exists_run_of_exec h

/-- A completed execution passes through the state its first part ends in. -/
theorem exists_runs_of_after {β γ : Type} {as bs : List Action} {f : System → β}
    {g : System → γ} {b : β} {c : γ} (hf : (after config P as).map f = some b)
    (hg : (after config P (as ++ bs)).map g = some c) :
    ∃ es u fs t, (scheduler config).Run P (initial config) es u ∧
      (scheduler config).Run P u fs t ∧ es.map TransitionSystem.Step.act = as ∧
      fs.map TransitionSystem.Step.act = bs ∧ f u = b ∧ g t = c :=
  TransitionSystem.exists_runs_of_exec hf hg

/-- The system after a snapshot and a recovery from it. -/
def cycled (s : System) : System :=
  (s.whole s.sched [.saved s.sched.snapshot]).whole (s.sched.restore s.sched.snapshot) []

theorem RestoresOwn.of_noRestore (s : System) (a : Action) (h : s.NoRestore a) :
    s.RestoresOwn a := by
  cases a with
  | restore p => exact h.elim
  | _ => trivial

/-- A run goes on with a snapshot and a recovery from it. -/
theorem run_cycled {s u : System} {es : List (TransitionSystem.Step System Action)}
    (h : (scheduler config).Run RestoresOwn s es u) :
    (scheduler config).Run RestoresOwn s
      ((es ++ [⟨u, .snapshot, u.whole u.sched [.saved u.sched.snapshot]⟩]) ++
        [⟨u.whole u.sched [.saved u.sched.snapshot], .restore u.sched.snapshot, u.cycled⟩])
      u.cycled := by
  have hown : (u.whole u.sched [.saved u.sched.snapshot]).RestoresOwn
      (.restore u.sched.snapshot) := List.mem_append_right _ (List.mem_singleton_self _)
  have hno : u.RestoresOwn .snapshot := trivial
  exact (h.snoc hno rfl).snoc hown rfl

/-- An execution that recovers from its own snapshot in between is a run. -/
theorem exists_run_cycled {β : Type} {as bs : List Action} {f : System → β} {b : β}
    (h : ((after config NoRestore as).bind fun u =>
      (scheduler config).exec NoRestore u.cycled bs).map f = some b) :
    ∃ es t, (scheduler config).Run RestoresOwn (initial config) es t ∧ f t = b := by
  obtain ⟨t, ht, hf⟩ := Option.map_eq_some_iff.mp h
  obtain ⟨u, hu, ht⟩ := Option.bind_eq_some_iff.mp ht
  obtain ⟨es, _, hr⟩ := TransitionSystem.run_of_exec hu
  obtain ⟨fs, _, hr'⟩ := TransitionSystem.run_of_exec ht
  have hcycled := run_cycled (hr.mono RestoresOwn.of_noRestore)
  exact ⟨_, t, hcycled.append (hr'.mono RestoresOwn.of_noRestore), hf⟩

end System

namespace Sample

/-- A configuration without a fallback bound. -/
def config : SchedulerConfig where
  policy := ⟨⟨1⟩, 0⟩
  rankOptions := ⟨.default⟩
  initialAuthority := ⟨1⟩

/-- A candidate without devices that meets every demand for nothing. -/
def candidate (id : CandidateId) (generation : CandidateGeneration) : Candidate where
  candidateId := id
  candidateGeneration := generation
  sourceId := ⟨1⟩
  sourceBootId := ⟨1⟩
  workerId := ⟨1⟩
  workerBootId := ⟨1⟩
  provenance := .measured
  bindings := []
  capacity := ⟨⟨1⟩, 1, 0, 1, 1, 1, 1, 1, 1, true, .measured⟩
  health := ⟨⟨1⟩, true, .one, [], .measured⟩
  reservation := ⟨⟨1⟩, false, 0, [], .measured⟩
  congestion := ⟨⟨1⟩, .zero, .one, 1, [], .measured⟩
  locality := ⟨⟨1⟩, 0, 0, true, 0, 0, [], .measured⟩
  communication := ⟨⟨1⟩, .zero, .zero, .zero, true, [], .measured⟩
  residency := ⟨⟨1⟩, true, true, true, 0, [], .measured⟩
  policyGeneration := ⟨1⟩
  memoryMovementCost := .zero

/-- A demand for nothing with the given hard topology requirement. -/
def demand (topology : TopologyGeneration) : DemandProfile where
  demandId := ⟨1⟩
  demandGeneration := ⟨1⟩
  workloadId := ⟨1⟩
  workloadGeneration := ⟨1⟩
  accelerator := ⟨.none, 0, 0, 0, 0, 0, false, ⟨0⟩⟩
  cpuRequired := 0
  memory := ⟨0, 0⟩
  storage := ⟨0, false⟩
  network := ⟨0, false⟩
  requiredTopologyGeneration := topology
  communication := .none
  communicationBytes := 0
  residency := ⟨false, false, false, [], [], []⟩
  failureDomains := ⟨0, false, false⟩
  expectedExecutionDuration := 0
  latencySensitivity := .low
  throughputObjective := .zero
  externalPriority := 0
  externalPriorityOrdinal := 0
  sloGeneration := ⟨1⟩
  policyGeneration := ⟨1⟩
  priorityGeneration := ⟨1⟩
  maximumMovementCost := 0
  fallbackLocalities := []
  provenance := .measured

/-- A request with that demand. -/
def request (id : SchedulingRequestId) : SchedulingRequest where
  requestId := id
  generation := ⟨1⟩
  demand := demand ⟨0⟩
  coordinatorEpoch := ⟨1⟩
  sourceId := ⟨1⟩
  sourceBootId := ⟨1⟩
  submitOrdinal := 1

/-- A granted commitment. -/
def grant (token : Bytes) : ResourceCommitResult := ⟨true, token, ⟨1⟩, [], false⟩

/-- An authorized handoff. -/
def authorization : ExecutionHandoff := ⟨⟨1⟩, ⟨1⟩, ⟨1⟩, ⟨1⟩, ⟨1⟩, true⟩

/-- A fingerprint no plan of the sample configuration carries. -/
def divergent : GenerationFingerprint :=
  ⟨⟨9⟩, ⟨9⟩, ⟨9⟩, ⟨9⟩, ⟨9⟩, ⟨9⟩, ⟨9⟩, ⟨9⟩, ⟨9⟩, ⟨9⟩, ⟨9⟩, ⟨9⟩⟩

/-- The lifecycle state of a stored plan. -/
def stateOf (k : PlacementPlanId) (s : System) : Option PlacementLifecycleState :=
  (s.sched.plans.find? k).map PlacementPlan.state

/-- The candidate is published and the first request is scheduled by call 0. -/
def scheduling : List Action :=
  [.ingestCandidate (candidate ⟨1⟩ ⟨1⟩), .scheduleBegin (request ⟨1⟩),
    .scheduleFinish 0 (.pure none none)]

/-- Then its plan is committed by call 1. -/
def committing : List Action :=
  scheduling ++ [.commitBegin ⟨1⟩, .brokerCommit 1 (grant [1]), .commitFinish 1]

/-- Or its commit by call 1 is suspended with the broker's answer. -/
def settling : List Action :=
  scheduling ++ [.commitBegin ⟨1⟩, .brokerCommit 1 (grant [1])]

/-- Then its plan is handed off by call 2. -/
def launching : List Action :=
  committing ++ [.handoffBegin ⟨1⟩, .authorize 2 authorization, .handoffFinish 2]

end Sample

end FabricScheduler
