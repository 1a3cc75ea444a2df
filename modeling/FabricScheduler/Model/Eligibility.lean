import FabricScheduler.Model.Candidate

/-!
# Hard eligibility filtering

Hard constraints run before ranking, in source order, and the first violated constraint
names the outcome. The dependency view and the policy gate are consulted by reference and
may be absent.
-/

namespace FabricScheduler

/-- The answers of a dependency view while one candidate is evaluated. -/
structure DependencyView where
  ready : WorkloadDemandId → Bool
  generation : DependencyGeneration
  unsatisfied : WorkloadDemandId → Bytes

/-- The answers of a policy gate. -/
structure PolicyVeto where
  allows : Candidate → Bool
  reason : Candidate → Bytes

/-- The permissive dependency view. -/
def alwaysReadyDependency : DependencyView := ⟨fun _ => true, ⟨1⟩, fun _ => []⟩

/-- The permissive policy gate. -/
def allowAllPolicy : PolicyVeto := ⟨fun _ => true, fun _ => []⟩

/-- Outcome of the hard filter for one candidate. -/
structure EligibilityResult where
  status : EligibilityStatus
  reason : Bytes
  rejectedFactor : RankFactorKind
  bottleneckResource : ResourceKind
  dependencyGeneration : DependencyGeneration

/-- Only `ELIGIBLE` is eligible. -/
def EligibilityResult.eligible (r : EligibilityResult) : Bool := r.status = .eligible

/-- Multiplication saturating at the 64-bit limit. -/
def saturatingMul (a : UInt64) (b : UInt32) : UInt64 :=
  if a = 0 ∨ b = 0 then 0
  else if 0xFFFFFFFFFFFFFFFF / b.toUInt64 < a then 0xFFFFFFFFFFFFFFFF
  else a * b.toUInt64

/-- The saturating product is the exact product up to the 64-bit limit. -/
theorem saturatingMul_toNat (a : UInt64) (b : UInt32) :
    (saturatingMul a b).toNat = min (a.toNat * b.toNat) (2 ^ 64 - 1) := by
  unfold saturatingMul
  by_cases hzero : a = 0 ∨ b = 0
  · rw [if_pos hzero]
    rcases hzero with rfl | rfl
    · simp
    · simp
  · rw [if_neg hzero]
    have hb : 0 < b.toNat := by
      by_contra hb
      exact hzero (Or.inr (UInt32.toNat_inj.mp (by simp only [UInt32.toNat_zero]; omega)))
    have hlimit : 0xFFFFFFFFFFFFFFFF / b.toUInt64 < a ↔ 2 ^ 64 - 1 < a.toNat * b.toNat := by
      rw [UInt64.lt_iff_toNat_lt, UInt64.toNat_div, UInt32.toNat_toUInt64]
      exact Nat.div_lt_iff_lt_mul hb
    split
    · rename_i h
      have hover := hlimit.mp h
      simp only [UInt64.reduceToNat]
      omega
    · rename_i h
      have hfits := not_lt.mp (mt hlimit.mpr h)
      rw [UInt64.toNat_mul, UInt32.toNat_toUInt64, Nat.mod_eq_of_lt (by omega),
        Nat.min_eq_left hfits]

def reject (status : EligibilityStatus) (reason : Bytes) (factor : RankFactorKind)
    (bottleneck : ResourceKind) : EligibilityResult :=
  ⟨status, reason, factor, bottleneck, ⟨0⟩⟩

/-- `HardFilter::evaluate`. -/
def hardFilterEvaluate (request : SchedulingRequest) (candidate : Candidate)
    (dependency : Option DependencyView) (policy : Option PolicyVeto) : EligibilityResult :=
  let demand := request.demand
  let accel := demand.accelerator
  let cap := candidate.capacity
  let requiredVram :=
    if 0 < accel.aggregateVram then accel.aggregateVram
    else saturatingMul accel.vramPerDevice accel.minimumCount
  -- insufficient evidence
  if 0 < accel.minimumCount ∧ candidate.bindings = [] then
    reject .insufficientEvidence
      (text "candidate exposes no accelerator binding for a demanded compute workload")
      .acceleratorFit .accelerator
  else if 0 < accel.minimumCount ∧ cap.provenance = .unknown then
    reject .insufficientEvidence (text "candidate capacity evidence provenance is UNKNOWN")
      .resourceHeadroom .accelerator
  else if candidate.health.provenance = .unknown then
    reject .insufficientEvidence (text "candidate health evidence provenance is UNKNOWN")
      .healthMargin .cpuCore
  -- capability
  else if 0 < accel.minimumCount ∧ ¬candidate.bindings.any fun b =>
      b.capability = accel.capability && b.capabilityCurrent then
    reject .rejectCapability
      (text "candidate does not expose a current required accelerator capability")
      .acceleratorFit .accelerator
  -- capacity
  else if 0 < accel.minimumCount ∧ cap.vramAvailable < requiredVram then
    reject .rejectCapacity (text "candidate VRAM available is below required VRAM")
      .vramHeadroom .accelerator
  else if cap.cpuAvailable < demand.cpuRequired then
    reject .rejectCapacity (text "candidate CPU capacity is below required CPU count")
      .cpuHeadroom .cpuCore
  else if cap.hostMemoryAvailable < demand.memory.hostMemory then
    reject .rejectCapacity
      (text "candidate host memory available is below required host memory")
      .resourceHeadroom .hostMemory
  -- memory (pinned)
  else if cap.pinnedMemoryAvailable < demand.memory.pinnedMemory then
    reject .rejectMemory
      (text "candidate pinned memory available is below required pinned memory")
      .pinnedMemoryHeadroom .pinnedMemory
  -- contiguity
  else if accel.requiresContiguousMemory ∧ ¬cap.contiguousMemory then
    reject .rejectContiguity (text "candidate cannot provide contiguous memory")
      .resourceHeadroom .hostMemory
  -- health
  else if ¬candidate.health.ready then
    reject .rejectHealth
      (text "candidate resource is not health-ready" ++
        if candidate.health.degradationReason = [] then []
        else text ": " ++ candidate.health.degradationReason)
      .healthMargin .cpuCore
  -- network
  else if demand.network.requireNic ∧ ¬candidate.bindings.any fun b =>
      b.nicId.isValid && b.nicGeneration.isValid then
    reject .rejectNetwork
      (text "candidate exposes no NIC binding while network is required")
      .nicLocality .nic
  else if demand.network.requireNic ∧ cap.nicBandwidthAvailable < demand.network.bandwidth
  then
    reject .rejectNetwork (text "candidate NIC bandwidth is below required bandwidth")
      .residualBandwidth .nic
  -- storage
  else if cap.storageAvailable < demand.storage.capacity then
    reject .rejectStorage (text "candidate storage available is below required storage")
      .storageLocality .storage
  else if demand.storage.requireLocal ∧ ¬candidate.residency.stateLocal then
    reject .rejectStorage
      (text "candidate does not provide local storage for required state")
      .storageLocality .storage
  -- reservation
  else if candidate.reservation.protectedResource then
    reject .rejectReservation (text "candidate resource is protected by a live reservation")
      .reservationFit .accelerator
  -- topology
  else if demand.requiredTopologyGeneration.isValid ∧
      candidate.locality.topologyGeneration ≠ demand.requiredTopologyGeneration then
    reject .rejectTopology
      (text "candidate topology generation does not match required topology")
      .topologyLocality .linkBandwidth
  else
    -- dependency, then policy
    match dependency.filter fun d => !d.ready demand.demandId with
    | some d =>
        { reject .rejectDependency
            (text "dependencies not ready: " ++ d.unsatisfied demand.demandId)
            .policyPreference .cpuCore with dependencyGeneration := d.generation }
    | none =>
        match policy.filter fun p => !p.allows candidate with
        | some p =>
            reject .rejectPolicy (text "policy veto: " ++ p.reason candidate)
              .policyPreference .cpuCore
        | none =>
            ⟨.eligible, text "candidate meets all hard constraints", .policyPreference,
              .cpuCore, ⟨0⟩⟩

/-- The VRAM the filter asks a candidate for. -/
def demandedVram (accel : AcceleratorRequirement) : UInt64 :=
  if 0 < accel.aggregateVram then accel.aggregateVram
  else saturatingMul accel.vramPerDevice accel.minimumCount

/-- The binding proves the demanded capability class. -/
def DeviceBinding.proves (b : DeviceBinding) (accel : AcceleratorRequirement) : Bool :=
  b.capability = accel.capability && b.capabilityCurrent

/-- The binding carries a network interface. -/
def DeviceBinding.hasNic (b : DeviceBinding) : Bool :=
  b.nicId.isValid && b.nicGeneration.isValid

/-- The constraints a candidate passes to be eligible, in source order. -/
@[mk_iff] structure Admitted (request : SchedulingRequest) (candidate : Candidate)
    (dependency : Option DependencyView) (policy : Option PolicyVeto) : Prop where
  bindings : ¬(0 < request.demand.accelerator.minimumCount ∧ candidate.bindings = [])
  capacityEvidence : ¬(0 < request.demand.accelerator.minimumCount ∧
    candidate.capacity.provenance = .unknown)
  healthEvidence : ¬candidate.health.provenance = .unknown
  capability : ¬(0 < request.demand.accelerator.minimumCount ∧
    ¬candidate.bindings.any fun b => b.proves request.demand.accelerator)
  vram : ¬(0 < request.demand.accelerator.minimumCount ∧
    candidate.capacity.vramAvailable < demandedVram request.demand.accelerator)
  cpu : ¬candidate.capacity.cpuAvailable < request.demand.cpuRequired
  hostMemory : ¬candidate.capacity.hostMemoryAvailable < request.demand.memory.hostMemory
  pinnedMemory :
    ¬candidate.capacity.pinnedMemoryAvailable < request.demand.memory.pinnedMemory
  contiguity : ¬(request.demand.accelerator.requiresContiguousMemory ∧
    ¬candidate.capacity.contiguousMemory)
  health : ¬¬candidate.health.ready
  nic : ¬(request.demand.network.requireNic ∧ ¬candidate.bindings.any DeviceBinding.hasNic)
  bandwidth : ¬(request.demand.network.requireNic ∧
    candidate.capacity.nicBandwidthAvailable < request.demand.network.bandwidth)
  storage : ¬candidate.capacity.storageAvailable < request.demand.storage.capacity
  stateLocal : ¬(request.demand.storage.requireLocal ∧ ¬candidate.residency.stateLocal)
  reservation : ¬candidate.reservation.protectedResource
  topology : ¬(request.demand.requiredTopologyGeneration.isValid ∧
    candidate.locality.topologyGeneration ≠ request.demand.requiredTopologyGeneration)
  dependency : ∀ d ∈ dependency, d.ready request.demand.demandId = true
  policy : ∀ p ∈ policy, p.allows candidate = true

/-- An outcome behind a constraint is eligible when the constraint is met and the rest
is eligible. -/
private theorem eligible_ite_reject_iff {c : Prop} [Decidable c] {status : EligibilityStatus}
    {reason : Bytes} {factor : RankFactorKind} {bottleneck : ResourceKind}
    {r : EligibilityResult} (hstatus : status ≠ .eligible) :
    (if c then reject status reason factor bottleneck else r).eligible = true ↔
      ¬c ∧ r.eligible = true := by
  by_cases h : c
  · rw [if_pos h]
    constructor
    · exact fun he => absurd (of_decide_eq_true he) hstatus
    · exact fun he => absurd h he.1
  · rw [if_neg h]
    exact ⟨fun he => ⟨h, he⟩, And.right⟩

private theorem filter_eq_none_iff {α : Type} {o : Option α} {p : α → Bool} :
    o.filter (fun a => !p a) = none ↔ ∀ a ∈ o, p a = true := by
  simp [Option.filter_eq_none_iff]

/-- The views are asked last: the dependency view first, then the policy gate. -/
private theorem eligible_views_iff {request : SchedulingRequest} {candidate : Candidate}
    {dependency : Option DependencyView} {policy : Option PolicyVeto} :
    (match dependency.filter fun d => !d.ready request.demand.demandId with
      | some d =>
          { reject .rejectDependency
              (text "dependencies not ready: " ++ d.unsatisfied request.demand.demandId)
              .policyPreference .cpuCore with dependencyGeneration := d.generation }
      | none =>
          match policy.filter fun p => !p.allows candidate with
          | some p =>
              reject .rejectPolicy (text "policy veto: " ++ p.reason candidate)
                .policyPreference .cpuCore
          | none =>
              ⟨.eligible, text "candidate meets all hard constraints", .policyPreference,
                .cpuCore, ⟨0⟩⟩ : EligibilityResult).eligible = true ↔
      (∀ d ∈ dependency, d.ready request.demand.demandId = true) ∧
        ∀ p ∈ policy, p.allows candidate = true := by
  rw [← filter_eq_none_iff (o := dependency), ← filter_eq_none_iff (o := policy)]
  cases dependency.filter fun d => !d.ready request.demand.demandId with
  | some d => simp [EligibilityResult.eligible, reject]
  | none =>
      cases policy.filter fun p => !p.allows candidate with
      | some p => simp [EligibilityResult.eligible, reject]
      | none => simp [EligibilityResult.eligible]

/-- The filter admits exactly the candidates that pass every constraint. -/
theorem eligible_iff_admitted {request : SchedulingRequest} {candidate : Candidate}
    {dependency : Option DependencyView} {policy : Option PolicyVeto} :
    (hardFilterEvaluate request candidate dependency policy).eligible = true ↔
      Admitted request candidate dependency policy := by
  rw [admitted_iff]
  unfold hardFilterEvaluate
  -- sixteen constraints on the evidence stand in front of the views
  iterate 16 refine (eligible_ite_reject_iff (by decide)).trans (and_congr Iff.rfl ?_)
  exact eligible_views_iff

/-- The policy gate allows an eligible candidate. -/
theorem allows_of_eligible {request : SchedulingRequest} {candidate : Candidate}
    {dependency : Option DependencyView} {veto : PolicyVeto}
    (h : (hardFilterEvaluate request candidate dependency (some veto)).eligible = true) :
    veto.allows candidate = true :=
  (eligible_iff_admitted.mp h).policy veto rfl

end FabricScheduler
