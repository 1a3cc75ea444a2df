import FabricScheduler.Core.Ids
import FabricScheduler.Core.Double

/-!
# Workload demand and scheduling requests

The demand profile of a workload, its validation, and the request that carries it.
Validation throws at the first violated constraint, in source order.
-/

namespace FabricScheduler

structure FailureDomainConstraint where
  minimumDistinctDomains : UInt32
  avoidColocation : Bool
  avoidSingleRoot : Bool
  deriving DecidableEq, Repr

structure AcceleratorRequirement where
  capability : AcceleratorClass
  minimumCount : UInt32
  targetCount : UInt32
  maximumCount : UInt32
  vramPerDevice : UInt64
  aggregateVram : UInt64
  requiresContiguousMemory : Bool
  capabilityGeneration : CapabilityGeneration
  deriving DecidableEq, Repr

structure MemoryRequirement where
  hostMemory : UInt64
  pinnedMemory : UInt64
  deriving DecidableEq, Repr

structure StorageRequirement where
  capacity : UInt64
  requireLocal : Bool
  deriving DecidableEq, Repr

structure NetworkRequirement where
  bandwidth : UInt64
  requireNic : Bool
  deriving DecidableEq, Repr

structure ResidencyRequirement where
  requireModelResident : Bool
  requireAdapterResident : Bool
  requireStateLocal : Bool
  modelPath : Bytes
  adapterPath : Bytes
  statePath : Bytes
  deriving DecidableEq, Repr

/-- Everything a placement request can express. -/
structure DemandProfile where
  demandId : WorkloadDemandId
  demandGeneration : WorkloadDemandGeneration
  workloadId : WorkloadId
  workloadGeneration : WorkloadGeneration
  accelerator : AcceleratorRequirement
  cpuRequired : UInt32
  memory : MemoryRequirement
  storage : StorageRequirement
  network : NetworkRequirement
  /-- Zero when the workload has no hard topology requirement. -/
  requiredTopologyGeneration : TopologyGeneration
  communication : CommunicationPattern
  communicationBytes : UInt64
  residency : ResidencyRequirement
  failureDomains : FailureDomainConstraint
  /-- Nanoseconds. -/
  expectedExecutionDuration : UInt64
  latencySensitivity : LatencySensitivity
  throughputObjective : Double
  externalPriority : Int32
  externalPriorityOrdinal : UInt64
  sloGeneration : SloGeneration
  policyGeneration : PolicyGeneration
  priorityGeneration : PriorityGeneration
  /-- Bytes; zero is no cap. -/
  maximumMovementCost : UInt64
  fallbackLocalities : List LocalityKind
  provenance : Provenance
  deriving DecidableEq, Repr

/-- A submitted scheduling request. -/
structure SchedulingRequest where
  requestId : SchedulingRequestId
  generation : SchedulingRequestGeneration
  demand : DemandProfile
  coordinatorEpoch : CoordinatorEpoch
  sourceId : SourceId
  sourceBootId : SourceBootId
  submitOrdinal : UInt64
  deriving DecidableEq, Repr

/-- The ceiling of any byte quantity, `16 << 40`. -/
def maxBytes : UInt64 := (16 : UInt64) <<< 40

/-- The ceiling of any device count, `1 << 20`. -/
def maxCpuCount : UInt32 := (1 : UInt32) <<< 20

/-- Thirty days in nanoseconds. -/
def maxHorizon : UInt64 := 30 * 24 * 60 * 60 * 1000000000

/-- The duplicate check of the fallback list: `seen` holds the kinds met so far. -/
def checkFallbackLocalities : List LocalityKind → List LocalityKind → Except FabricError Unit
  | _, [] => .ok ()
  | seen, lk :: rest =>
      if lk ∈ seen then
        fail .malformedLocalityConstraint "duplicate locality kind in fallback list"
      else checkFallbackLocalities (lk :: seen) rest

/-- `DemandProfile::validate`. The product of the aggregate check is taken in 64 bits. -/
def DemandProfile.validate (d : DemandProfile) : Except FabricError Unit := do
  let min := d.accelerator.minimumCount
  let max := d.accelerator.maximumCount
  let target := d.accelerator.targetCount
  if 0 < max ∧ max < min then
    fail .invalidCountRange "accelerator minimumCount exceeds maximumCount"
  if 0 < target ∧ (target < min ∨ 0 < max ∧ max < target) then
    fail .invalidCountRange "accelerator targetCount outside [minimumCount, maximumCount]"
  if maxCpuCount < min ∨ maxCpuCount < max ∨ maxCpuCount < target then
    fail .invalidCountRange "accelerator count out of supported range"
  if 0 < min ∧ d.accelerator.capability = .none then
    fail .invalidDemand "accelerator count requested with no accelerator capability class"
  if maxBytes < d.accelerator.vramPerDevice ∨ maxBytes < d.accelerator.aggregateVram ∨
      maxBytes < d.memory.hostMemory ∨ maxBytes < d.memory.pinnedMemory ∨
      maxBytes < d.storage.capacity ∨ maxBytes < d.network.bandwidth ∨
      maxBytes < d.communicationBytes ∨ maxBytes < d.maximumMovementCost then
    fail .overflow "a byte quantity exceeds the supported ceiling"
  if 0 < min ∧ 0 < d.accelerator.aggregateVram ∧
      d.accelerator.aggregateVram < d.accelerator.vramPerDevice * min.toUInt64 then
    fail .invalidDemand "aggregate VRAM is below per-device VRAM times minimum count"
  if maxHorizon < d.expectedExecutionDuration then
    fail .impossibleDuration "expected execution duration exceeds supported horizon"
  if !d.throughputObjective.eq .zero then
    if !d.throughputObjective.isFinite || d.throughputObjective.lt .zero then
      fail .nonFinite "throughput objective must be finite and non-negative"
  checkFallbackLocalities [] d.fallbackLocalities
  if !d.workloadId.isValid || !d.demandId.isValid then
    fail .invalidDemand "workload/demand identity missing"
  if !d.workloadGeneration.isValid || !d.demandGeneration.isValid then
    fail .invalidDemand "workload/demand generation missing"

/-- What a validated demand satisfies. The product of the aggregate bound wraps. -/
structure DemandProfile.Valid (d : DemandProfile) : Prop where
  countRange : ¬(0 < d.accelerator.maximumCount ∧
    d.accelerator.maximumCount < d.accelerator.minimumCount)
  targetRange : ¬(0 < d.accelerator.targetCount ∧
    (d.accelerator.targetCount < d.accelerator.minimumCount ∨
      0 < d.accelerator.maximumCount ∧
        d.accelerator.maximumCount < d.accelerator.targetCount))
  countCeiling : ¬(maxCpuCount < d.accelerator.minimumCount ∨
    maxCpuCount < d.accelerator.maximumCount ∨ maxCpuCount < d.accelerator.targetCount)
  capability : ¬(0 < d.accelerator.minimumCount ∧ d.accelerator.capability = .none)
  byteCeiling : ¬(maxBytes < d.accelerator.vramPerDevice ∨
    maxBytes < d.accelerator.aggregateVram ∨ maxBytes < d.memory.hostMemory ∨
    maxBytes < d.memory.pinnedMemory ∨ maxBytes < d.storage.capacity ∨
    maxBytes < d.network.bandwidth ∨ maxBytes < d.communicationBytes ∨
    maxBytes < d.maximumMovementCost)
  aggregate : ¬(0 < d.accelerator.minimumCount ∧ 0 < d.accelerator.aggregateVram ∧
    d.accelerator.aggregateVram <
      d.accelerator.vramPerDevice * d.accelerator.minimumCount.toUInt64)
  duration : ¬maxHorizon < d.expectedExecutionDuration
  throughput : ¬((!d.throughputObjective.eq .zero) = true ∧
    (!d.throughputObjective.isFinite || d.throughputObjective.lt .zero) = true)
  fallback : checkFallbackLocalities [] d.fallbackLocalities = .ok ()
  identity : ¬(!d.workloadId.isValid || !d.demandId.isValid) = true
  generation : ¬(!d.workloadGeneration.isValid || !d.demandGeneration.isValid) = true

section Guards

variable {b c : Prop} [Decidable b] [Decidable c] {code : ErrorCode} {message : String}
  {rest : Except FabricError Unit}

private theorem guard_ok_iff :
    (if c then (fail code message : Except FabricError PUnit) >>= fun _ => rest else rest) =
      .ok () ↔ ¬c ∧ rest = .ok () := by
  by_cases h : c
  · rw [if_pos h]
    constructor
    · intro he
      cases he
    · exact fun he => absurd h he.1
  · rw [if_neg h]
    exact ⟨fun he => ⟨h, he⟩, And.right⟩

private theorem nested_guard_ok_iff :
    (if b then
        if c then (fail code message : Except FabricError PUnit) >>= fun _ => rest else rest
      else rest) = .ok () ↔ ¬(b ∧ c) ∧ rest = .ok () := by
  by_cases h : b
  · simp only [h, ite_true, guard_ok_iff, true_and]
  · simp only [h, ite_false, false_and, not_false_eq_true, true_and]

private theorem last_guard_ok_iff :
    (if c then (fail code message : Except FabricError PUnit) else pure ()) = .ok () ↔ ¬c := by
  by_cases h : c
  · rw [if_pos h]
    constructor
    · intro he
      cases he
    · exact fun he => absurd h he
  · rw [if_neg h]
    exact ⟨fun _ => h, fun _ => rfl⟩

private theorem check_ok_iff {x : Except FabricError Unit} :
    (x >>= fun _ => rest) = .ok () ↔ x = .ok () ∧ rest = .ok () := by
  cases x with
  | ok u => exact ⟨fun he => ⟨rfl, he⟩, And.right⟩
  | error e =>
      constructor
      · intro he
        cases he
      · intro he
        cases he.1

end Guards

/-- Validation accepts exactly the valid demands. -/
theorem DemandProfile.validate_ok_iff {d : DemandProfile} : d.validate = .ok () ↔ d.Valid := by
  unfold DemandProfile.validate
  simp only [guard_ok_iff, nested_guard_ok_iff, last_guard_ok_iff, check_ok_iff]
  constructor
  · rintro ⟨h₁, h₂, h₃, h₄, h₅, h₆, h₇, h₈, h₉, h₁₀, h₁₁⟩
    exact ⟨h₁, h₂, h₃, h₄, h₅, h₆, h₇, h₈, h₉, h₁₀, h₁₁⟩
  · rintro ⟨h₁, h₂, h₃, h₄, h₅, h₆, h₇, h₈, h₉, h₁₀, h₁₁⟩
    exact ⟨h₁, h₂, h₃, h₄, h₅, h₆, h₇, h₈, h₉, h₁₀, h₁₁⟩

/-- A fallback list passes the duplicate check exactly when its kinds are distinct and
none was seen before. -/
theorem checkFallbackLocalities_ok_iff {seen l : List LocalityKind} :
    checkFallbackLocalities seen l = .ok () ↔ l.Nodup ∧ ∀ k ∈ l, k ∉ seen := by
  induction l generalizing seen with
  | nil => exact ⟨fun _ => ⟨List.nodup_nil, fun _ hk => (List.not_mem_nil hk).elim⟩, fun _ => rfl⟩
  | cons a l ih =>
      rw [checkFallbackLocalities]
      split
      · rename_i hseen
        constructor
        · intro h
          cases h
        · exact fun h => absurd hseen (h.2 a (List.mem_cons_self ..))
      · rename_i hseen
        rw [ih, List.nodup_cons]
        constructor
        · rintro ⟨hnodup, hfresh⟩
          refine ⟨⟨fun ha => hfresh a ha (List.mem_cons_self ..), hnodup⟩, ?_⟩
          intro k hk hmem
          rcases List.mem_cons.mp hk with rfl | hk
          · exact hseen hmem
          · exact hfresh k hk (List.mem_cons_of_mem a hmem)
        · rintro ⟨⟨ha, hnodup⟩, hfresh⟩
          refine ⟨hnodup, ?_⟩
          intro k hk hmem
          rcases List.mem_cons.mp hmem with rfl | hmem
          · exact ha hk
          · exact hfresh k (List.mem_cons_of_mem a hk) hmem

/-- A validated demand lists each kind of locality at most once. -/
theorem DemandProfile.Valid.length_fallbackLocalities_le {d : DemandProfile} (h : d.Valid) :
    d.fallbackLocalities.length ≤ 5 :=
  Enumeration.length_le_of_nodup (checkFallbackLocalities_ok_iff.mp h.fallback).1

end FabricScheduler
