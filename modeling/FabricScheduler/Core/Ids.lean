import Mathlib.Algebra.Group.Nat.Defs
import Mathlib.Data.Fintype.EquivFin
import Mathlib.Order.Nat
import Mathlib.Order.Basic

/-!
# Strongly typed identities and generations

Every identity and generation is an unsigned 64-bit ordinal under a name of its own, so
ordinals of different names are different types. Zero is the unassigned ordinal.
-/

namespace FabricScheduler

/-- The names under which ordinals are issued. -/
inductive IdName
  | schedulingRequestId | schedulingRequestGeneration
  | placementPlanId | placementPlanGeneration
  | candidateId | candidateGeneration
  | workloadId | workloadGeneration
  | workloadDemandId | workloadDemandGeneration
  | executionId | executionGeneration
  | attemptId | attemptGeneration
  | resourceId | resourceGeneration
  | deviceId | deviceGeneration
  | nodeId | nodeGeneration
  | cpuDomainId | cpuDomainGeneration
  | memoryDomainId | memoryDomainGeneration
  | nicId | nicGeneration
  | storageEndpointId | storageEndpointGeneration
  | topologyGeneration | capabilityGeneration | healthGeneration | capacityGeneration
  | reservationGeneration | congestionGeneration | communicationPlanGeneration
  | residencyGeneration | dependencyGeneration | policyGeneration
  | priorityGeneration | sloGeneration
  | coordinatorEpoch
  | workerId | workerBootId
  | sourceId | sourceBootId
  | authorityGeneration

/-- An ordinal issued under one name; `StrongId<Tag>`. -/
@[ext] structure StrongId (name : IdName) where
  /-- The stored ordinal. -/
  value : UInt64
  deriving Repr, Inhabited

namespace StrongId

variable {name : IdName}

theorem toNat_value_injective : Function.Injective fun i : StrongId name => i.value.toNat :=
  fun _ _ h => StrongId.ext (UInt64.toNat_inj.mp h)

/-- Ordinals compare by value. -/
instance : LinearOrder (StrongId name) :=
  LinearOrder.lift' (fun i : StrongId name => i.value.toNat) toNat_value_injective

theorem lt_iff {a b : StrongId name} : a < b ↔ a.value.toNat < b.value.toNat := Iff.rfl

theorem le_iff {a b : StrongId name} : a ≤ b ↔ a.value.toNat ≤ b.value.toNat := Iff.rfl

/-- There are finitely many ordinals. -/
instance : Finite (StrongId name) :=
  Finite.of_injective
    (fun i : StrongId name => (⟨i.value.toNat, i.value.toNat_lt⟩ : Fin (2 ^ 64)))
    fun _ _ h => toNat_value_injective (Fin.val_eq_of_eq h)

/-- An assigned ordinal is non-zero. -/
def isValid (i : StrongId name) : Bool := i.value != 0

/-- The following ordinal, wrapping at the 64-bit boundary. -/
def next (i : StrongId name) : StrongId name := ⟨i.value + 1⟩

/-- Short of the boundary the following ordinal is one more. -/
theorem toNat_next {i : StrongId name} (h : i.value.toNat + 1 < 2 ^ 64) :
    i.next.value.toNat = i.value.toNat + 1 := by
  rw [next, UInt64.toNat_add]
  exact Nat.mod_eq_of_lt h

theorem lt_next {i : StrongId name} (h : i.value.toNat + 1 < 2 ^ 64) : i < i.next := by
  rw [lt_iff, toNat_next h]
  omega

end StrongId

abbrev SchedulingRequestId := StrongId .schedulingRequestId
abbrev SchedulingRequestGeneration := StrongId .schedulingRequestGeneration
abbrev PlacementPlanId := StrongId .placementPlanId
abbrev PlacementPlanGeneration := StrongId .placementPlanGeneration
abbrev CandidateId := StrongId .candidateId
abbrev CandidateGeneration := StrongId .candidateGeneration
abbrev WorkloadId := StrongId .workloadId
abbrev WorkloadGeneration := StrongId .workloadGeneration
abbrev WorkloadDemandId := StrongId .workloadDemandId
abbrev WorkloadDemandGeneration := StrongId .workloadDemandGeneration
abbrev ExecutionId := StrongId .executionId
abbrev ExecutionGeneration := StrongId .executionGeneration
abbrev AttemptId := StrongId .attemptId
abbrev AttemptGeneration := StrongId .attemptGeneration
abbrev ResourceId := StrongId .resourceId
abbrev ResourceGeneration := StrongId .resourceGeneration
abbrev DeviceId := StrongId .deviceId
abbrev DeviceGeneration := StrongId .deviceGeneration
abbrev NodeId := StrongId .nodeId
abbrev NodeGeneration := StrongId .nodeGeneration
abbrev CpuDomainId := StrongId .cpuDomainId
abbrev CpuDomainGeneration := StrongId .cpuDomainGeneration
abbrev MemoryDomainId := StrongId .memoryDomainId
abbrev MemoryDomainGeneration := StrongId .memoryDomainGeneration
abbrev NicId := StrongId .nicId
abbrev NicGeneration := StrongId .nicGeneration
abbrev StorageEndpointId := StrongId .storageEndpointId
abbrev StorageEndpointGeneration := StrongId .storageEndpointGeneration
abbrev TopologyGeneration := StrongId .topologyGeneration
abbrev CapabilityGeneration := StrongId .capabilityGeneration
abbrev HealthGeneration := StrongId .healthGeneration
abbrev CapacityGeneration := StrongId .capacityGeneration
abbrev ReservationGeneration := StrongId .reservationGeneration
abbrev CongestionGeneration := StrongId .congestionGeneration
abbrev CommunicationPlanGeneration := StrongId .communicationPlanGeneration
abbrev ResidencyGeneration := StrongId .residencyGeneration
abbrev DependencyGeneration := StrongId .dependencyGeneration
abbrev PolicyGeneration := StrongId .policyGeneration
abbrev PriorityGeneration := StrongId .priorityGeneration
abbrev SloGeneration := StrongId .sloGeneration
abbrev CoordinatorEpoch := StrongId .coordinatorEpoch
abbrev WorkerId := StrongId .workerId
abbrev WorkerBootId := StrongId .workerBootId
abbrev SourceId := StrongId .sourceId
abbrev SourceBootId := StrongId .sourceBootId
abbrev AuthorityGeneration := StrongId .authorityGeneration

end FabricScheduler
