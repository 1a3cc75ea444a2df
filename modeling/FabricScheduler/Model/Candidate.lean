import FabricScheduler.Model.Request

/-!
# Placement candidates

A candidate is a generation-bound bundle of resource identities together with the
evidence records its eligibility and rank are decided on.
-/

namespace FabricScheduler

/-- A single device binding inside a candidate. -/
structure DeviceBinding where
  deviceId : DeviceId
  deviceGeneration : DeviceGeneration
  resourceId : ResourceId
  resourceGeneration : ResourceGeneration
  nodeId : NodeId
  nodeGeneration : NodeGeneration
  memoryDomainId : MemoryDomainId
  memoryDomainGeneration : MemoryDomainGeneration
  nicId : NicId
  nicGeneration : NicGeneration
  storageId : StorageEndpointId
  storageGeneration : StorageEndpointGeneration
  cpuDomainId : CpuDomainId
  cpuDomainGeneration : CpuDomainGeneration
  pcieRoot : Bytes
  sharesPcieRoot : Bool
  capability : AcceleratorClass
  cudaCompatibility : Int32
  capabilityCurrent : Bool
  capabilityGeneration : CapabilityGeneration
  deriving DecidableEq, Repr

structure CapacityEvidence where
  generation : CapacityGeneration
  vramTotal : UInt64
  vramUsed : UInt64
  vramAvailable : UInt64
  hostMemoryAvailable : UInt64
  pinnedMemoryAvailable : UInt64
  cpuAvailable : UInt32
  storageAvailable : UInt64
  nicBandwidthAvailable : UInt64
  contiguousMemory : Bool
  provenance : Provenance
  deriving DecidableEq, Repr

structure HealthEvidence where
  generation : HealthGeneration
  ready : Bool
  healthScore : Double
  degradationReason : Bytes
  provenance : Provenance
  deriving DecidableEq, Repr

structure ReservationEvidence where
  generation : ReservationGeneration
  protectedResource : Bool
  reservedBytes : UInt64
  reservationId : Bytes
  provenance : Provenance
  deriving DecidableEq, Repr

structure CongestionEvidence where
  generation : CongestionGeneration
  congestion : Double
  residualBandwidth : Double
  bandwidthNominal : UInt64
  bottleneck : Bytes
  provenance : Provenance
  deriving DecidableEq, Repr

structure LocalityEvidence where
  topologyGeneration : TopologyGeneration
  numaDistance : UInt32
  pcieHops : UInt32
  sharesPcieRoot : Bool
  nicDistance : UInt32
  storageDistance : UInt32
  topologyGroup : Bytes
  provenance : Provenance
  deriving DecidableEq, Repr

structure CommunicationEvidence where
  planGeneration : CommunicationPlanGeneration
  estimatedCost : Double
  derivedPathCost : Double
  collectiveCost : Double
  pathFeasible : Bool
  planId : Bytes
  provenance : Provenance
  deriving DecidableEq, Repr

structure ResidencyEvidence where
  residencyGeneration : ResidencyGeneration
  modelResident : Bool
  adapterResident : Bool
  stateLocal : Bool
  moveBytes : UInt64
  moveSource : Bytes
  provenance : Provenance
  deriving DecidableEq, Repr

/-- A placement candidate as published by a worker. -/
structure Candidate where
  candidateId : CandidateId
  candidateGeneration : CandidateGeneration
  sourceId : SourceId
  sourceBootId : SourceBootId
  workerId : WorkerId
  workerBootId : WorkerBootId
  provenance : Provenance
  bindings : List DeviceBinding
  capacity : CapacityEvidence
  health : HealthEvidence
  reservation : ReservationEvidence
  congestion : CongestionEvidence
  locality : LocalityEvidence
  communication : CommunicationEvidence
  residency : ResidencyEvidence
  policyGeneration : PolicyGeneration
  memoryMovementCost : Double
  deriving DecidableEq, Repr

/-- What a candidate is required to carry before the guards are asked. -/
structure Candidate.Publishable (candidate : Candidate) : Prop where
  candidateId : candidate.candidateId.isValid = true
  candidateGeneration : candidate.candidateGeneration.isValid = true
  sourceBootId : candidate.sourceBootId.isValid = true
  workerBootId : candidate.workerBootId.isValid = true
  evidence : ¬(candidate.bindings = [] ∧ candidate.capacity.vramTotal = 0)

end FabricScheduler
