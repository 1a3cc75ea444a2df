import FabricScheduler.Model.Placement
import FabricScheduler.Persistence.Coding

/-!
# Record codecs

The writers and readers of the durable records, field by field in the order of the
source. A reader range-checks every enumeration, bounds every list and string, and a
request's demand is validated after it is read.
-/

namespace FabricScheduler

/-- `enc_demand`; the required topology generation is not among the fields. -/
def encDemand (d : DemandProfile) : Bytes :=
  [putId d.demandId, putId d.demandGeneration, putId d.workloadId, putId d.workloadGeneration,
    putId d.accelerator.capabilityGeneration, putU32 d.accelerator.minimumCount,
    putU32 d.accelerator.targetCount, putU32 d.accelerator.maximumCount,
    putU64 d.accelerator.vramPerDevice, putU64 d.accelerator.aggregateVram,
    putBool d.accelerator.requiresContiguousMemory, putEnum d.accelerator.capability,
    putU32 d.cpuRequired, putU64 d.memory.hostMemory, putU64 d.memory.pinnedMemory,
    putU64 d.storage.capacity, putBool d.storage.requireLocal, putU64 d.network.bandwidth,
    putBool d.network.requireNic, putEnum d.communication, putU64 d.communicationBytes,
    putBool d.residency.requireModelResident, putBool d.residency.requireAdapterResident,
    putBool d.residency.requireStateLocal, putString d.residency.modelPath,
    putString d.residency.adapterPath, putString d.residency.statePath,
    putU32 d.failureDomains.minimumDistinctDomains, putBool d.failureDomains.avoidColocation,
    putBool d.failureDomains.avoidSingleRoot, putU64 d.expectedExecutionDuration,
    putEnum d.latencySensitivity, putDouble d.throughputObjective, putI32 d.externalPriority,
    putU64 d.externalPriorityOrdinal, putId d.sloGeneration, putId d.policyGeneration,
    putId d.priorityGeneration, putU64 d.maximumMovementCost,
    putList putEnum d.fallbackLocalities, putEnum d.provenance].flatten

/-- `enc_request`. -/
def encRequest (r : SchedulingRequest) : Bytes :=
  [putId r.requestId, putId r.generation, putId r.coordinatorEpoch, putId r.sourceId,
    putId r.sourceBootId, putU64 r.submitOrdinal, encDemand r.demand].flatten

/-- `enc_binding`. -/
def encBinding (b : DeviceBinding) : Bytes :=
  [putId b.deviceId, putId b.deviceGeneration, putId b.resourceId, putId b.resourceGeneration,
    putId b.nodeId, putId b.nodeGeneration, putId b.memoryDomainId,
    putId b.memoryDomainGeneration, putId b.nicId, putId b.nicGeneration, putId b.storageId,
    putId b.storageGeneration, putId b.cpuDomainId, putId b.cpuDomainGeneration,
    putString b.pcieRoot, putBool b.sharesPcieRoot, putEnum b.capability,
    putI32 b.cudaCompatibility, putBool b.capabilityCurrent,
    putId b.capabilityGeneration].flatten

/-- `enc_factor`. -/
def encFactor (f : RankFactor Double) : Bytes :=
  [putU16 (UInt16.ofNat (Enumeration.code f.kind)), putDouble f.value, putDouble f.weight,
    putEnum f.provenance, putString f.description].flatten

/-- `enc_rejected`. -/
def encRejected (r : RejectedAlternative) : Bytes :=
  [putId r.candidateId, putId r.candidateGeneration, putEnum r.status,
    putString r.reason].flatten

/-- `enc_claim`. -/
def encClaim (c : ResourceClaim) : Bytes :=
  [putId c.resourceId, putId c.resourceGeneration, putEnum c.kind, putU64 c.amount,
    putBool c.provisional].flatten

/-- `enc_fingerprint`. -/
def encFingerprint (g : GenerationFingerprint) : Bytes :=
  [putId g.topology, putId g.capacity, putId g.reservation, putId g.congestion,
    putId g.capability, putId g.health, putId g.residency, putId g.communicationPlan,
    putId g.policy, putId g.resource, putId g.dependency, putId g.coordinatorEpoch].flatten

/-- One entry of a plan's history. -/
def encHistory (h : PlacementLifecycleState × UInt64) : Bytes :=
  [putEnum h.1, putU64 h.2].flatten

/-- `enc_plan`. -/
def encPlan (p : PlacementPlan) : Bytes :=
  [putId p.planId, putId p.planGeneration, putId p.requestId, putId p.requestGeneration,
    putId p.selectedCandidate, putId p.selectedCandidateGeneration,
    putList putId p.fallbackCandidates, putList encBinding p.bindings,
    putList encClaim p.claims, putId p.communicationPlan, putString p.communicationPlanId,
    putU64 p.movementBytes, putString p.movementSource, putBool p.residencyPrerequisite,
    putList encFactor p.selectedFactors, putList encRejected p.rejectedAlternatives,
    encFingerprint p.generations, putId p.policyGeneration, putId p.authorityGeneration,
    putEnum p.state, putList encHistory p.stateHistory, putId p.coordinatorEpoch,
    putId p.supersededBy, putString p.supersessionReason,
    putBool p.hasCommitmentEvidence].flatten

/-- `dec_demand`; the required topology generation keeps its default. -/
def decDemand : ByteReader DemandProfile := do
  let demandId ← getId
  let demandGeneration ← getId
  let workloadId ← getId
  let workloadGeneration ← getId
  let capabilityGeneration ← getId
  let minimumCount ← getU32
  let targetCount ← getU32
  let maximumCount ← getU32
  let vramPerDevice ← getU64
  let aggregateVram ← getU64
  let requiresContiguousMemory ← getBool
  let capability ← getEnum "invalid accelerator class"
  let cpuRequired ← getU32
  let hostMemory ← getU64
  let pinnedMemory ← getU64
  let capacity ← getU64
  let requireLocal ← getBool
  let bandwidth ← getU64
  let requireNic ← getBool
  let communication ← getEnum "invalid communication pattern"
  let communicationBytes ← getU64
  let requireModelResident ← getBool
  let requireAdapterResident ← getBool
  let requireStateLocal ← getBool
  let modelPath ← getString
  let adapterPath ← getString
  let statePath ← getString
  let minimumDistinctDomains ← getU32
  let avoidColocation ← getBool
  let avoidSingleRoot ← getBool
  let expectedExecutionDuration ← getU64
  let latencySensitivity ← getEnum "invalid latency sensitivity"
  let throughputObjective ← getDouble
  let externalPriority ← getI32
  let externalPriorityOrdinal ← getU64
  let sloGeneration ← getId
  let policyGeneration ← getId
  let priorityGeneration ← getId
  let maximumMovementCost ← getU64
  let fallbackLocalities ← getList (getEnum "invalid locality kind")
  let provenance ← getEnum "invalid provenance"
  let d : DemandProfile :=
    { demandId, demandGeneration, workloadId, workloadGeneration
      accelerator := ⟨capability, minimumCount, targetCount, maximumCount, vramPerDevice,
        aggregateVram, requiresContiguousMemory, capabilityGeneration⟩
      cpuRequired, memory := ⟨hostMemory, pinnedMemory⟩
      storage := ⟨capacity, requireLocal⟩, network := ⟨bandwidth, requireNic⟩
      requiredTopologyGeneration := ⟨0⟩
      communication, communicationBytes
      residency := ⟨requireModelResident, requireAdapterResident, requireStateLocal,
        modelPath, adapterPath, statePath⟩
      failureDomains := ⟨minimumDistinctDomains, avoidColocation, avoidSingleRoot⟩
      expectedExecutionDuration, latencySensitivity, throughputObjective, externalPriority,
      externalPriorityOrdinal, sloGeneration, policyGeneration, priorityGeneration,
      maximumMovementCost, fallbackLocalities, provenance }
  Decoder.check d.validate
  return d

/-- `dec_request`. -/
def decRequest : ByteReader SchedulingRequest := do
  let requestId ← getId
  let generation ← getId
  let coordinatorEpoch ← getId
  let sourceId ← getId
  let sourceBootId ← getId
  let submitOrdinal ← getU64
  let demand ← decDemand
  return { requestId, generation, demand, coordinatorEpoch, sourceId, sourceBootId,
           submitOrdinal }

/-- `encode_request_record`. -/
def encodeRequestRecord (r : SchedulingRequest) : Bytes := encRequest r

/-- `decode_request_record`. -/
def decodeRequestRecord : ByteReader SchedulingRequest := decRequest

/-- `dec_binding`. -/
def decBinding : ByteReader DeviceBinding := do
  let deviceId ← getId
  let deviceGeneration ← getId
  let resourceId ← getId
  let resourceGeneration ← getId
  let nodeId ← getId
  let nodeGeneration ← getId
  let memoryDomainId ← getId
  let memoryDomainGeneration ← getId
  let nicId ← getId
  let nicGeneration ← getId
  let storageId ← getId
  let storageGeneration ← getId
  let cpuDomainId ← getId
  let cpuDomainGeneration ← getId
  let pcieRoot ← getString
  let sharesPcieRoot ← getBool
  let capability ← getEnum "invalid accelerator class"
  let cudaCompatibility ← getI32
  let capabilityCurrent ← getBool
  let capabilityGeneration ← getId
  return { deviceId, deviceGeneration, resourceId, resourceGeneration, nodeId, nodeGeneration,
           memoryDomainId, memoryDomainGeneration, nicId, nicGeneration, storageId,
           storageGeneration, cpuDomainId, cpuDomainGeneration, pcieRoot, sharesPcieRoot,
           capability, cudaCompatibility, capabilityCurrent, capabilityGeneration }

/-- `dec_factor`. -/
def decFactor : ByteReader (RankFactor Double) := do
  let code ← getU16
  let kind ← Decoder.known (Enumeration.ofCode? code.toNat)
    ⟨.corruption, text "invalid rank factor kind"⟩
  let value ← getDouble
  let weight ← getDouble
  let provenance ← getEnum "invalid provenance"
  let description ← getString
  Decoder.ensure (value.isFinite = true) ⟨.corruption, text "non-finite factor cost"⟩
  return { kind, value, weight, provenance, description }

/-- `dec_rejected`. -/
def decRejected : ByteReader RejectedAlternative := do
  let candidateId ← getId
  let candidateGeneration ← getId
  let status ← getEnum "invalid eligibility status"
  let reason ← getString
  return { candidateId, candidateGeneration, status, reason }

/-- `dec_claim`. -/
def decClaim : ByteReader ResourceClaim := do
  let resourceId ← getId
  let resourceGeneration ← getId
  let kind ← getEnum "invalid resource kind"
  let amount ← getU64
  let provisional ← getBool
  return { resourceId, resourceGeneration, kind, amount, provisional }

/-- `dec_fingerprint`. -/
def decFingerprint : ByteReader GenerationFingerprint := do
  let topology ← getId
  let capacity ← getId
  let reservation ← getId
  let congestion ← getId
  let capability ← getId
  let health ← getId
  let residency ← getId
  let communicationPlan ← getId
  let policy ← getId
  let resource ← getId
  let dependency ← getId
  let coordinatorEpoch ← getId
  return { topology, capacity, reservation, congestion, capability, health, residency,
           communicationPlan, policy, resource, dependency, coordinatorEpoch }

/-- One entry of a plan's history. -/
def decHistory : ByteReader (PlacementLifecycleState × UInt64) := do
  let state ← getEnum "invalid lifecycle state"
  let ordinal ← getU64
  return (state, ordinal)

/-- `dec_plan`. -/
def decPlan : ByteReader PlacementPlan := do
  let planId ← getId
  let planGeneration ← getId
  let requestId ← getId
  let requestGeneration ← getId
  let selectedCandidate ← getId
  let selectedCandidateGeneration ← getId
  let fallbackCandidates ← getList getId
  let bindings ← getList decBinding
  let claims ← getList decClaim
  let communicationPlan ← getId
  let communicationPlanId ← getString
  let movementBytes ← getU64
  let movementSource ← getString
  let residencyPrerequisite ← getBool
  let selectedFactors ← getList decFactor
  let rejectedAlternatives ← getList decRejected
  let generations ← decFingerprint
  let policyGeneration ← getId
  let authorityGeneration ← getId
  let state ← getEnum "invalid lifecycle state"
  let stateHistory ← getList decHistory
  let coordinatorEpoch ← getId
  let supersededBy ← getId
  let supersessionReason ← getString
  let hasCommitmentEvidence ← getBool
  return { planId, planGeneration, requestId, requestGeneration, selectedCandidate,
           selectedCandidateGeneration, fallbackCandidates, bindings, claims,
           communicationPlan, communicationPlanId, movementBytes, movementSource,
           residencyPrerequisite, selectedFactors, rejectedAlternatives, generations,
           policyGeneration, authorityGeneration, state, stateHistory, coordinatorEpoch,
           supersededBy, supersessionReason, hasCommitmentEvidence }

/-- `encode_plan_record`. -/
def encodePlanRecord (p : PlacementPlan) : Bytes := encPlan p

/-- `decode_plan_record`. -/
def decodePlanRecord : ByteReader PlacementPlan := decPlan

end FabricScheduler
