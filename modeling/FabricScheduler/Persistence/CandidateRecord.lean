import FabricScheduler.Persistence.RoundTrip

/-!
# The candidate record

The record in which a worker publishes a candidate: its identity, its bindings and seven
evidence records, field by field in the order of the source. Nothing of a candidate is left
out, so that the record is read back in full.
-/

namespace FabricScheduler

open Decoder

/-- `encode_candidate_record`. -/
def encodeCandidateRecord (c : Candidate) : Bytes :=
  [putId c.candidateId, putId c.candidateGeneration, putId c.sourceId, putId c.sourceBootId,
    putId c.workerId, putId c.workerBootId, putEnum c.provenance,
    putList encBinding c.bindings,
    -- capacity
    putId c.capacity.generation, putU64 c.capacity.vramTotal, putU64 c.capacity.vramUsed,
    putU64 c.capacity.vramAvailable, putU64 c.capacity.hostMemoryAvailable,
    putU64 c.capacity.pinnedMemoryAvailable, putU32 c.capacity.cpuAvailable,
    putU64 c.capacity.storageAvailable, putU64 c.capacity.nicBandwidthAvailable,
    putBool c.capacity.contiguousMemory, putEnum c.capacity.provenance,
    -- health
    putId c.health.generation, putBool c.health.ready, putDouble c.health.healthScore,
    putString c.health.degradationReason, putEnum c.health.provenance,
    -- reservation
    putId c.reservation.generation, putBool c.reservation.protectedResource,
    putU64 c.reservation.reservedBytes, putString c.reservation.reservationId,
    putEnum c.reservation.provenance,
    -- congestion
    putId c.congestion.generation, putDouble c.congestion.congestion,
    putDouble c.congestion.residualBandwidth, putU64 c.congestion.bandwidthNominal,
    putString c.congestion.bottleneck, putEnum c.congestion.provenance,
    -- locality
    putId c.locality.topologyGeneration, putU32 c.locality.numaDistance,
    putU32 c.locality.pcieHops, putBool c.locality.sharesPcieRoot,
    putU32 c.locality.nicDistance, putU32 c.locality.storageDistance,
    putString c.locality.topologyGroup, putEnum c.locality.provenance,
    -- communication
    putId c.communication.planGeneration, putDouble c.communication.estimatedCost,
    putDouble c.communication.derivedPathCost, putDouble c.communication.collectiveCost,
    putBool c.communication.pathFeasible, putString c.communication.planId,
    putEnum c.communication.provenance,
    -- residency
    putId c.residency.residencyGeneration, putBool c.residency.modelResident,
    putBool c.residency.adapterResident, putBool c.residency.stateLocal,
    putU64 c.residency.moveBytes, putString c.residency.moveSource,
    putEnum c.residency.provenance,
    putId c.policyGeneration, putDouble c.memoryMovementCost].flatten

/-- `decode_candidate_record`. -/
def decodeCandidateRecord : ByteReader Candidate := do
  let candidateId ← getId
  let candidateGeneration ← getId
  let sourceId ← getId
  let sourceBootId ← getId
  let workerId ← getId
  let workerBootId ← getId
  let provenance ← getEnum "invalid provenance"
  let bindings ← getList decBinding
  let capacityGeneration ← getId
  let vramTotal ← getU64
  let vramUsed ← getU64
  let vramAvailable ← getU64
  let hostMemoryAvailable ← getU64
  let pinnedMemoryAvailable ← getU64
  let cpuAvailable ← getU32
  let storageAvailable ← getU64
  let nicBandwidthAvailable ← getU64
  let contiguousMemory ← getBool
  let capacityProvenance ← getEnum "invalid provenance"
  let healthGeneration ← getId
  let ready ← getBool
  let healthScore ← getDouble
  let degradationReason ← getString
  let healthProvenance ← getEnum "invalid provenance"
  let reservationGeneration ← getId
  let protectedResource ← getBool
  let reservedBytes ← getU64
  let reservationId ← getString
  let reservationProvenance ← getEnum "invalid provenance"
  let congestionGeneration ← getId
  let congestion ← getDouble
  let residualBandwidth ← getDouble
  let bandwidthNominal ← getU64
  let bottleneck ← getString
  let congestionProvenance ← getEnum "invalid provenance"
  let topologyGeneration ← getId
  let numaDistance ← getU32
  let pcieHops ← getU32
  let sharesPcieRoot ← getBool
  let nicDistance ← getU32
  let storageDistance ← getU32
  let topologyGroup ← getString
  let localityProvenance ← getEnum "invalid provenance"
  let planGeneration ← getId
  let estimatedCost ← getDouble
  let derivedPathCost ← getDouble
  let collectiveCost ← getDouble
  let pathFeasible ← getBool
  let planId ← getString
  let communicationProvenance ← getEnum "invalid provenance"
  let residencyGeneration ← getId
  let modelResident ← getBool
  let adapterResident ← getBool
  let stateLocal ← getBool
  let moveBytes ← getU64
  let moveSource ← getString
  let residencyProvenance ← getEnum "invalid provenance"
  let policyGeneration ← getId
  let memoryMovementCost ← getDouble
  return {
    candidateId, candidateGeneration, sourceId, sourceBootId, workerId, workerBootId
    provenance, bindings
    capacity := {
      generation := capacityGeneration, vramTotal, vramUsed, vramAvailable
      hostMemoryAvailable, pinnedMemoryAvailable, cpuAvailable, storageAvailable
      nicBandwidthAvailable, contiguousMemory, provenance := capacityProvenance }
    health := {
      generation := healthGeneration, ready, healthScore, degradationReason
      provenance := healthProvenance }
    reservation := {
      generation := reservationGeneration, protectedResource, reservedBytes, reservationId
      provenance := reservationProvenance }
    congestion := {
      generation := congestionGeneration, congestion, residualBandwidth, bandwidthNominal
      bottleneck, provenance := congestionProvenance }
    locality := {
      topologyGeneration, numaDistance, pcieHops, sharesPcieRoot, nicDistance
      storageDistance, topologyGroup, provenance := localityProvenance }
    communication := {
      planGeneration, estimatedCost, derivedPathCost, collectiveCost, pathFeasible, planId
      provenance := communicationProvenance }
    residency := {
      residencyGeneration, modelResident, adapterResident, stateLocal, moveBytes
      moveSource, provenance := residencyProvenance }
    policyGeneration, memoryMovementCost }

/-- What a reader accepts of a candidate: its bindings and its strings are within bounds. -/
structure Candidate.Encodable (c : Candidate) : Prop where
  bindings : c.bindings.length ≤ maxRecords ∧
    ∀ b ∈ c.bindings, b.pcieRoot.length ≤ maxString
  degradationReason : c.health.degradationReason.length ≤ maxString
  reservationId : c.reservation.reservationId.length ≤ maxString
  bottleneck : c.congestion.bottleneck.length ≤ maxString
  topologyGroup : c.locality.topologyGroup.length ≤ maxString
  planId : c.communication.planId.length ≤ maxString
  moveSource : c.residency.moveSource.length ≤ maxString

/-- A candidate is read back in full. -/
theorem reads_decodeCandidateRecord {c : Candidate} (h : c.Encodable) :
    decodeCandidateRecord.Reads (encodeCandidateRecord c) c := by
  have hbindings := reads_getList h.bindings.1 fun b hb => reads_decBinding (h.bindings.2 b hb)
  exact .field (reads_getId _) <| .field (reads_getId _) <| .field (reads_getId _) <|
    .field (reads_getId _) <| .field (reads_getId _) <| .field (reads_getId _) <|
    .field (reads_getEnum (by decide) _ _) <| .field hbindings <|
    -- capacity
    .field (reads_getId _) <| .field (reads_getU64 _) <| .field (reads_getU64 _) <|
    .field (reads_getU64 _) <| .field (reads_getU64 _) <| .field (reads_getU64 _) <|
    .field (reads_getU32 _) <| .field (reads_getU64 _) <| .field (reads_getU64 _) <|
    .field (reads_getBool _) <| .field (reads_getEnum (by decide) _ _) <|
    -- health
    .field (reads_getId _) <| .field (reads_getBool _) <| .field (reads_getDouble _) <|
    .field (reads_getString h.degradationReason) <| .field (reads_getEnum (by decide) _ _) <|
    -- reservation
    .field (reads_getId _) <| .field (reads_getBool _) <| .field (reads_getU64 _) <|
    .field (reads_getString h.reservationId) <| .field (reads_getEnum (by decide) _ _) <|
    -- congestion
    .field (reads_getId _) <| .field (reads_getDouble _) <| .field (reads_getDouble _) <|
    .field (reads_getU64 _) <| .field (reads_getString h.bottleneck) <|
    .field (reads_getEnum (by decide) _ _) <|
    -- locality
    .field (reads_getId _) <| .field (reads_getU32 _) <| .field (reads_getU32 _) <|
    .field (reads_getBool _) <| .field (reads_getU32 _) <| .field (reads_getU32 _) <|
    .field (reads_getString h.topologyGroup) <| .field (reads_getEnum (by decide) _ _) <|
    -- communication
    .field (reads_getId _) <| .field (reads_getDouble _) <| .field (reads_getDouble _) <|
    .field (reads_getDouble _) <| .field (reads_getBool _) <|
    .field (reads_getString h.planId) <| .field (reads_getEnum (by decide) _ _) <|
    -- residency
    .field (reads_getId _) <| .field (reads_getBool _) <| .field (reads_getBool _) <|
    .field (reads_getBool _) <| .field (reads_getU64 _) <|
    .field (reads_getString h.moveSource) <| .field (reads_getEnum (by decide) _ _) <|
    .field (reads_getId _) <| .field (reads_getDouble _) <| reads_pure c

/-- A candidate within the reader's bounds comes back from its record, whatever follows the
record, and nothing but the record is taken. -/
theorem decodeCandidateRecord_encodeCandidateRecord {c : Candidate} (h : c.Encodable)
    (t : Bytes) : decodeCandidateRecord (encodeCandidateRecord c ++ t) = .ok (c, t) :=
  reads_decodeCandidateRecord h t

/-- A candidate with a device comes back. -/
theorem decodeCandidateRecord_sample :
    decodeCandidateRecord (encodeCandidateRecord
      { Sample.candidate ⟨1⟩ ⟨2⟩ with bindings := [Sample.binding] } ++ [1, 2]) =
      .ok ({ Sample.candidate ⟨1⟩ ⟨2⟩ with bindings := [Sample.binding] }, [1, 2]) :=
  decodeCandidateRecord_encodeCandidateRecord
    ⟨by decide +kernel, by decide, by decide, by decide, by decide, by decide, by decide⟩
    [1, 2]

end FabricScheduler
