import Mathlib.Algebra.GroupWithZero.Nat
import Mathlib.Data.Finset.Card
import FabricScheduler.Persistence.Acceptance

/-!
# What is saved and what of it is loaded

`persist_save` writes whatever it is given. Here the states whose file `persist_load`
accepts are described by the state alone: the number of bytes of each record is counted,
and the conditions of the loader are collected in one structure.
-/

namespace FabricScheduler

open Decoder

@[simp] theorem length_putU8 (v : UInt8) : (putU8 v).length = 1 := rfl

@[simp] theorem length_putU16 (v : UInt16) : (putU16 v).length = 2 := length_littleEndian ..

@[simp] theorem length_putI32 (v : Int32) : (putI32 v).length = 4 := length_putU32 _

@[simp] theorem length_putDouble (d : Double) : (putDouble d).length = 8 := length_putU64 _

@[simp] theorem length_putBool (b : Bool) : (putBool b).length = 1 := rfl

@[simp] theorem length_putEnum {α : Type} [Enumeration α] [DecidableEq α] (a : α) :
    (putEnum a).length = 1 := rfl

@[simp] theorem length_putString (s : Bytes) : (putString s).length = 4 + s.length := by
  rw [putString, List.length_append, putCount, length_putU32]

@[simp] theorem length_putList {α : Type} (enc : α → Bytes) (l : List α) :
    (putList enc l).length = 4 + (l.map fun a => (enc a).length).sum := by
  rw [putList, List.length_append, putCount, length_putU32, List.length_flatMap]

/-- The number of bytes of a demand. -/
def DemandProfile.recordSize (d : DemandProfile) : Nat :=
  204 + d.residency.modelPath.length + d.residency.adapterPath.length +
    d.residency.statePath.length + d.fallbackLocalities.length

/-- The number of bytes of a request. -/
def SchedulingRequest.recordSize (r : SchedulingRequest) : Nat := 48 + r.demand.recordSize

/-- The number of bytes of a device binding. -/
def DeviceBinding.recordSize (b : DeviceBinding) : Nat := 131 + b.pcieRoot.length

/-- The number of bytes of a factor. -/
def RankFactor.recordSize (f : RankFactor Double) : Nat := 23 + f.description.length

/-- The number of bytes of a rejected alternative. -/
def RejectedAlternative.recordSize (r : RejectedAlternative) : Nat := 21 + r.reason.length

/-- The number of bytes of a plan. -/
def PlacementPlan.recordSize (p : PlacementPlan) : Nat :=
  231 + 8 * p.fallbackCandidates.length + (p.bindings.map fun b => b.recordSize).sum +
    26 * p.claims.length + p.communicationPlanId.length + p.movementSource.length +
    (p.selectedFactors.map fun f => f.recordSize).sum +
    (p.rejectedAlternatives.map fun r => r.recordSize).sum +
    9 * p.stateHistory.length + p.supersessionReason.length

/-- The number of bytes of a payload. -/
def Persisted.payloadSize (p : Persisted) : Nat :=
  68 + (p.requests.map fun r => r.recordSize).sum +
    (p.plans.map fun q => q.recordSize).sum + 48 * p.candidateIdentities.length +
    (p.supersessionHistory.map fun reason => 4 + reason.length).sum +
    8 * p.cancelledRequests.card

@[simp] theorem length_encDemand (d : DemandProfile) : (encDemand d).length = d.recordSize := by
  simp only [encDemand, DemandProfile.recordSize, List.flatten_cons, List.flatten_nil,
    List.length_append, List.length_nil, length_putId, length_putU32, length_putU64,
    length_putI32, length_putDouble, length_putBool, length_putEnum, length_putString,
    length_putList, List.map_const', List.sum_replicate_nat]
  omega

@[simp] theorem length_encRequest (r : SchedulingRequest) :
    (encRequest r).length = r.recordSize := by
  simp only [encRequest, SchedulingRequest.recordSize, List.flatten_cons, List.flatten_nil,
    List.length_append, List.length_nil, length_putId, length_putU64, length_encDemand]
  omega

@[simp] theorem length_encBinding (b : DeviceBinding) : (encBinding b).length = b.recordSize := by
  simp only [encBinding, DeviceBinding.recordSize, List.flatten_cons, List.flatten_nil,
    List.length_append, List.length_nil, length_putId, length_putString, length_putBool,
    length_putEnum, length_putI32]
  omega

@[simp] theorem length_encFactor (f : RankFactor Double) :
    (encFactor f).length = f.recordSize := by
  simp only [encFactor, RankFactor.recordSize, List.flatten_cons, List.flatten_nil,
    List.length_append, List.length_nil, length_putU16, length_putDouble, length_putEnum,
    length_putString]
  omega

@[simp] theorem length_encRejected (r : RejectedAlternative) :
    (encRejected r).length = r.recordSize := by
  simp only [encRejected, RejectedAlternative.recordSize, List.flatten_cons, List.flatten_nil,
    List.length_append, List.length_nil, length_putId, length_putEnum, length_putString]
  omega

@[simp] theorem length_encPlan (p : PlacementPlan) : (encPlan p).length = p.recordSize := by
  simp only [encPlan, encClaim, encFingerprint, encHistory, PlacementPlan.recordSize,
    List.flatten_cons, List.flatten_nil, List.length_append, List.length_nil, length_putId,
    length_putU64, length_putBool, length_putEnum, length_putString, length_putList,
    length_encBinding, length_encFactor, length_encRejected, List.map_const',
    List.sum_replicate_nat]
  omega

theorem length_encPayload {p : Persisted} {cancelled : List SchedulingRequestId}
    (hnodup : cancelled.Nodup) (hcancelled : cancelled.toFinset = p.cancelledRequests) :
    (encPayload cancelled p).length = p.payloadSize := by
  have hcard : p.cancelledRequests.card = cancelled.length := by
    rw [← hcancelled, List.toFinset_card_of_nodup hnodup]
  simp only [encPayload, encCandidateId, Persisted.payloadSize, hcard, List.flatten_cons,
    List.flatten_nil, List.length_append, List.length_nil, length_putId, length_putU64,
    length_putString, length_putList, length_encRequest, length_encPlan, List.map_const',
    List.sum_replicate_nat]
  omega

/-- The states whose file is loaded: what the loader demands of the records one by one, what
it demands of them together, and its bounds on lists, strings and the payload. -/
structure Persisted.Storable (p : Persisted) : Prop where
  wellFormed : p.WellFormed
  selected : ∀ q ∈ p.plans, ∃ c ∈ p.candidateIdentities, c.candidateId = q.selectedCandidate
  evident : ∀ q ∈ p.plans, q.Evident
  requests : p.requests.length ≤ maxRecords ∧ ∀ r ∈ p.requests, r.demand.StringsBounded
  plans : p.plans.length ≤ maxRecords ∧ ∀ q ∈ p.plans, q.Encodable
  candidateIdentities : p.candidateIdentities.length ≤ maxRecords
  supersessionHistory : p.supersessionHistory.length ≤ maxRecords ∧
    ∀ reason ∈ p.supersessionHistory, reason.length ≤ maxString
  cancelledRequests : p.cancelledRequests.card ≤ maxRecords
  payloadSize : p.payloadSize ≤ maxPayload

section Saved

variable {p : Persisted} {cancelled : List SchedulingRequestId}

theorem Persisted.storable_iff (hnodup : cancelled.Nodup)
    (hcancelled : cancelled.toFinset = p.cancelledRequests) :
    p.Storable ↔ p.WellFormed ∧ p.Bounded cancelled ∧
      checkPlans p.candidateIdentities p.plans = .ok () := by
  have hsize := length_encPayload hnodup hcancelled
  have hcard : p.cancelledRequests.card = cancelled.length := by
    rw [← hcancelled, List.toFinset_card_of_nodup hnodup]
  rw [checkPlans_ok_iff]
  constructor
  · intro h
    refine ⟨h.wellFormed, ⟨h.requests, h.plans, h.candidateIdentities,
      h.supersessionHistory, hcard ▸ h.cancelledRequests, hsize ▸ h.payloadSize⟩, ?_⟩
    exact fun q hq => checkPlan_ok_iff.mpr ⟨h.selected q hq, h.evident q hq⟩
  · rintro ⟨hw, hb, hchecked⟩
    exact ⟨hw, fun q hq => (checkPlan_ok_iff.mp (hchecked q hq)).1,
      fun q hq => (checkPlan_ok_iff.mp (hchecked q hq)).2, hb.requests, hb.plans,
      hb.candidateIdentities, hb.supersessionHistory, hcard ▸ hb.cancelledRequests,
      hsize ▸ hb.payload⟩

/-- A file that was saved is loaded exactly when the state was one the loader accepts. The
set of cancelled requests may be iterated in any order, and a payload is shorter than
2 ^ 64 bytes. -/
theorem persistLoad_persistSave_ok_iff (hnodup : cancelled.Nodup)
    (hcancelled : cancelled.toFinset = p.cancelledRequests) (hlen : p.payloadSize < 2 ^ 64) :
    (∃ st, persistLoad (persistSave cancelled p) = .ok st) ↔ p.Storable := by
  rw [← length_encPayload hnodup hcancelled] at hlen
  rw [Persisted.storable_iff hnodup hcancelled]
  constructor
  · rintro ⟨st, hload⟩
    have hframe := readsWhen_loadFrame hlen ((persistSave cancelled p).length + 1)
    have haccepted : ∃ x, loadFrame (persistSave cancelled p) = .ok x := by
      rw [persistLoad] at hload
      split at hload
      · rename_i hframe
        exact ⟨_, hframe⟩
      · cases hload
    obtain ⟨hversion, hpayload⟩ := (hframe.run_iff (Nat.lt_succ_self _)).mp haccepted
    have hrecords := readsWhen_loadRecords hversion hpayload hcancelled
    have hread : ∃ x, loadRecords p.formatVersion (encPayload cancelled p) = .ok x := by
      rw [persistLoad, (reads_loadFrame hversion hpayload).run] at hload
      obtain ⟨state, rest, hstate, _⟩ := bind_ok.mp (whole_ok.mp hload)
      exact ⟨_, hstate⟩
    obtain ⟨hw, hb⟩ := (hrecords.run_iff (hpayload.trans_lt (by decide))).mp hread
    refine ⟨hw, hb, ?_⟩
    rw [persistLoad_persistSave hw hb hcancelled] at hload
    cases hchecked : checkPlans p.candidateIdentities p.plans with
    | ok u => rfl
    | error e =>
        rw [hchecked] at hload
        cases hload
  · rintro ⟨hw, hb, hchecked⟩
    refine ⟨p.withoutTopology, ?_⟩
    rw [persistLoad_persistSave hw hb hcancelled, hchecked]
    rfl

end Saved

namespace Sample

/-- A state with one plan on the given candidates. -/
def persisted (identities : List CandidateIdentity) : Persisted where
  formatVersion := 1
  epoch := ⟨1⟩
  authority := ⟨1⟩
  nextPlanId := 2
  nextSubmitOrdinal := 1
  nextEventOrdinal := 3
  ingestWatermark := 0
  requests := [request ⟨1⟩]
  plans := [plan]
  candidateIdentities := identities
  supersessionHistory := []
  cancelledRequests := {⟨7⟩}

end Sample

/-- The file of a plan on a known candidate is loaded, so its state is one the loader
accepts. -/
theorem persistLoad_persistSave_ok_known :
    (Sample.persisted [⟨⟨1⟩, ⟨1⟩, ⟨1⟩, ⟨1⟩, ⟨1⟩, ⟨1⟩⟩]).Storable :=
  (@persistLoad_persistSave_ok_iff (Sample.persisted [⟨⟨1⟩, ⟨1⟩, ⟨1⟩, ⟨1⟩, ⟨1⟩, ⟨1⟩⟩]) [⟨7⟩]
    (List.nodup_singleton _) rfl (by decide +kernel)).mp
    ⟨Sample.persisted [⟨⟨1⟩, ⟨1⟩, ⟨1⟩, ⟨1⟩, ⟨1⟩, ⟨1⟩⟩], by decide +kernel⟩

/-- A plan whose candidate is not among the identities is written, and its file is refused. -/
theorem persistLoad_persistSave_unknown :
    persistLoad (persistSave [⟨7⟩] (Sample.persisted [])) =
      .error ⟨.corruption, text "selected candidate not in candidate set"⟩ := by
  decide +kernel

end FabricScheduler
