import FabricScheduler.Library.Digest
import FabricScheduler.Persistence.RoundTrip

/-!
# The file of durable state

A file is a header, a payload of records and the digest of the payload. Loading checks the
header, the digest and every record, then what the records say about each other, and last
that nothing is left of the payload.
-/

namespace FabricScheduler

open Decoder

/-- `kPersistenceMagic`. -/
def persistenceMagic : UInt32 := 0x4642

/-- `kPersistenceFormatVersion`. -/
def persistenceFormatVersion : UInt32 := 1

/-- `kPersistenceFlags`. -/
def persistenceFlags : UInt8 := 0

/-- The longest payload a file holds; `kMaxPayload`. -/
def maxPayload : Nat := 2 ^ 30

/-- `fnv1a64_digest`. -/
def fnv1a64Digest (data : Bytes) : UInt64 :=
  data.foldl (fun h b => (h ^^^ b.toUInt64) * 1099511628211) 14695981039346656037

/-- `enc_candidate_id`. -/
def encCandidateId (c : CandidateIdentity) : Bytes :=
  [putId c.candidateId, putId c.candidateGeneration, putId c.sourceId, putId c.sourceBootId,
    putId c.workerId, putId c.workerBootId].flatten

/-- `dec_candidate_id`. -/
def decCandidateId : ByteReader CandidateIdentity := do
  let candidateId ← getId
  let candidateGeneration ← getId
  let sourceId ← getId
  let sourceBootId ← getId
  let workerId ← getId
  let workerBootId ← getId
  return { candidateId, candidateGeneration, sourceId, sourceBootId, workerId, workerBootId }

/-- The payload of a file. The cancelled requests are written in the order in which their
hash set is iterated. -/
def encPayload (cancelled : List SchedulingRequestId) (state : Persisted) : Bytes :=
  [putId state.epoch, putId state.authority, putU64 state.nextPlanId,
    putU64 state.nextSubmitOrdinal, putU64 state.nextEventOrdinal,
    putU64 state.ingestWatermark, putList encRequest state.requests,
    putList encPlan state.plans, putList encCandidateId state.candidateIdentities,
    putList putString state.supersessionHistory, putList putId cancelled].flatten

/-- `persist_save`. -/
def persistSave (cancelled : List SchedulingRequestId) (state : Persisted) : Bytes :=
  [putU32 persistenceMagic, putU32 state.formatVersion, putU8 persistenceFlags,
    putU64 (UInt64.ofNat (encPayload cancelled state).length), encPayload cancelled state,
    putU64 (fnv1a64Digest (encPayload cancelled state))].flatten

/-- The header of a file: its format version and the length of its payload. -/
def loadHeader : ByteReader (UInt32 × UInt64) := do
  let magic ← getU32
  ensure (magic = persistenceMagic) ⟨.corruption, text "bad magic"⟩
  let version ← getU32
  ensure (version ≠ 0 ∧ version ≤ persistenceFormatVersion)
    ⟨.unsupportedVersion, text "unsupported format version"⟩
  let _flags ← getU8
  let payLen ← getU64
  ensure (payLen.toNat ≤ maxPayload) ⟨.oversizedFrame, text "payload size exceeds bound"⟩
  return (version, payLen)

/-- The format version and the payload of a file whose digest is right. -/
def loadFrame : ByteReader (UInt32 × Bytes) := do
  let hdr ← exactly ⟨.truncation, text "header truncated"⟩ 17
  let ((version, payLen), _) ← check (loadHeader hdr)
  let payload ← exactly ⟨.truncation, text "payload truncated"⟩ payLen.toNat
  let foot ← exactly ⟨.truncation, text "checksum truncated"⟩ 8
  let (stored, _) ← check (getU64 foot)
  ensure (stored = fnv1a64Digest payload) ⟨.checksumMismatch, text "checksum mismatch"⟩
  return (version, payload)

/-- A list of records with distinct ids behind its checked length. -/
def getDistinct {α κ : Type} [DecidableEq κ] (key : α → κ) (duplicate : String)
    (dec : ByteReader α) : ByteReader (List α) := do
  let n ← readCheckedLen
  distinct key ⟨.corruption, text duplicate⟩ dec n []

/-- The largest plan id of a list, zero when there is none. -/
def maxPlan (plans : List PlacementPlan) : UInt64 :=
  plans.foldl (fun m plan => if m < plan.planId.value then plan.planId.value else m) 0

/-- The records of a payload. -/
def loadRecords (formatVersion : UInt32) : ByteReader Persisted := do
  let epoch ← getId
  let authority ← getId
  let nextPlanId ← getU64
  let nextSubmitOrdinal ← getU64
  let nextEventOrdinal ← getU64
  let ingestWatermark ← getU64
  ensure (epoch.isValid = true) ⟨.corruption, text "invalid coordinator epoch"⟩
  let requests ← getDistinct SchedulingRequest.requestId "duplicate request id" decRequest
  let plans ← getDistinct PlacementPlan.planId "duplicate plan id" decPlan
  ensure (maxPlan plans < nextPlanId) ⟨.corruption, text "plan id generation regression"⟩
  let candidateIdentities ←
    getDistinct CandidateIdentity.candidateId "duplicate candidate id" decCandidateId
  let supersessionHistory ← getList getString
  let cancelled ← getList getId
  return { formatVersion, epoch, authority, nextPlanId, nextSubmitOrdinal, nextEventOrdinal,
           ingestWatermark, requests, plans, candidateIdentities, supersessionHistory,
           cancelledRequests := cancelled.toFinset }

/-- The cross-record integrity of a plan: its candidate is a known identity, and a
commitment is backed by evidence. -/
def checkPlan (identities : List CandidateIdentity) (plan : PlacementPlan) :
    Except FabricError Unit :=
  if ∃ c ∈ identities, c.candidateId = plan.selectedCandidate then
    if plan.state.isAuthoritative = true ∧ plan.hasCommitmentEvidence = false then
      fail .corruption "committed placement without commitment evidence"
    else .ok ()
  else fail .corruption "selected candidate not in candidate set"

/-- The cross-record integrity of all plans, in their order. -/
def checkPlans (identities : List CandidateIdentity) : List PlacementPlan →
    Except FabricError Unit
  | [] => .ok ()
  | plan :: rest => do
      checkPlan identities plan
      checkPlans identities rest

/-- The records of a payload, checked against each other. -/
def loadPayload (formatVersion : UInt32) : ByteReader Persisted := do
  let state ← loadRecords formatVersion
  check (checkPlans state.candidateIdentities state.plans)
  return state

/-- `persist_load`; whatever follows the digest is not read. -/
def persistLoad (input : Bytes) : Except FabricError Persisted :=
  match loadFrame input with
  | .ok ((version, payload), _) =>
      whole ⟨.corruption, text "trailing garbage in record"⟩ (loadPayload version) payload
  | .error e => .error e

namespace Persisted

/-- Without the hard topology requirements of its requests. -/
def withoutTopology (p : Persisted) : Persisted :=
  { p with requests := p.requests.map SchedulingRequest.withoutTopology }

/-- The strings, the lists and the payload are within the bounds of the loader, and the
factor values are finite. -/
structure Bounded (cancelled : List SchedulingRequestId) (p : Persisted) : Prop where
  requests : p.requests.length ≤ maxRecords ∧ ∀ r ∈ p.requests, r.demand.StringsBounded
  plans : p.plans.length ≤ maxRecords ∧ ∀ q ∈ p.plans, q.Encodable
  candidateIdentities : p.candidateIdentities.length ≤ maxRecords
  supersessionHistory : p.supersessionHistory.length ≤ maxRecords ∧
    ∀ reason ∈ p.supersessionHistory, reason.length ≤ maxString
  cancelledRequests : cancelled.length ≤ maxRecords
  payload : (encPayload cancelled p).length ≤ maxPayload

instance (cancelled : List SchedulingRequestId) (p : Persisted) :
    Decidable (p.Bounded cancelled) :=
  decidable_of_iff ((p.requests.length ≤ maxRecords ∧
      ∀ r ∈ p.requests, r.demand.StringsBounded) ∧
    (p.plans.length ≤ maxRecords ∧ ∀ q ∈ p.plans, q.Encodable) ∧
    p.candidateIdentities.length ≤ maxRecords ∧
    (p.supersessionHistory.length ≤ maxRecords ∧
      ∀ reason ∈ p.supersessionHistory, reason.length ≤ maxString) ∧
    cancelled.length ≤ maxRecords ∧ (encPayload cancelled p).length ≤ maxPayload)
    ⟨fun ⟨h₁, h₂, h₃, h₄, h₅, h₆⟩ => ⟨h₁, h₂, h₃, h₄, h₅, h₆⟩,
      fun ⟨h₁, h₂, h₃, h₄, h₅, h₆⟩ => ⟨h₁, h₂, h₃, h₄, h₅, h₆⟩⟩

/-- What the loader demands of the records one by one. -/
structure WellFormed (p : Persisted) : Prop where
  formatVersion : p.formatVersion = persistenceFormatVersion
  epoch : p.epoch.isValid = true
  requests : (p.requests.map SchedulingRequest.requestId).Nodup
  valid : ∀ r ∈ p.requests, r.demand.validate = .ok ()
  plans : (p.plans.map PlacementPlan.planId).Nodup
  numbered : 0 < p.nextPlanId ∧ ∀ q ∈ p.plans, q.planId.value < p.nextPlanId
  candidateIdentities : (p.candidateIdentities.map CandidateIdentity.candidateId).Nodup

end Persisted

/-- Multiplication by the FNV prime can be undone modulo 2 ^ 64. -/
theorem mul_fnvPrime_injective : Function.Injective fun h : UInt64 => h * 1099511628211 := by
  intro h h' heq
  have hinv : (1099511628211 : UInt64) * 14886173955864302971 = 1 := by decide
  have hmul := congrArg (fun x : UInt64 => x * 14886173955864302971) heq
  simpa only [UInt64.mul_assoc, hinv, UInt64.mul_one] using hmul

/-- The digests of two strings that differ in exactly one byte differ. -/
theorem fnv1a64Digest_ne {i : Nat} {xs ys : Bytes} (h : DiffersAt i xs ys) :
    fnv1a64Digest xs ≠ fnv1a64Digest ys := by
  refine foldl_ne_of_differsAt ?_ ?_ h _
  · intro b s t heq
    exact (UInt64.xor_left_inj b.toUInt64).mp (mul_fnvPrime_injective heq)
  · intro s a b heq
    have hxor := (UInt64.xor_right_inj s).mp (mul_fnvPrime_injective heq)
    have hnat := congrArg UInt64.toNat hxor
    simp only [UInt8.toNat_toUInt64] at hnat
    exact UInt8.toNat_inj.mp hnat

theorem reads_decCandidateId (c : CandidateIdentity) :
    decCandidateId.Reads (encCandidateId c) c :=
  .field (reads_getId _) <| .field (reads_getId _) <| .field (reads_getId _) <|
  .field (reads_getId _) <| .field (reads_getId _) <| .field (reads_getId _) <| reads_pure c

/-- A list of records is accepted when it is within the bound, the ids are distinct and each
record is accepted. -/
theorem readsWhen_getDistinct {α κ : Type} [DecidableEq κ] (key : α → κ) (duplicate : String)
    {enc : α → Bytes} {dec : ByteReader α} (f : α → α) {P : α → Prop} {l : List α}
    (h : ∀ a ∈ l, dec.ReadsWhen (2 ^ 32) (P a) (enc a) (f a))
    (hne : ∀ a ∈ l, 0 < (enc a).length) :
    (getDistinct key duplicate dec).ReadsWhen (2 ^ 32)
      (l.length ≤ maxRecords ∧ (l.map fun a => key (f a)).Nodup ∧ ∀ a ∈ l, P a)
      (putList enc l) (l.map f) := by
  have hdistinct : (distinct key ⟨.corruption, text duplicate⟩ dec l.length []).ReadsWhen
      (2 ^ 32) ((l.map fun a => key (f a)).Nodup ∧ ∀ a ∈ l, P a) (l.flatMap enc) (l.map f) := by
    refine (readsWhen_distinct f h).congr ⟨?_, ?_⟩
    · exact fun ⟨hkeys, _, hall⟩ => ⟨hkeys, hall⟩
    · exact fun ⟨hkeys, hall⟩ => ⟨hkeys, fun _ _ => List.not_mem_nil, hall⟩
  constructor
  · intro hP
    exact (reads_readCheckedLen hP.1).bind (hdistinct.reads hP.2)
  · intro hlen
    have hflat := length_le_length_flatMap hne
    have hcount : l.length < 2 ^ 32 := by
      rw [putList, List.length_append] at hlen
      omega
    exact ((readsWhen_readCheckedLen hcount).bind fun _ => hdistinct).only hlen

/-- The largest plan id is below a bound exactly when zero and every plan id are. -/
theorem maxPlan_lt_iff {plans : List PlacementPlan} {n : UInt64} :
    maxPlan plans < n ↔ 0 < n ∧ ∀ q ∈ plans, q.planId.value < n := by
  have key : ∀ (plans : List PlacementPlan) (m : UInt64),
      plans.foldl (fun m plan => if m < plan.planId.value then plan.planId.value else m) m < n ↔
        m < n ∧ ∀ q ∈ plans, q.planId.value < n := by
    intro plans
    induction plans with
    | nil => exact fun m => ⟨fun h => ⟨h, fun q hq => absurd hq List.not_mem_nil⟩, And.left⟩
    | cons q rest ih =>
        intro m
        have hmax : (if m < q.planId.value then q.planId.value else m) < n ↔
            m < n ∧ q.planId.value < n := by
          split <;> rename_i hlt <;> rw [UInt64.lt_iff_toNat_lt] at * <;>
            rw [UInt64.lt_iff_toNat_lt] <;> omega
        rw [List.foldl_cons, ih, hmax, List.forall_mem_cons, and_assoc]
  exact key plans 0

/-- The plans pass the cross-record checks exactly when each of them does. -/
theorem checkPlans_ok_iff {identities : List CandidateIdentity} {plans : List PlacementPlan} :
    checkPlans identities plans = .ok () ↔ ∀ q ∈ plans, checkPlan identities q = .ok () := by
  induction plans with
  | nil => exact ⟨fun _ q hq => (List.not_mem_nil hq).elim, fun _ => rfl⟩
  | cons q rest ih =>
      rw [List.forall_mem_cons, ← ih, checkPlans]
      cases checkPlan identities q with
      | ok u => exact ⟨fun h => ⟨rfl, h⟩, And.right⟩
      | error e =>
          constructor
          · intro h
            cases h
          · intro h
            cases h.1

/-- A plan passes exactly when its candidate is known and its commitment is evident. -/
theorem checkPlan_ok_iff {identities : List CandidateIdentity} {q : PlacementPlan} :
    checkPlan identities q = .ok () ↔
      (∃ c ∈ identities, c.candidateId = q.selectedCandidate) ∧ q.Evident := by
  have hevident : q.Evident ↔
      ¬(q.state.isAuthoritative = true ∧ q.hasCommitmentEvidence = false) := by
    rw [PlacementPlan.Evident, not_and, Bool.not_eq_false]
  rw [checkPlan, hevident]
  split
  · rename_i hknown
    split
    · rename_i hmissing
      exact ⟨fun h => (by cases h), fun h => absurd hmissing h.2⟩
    · rename_i hevident
      exact ⟨fun _ => ⟨hknown, hevident⟩, fun _ => rfl⟩
  · rename_i hunknown
    exact ⟨fun h => (by cases h), fun h => absurd h.1 hunknown⟩

section Saved

variable {p : Persisted} {cancelled : List SchedulingRequestId}

/-- The header, the payload and the digest are accepted when the format version is the
supported one and the payload is within its bound, and are then read back. -/
theorem readsWhen_loadFrame (hlen : (encPayload cancelled p).length < 2 ^ 64) (bound : Nat) :
    loadFrame.ReadsWhen bound (p.formatVersion = persistenceFormatVersion ∧
        (encPayload cancelled p).length ≤ maxPayload)
      (persistSave cancelled p) (p.formatVersion, encPayload cancelled p) := by
  let header := [putU32 persistenceMagic, putU32 p.formatVersion, putU8 persistenceFlags,
    putU64 (UInt64.ofNat (encPayload cancelled p).length)].flatten
  let footer := putU64 (fnv1a64Digest (encPayload cancelled p))
  have hpay : (UInt64.ofNat (encPayload cancelled p).length).toNat =
      (encPayload cancelled p).length := by
    rw [UInt64.toNat_ofNat']
    exact Nat.mod_eq_of_lt hlen
  have hversion : p.formatVersion ≠ 0 ∧ p.formatVersion ≤ persistenceFormatVersion ↔
      p.formatVersion = persistenceFormatVersion := by
    rw [← UInt32.toNat_inj, UInt32.le_iff_toNat_le, Ne, ← UInt32.toNat_inj]
    change ¬_ = 0 ∧ _ ≤ 1 ↔ _ = 1
    omega
  have hheader : loadHeader.ReadsWhen (header.length + 1)
      (p.formatVersion = persistenceFormatVersion ∧
        (encPayload cancelled p).length ≤ maxPayload) header
      (p.formatVersion, UInt64.ofNat (encPayload cancelled p).length) := by
    have hall : loadHeader.ReadsWhen (header.length + 1) _ header
        (p.formatVersion, UInt64.ofNat (encPayload cancelled p).length) :=
      .field (reads_getU32 _) <| .test (reads_ensure rfl _).when fun _ =>
      .field (reads_getU32 _) <| .test ((readsWhen_ensure _).congr hversion) fun _ =>
      .field (reads_getU8 _) <| .field (reads_getU64 _) <|
      .test (readsWhen_ensure _) fun _ => readsWhen_pure _
    rw [true_and, and_true, hpay] at hall
    exact hall
  have hheaderlen : header.length = 17 := by
    simp only [header, putU32, putU8, putU64, List.flatten_cons, List.flatten_nil,
      List.length_append, length_littleEndian, List.length_singleton, List.length_nil]
  have hfile : persistSave cancelled p =
      header ++ (encPayload cancelled p ++ footer) := by
    simp only [persistSave, header, footer, List.flatten_cons, List.flatten_nil,
      List.append_assoc, List.append_nil]
  have hcheck : (check (loadHeader header)).ReadsWhen bound
      (p.formatVersion = persistenceFormatVersion ∧
        (encPayload cancelled p).length ≤ maxPayload) []
      ((p.formatVersion, UInt64.ofNat (encPayload cancelled p).length), []) :=
    readsWhen_check (fun hP => (hheader.reads hP).run) fun b hb =>
      (hheader.run_iff (Nat.lt_succ_self _)).mp ⟨b, hb⟩
  rw [hfile]
  refine ((reads_exactly _ header hheaderlen).when.bind fun _ => hcheck.test fun _ => ?_).congr
    (iff_of_eq ((true_and _).trans (and_true _)))
  refine Reads.when ?_
  refine (reads_exactly _ (encPayload cancelled p) hpay.symm).bind ?_
  refine (reads_exactly _ footer (length_littleEndian ..)).last ?_
  refine .silent (reads_check (reads_getU64 _).run) ?_
  exact .silent (reads_ensure rfl _) (reads_pure _)

/-- The header, the payload and the digest are read back. -/
theorem reads_loadFrame (hversion : p.formatVersion = persistenceFormatVersion)
    (hlen : (encPayload cancelled p).length ≤ maxPayload) :
    loadFrame.Reads (persistSave cancelled p) (p.formatVersion, encPayload cancelled p) :=
  (readsWhen_loadFrame (hlen.trans_lt (by decide)) 0).reads ⟨hversion, hlen⟩

/-- The records of a payload within its bound are accepted when they are well formed and
bounded, and are then read back. -/
theorem readsWhen_loadRecords (hversion : p.formatVersion = persistenceFormatVersion)
    (hlen : (encPayload cancelled p).length ≤ maxPayload)
    (hcancelled : cancelled.toFinset = p.cancelledRequests) :
    (loadRecords p.formatVersion).ReadsWhen (2 ^ 32) (p.WellFormed ∧ p.Bounded cancelled)
      (encPayload cancelled p) p.withoutTopology := by
  have hrequests := readsWhen_getDistinct SchedulingRequest.requestId "duplicate request id"
    SchedulingRequest.withoutTopology (fun r (_ : r ∈ p.requests) => readsWhen_decRequest r)
    fun r _ => length_flatten_pos (by simp)
  have hplans := readsWhen_getDistinct PlacementPlan.planId "duplicate plan id" id
    (fun q (_ : q ∈ p.plans) => readsWhen_decPlan q) fun q _ => length_flatten_pos (by simp)
  have hidentities := readsWhen_getDistinct CandidateIdentity.candidateId
    "duplicate candidate id" id
    (fun c (_ : c ∈ p.candidateIdentities) => (reads_decCandidateId c).when)
    fun c _ => length_flatten_pos (by simp)
  have hhistory := readsWhen_getList
    (fun s (_ : s ∈ p.supersessionHistory) => readsWhen_getString s) fun s _ => by
      rw [putString, List.length_append, putCount, length_putU32]
      omega
  have hids := readsWhen_getList (fun k (_ : k ∈ cancelled) => (reads_getId k).when)
    fun k _ => by simp
  rw [List.map_id] at hplans hidentities
  rw [Persisted.withoutTopology, ← hcancelled]
  have hall : (loadRecords p.formatVersion).ReadsWhen (2 ^ 32) _ (encPayload cancelled p)
      { p with requests := p.requests.map SchedulingRequest.withoutTopology
               cancelledRequests := cancelled.toFinset } :=
    .field (reads_getId _) <| .field (reads_getId _) <| .field (reads_getU64 _) <|
    .field (reads_getU64 _) <| .field (reads_getU64 _) <| .field (reads_getU64 _) <|
    .test (readsWhen_ensure _) fun _ => .guarded hrequests fun _ =>
    .guarded hplans fun _ => .test ((readsWhen_ensure _).congr maxPlan_lt_iff) fun _ =>
    .guarded hidentities fun _ => .guarded hhistory fun _ => .guarded hids fun _ =>
    readsWhen_pure _
  refine hall.congr ⟨?_, ?_⟩
  · rintro ⟨hepoch, ⟨hr, hrids, hrs⟩, ⟨hq, hqids, hqs⟩, hnumbered, ⟨hc, hcids, _⟩,
      hreasons, ⟨hcan, _⟩, _⟩
    exact ⟨⟨hversion, hepoch, hrids, fun r hmem => (hrs r hmem).1, hqids, hnumbered, hcids⟩,
      ⟨hr, fun r hmem => (hrs r hmem).2⟩, ⟨hq, hqs⟩, hc, hreasons, hcan, hlen⟩
  · rintro ⟨hw, hb⟩
    exact ⟨hw.epoch, ⟨hb.requests.1, hw.requests,
        fun r hmem => ⟨hw.valid r hmem, hb.requests.2 r hmem⟩⟩,
      ⟨hb.plans.1, hw.plans, hb.plans.2⟩, hw.numbered,
      ⟨hb.candidateIdentities, hw.candidateIdentities, fun _ _ => trivial⟩,
      hb.supersessionHistory, ⟨hb.cancelledRequests, fun _ _ => trivial⟩, trivial⟩

/-- The records are read back. -/
theorem reads_loadRecords (hw : p.WellFormed) (hb : p.Bounded cancelled)
    (hcancelled : cancelled.toFinset = p.cancelledRequests) :
    (loadRecords p.formatVersion).Reads (encPayload cancelled p) p.withoutTopology :=
  (readsWhen_loadRecords hw.formatVersion hb.payload hcancelled).reads ⟨hw, hb⟩

/-- Loading a saved file is checking its plans against its candidates. -/
theorem persistLoad_persistSave (hw : p.WellFormed) (hb : p.Bounded cancelled)
    (hcancelled : cancelled.toFinset = p.cancelledRequests) :
    persistLoad (persistSave cancelled p) =
      (checkPlans p.candidateIdentities p.plans).map fun _ => p.withoutTopology := by
  have hcheck : whole ⟨.corruption, text "trailing garbage in record"⟩
      (loadPayload p.formatVersion) (encPayload cancelled p) =
      (checkPlans p.candidateIdentities p.plans).map fun _ => p.withoutTopology :=
    (reads_loadRecords hw hb hcancelled).whole_check _
      fun state => checkPlans state.candidateIdentities state.plans
  rw [persistLoad, (reads_loadFrame hw.formatVersion hb.payload).run, ← hcheck]

end Saved

end FabricScheduler
