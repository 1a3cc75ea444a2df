import FabricScheduler.Persistence.Acceptance
import FabricScheduler.Persistence.Contract
import FabricScheduler.Persistence.Tampering

/-!
# Saving what was loaded

A reader yields only what the writer can write again within the reader's bounds, and reads at
least as many bytes for it as the writer would write. So what was loaded can be saved, and the
file that is saved loads as the same state, although it may differ from the file that was
loaded.
-/

namespace FabricScheduler

open Decoder

section Fields

variable {α κ : Type} {dec : ByteReader α} {P : α → Prop} {size : α → Nat}

theorem spends_getBytes (k : Nat) :
    Spends 0 (getBytes k) (fun bytes => bytes.length = k) List.length := spends_exactly _ k

theorem spends_getU8 : Spends 0 getU8 (fun _ => True) fun _ => 1 :=
  (spends_getBytes 1).bind fun _ h => spends_pure trivial (by omega)

theorem spends_getU16 : Spends 0 getU16 (fun _ => True) fun _ => 2 :=
  (spends_getBytes 2).bind fun _ h => spends_pure trivial (by omega)

theorem spends_getU32 : Spends 0 getU32 (fun _ => True) fun _ => 4 :=
  (spends_getBytes 4).bind fun _ h => spends_pure trivial (by omega)

theorem spends_getU64 : Spends 0 getU64 (fun _ => True) fun _ => 8 :=
  (spends_getBytes 8).bind fun _ h => spends_pure trivial (by omega)

theorem spends_getI32 : Spends 0 getI32 (fun _ => True) fun _ => 4 :=
  spends_getU32.bind fun _ _ => spends_pure trivial (by omega)

theorem spends_getDouble : Spends 0 getDouble (fun _ => True) fun _ => 8 :=
  spends_getU64.bind fun _ _ => spends_pure trivial (by omega)

theorem spends_getBool : Spends 0 getBool (fun _ => True) fun _ => 1 :=
  spends_getU8.bind fun _ _ => spends_pure trivial (by omega)

theorem spends_getId {name : IdName} :
    Spends 0 (getId : ByteReader (StrongId name)) (fun _ => True) fun _ => 8 :=
  spends_getU64.bind fun _ _ => spends_pure trivial (by omega)

theorem spends_getEnum [Enumeration α] {message : String} :
    Spends 0 (getEnum message : ByteReader α) (fun _ => True) fun _ => 1 := by
  refine spends_getU8.bind fun code _ => spends_known.after.imp (fun _ _ => trivial) fun _ _ => ?_
  omega

theorem spends_getString :
    Spends 0 getString (fun s => s.length ≤ maxString) fun s => 4 + s.length := by
  refine spends_getU32.bind fun len _ => spends_ensure.bind fun _ hle => ?_
  refine (spends_getBytes _).after.imp (fun bytes hlen => hlen ▸ hle) fun bytes _ => ?_
  omega

theorem spends_readCheckedLen : Spends 0 readCheckedLen (fun n => n ≤ maxRecords) fun _ => 4 :=
  spends_getU32.bind fun _ _ => spends_ensure.bind fun _ hle => spends_pure hle (by omega)

theorem spends_getList (h : Spends 0 dec P size) :
    Spends 0 (getList dec) (fun l => l.length ≤ maxRecords ∧ ∀ a ∈ l, P a)
      fun l => 4 + (l.map size).sum := by
  refine spends_readCheckedLen.bind fun n hn => ?_
  refine (spends_many h n).after.imp (fun l hl => ⟨hl.1.trans_le hn, hl.2⟩) fun l _ => ?_
  omega

theorem spends_getDistinct [DecidableEq κ] {key : α → κ} {duplicate : String}
    (h : Spends 0 dec P size) :
    Spends 0 (getDistinct key duplicate dec) (fun l => l.length ≤ maxRecords ∧ ∀ a ∈ l, P a)
      fun l => 4 + (l.map size).sum := by
  refine spends_readCheckedLen.bind fun n hn => ?_
  refine (spends_distinct h n []).after.imp (fun l hl => ⟨hl.1.trans_le hn, hl.2⟩) fun l _ => ?_
  omega

end Fields

section Records

theorem spends_decBinding :
    Spends 0 decBinding (fun b => b.pcieRoot.length ≤ maxString) (fun b => b.recordSize) := by
  iterate 14 refine spends_getId.bind fun _ _ => ?_
  refine spends_getString.bind fun _ hroot => ?_
  refine spends_getBool.bind fun _ _ => spends_getEnum.bind fun _ _ => ?_
  refine spends_getI32.bind fun _ _ => spends_getBool.bind fun _ _ => ?_
  refine spends_getId.bind fun _ _ => spends_pure hroot ?_
  dsimp only [DeviceBinding.recordSize]
  omega

theorem spends_decFactor :
    Spends 0 decFactor (fun f => f.description.length ≤ maxString ∧ f.value.isFinite = true)
      (fun f => f.recordSize) := by
  refine spends_getU16.bind fun _ _ => spends_known.bind fun _ _ => ?_
  refine spends_getDouble.bind fun _ _ => spends_getDouble.bind fun _ _ => ?_
  refine spends_getEnum.bind fun _ _ => spends_getString.bind fun _ hdescription => ?_
  refine spends_ensure.bind fun _ hfinite => spends_pure ⟨hdescription, hfinite⟩ ?_
  dsimp only [RankFactor.recordSize]
  omega

theorem spends_decRejected :
    Spends 0 decRejected (fun r => r.reason.length ≤ maxString)
      (fun r => r.recordSize) := by
  refine spends_getId.bind fun _ _ => spends_getId.bind fun _ _ => ?_
  refine spends_getEnum.bind fun _ _ => spends_getString.bind fun _ hreason => ?_
  refine spends_pure hreason ?_
  dsimp only [RejectedAlternative.recordSize]
  omega

theorem spends_decClaim : Spends 0 decClaim (fun _ => True) fun _ => 26 := by
  refine spends_getId.bind fun _ _ => spends_getId.bind fun _ _ => ?_
  refine spends_getEnum.bind fun _ _ => spends_getU64.bind fun _ _ => ?_
  exact spends_getBool.bind fun _ _ => spends_pure trivial (by omega)

theorem spends_decFingerprint : Spends 0 decFingerprint (fun _ => True) fun _ => 96 := by
  iterate 12 refine spends_getId.bind fun _ _ => ?_
  exact spends_pure trivial (by omega)

theorem spends_decHistory : Spends 0 decHistory (fun _ => True) fun _ => 9 :=
  spends_getEnum.bind fun _ _ => spends_getU64.bind fun _ _ => spends_pure trivial (by omega)

theorem spends_decCandidateId : Spends 0 decCandidateId (fun _ => True) fun _ => 48 := by
  iterate 6 refine spends_getId.bind fun _ _ => ?_
  exact spends_pure trivial (by omega)

/-- A demand that was read is valid, bounded, and pinned to no topology. -/
theorem spends_decDemand :
    Spends 0 decDemand (fun d => d.validate = .ok () ∧ d.StringsBounded ∧ d.withoutTopology = d)
      (fun d => d.recordSize) := by
  iterate 5 refine spends_getId.bind fun _ _ => ?_
  iterate 3 refine spends_getU32.bind fun _ _ => ?_
  refine spends_getU64.bind fun _ _ => spends_getU64.bind fun _ _ => ?_
  refine spends_getBool.bind fun _ _ => spends_getEnum.bind fun _ _ => ?_
  refine spends_getU32.bind fun _ _ => ?_
  iterate 3 refine spends_getU64.bind fun _ _ => ?_
  refine spends_getBool.bind fun _ _ => spends_getU64.bind fun _ _ => ?_
  refine spends_getBool.bind fun _ _ => spends_getEnum.bind fun _ _ => ?_
  refine spends_getU64.bind fun _ _ => ?_
  iterate 3 refine spends_getBool.bind fun _ _ => ?_
  refine spends_getString.bind fun _ hmodel => spends_getString.bind fun _ hadapter => ?_
  refine spends_getString.bind fun _ hstate => spends_getU32.bind fun _ _ => ?_
  refine spends_getBool.bind fun _ _ => spends_getBool.bind fun _ _ => ?_
  refine spends_getU64.bind fun _ _ => spends_getEnum.bind fun _ _ => ?_
  refine spends_getDouble.bind fun _ _ => spends_getI32.bind fun _ _ => ?_
  refine spends_getU64.bind fun _ _ => ?_
  iterate 3 refine spends_getId.bind fun _ _ => ?_
  refine spends_getU64.bind fun _ _ => (spends_getList spends_getEnum).bind fun l _ => ?_
  refine spends_getEnum.bind fun _ _ => spends_check.bind fun _ hvalid => ?_
  refine spends_pure ⟨hvalid, ⟨hmodel, hadapter, hstate⟩, rfl⟩ ?_
  simp only [DemandProfile.recordSize, List.map_const', List.sum_replicate_nat]
  omega

theorem spends_decRequest :
    Spends 0 decRequest (fun r => r.demand.validate = .ok () ∧ r.demand.StringsBounded ∧
      r.withoutTopology = r) (fun r => r.recordSize) := by
  iterate 5 refine spends_getId.bind fun _ _ => ?_
  refine spends_getU64.bind fun _ _ => spends_decDemand.bind fun d ⟨hvalid, hbounded, hsame⟩ => ?_
  refine spends_pure ⟨hvalid, hbounded, ?_⟩ ?_
  · rw [SchedulingRequest.withoutTopology]
    dsimp only
    rw [hsame]
  · dsimp only [SchedulingRequest.recordSize]
    omega

theorem spends_decPlan : Spends 0 decPlan PlacementPlan.Encodable (fun q => q.recordSize) := by
  iterate 6 refine spends_getId.bind fun _ _ => ?_
  refine (spends_getList spends_getId).bind fun _ hfallbacks => ?_
  refine (spends_getList spends_decBinding).bind fun _ hbindings => ?_
  refine (spends_getList spends_decClaim).bind fun _ hclaims => spends_getId.bind fun _ _ => ?_
  refine spends_getString.bind fun _ hplan => spends_getU64.bind fun _ _ => ?_
  refine spends_getString.bind fun _ hsource => spends_getBool.bind fun _ _ => ?_
  refine (spends_getList spends_decFactor).bind fun _ hfactors => ?_
  refine (spends_getList spends_decRejected).bind fun _ hrejected => ?_
  refine spends_decFingerprint.bind fun _ _ => spends_getId.bind fun _ _ => ?_
  refine spends_getId.bind fun _ _ => spends_getEnum.bind fun _ _ => ?_
  refine (spends_getList spends_decHistory).bind fun _ hhistory => ?_
  refine spends_getId.bind fun _ _ => spends_getId.bind fun _ _ => ?_
  refine spends_getString.bind fun _ hreason => spends_getBool.bind fun _ _ => ?_
  refine spends_pure ⟨hfallbacks.1, hbindings, hclaims.1, hplan, hsource, hfactors, hrejected,
    hhistory.1, hreason⟩ ?_
  simp only [PlacementPlan.recordSize, List.map_const', List.sum_replicate_nat]
  omega

/-- The records of a payload are within the bounds of their readers, and the payload is at least
as long as they are written. -/
theorem spends_loadRecords (formatVersion : UInt32) :
    Spends 0 (loadRecords formatVersion) (fun p => 0 < p.nextPlanId ∧
      (p.requests.length ≤ maxRecords ∧ ∀ r ∈ p.requests, r.demand.validate = .ok () ∧
        r.demand.StringsBounded ∧ r.withoutTopology = r) ∧
      (p.plans.length ≤ maxRecords ∧ ∀ q ∈ p.plans, q.Encodable) ∧
      p.candidateIdentities.length ≤ maxRecords ∧
      (p.supersessionHistory.length ≤ maxRecords ∧
        ∀ reason ∈ p.supersessionHistory, reason.length ≤ maxString) ∧
      p.cancelledRequests.card ≤ maxRecords) Persisted.payloadSize := by
  refine spends_getId.bind fun _ _ => spends_getId.bind fun _ _ => ?_
  iterate 4 refine spends_getU64.bind fun _ _ => ?_
  refine spends_ensure.bind fun _ _ => ?_
  refine (spends_getDistinct spends_decRequest).bind fun _ hrequests => ?_
  refine (spends_getDistinct spends_decPlan).bind fun _ hplans => ?_
  refine spends_ensure.bind fun _ hnext => ?_
  refine (spends_getDistinct spends_decCandidateId).bind fun _ hids => ?_
  refine (spends_getList spends_getString).bind fun _ hhistory => ?_
  refine (spends_getList spends_getId).bind fun cancelled hcancelled => ?_
  have hcard : cancelled.toFinset.card ≤ cancelled.length := cancelled.toFinset_card_le
  refine spends_pure ⟨(maxPlan_lt_iff.mp hnext).1, hrequests, hplans, hids.1, hhistory,
    hcard.trans hcancelled.1⟩ ?_
  simp only [Persisted.payloadSize, List.map_const', List.sum_replicate_nat]
  omega

end Records

section Loaded

variable {input : Bytes} {p : Persisted} {cancelled : List SchedulingRequestId}

/-- What was loaded can be saved, in no more bytes than it was loaded from. -/
theorem Persisted.storable_of_loads (h : persistLoad input = .ok p) :
    p.Storable ∧ p.withoutTopology = p ∧ 25 + p.payloadSize ≤ input.length := by
  obtain ⟨payload, flags, rest, hle, rfl⟩ := persistLoad_ok h
  rw [persistLoad_fileBytes_append flags rest hle] at h
  have hpayload := whole_ok.mp h
  obtain ⟨hsound, hversion⟩ := yields_loadPayload _ _ _ _ hpayload
  obtain ⟨q, s, hrecords, hrest⟩ := bind_ok.mp hpayload
  obtain ⟨_, _, _, hpure⟩ := bind_ok.mp hrest
  obtain ⟨rfl, _⟩ := pure_ok.mp hpure
  obtain ⟨⟨hpos, hrequests, hplans, hids, hhistory, hcancelled⟩, hspent⟩ :=
    spends_loadRecords _ _ _ _ hrecords
  have hsize : q.payloadSize ≤ payload.length := by omega
  refine ⟨⟨⟨hversion, hsound.epoch, hsound.requests, hsound.valid, hsound.plans,
    ⟨hpos, hsound.numbered⟩, hsound.candidateIdentities⟩, hsound.selected, hsound.evident,
    ⟨hrequests.1, fun r hr => (hrequests.2 r hr).2.1⟩, hplans, hids, hhistory, hcancelled,
    hsize.trans hle⟩, ?_, ?_⟩
  · rw [Persisted.withoutTopology, List.map_congr_left fun r hr => (hrequests.2 r hr).2.2,
      List.map_id']
  · rw [List.length_append, length_fileBytes]
    omega

/-- A state that was loaded from a file can be saved again: the new file is no longer than the
old one and loads as the same state, in whatever order the cancelled requests are written. -/
theorem persistLoad_resaved (h : persistLoad input = .ok p) (hnodup : cancelled.Nodup)
    (hcancelled : cancelled.toFinset = p.cancelledRequests) :
    persistLoad (persistSave cancelled p) = .ok p ∧
      (persistSave cancelled p).length ≤ input.length := by
  obtain ⟨hstorable, hsame, hsize⟩ := Persisted.storable_of_loads h
  obtain ⟨hw, hb, hchecked⟩ := (Persisted.storable_iff hnodup hcancelled).mp hstorable
  constructor
  · rw [persistLoad_persistSave hw hb hcancelled, hchecked, hsame]
    rfl
  · rw [persistSave_eq, length_fileBytes, length_encPayload hnodup hcancelled]
    exact hsize

end Loaded

/-- The file of a fresh scheduler with a byte behind it is saved again without it. -/
theorem persistLoad_resaved_fresh : ∃ q, persistLoad (persistSave [] Sample.fresh ++ [0]) = .ok q ∧
    persistLoad (persistSave q.cancelledRequests.toList q) = .ok q ∧
    (persistSave q.cancelledRequests.toList q).length ≤ 94 := by
  have hloads : (persistLoad (persistSave [] Sample.fresh ++ [0])).toOption.isSome = true := by
    decide +kernel
  have hsize : (persistSave [] Sample.fresh ++ [0]).length = 94 := by decide +kernel
  cases hload : persistLoad (persistSave [] Sample.fresh ++ [0]) with
  | error e =>
      rw [hload] at hloads
      cases hloads
  | ok q =>
      have hresaved := persistLoad_resaved hload (Finset.nodup_toList _) (Finset.toList_toFinset _)
      exact ⟨q, rfl, hresaved.1, hsize ▸ hresaved.2⟩

end FabricScheduler
