import FabricScheduler.Persistence.Records
import FabricScheduler.Scheduler.Execution

/-!
# Records are read back as they were written

Each record codec reads its own encoding off the front of any input, and accepts it on no
other condition than the bounds and checks of the reader. The one field that is not written
is a request's required topology generation, which is read as absent.
-/

namespace FabricScheduler

open Decoder

/-- Without a hard topology requirement. -/
def DemandProfile.withoutTopology (d : DemandProfile) : DemandProfile :=
  { d with requiredTopologyGeneration := ⟨0⟩ }

/-- Without a hard topology requirement. -/
def SchedulingRequest.withoutTopology (r : SchedulingRequest) : SchedulingRequest :=
  { r with demand := r.demand.withoutTopology }

/-- The strings of a demand are within the reader's bound. -/
structure DemandProfile.StringsBounded (d : DemandProfile) : Prop where
  modelPath : d.residency.modelPath.length ≤ maxString
  adapterPath : d.residency.adapterPath.length ≤ maxString
  statePath : d.residency.statePath.length ≤ maxString

instance (d : DemandProfile) : Decidable d.StringsBounded :=
  decidable_of_iff (d.residency.modelPath.length ≤ maxString ∧
    d.residency.adapterPath.length ≤ maxString ∧ d.residency.statePath.length ≤ maxString)
    ⟨fun ⟨h₁, h₂, h₃⟩ => ⟨h₁, h₂, h₃⟩, fun ⟨h₁, h₂, h₃⟩ => ⟨h₁, h₂, h₃⟩⟩

/-- What a reader accepts of a plan: its lists and strings are within bounds and its factor
values are finite. -/
structure PlacementPlan.Encodable (p : PlacementPlan) : Prop where
  fallbackCandidates : p.fallbackCandidates.length ≤ maxRecords
  bindings : p.bindings.length ≤ maxRecords ∧
    ∀ b ∈ p.bindings, b.pcieRoot.length ≤ maxString
  claims : p.claims.length ≤ maxRecords
  communicationPlanId : p.communicationPlanId.length ≤ maxString
  movementSource : p.movementSource.length ≤ maxString
  selectedFactors : p.selectedFactors.length ≤ maxRecords ∧
    ∀ f ∈ p.selectedFactors, f.description.length ≤ maxString ∧ f.value.isFinite = true
  rejectedAlternatives : p.rejectedAlternatives.length ≤ maxRecords ∧
    ∀ r ∈ p.rejectedAlternatives, r.reason.length ≤ maxString
  stateHistory : p.stateHistory.length ≤ maxRecords
  supersessionReason : p.supersessionReason.length ≤ maxString

instance (p : PlacementPlan) : Decidable p.Encodable :=
  decidable_of_iff (p.fallbackCandidates.length ≤ maxRecords ∧
    (p.bindings.length ≤ maxRecords ∧ ∀ b ∈ p.bindings, b.pcieRoot.length ≤ maxString) ∧
    p.claims.length ≤ maxRecords ∧ p.communicationPlanId.length ≤ maxString ∧
    p.movementSource.length ≤ maxString ∧
    (p.selectedFactors.length ≤ maxRecords ∧ ∀ f ∈ p.selectedFactors,
      f.description.length ≤ maxString ∧ f.value.isFinite = true) ∧
    (p.rejectedAlternatives.length ≤ maxRecords ∧
      ∀ r ∈ p.rejectedAlternatives, r.reason.length ≤ maxString) ∧
    p.stateHistory.length ≤ maxRecords ∧ p.supersessionReason.length ≤ maxString)
    ⟨fun ⟨h₁, h₂, h₃, h₄, h₅, h₆, h₇, h₈, h₉⟩ => ⟨h₁, h₂, h₃, h₄, h₅, h₆, h₇, h₈, h₉⟩,
      fun ⟨h₁, h₂, h₃, h₄, h₅, h₆, h₇, h₈, h₉⟩ => ⟨h₁, h₂, h₃, h₄, h₅, h₆, h₇, h₈, h₉⟩⟩

/-- A demand is accepted when it is valid and its strings are within bounds. -/
theorem readsWhen_decDemand (d : DemandProfile) :
    decDemand.ReadsWhen (2 ^ 32) (d.validate = .ok () ∧ d.StringsBounded) (encDemand d)
      d.withoutTopology := by
  have hlocalities : (getList (getEnum "invalid locality kind")).ReadsWhen (2 ^ 32)
      (d.fallbackLocalities.length ≤ maxRecords ∧ ∀ k ∈ d.fallbackLocalities, True)
      (putList putEnum d.fallbackLocalities) d.fallbackLocalities :=
    readsWhen_getList (fun k _ => (reads_getEnum (by decide) _ k).when) fun k _ => Nat.one_pos
  have hall : decDemand.ReadsWhen (2 ^ 32) _ (encDemand d) d.withoutTopology :=
    .field (reads_getId _) <| .field (reads_getId _) <| .field (reads_getId _) <|
    .field (reads_getId _) <| .field (reads_getId _) <| .field (reads_getU32 _) <|
    .field (reads_getU32 _) <| .field (reads_getU32 _) <| .field (reads_getU64 _) <|
    .field (reads_getU64 _) <| .field (reads_getBool _) <|
    .field (reads_getEnum (by decide) _ _) <| .field (reads_getU32 _) <|
    .field (reads_getU64 _) <| .field (reads_getU64 _) <| .field (reads_getU64 _) <|
    .field (reads_getBool _) <| .field (reads_getU64 _) <| .field (reads_getBool _) <|
    .field (reads_getEnum (by decide) _ _) <| .field (reads_getU64 _) <|
    .field (reads_getBool _) <| .field (reads_getBool _) <| .field (reads_getBool _) <|
    .guarded (readsWhen_getString _) fun _ => .guarded (readsWhen_getString _) fun _ =>
    .guarded (readsWhen_getString _) fun _ => .field (reads_getU32 _) <|
    .field (reads_getBool _) <| .field (reads_getBool _) <| .field (reads_getU64 _) <|
    .field (reads_getEnum (by decide) _ _) <| .field (reads_getDouble _) <|
    .field (reads_getI32 _) <| .field (reads_getU64 _) <| .field (reads_getId _) <|
    .field (reads_getId _) <| .field (reads_getId _) <| .field (reads_getU64 _) <|
    .guarded hlocalities fun _ => .field (reads_getEnum (by decide) _ _) <|
    .test (readsWhen_check id fun () h => h) fun _ => readsWhen_pure d.withoutTopology
  refine hall.congr ⟨?_, ?_⟩
  · rintro ⟨hmodel, hadapter, hstate, _, hvalid, _⟩
    exact ⟨hvalid, hmodel, hadapter, hstate⟩
  · rintro ⟨hvalid, hmodel, hadapter, hstate⟩
    -- a valid demand lists no locality twice
    have hshort := (DemandProfile.validate_ok_iff.mp hvalid).length_fallbackLocalities_le
    exact ⟨hmodel, hadapter, hstate, ⟨hshort.trans (by decide), fun _ _ => trivial⟩, hvalid,
      trivial⟩

/-- A request is accepted when its demand is, and is then read back without its required
topology generation. -/
theorem readsWhen_decRequest (r : SchedulingRequest) :
    decRequest.ReadsWhen (2 ^ 32) (r.demand.validate = .ok () ∧ r.demand.StringsBounded)
      (encRequest r) r.withoutTopology := by
  have hall : decRequest.ReadsWhen (2 ^ 32) _ (encRequest r) r.withoutTopology :=
    .field (reads_getId _) <| .field (reads_getId _) <| .field (reads_getId _) <|
    .field (reads_getId _) <| .field (reads_getId _) <| .field (reads_getU64 _) <|
    .guarded (readsWhen_decDemand r.demand) fun _ => readsWhen_pure r.withoutTopology
  exact hall.congr (iff_of_eq (and_true _))

/-- A valid request is read back without its required topology generation. -/
theorem reads_decRequest {r : SchedulingRequest} (hvalid : r.demand.validate = .ok ())
    (h : r.demand.StringsBounded) : decRequest.Reads (encRequest r) r.withoutTopology :=
  (readsWhen_decRequest r).reads ⟨hvalid, h⟩

/-- A request is its own image without the hard topology requirement exactly when it has
none. -/
theorem SchedulingRequest.withoutTopology_eq_iff {r : SchedulingRequest} :
    r.withoutTopology = r ↔ r.demand.requiredTopologyGeneration = ⟨0⟩ := by
  constructor
  · intro h
    have hfield : r.withoutTopology.demand.requiredTopologyGeneration =
        r.demand.requiredTopologyGeneration := by rw [h]
    exact hfield.symm
  · intro h
    rw [withoutTopology, DemandProfile.withoutTopology, ← h]

/-- A valid request comes back from its record, whatever follows the record, exactly when
it has no hard topology requirement. -/
theorem decodeRequestRecord_eq_iff {r : SchedulingRequest}
    (hvalid : r.demand.validate = .ok ()) (h : r.demand.StringsBounded) :
    (∀ t, decodeRequestRecord (encodeRequestRecord r ++ t) = .ok (r, t)) ↔
      r.demand.requiredTopologyGeneration = ⟨0⟩ := by
  have hreads : decodeRequestRecord.Reads (encodeRequestRecord r) r.withoutTopology :=
    reads_decRequest hvalid h
  rw [← SchedulingRequest.withoutTopology_eq_iff]
  constructor
  · intro hback
    exact hreads.unique hback
  · intro hsame
    rwa [hsame] at hreads

/-- A request without a hard topology requirement comes back. -/
theorem decodeRequestRecord_eq_unpinned :
    decodeRequestRecord (encodeRequestRecord (Sample.request ⟨1⟩) ++ [1, 2]) =
      .ok (Sample.request ⟨1⟩, [1, 2]) :=
  (@decodeRequestRecord_eq_iff (Sample.request ⟨1⟩) (by decide +kernel)
    (by decide +kernel)).mpr rfl [1, 2]

/-- A request that demands the second topology generation comes back without the demand,
and is then placed on a candidate of the first. -/
theorem decodeRequestRecord_pinned :
    ∃ r r' : SchedulingRequest, r.demand.validate = .ok () ∧ r.demand.StringsBounded ∧
      decodeRequestRecord (encodeRequestRecord r) = .ok (r', []) ∧ r' ≠ r ∧
      (hardFilterEvaluate r (Sample.candidate ⟨1⟩ ⟨1⟩) none none).eligible = false ∧
      (hardFilterEvaluate r' (Sample.candidate ⟨1⟩ ⟨1⟩) none none).eligible = true := by
  refine ⟨{ Sample.request ⟨1⟩ with demand := Sample.demand ⟨2⟩ }, Sample.request ⟨1⟩,
    by decide +kernel, by decide +kernel, by decide +kernel, by decide +kernel,
    by decide +kernel, by decide +kernel⟩

theorem readsWhen_decBinding (b : DeviceBinding) :
    decBinding.ReadsWhen (2 ^ 32) (b.pcieRoot.length ≤ maxString) (encBinding b) b := by
  have hall : decBinding.ReadsWhen (2 ^ 32) _ (encBinding b) b :=
    .field (reads_getId _) <| .field (reads_getId _) <| .field (reads_getId _) <|
    .field (reads_getId _) <| .field (reads_getId _) <| .field (reads_getId _) <|
    .field (reads_getId _) <| .field (reads_getId _) <| .field (reads_getId _) <|
    .field (reads_getId _) <| .field (reads_getId _) <| .field (reads_getId _) <|
    .field (reads_getId _) <| .field (reads_getId _) <|
    .guarded (readsWhen_getString _) fun _ => .field (reads_getBool _) <|
    .field (reads_getEnum (by decide) _ _) <| .field (reads_getI32 _) <|
    .field (reads_getBool _) <| .field (reads_getId _) <| readsWhen_pure b
  exact hall.congr (iff_of_eq (and_true _))

theorem reads_decBinding {b : DeviceBinding} (h : b.pcieRoot.length ≤ maxString) :
    decBinding.Reads (encBinding b) b := (readsWhen_decBinding b).reads h

/-- A factor is accepted when its description is within bounds and its value is finite. -/
theorem readsWhen_decFactor (f : RankFactor Double) :
    decFactor.ReadsWhen (2 ^ 32)
      (f.description.length ≤ maxString ∧ f.value.isFinite = true) (encFactor f) f := by
  have hcode : Enumeration.ofCode? (UInt16.ofNat (Enumeration.code f.kind)).toNat =
      some f.kind := by
    have hlt := Enumeration.code_lt f.kind
    have hsize : (Enumeration.all : List RankFactorKind).length = 27 := rfl
    rw [UInt16.toNat_ofNat', Nat.mod_eq_of_lt (by omega), Enumeration.ofCode?_code]
  have hall : decFactor.ReadsWhen (2 ^ 32) _ (encFactor f) f :=
    .field (reads_getU16 _) <| .test (reads_known hcode _).when fun _ =>
    .field (reads_getDouble _) <| .field (reads_getDouble _) <|
    .field (reads_getEnum (by decide) _ _) <| .guarded (readsWhen_getString _) fun _ =>
    .test (readsWhen_ensure _) fun _ => readsWhen_pure f
  rw [true_and, and_true] at hall
  exact hall

/-- A rejection is accepted when its reason is within bounds. -/
theorem readsWhen_decRejected (r : RejectedAlternative) :
    decRejected.ReadsWhen (2 ^ 32) (r.reason.length ≤ maxString) (encRejected r) r := by
  have hall : decRejected.ReadsWhen (2 ^ 32) _ (encRejected r) r :=
    .field (reads_getId _) <| .field (reads_getId _) <|
    .field (reads_getEnum (by decide) _ _) <| .guarded (readsWhen_getString _) fun _ =>
    readsWhen_pure r
  exact hall.congr (iff_of_eq (and_true _))

theorem reads_decClaim (c : ResourceClaim) : decClaim.Reads (encClaim c) c :=
  .field (reads_getId _) <| .field (reads_getId _) <|
  .field (reads_getEnum (by decide) _ _) <| .field (reads_getU64 _) <|
  .field (reads_getBool _) <| reads_pure c

theorem reads_decFingerprint (g : GenerationFingerprint) :
    decFingerprint.Reads (encFingerprint g) g :=
  .field (reads_getId _) <| .field (reads_getId _) <| .field (reads_getId _) <|
  .field (reads_getId _) <| .field (reads_getId _) <| .field (reads_getId _) <|
  .field (reads_getId _) <| .field (reads_getId _) <| .field (reads_getId _) <|
  .field (reads_getId _) <| .field (reads_getId _) <| .field (reads_getId _) <| reads_pure g

theorem reads_decHistory (h : PlacementLifecycleState × UInt64) :
    decHistory.Reads (encHistory h) h :=
  .field (reads_getEnum (by decide) _ _) <| .field (reads_getU64 _) <| reads_pure h

/-- A plan is accepted when it is within the reader's bounds, and is then read back in
full. -/
theorem readsWhen_decPlan (p : PlacementPlan) :
    decPlan.ReadsWhen (2 ^ 32) p.Encodable (encPlan p) p := by
  have hfallbacks := readsWhen_getList (l := p.fallbackCandidates)
    (fun id _ => (reads_getId id).when) fun id _ => by simp
  have hbindings := readsWhen_getList (l := p.bindings) (fun b _ => readsWhen_decBinding b)
    fun b _ => length_flatten_pos (by simp)
  have hclaims := readsWhen_getList (l := p.claims) (fun c _ => (reads_decClaim c).when)
    fun c _ => length_flatten_pos (by simp)
  have hfactors := readsWhen_getList (l := p.selectedFactors)
    (fun f _ => readsWhen_decFactor f) fun f _ => length_flatten_pos (Nat.two_pos)
  have hrejected := readsWhen_getList (l := p.rejectedAlternatives)
    (fun r _ => readsWhen_decRejected r) fun r _ => length_flatten_pos (by simp)
  have hhistory := readsWhen_getList (l := p.stateHistory)
    (fun x _ => (reads_decHistory x).when) fun x _ => length_flatten_pos Nat.one_pos
  have hall : decPlan.ReadsWhen (2 ^ 32) _ (encPlan p) p :=
    .field (reads_getId _) <| .field (reads_getId _) <| .field (reads_getId _) <|
    .field (reads_getId _) <| .field (reads_getId _) <| .field (reads_getId _) <|
    .guarded hfallbacks fun _ => .guarded hbindings fun _ => .guarded hclaims fun _ =>
    .field (reads_getId _) <| .guarded (readsWhen_getString _) fun _ =>
    .field (reads_getU64 _) <| .guarded (readsWhen_getString _) fun _ =>
    .field (reads_getBool _) <| .guarded hfactors fun _ => .guarded hrejected fun _ =>
    .field (reads_decFingerprint _) <| .field (reads_getId _) <| .field (reads_getId _) <|
    .field (reads_getEnum (by decide) _ _) <| .guarded hhistory fun _ =>
    .field (reads_getId _) <| .field (reads_getId _) <|
    .guarded (readsWhen_getString _) fun _ => .field (reads_getBool _) <| readsWhen_pure p
  refine hall.congr ⟨?_, ?_⟩
  · rintro ⟨⟨h₁, _⟩, h₂, ⟨h₃, _⟩, h₄, h₅, h₆, h₇, ⟨h₈, _⟩, h₉, _⟩
    exact ⟨h₁, h₂, h₃, h₄, h₅, h₆, h₇, h₈, h₉⟩
  · rintro ⟨h₁, h₂, h₃, h₄, h₅, h₆, h₇, h₈, h₉⟩
    exact ⟨⟨h₁, fun _ _ => trivial⟩, h₂, ⟨h₃, fun _ _ => trivial⟩, h₄, h₅, h₆, h₇,
      ⟨h₈, fun _ _ => trivial⟩, h₉, trivial⟩

/-- A plan is read back in full. -/
theorem reads_decPlan {p : PlacementPlan} (h : p.Encodable) :
    decPlan.Reads (encPlan p) p := (readsWhen_decPlan p).reads h

/-- A plan within the reader's bounds comes back from its record, whatever follows the
record, and nothing but the record is taken. -/
theorem decodePlanRecord_encodePlanRecord {p : PlacementPlan} (h : p.Encodable) (t : Bytes) :
    decodePlanRecord (encodePlanRecord p ++ t) = .ok (p, t) := reads_decPlan h t

namespace Sample

/-- A device with a negative compute capability. -/
def binding : DeviceBinding :=
  ⟨⟨1⟩, ⟨2⟩, ⟨3⟩, ⟨4⟩, ⟨5⟩, ⟨6⟩, ⟨7⟩, ⟨8⟩, ⟨9⟩, ⟨10⟩, ⟨11⟩, ⟨12⟩, ⟨13⟩, ⟨14⟩, text "root",
    true, .cuda, -1, true, ⟨15⟩⟩

/-- A plan with an entry in each of its lists. -/
def plan : PlacementPlan where
  planId := ⟨1⟩
  planGeneration := ⟨1⟩
  requestId := ⟨1⟩
  requestGeneration := ⟨1⟩
  selectedCandidate := ⟨1⟩
  selectedCandidateGeneration := ⟨1⟩
  fallbackCandidates := [⟨2⟩, ⟨3⟩]
  bindings := [binding]
  claims := [⟨⟨3⟩, ⟨4⟩, .accelerator, 5, true⟩]
  communicationPlan := ⟨1⟩
  communicationPlanId := text "ring"
  movementBytes := 6
  movementSource := text "disk"
  residencyPrerequisite := true
  selectedFactors := [⟨.vramHeadroom, .quarter, .one, .measured, text "headroom"⟩]
  rejectedAlternatives := [⟨⟨4⟩, ⟨1⟩, .unknown, text "stale"⟩]
  generations := divergent
  policyGeneration := ⟨1⟩
  authorityGeneration := ⟨1⟩
  state := .planReady
  stateHistory := [(.requested, 1), (.planReady, 2)]
  coordinatorEpoch := ⟨1⟩
  supersededBy := ⟨0⟩
  supersessionReason := []
  hasCommitmentEvidence := false

end Sample

/-- A plan with an entry in each of its lists comes back. -/
theorem decodePlanRecord_sample :
    decodePlanRecord (encodePlanRecord Sample.plan ++ [1, 2]) = .ok (Sample.plan, [1, 2]) :=
  decodePlanRecord_encodePlanRecord (by decide +kernel) [1, 2]

end FabricScheduler
