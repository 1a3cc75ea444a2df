import FabricScheduler.Scheduler.Execution
import FabricScheduler.Scheduler.Sections

/-!
# What an eligible outcome certifies

The filter is characterised by the constraints it checks, so what it certifies about
every candidate depends on the request alone: a requirement the filter does not consult
is violated by some candidate that has everything else.
-/

namespace FabricScheduler

/-- A device of the given class that is current and attached to everything. -/
def ampleBinding (capability : AcceleratorClass) : DeviceBinding where
  deviceId := ⟨1⟩
  deviceGeneration := ⟨1⟩
  resourceId := ⟨1⟩
  resourceGeneration := ⟨1⟩
  nodeId := ⟨1⟩
  nodeGeneration := ⟨1⟩
  memoryDomainId := ⟨1⟩
  memoryDomainGeneration := ⟨1⟩
  nicId := ⟨1⟩
  nicGeneration := ⟨1⟩
  storageId := ⟨1⟩
  storageGeneration := ⟨1⟩
  cpuDomainId := ⟨1⟩
  cpuDomainGeneration := ⟨1⟩
  pcieRoot := []
  sharesPcieRoot := false
  capability
  cudaCompatibility := 0
  capabilityCurrent := true
  capabilityGeneration := ⟨1⟩

/-- A candidate with one device and the largest capacities, all of it measured. -/
def ampleCandidate (request : SchedulingRequest) : Candidate where
  candidateId := ⟨1⟩
  candidateGeneration := ⟨1⟩
  sourceId := ⟨1⟩
  sourceBootId := ⟨1⟩
  workerId := ⟨1⟩
  workerBootId := ⟨1⟩
  provenance := .measured
  bindings := [ampleBinding request.demand.accelerator.capability]
  capacity :=
    { generation := ⟨1⟩
      vramTotal := 0xFFFFFFFFFFFFFFFF
      vramUsed := 0
      vramAvailable := 0xFFFFFFFFFFFFFFFF
      hostMemoryAvailable := 0xFFFFFFFFFFFFFFFF
      pinnedMemoryAvailable := 0xFFFFFFFFFFFFFFFF
      cpuAvailable := 0xFFFFFFFF
      storageAvailable := 0xFFFFFFFFFFFFFFFF
      nicBandwidthAvailable := 0xFFFFFFFFFFFFFFFF
      contiguousMemory := true
      provenance := .measured }
  health := ⟨⟨1⟩, true, .one, [], .measured⟩
  reservation := ⟨⟨1⟩, false, 0, [], .measured⟩
  congestion := ⟨⟨1⟩, .zero, .one, 1, [], .measured⟩
  locality := ⟨request.demand.requiredTopologyGeneration, 0, 0, false, 0, 0, [], .measured⟩
  communication := ⟨⟨1⟩, .zero, .zero, .zero, true, [], .measured⟩
  residency := ⟨⟨1⟩, true, true, true, 0, [], .measured⟩
  policyGeneration := ⟨1⟩
  memoryMovementCost := .zero

private theorem not_max_lt (x : UInt64) : ¬0xFFFFFFFFFFFFFFFF < x := by
  have := x.toNat_lt
  rw [UInt64.lt_iff_toNat_lt]
  simp only [UInt64.reduceToNat]
  omega

private theorem not_max_lt_32 (x : UInt32) : ¬0xFFFFFFFF < x := by
  have := x.toNat_lt
  rw [UInt32.lt_iff_toNat_lt]
  simp only [UInt32.reduceToNat]
  omega

/-- A candidate that has everything is admitted for every request. -/
theorem admitted_ampleCandidate (request : SchedulingRequest) :
    Admitted request (ampleCandidate request) none none where
  bindings h := by cases h.2
  capacityEvidence h := by cases h.2
  healthEvidence h := by cases h
  capability h := by simp [ampleCandidate, ampleBinding, DeviceBinding.proves] at h
  vram h := not_max_lt _ h.2
  cpu := not_max_lt_32 _
  hostMemory := not_max_lt _
  pinnedMemory := not_max_lt _
  contiguity h := h.2 rfl
  health h := h rfl
  nic h := h.2 rfl
  bandwidth h := not_max_lt _ h.2
  storage := not_max_lt _
  stateLocal h := h.2 rfl
  reservation h := by cases h
  topology h := h.2 rfl
  dependency d hd := by cases hd
  policy p hp := by cases hp

/-- The evidence an outcome rests on has a provenance. -/
def EvidenceKnown (c : Candidate) : Prop :=
  c.capacity.provenance ≠ .unknown ∧ c.health.provenance ≠ .unknown

instance (c : Candidate) : Decidable (EvidenceKnown c) := inferInstanceAs (Decidable (_ ∧ _))

/-- Candidates are eligible on known evidence alone exactly for the requests that demand a
device: for the others the provenance of the capacity is not consulted. -/
theorem evidenceKnown_iff (request : SchedulingRequest) :
    (∀ (candidate : Candidate) (dependency : Option DependencyView)
      (policy : Option PolicyVeto),
      (hardFilterEvaluate request candidate dependency policy).eligible = true →
        EvidenceKnown candidate) ↔
      0 < request.demand.accelerator.minimumCount := by
  constructor
  · intro h
    by_contra hnone
    -- A candidate without capacity evidence that has everything else.
    let unmeasured : Candidate := { ampleCandidate request with
      capacity := { (ampleCandidate request).capacity with provenance := .unknown } }
    have hadmitted : Admitted request unmeasured none none :=
      { admitted_ampleCandidate request with
        capacityEvidence := fun h => hnone h.1
        vram := fun h => hnone h.1
        policy := fun _ hp => nomatch hp }
    exact (h unmeasured none none (eligible_iff_admitted.mpr hadmitted)).1 rfl
  · intro hcount candidate dependency policy heligible
    have hadmitted := eligible_iff_admitted.mp heligible
    exact ⟨fun hunknown => hadmitted.capacityEvidence ⟨hcount, hunknown⟩,
      hadmitted.healthEvidence⟩

/-- A request for one processor core is granted on capacity evidence of no provenance. -/
theorem not_evidenceKnown :
    ¬∀ (request : SchedulingRequest) (candidate : Candidate)
      (dependency : Option DependencyView) (policy : Option PolicyVeto),
      request.demand.validate = .ok () →
      (hardFilterEvaluate request candidate dependency policy).eligible = true →
        EvidenceKnown candidate := by
  intro h
  let cores : SchedulingRequest :=
    { Sample.request ⟨1⟩ with demand := { Sample.demand ⟨0⟩ with cpuRequired := 1 } }
  let unmeasured : Candidate := { Sample.candidate ⟨1⟩ ⟨1⟩ with
    capacity := { (Sample.candidate ⟨1⟩ ⟨1⟩).capacity with provenance := .unknown } }
  exact absurd (h cores unmeasured none none (by decide +kernel) (by decide))
    (by decide)

/-- The bindings of a candidate that prove the demanded capability class. -/
def provingCount (accel : AcceleratorRequirement) (bindings : List DeviceBinding) : Nat :=
  bindings.countP fun b => b.proves accel

/-- A candidate whose only shortage is in its bindings. -/
theorem admitted_bindings {request : SchedulingRequest} {bindings : List DeviceBinding}
    (hproves : 0 < provingCount request.demand.accelerator bindings)
    (hnic : request.demand.network.requireNic = true →
      bindings.any DeviceBinding.hasNic = true) :
    Admitted request { ampleCandidate request with bindings } none none := by
  obtain ⟨b, hb, hproves⟩ := List.countP_pos_iff.mp hproves
  exact { admitted_ampleCandidate request with
    bindings := fun h => List.ne_nil_of_mem hb h.2
    capability := fun h => h.2 (List.any_eq_true.mpr ⟨b, hb, hproves⟩)
    nic := fun h => h.2 (hnic h.1)
    policy := fun _ hp => nomatch hp }

/-- Which binding lists are refused or have enough devices. The filter looks for one
device that proves the capability, whatever count is demanded. -/
theorem enoughDevices_iff_of_bindings (request : SchedulingRequest)
    (bindings : List DeviceBinding) :
    (∀ (candidate : Candidate) (dependency : Option DependencyView)
      (policy : Option PolicyVeto), candidate.bindings = bindings →
      (hardFilterEvaluate request candidate dependency policy).eligible = true →
        request.demand.accelerator.minimumCount.toNat ≤
          provingCount request.demand.accelerator bindings) ↔
      provingCount request.demand.accelerator bindings = 0 ∨
        (request.demand.network.requireNic = true ∧
          bindings.any DeviceBinding.hasNic = false) ∨
        request.demand.accelerator.minimumCount.toNat ≤
          provingCount request.demand.accelerator bindings := by
  constructor
  · intro h
    by_cases hnone : provingCount request.demand.accelerator bindings = 0
    · exact Or.inl hnone
    by_cases hnic : request.demand.network.requireNic = true ∧
        bindings.any DeviceBinding.hasNic = false
    · exact Or.inr (Or.inl hnic)
    refine Or.inr (Or.inr (h { ampleCandidate request with bindings } none none rfl
      (eligible_iff_admitted.mpr (admitted_bindings (Nat.pos_of_ne_zero hnone) ?_))))
    intro hrequired
    by_contra hno
    exact hnic ⟨hrequired, Bool.eq_false_iff.mpr hno⟩
  · intro hcases candidate dependency policy hbindings heligible
    obtain rfl := hbindings
    have hadmitted := eligible_iff_admitted.mp heligible
    rcases hcases with hnone | ⟨hrequired, hno⟩ | henough
    · -- no device proves the capability, so none was demanded
      have hzero : ¬0 < request.demand.accelerator.minimumCount := by
        intro hcount
        refine hadmitted.capability ⟨hcount, ?_⟩
        intro hany
        exact absurd hnone (List.countP_pos_iff.mpr (List.any_eq_true.mp hany)).ne'
      rw [UInt32.lt_iff_toNat_lt, UInt32.toNat_zero] at hzero
      omega
    · exact absurd ⟨hrequired, by rw [hno]; exact Bool.false_ne_true⟩ hadmitted.nic
    · exact henough

/-- Admitted candidates have as many devices as demanded exactly for the requests that
demand at most one. -/
theorem enoughDevices_iff_of_request (request : SchedulingRequest) :
    (∀ (candidate : Candidate) (dependency : Option DependencyView)
      (policy : Option PolicyVeto),
      (hardFilterEvaluate request candidate dependency policy).eligible = true →
        request.demand.accelerator.minimumCount.toNat ≤
          provingCount request.demand.accelerator candidate.bindings) ↔
      request.demand.accelerator.minimumCount ≤ 1 := by
  have hone : provingCount request.demand.accelerator (ampleCandidate request).bindings = 1 := by
    simp [provingCount, ampleCandidate, ampleBinding, DeviceBinding.proves]
  constructor
  · intro h
    have henough := h _ none none (eligible_iff_admitted.mpr (admitted_ampleCandidate request))
    rw [hone] at henough
    exact UInt32.le_iff_toNat_le.mpr henough
  · intro hcount candidate dependency policy heligible
    have hcount := UInt32.le_iff_toNat_le.mp hcount
    rw [UInt32.toNat_one] at hcount
    refine (enoughDevices_iff_of_bindings request candidate.bindings).mpr ?_ candidate
      dependency policy rfl heligible
    omega

/-- Eligible candidates have as many devices as demanded exactly for the requests that
demand at most one; and, for a list of bindings, exactly when it is refused for having no
device of the class, or no network interface, or has enough devices. -/
theorem enoughDevices_iff (request : SchedulingRequest) :
    ((∀ (candidate : Candidate) (dependency : Option DependencyView)
      (policy : Option PolicyVeto),
      (hardFilterEvaluate request candidate dependency policy).eligible = true →
        request.demand.accelerator.minimumCount.toNat ≤
          provingCount request.demand.accelerator candidate.bindings) ↔
      request.demand.accelerator.minimumCount ≤ 1) ∧
    ∀ bindings : List DeviceBinding,
      (∀ (candidate : Candidate) (dependency : Option DependencyView)
        (policy : Option PolicyVeto), candidate.bindings = bindings →
        (hardFilterEvaluate request candidate dependency policy).eligible = true →
          request.demand.accelerator.minimumCount.toNat ≤
            provingCount request.demand.accelerator bindings) ↔
        provingCount request.demand.accelerator bindings = 0 ∨
          (request.demand.network.requireNic = true ∧
            bindings.any DeviceBinding.hasNic = false) ∨
          request.demand.accelerator.minimumCount.toNat ≤
            provingCount request.demand.accelerator bindings :=
  ⟨enoughDevices_iff_of_request request, enoughDevices_iff_of_bindings request⟩

/-- A request for two devices with eight bytes each. -/
def Sample.pair : SchedulingRequest := { Sample.request ⟨1⟩ with
  demand := { Sample.demand ⟨0⟩ with accelerator := ⟨.cuda, 2, 0, 0, 8, 0, false, ⟨1⟩⟩ } }

/-- One device is admitted for a demand of two. -/
theorem not_enoughDevices :
    ¬∀ (request : SchedulingRequest) (candidate : Candidate)
      (dependency : Option DependencyView) (policy : Option PolicyVeto),
      request.demand.validate = .ok () →
      (hardFilterEvaluate request candidate dependency policy).eligible = true →
        request.demand.accelerator.minimumCount.toNat ≤
          provingCount request.demand.accelerator candidate.bindings := by
  intro h
  exact absurd (h Sample.pair (ampleCandidate Sample.pair) none none (by decide +kernel)
    (by decide)) (by decide)

/-- The VRAM of the minimum device count, in unbounded arithmetic. -/
def exactVram (accel : AcceleratorRequirement) : Nat :=
  accel.vramPerDevice.toNat * accel.minimumCount.toNat

/-- The ceilings of a validated demand meet the 64-bit limit in a single product. -/
theorem exactVram_le_of_valid {d : DemandProfile} (h : d.Valid) :
    exactVram d.accelerator ≤ 2 ^ 64 := by
  have hbytes : d.accelerator.vramPerDevice ≤ maxBytes :=
    UInt64.not_lt.mp fun hover => h.byteCeiling (Or.inl hover)
  have hcount : d.accelerator.minimumCount ≤ maxCpuCount :=
    UInt32.not_lt.mp fun hover => h.countCeiling (Or.inl hover)
  have hmaxBytes : maxBytes.toNat = 2 ^ 44 := by decide
  have hmaxCount : maxCpuCount.toNat = 2 ^ 20 := by decide
  rw [UInt64.le_iff_toNat_le, hmaxBytes] at hbytes
  rw [UInt32.le_iff_toNat_le, hmaxCount] at hcount
  calc exactVram d.accelerator ≤ 2 ^ 44 * 2 ^ 20 := Nat.mul_le_mul hbytes hcount
    _ = 2 ^ 64 := by omega

/-- The aggregate of a validated demand covers its product, unless that product is the
64-bit limit itself and the check compares with zero. -/
theorem exactVram_le_aggregateVram {d : DemandProfile} (h : d.Valid)
    (hcount : 0 < d.accelerator.minimumCount) (haggregate : 0 < d.accelerator.aggregateVram)
    (hne : exactVram d.accelerator ≠ 2 ^ 64) :
    exactVram d.accelerator ≤ d.accelerator.aggregateVram.toNat := by
  have hcovered := h.aggregate
  have hle := exactVram_le_of_valid h
  have hproduct : (d.accelerator.vramPerDevice * d.accelerator.minimumCount.toUInt64).toNat =
      exactVram d.accelerator := by
    rw [UInt64.toNat_mul, UInt32.toNat_toUInt64]
    exact Nat.mod_eq_of_lt (lt_of_le_of_ne hle hne)
  rw [← hproduct, ← UInt64.le_iff_toNat_le]
  exact UInt64.not_lt.mp fun hbelow => hcovered ⟨hcount, haggregate, hbelow⟩

/-- Eligible candidates below the largest word cover the exact product, for a validated
demand of some devices, exactly when no aggregate stands in for a product that is the
64-bit limit. -/
theorem vramCovered_iff {request : SchedulingRequest}
    (hvalid : request.demand.validate = .ok ())
    (hcount : 0 < request.demand.accelerator.minimumCount) :
    (∀ (candidate : Candidate) (dependency : Option DependencyView)
      (policy : Option PolicyVeto), candidate.capacity.vramAvailable < 0xFFFFFFFFFFFFFFFF →
      (hardFilterEvaluate request candidate dependency policy).eligible = true →
        exactVram request.demand.accelerator ≤ candidate.capacity.vramAvailable.toNat) ↔
      ¬(0 < request.demand.accelerator.aggregateVram ∧
        exactVram request.demand.accelerator = 2 ^ 64) := by
  have hvalid := DemandProfile.validate_ok_iff.mp hvalid
  have hle := exactVram_le_of_valid hvalid
  constructor
  · rintro h ⟨haggregate, hlimit⟩
    -- A candidate with exactly the aggregate.
    let exact : Candidate := { ampleCandidate request with
      capacity := { (ampleCandidate request).capacity with
        vramAvailable := request.demand.accelerator.aggregateVram } }
    have hadmitted : Admitted request exact none none :=
      { admitted_ampleCandidate request with
        vram := by
          rintro ⟨_, hbelow⟩
          rw [demandedVram, if_pos haggregate] at hbelow
          exact UInt64.lt_irrefl _ hbelow
        policy := fun _ hp => nomatch hp }
    have hbytes : request.demand.accelerator.aggregateVram ≤ maxBytes :=
      UInt64.not_lt.mp fun hover => hvalid.byteCeiling (Or.inr (Or.inl hover))
    have hcovered := h exact none none (UInt64.lt_of_le_of_lt hbytes (by decide))
      (eligible_iff_admitted.mpr hadmitted)
    have hword := request.demand.accelerator.aggregateVram.toNat_lt
    have : exactVram request.demand.accelerator ≤
        request.demand.accelerator.aggregateVram.toNat := hcovered
    omega
  · intro hcond candidate dependency policy hbelow heligible
    have hvram := (eligible_iff_admitted.mp heligible).vram
    have hdemanded : (demandedVram request.demand.accelerator).toNat ≤
        candidate.capacity.vramAvailable.toNat :=
      UInt64.le_iff_toNat_le.mp (UInt64.not_lt.mp fun hless => hvram ⟨hcount, hless⟩)
    rw [UInt64.lt_iff_toNat_lt] at hbelow
    simp only [UInt64.reduceToNat] at hbelow
    by_cases haggregate : 0 < request.demand.accelerator.aggregateVram
    · rw [demandedVram, if_pos haggregate] at hdemanded
      refine (exactVram_le_aggregateVram hvalid hcount haggregate ?_).trans hdemanded
      exact fun hlimit => hcond ⟨haggregate, hlimit⟩
    · rw [demandedVram, if_neg haggregate, saturatingMul_toNat] at hdemanded
      unfold exactVram
      omega

/-- Two devices of eight bytes are granted on sixteen bytes. -/
theorem vramCovered_pair : exactVram Sample.pair.demand.accelerator ≤ 16 :=
  (@vramCovered_iff Sample.pair (by decide +kernel) (by decide)).mpr (by decide)
    { ampleCandidate Sample.pair with
      capacity := { (ampleCandidate Sample.pair).capacity with vramAvailable := 16 } }
    none none (by decide) (by decide)

/-- A million devices of sixteen tebibytes are granted on one byte. -/
theorem not_vramCovered :
    ¬∀ (request : SchedulingRequest) (candidate : Candidate)
      (dependency : Option DependencyView) (policy : Option PolicyVeto),
      request.demand.validate = .ok () → 0 < request.demand.accelerator.minimumCount →
      candidate.capacity.vramAvailable < 0xFFFFFFFFFFFFFFFF →
      (hardFilterEvaluate request candidate dependency policy).eligible = true →
        exactVram request.demand.accelerator ≤ candidate.capacity.vramAvailable.toNat := by
  intro h
  let hostile : SchedulingRequest := { Sample.request ⟨1⟩ with
    demand := { Sample.demand ⟨0⟩ with
      accelerator := ⟨.cuda, maxCpuCount, 0, 0, maxBytes, 1, false, ⟨1⟩⟩ } }
  let small : Candidate := { ampleCandidate hostile with
    capacity := { (ampleCandidate hostile).capacity with vramAvailable := 1 } }
  exact absurd (h hostile small none none (by decide +kernel) (by decide) (by decide)
    (by decide)) (by decide)

/-- A property holds of every candidate a pass places work on, as its choice or as a
fallback, exactly when it holds of every candidate the filter admits. -/
theorem placed_iff_eligible (request : SchedulingRequest) (P : Candidate → Prop) :
    (∀ (st : SchedulerState) (views : ScheduleViews) (snapshot : List Candidate)
      (decision : PlacementDecision), (snapshot.map Candidate.candidateId).Nodup →
      (st.scheduleSecond request views snapshot).1 = .ok decision →
      decision.producedPlan = true → ∀ c ∈ snapshot,
      c.candidateId ∈ decision.plan.selectedCandidate :: decision.plan.fallbackCandidates →
        P c) ↔
      ∀ (candidate : Candidate) (dependency : Option DependencyView)
        (policy : Option PolicyVeto),
        (hardFilterEvaluate request candidate dependency policy).eligible = true →
          P candidate := by
  constructor
  · intro h candidate dependency policy heligible
    -- a pass over this candidate alone
    let st := SchedulerState.initial Sample.config
    let views := ScheduleViews.pure dependency policy
    have hranked : rankSnapshot st.rankOptions request views [candidate] =
        [⟨rankerEvaluate request candidate st.rankOptions, candidate⟩] := by
      simp [rankSnapshot, evaluateCandidate, views, ScheduleViews.pure, heligible]
    exact h st views [candidate] _ (List.nodup_singleton _)
      (SchedulerState.scheduleSecond_decision_of_cons hranked) rfl candidate
      (List.mem_singleton_self _) (List.mem_cons_self ..)
  · intro h st views snapshot decision hnodup hdecision hproduced c hc hplaced
    obtain ⟨winner, others, hranked, _, hstored⟩ :=
      SchedulerState.exists_storedPlan_of_producedPlan hdecision hproduced
    rw [hstored] at hplaced
    obtain ⟨e, he, hid⟩ := SchedulerState.mem_placed_storedPlan hplaced
    obtain ⟨hmem, hrank, heligible⟩ := SchedulerState.mem_rankSnapshot (hranked ▸ he)
    have hsame : e.candidate = c := by
      refine List.inj_on_of_nodup_map hnodup hmem hc ?_
      rw [← hid, hrank]
      rfl
    exact hsame ▸ h _ _ _ heligible

/-- The residency and the movement of a candidate are as the demand requires. -/
structure ResidencyMet (demand : DemandProfile) (c : Candidate) : Prop where
  modelResident : demand.residency.requireModelResident = true →
    c.residency.modelResident = true
  adapterResident : demand.residency.requireAdapterResident = true →
    c.residency.adapterResident = true
  stateLocal : demand.residency.requireStateLocal = true → c.residency.stateLocal = true
  movement : 0 < demand.maximumMovementCost →
    c.residency.moveBytes ≤ demand.maximumMovementCost

/-- The demand requires no residency beyond the local state its storage requires, and
caps no movement. -/
structure ResidencyFree (demand : DemandProfile) : Prop where
  modelResident : demand.residency.requireModelResident = false
  adapterResident : demand.residency.requireAdapterResident = false
  stateLocal : demand.residency.requireStateLocal = true → demand.storage.requireLocal = true
  movement : demand.maximumMovementCost = 0 ∨ demand.maximumMovementCost = 0xFFFFFFFFFFFFFFFF

/-- A candidate that has everything but the given residency. -/
def relocatedCandidate (request : SchedulingRequest) (residency : ResidencyEvidence) :
    Candidate :=
  { ampleCandidate request with residency }

/-- The filter consults the residency of a candidate for local storage only. -/
theorem admitted_relocatedCandidate {request : SchedulingRequest}
    {residency : ResidencyEvidence}
    (h : request.demand.storage.requireLocal = true → residency.stateLocal = true) :
    Admitted request (relocatedCandidate request residency) none none :=
  { admitted_ampleCandidate request with
    stateLocal := fun hlocal => hlocal.2 (h hlocal.1)
    policy := fun _ hp => nomatch hp }

/-- Admitted candidates meet the residency and movement requirements exactly for the
demands that have none. -/
theorem admitted_residencyMet_iff (request : SchedulingRequest) :
    (∀ (candidate : Candidate) (dependency : Option DependencyView)
      (policy : Option PolicyVeto),
      (hardFilterEvaluate request candidate dependency policy).eligible = true →
        ResidencyMet request.demand candidate) ↔
      ResidencyFree request.demand := by
  constructor
  · intro h
    -- nothing resident, state local where storage requires it, everything to be moved
    let bare : ResidencyEvidence := ⟨⟨1⟩, false, false, request.demand.storage.requireLocal,
      0xFFFFFFFFFFFFFFFF, [], .measured⟩
    have hmet := h (relocatedCandidate request bare) none none
      (eligible_iff_admitted.mpr (admitted_relocatedCandidate id))
    refine ⟨?_, ?_, hmet.stateLocal, ?_⟩
    · exact Bool.eq_false_iff.mpr fun hrequired => by cases hmet.modelResident hrequired
    · exact Bool.eq_false_iff.mpr fun hrequired => by cases hmet.adapterResident hrequired
    · by_cases hcap : request.demand.maximumMovementCost = 0
      · exact Or.inl hcap
      · have hmoved : 0xFFFFFFFFFFFFFFFF ≤ request.demand.maximumMovementCost :=
          hmet.movement (UInt64.pos_iff_ne_zero.mpr hcap)
        exact Or.inr (UInt64.le_antisymm (UInt64.not_lt.mp (not_max_lt _)) hmoved)
  · intro hfree candidate dependency policy heligible
    have hadmitted := eligible_iff_admitted.mp heligible
    refine ⟨?_, ?_, ?_, ?_⟩
    · intro hrequired
      cases hfree.modelResident.symm.trans hrequired
    · intro hrequired
      cases hfree.adapterResident.symm.trans hrequired
    · intro hrequired
      by_contra hlocal
      exact hadmitted.stateLocal ⟨hfree.stateLocal hrequired, hlocal⟩
    · intro hcap
      rcases hfree.movement with hzero | hmax
      · rw [hzero] at hcap
        exact absurd hcap (UInt64.lt_irrefl 0)
      · rw [hmax]
        exact UInt64.not_lt.mp (not_max_lt _)

/-- Eligible candidates, and equally the candidates a pass places work on, meet the
residency and movement requirements exactly for the demands that have none. -/
theorem residencyMet_iff (request : SchedulingRequest) :
    ((∀ (candidate : Candidate) (dependency : Option DependencyView)
        (policy : Option PolicyVeto),
        (hardFilterEvaluate request candidate dependency policy).eligible = true →
          ResidencyMet request.demand candidate) ↔
      ResidencyFree request.demand) ∧
    ((∀ (st : SchedulerState) (views : ScheduleViews) (snapshot : List Candidate)
        (decision : PlacementDecision), (snapshot.map Candidate.candidateId).Nodup →
        (st.scheduleSecond request views snapshot).1 = .ok decision →
        decision.producedPlan = true → ∀ c ∈ snapshot,
        c.candidateId ∈ decision.plan.selectedCandidate :: decision.plan.fallbackCandidates →
          ResidencyMet request.demand c) ↔
      ResidencyFree request.demand) :=
  ⟨admitted_residencyMet_iff request,
    (placed_iff_eligible request _).trans (admitted_residencyMet_iff request)⟩

/-- A request that requires its model resident is granted a candidate without it. -/
theorem not_residencyMet :
    ¬∀ (request : SchedulingRequest) (candidate : Candidate)
      (dependency : Option DependencyView) (policy : Option PolicyVeto),
      request.demand.validate = .ok () →
      (hardFilterEvaluate request candidate dependency policy).eligible = true →
        ResidencyMet request.demand candidate := by
  intro h
  let resident : SchedulingRequest := { Sample.request ⟨1⟩ with
    demand := { Sample.demand ⟨0⟩ with residency := ⟨true, false, false, [], [], []⟩ } }
  let remote := relocatedCandidate resident ⟨⟨1⟩, false, false, false, 1, [], .measured⟩
  have hmet := h resident remote none none (by decide +kernel) (by decide)
  exact absurd (hmet.modelResident rfl) (by decide)

end FabricScheduler
