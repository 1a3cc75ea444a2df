import FabricScheduler.Scheduler.Admission
import FabricScheduler.Scheduler.Pass

/-!
# Demands that ask for no more

One demand asks for no more than another when every constraint it sets is implied by the
constraints of the other. This can be read off the two demands, and it is exactly what keeps
every candidate and every placement of the other demand.
-/

namespace FabricScheduler

/-- What the filter asks of a candidate for the one demand it asks for the other. -/
@[mk_iff] structure DemandProfile.AsksNoMore (demand stronger : DemandProfile) : Prop where
  accelerator : 0 < demand.accelerator.minimumCount →
    0 < stronger.accelerator.minimumCount ∧
      demand.accelerator.capability = stronger.accelerator.capability ∧
      demandedVram demand.accelerator ≤ demandedVram stronger.accelerator
  cpu : demand.cpuRequired ≤ stronger.cpuRequired
  hostMemory : demand.memory.hostMemory ≤ stronger.memory.hostMemory
  pinnedMemory : demand.memory.pinnedMemory ≤ stronger.memory.pinnedMemory
  contiguity : demand.accelerator.requiresContiguousMemory = true →
    stronger.accelerator.requiresContiguousMemory = true
  network : demand.network.requireNic = true →
    stronger.network.requireNic = true ∧ demand.network.bandwidth ≤ stronger.network.bandwidth
  storage : demand.storage.capacity ≤ stronger.storage.capacity
  stateLocal : demand.storage.requireLocal = true → stronger.storage.requireLocal = true
  topology : demand.requiredTopologyGeneration.isValid = true →
    demand.requiredTopologyGeneration = stronger.requiredTopologyGeneration
  /-- The dependencies are those of the demand's id. -/
  dependency : demand.demandId = stronger.demandId

instance (demand stronger : DemandProfile) : Decidable (demand.AsksNoMore stronger) :=
  decidable_of_iff' _ (DemandProfile.asksNoMore_iff demand stronger)

variable {request stronger : SchedulingRequest}

/-- A candidate that meets the stronger demand meets the other. -/
theorem Admitted.relax {candidate : Candidate} {dependency : Option DependencyView}
    {policy : Option PolicyVeto} (h : Admitted stronger candidate dependency policy)
    (hless : request.demand.AsksNoMore stronger.demand) :
    Admitted request candidate dependency policy where
  bindings := fun ⟨hcount, hnone⟩ => h.bindings ⟨(hless.accelerator hcount).1, hnone⟩
  capacityEvidence := fun ⟨hcount, hunknown⟩ =>
    h.capacityEvidence ⟨(hless.accelerator hcount).1, hunknown⟩
  healthEvidence := h.healthEvidence
  capability := by
    rintro ⟨hcount, hnone⟩
    obtain ⟨hcount', hclass, _⟩ := hless.accelerator hcount
    refine h.capability ⟨hcount', ?_⟩
    simpa only [DeviceBinding.proves, hclass] using hnone
  vram := by
    rintro ⟨hcount, hbelow⟩
    obtain ⟨hcount', _, hvram⟩ := hless.accelerator hcount
    exact h.vram ⟨hcount', UInt64.lt_of_lt_of_le hbelow hvram⟩
  cpu := fun hbelow => h.cpu (UInt32.lt_of_lt_of_le hbelow hless.cpu)
  hostMemory := fun hbelow => h.hostMemory (UInt64.lt_of_lt_of_le hbelow hless.hostMemory)
  pinnedMemory := fun hbelow =>
    h.pinnedMemory (UInt64.lt_of_lt_of_le hbelow hless.pinnedMemory)
  contiguity := fun ⟨hrequired, hbroken⟩ => h.contiguity ⟨hless.contiguity hrequired, hbroken⟩
  health := h.health
  nic := fun ⟨hrequired, hnone⟩ => h.nic ⟨(hless.network hrequired).1, hnone⟩
  bandwidth := by
    rintro ⟨hrequired, hbelow⟩
    obtain ⟨hrequired', hbandwidth⟩ := hless.network hrequired
    exact h.bandwidth ⟨hrequired', UInt64.lt_of_lt_of_le hbelow hbandwidth⟩
  storage := fun hbelow => h.storage (UInt64.lt_of_lt_of_le hbelow hless.storage)
  stateLocal := fun ⟨hrequired, hremote⟩ => h.stateLocal ⟨hless.stateLocal hrequired, hremote⟩
  reservation := h.reservation
  topology := by
    rintro ⟨hvalid, hother⟩
    have hsame := hless.topology hvalid
    exact h.topology ⟨hsame ▸ hvalid, hsame ▸ hother⟩
  dependency := fun d hd => hless.dependency ▸ h.dependency d hd
  policy := h.policy

/-- A device of the demanded class, current and attached to a network only if the demand asks
for it. -/
def leastBinding (demand : DemandProfile) : DeviceBinding :=
  { ampleBinding demand.accelerator.capability with
    nicId := if demand.network.requireNic then ⟨1⟩ else ⟨0⟩
    capabilityCurrent := 0 < demand.accelerator.minimumCount }

/-- A candidate that has as much of everything as the request asks for. -/
def leastCandidate (request : SchedulingRequest) : Candidate :=
  { ampleCandidate request with
    bindings := [leastBinding request.demand]
    capacity := { (ampleCandidate request).capacity with
      vramAvailable := demandedVram request.demand.accelerator
      hostMemoryAvailable := request.demand.memory.hostMemory
      pinnedMemoryAvailable := request.demand.memory.pinnedMemory
      cpuAvailable := request.demand.cpuRequired
      storageAvailable := request.demand.storage.capacity
      nicBandwidthAvailable := request.demand.network.bandwidth
      contiguousMemory := request.demand.accelerator.requiresContiguousMemory }
    residency := { (ampleCandidate request).residency with
      stateLocal := request.demand.storage.requireLocal } }

/-- Only the dependencies of one demand are ready. -/
def onlyReady (demandId : WorkloadDemandId) : DependencyView :=
  ⟨fun id => id = demandId, ⟨1⟩, fun _ => []⟩

theorem proves_leastBinding (demand : DemandProfile) (accel : AcceleratorRequirement) :
    (leastBinding demand).proves accel = true ↔
      demand.accelerator.capability = accel.capability ∧
        0 < demand.accelerator.minimumCount := by
  rw [DeviceBinding.proves, Bool.and_eq_true]
  exact and_congr decide_eq_true_iff decide_eq_true_iff

theorem hasNic_leastBinding (demand : DemandProfile) :
    (leastBinding demand).hasNic = demand.network.requireNic := by
  cases h : demand.network.requireNic <;>
    simp [leastBinding, ampleBinding, DeviceBinding.hasNic, StrongId.isValid, h]

/-- The candidate is admitted for the request with the dependencies of its demand alone. -/
theorem admitted_leastCandidate (request : SchedulingRequest) :
    Admitted request (leastCandidate request) (some (onlyReady request.demand.demandId)) none :=
  { admitted_ampleCandidate request with
    bindings := by rintro ⟨_, ⟨⟩⟩
    capability := by
      rintro ⟨hcount, hnone⟩
      apply hnone
      rw [List.any_eq_true]
      exact ⟨_, List.mem_singleton_self _, (proves_leastBinding _ _).mpr ⟨rfl, hcount⟩⟩
    vram := fun h => UInt64.lt_irrefl _ h.2
    cpu := UInt32.lt_irrefl _
    hostMemory := UInt64.lt_irrefl _
    pinnedMemory := UInt64.lt_irrefl _
    contiguity := fun h => h.2 h.1
    nic := by
      rintro ⟨hrequired, hnone⟩
      apply hnone
      rw [List.any_eq_true]
      exact ⟨_, List.mem_singleton_self _, (hasNic_leastBinding _).trans hrequired⟩
    bandwidth := fun h => UInt64.lt_irrefl _ h.2
    storage := UInt64.lt_irrefl _
    stateLocal := fun h => h.2 h.1
    dependency := by
      rintro _ ⟨⟩
      exact decide_eq_true rfl
    policy := by rintro _ ⟨⟩ }

/-- A demand that admits the least candidate of another asks for no more. -/
theorem asksNoMore_of_admitted (h : Admitted request (leastCandidate stronger)
    (some (onlyReady stronger.demand.demandId)) none) :
    request.demand.AsksNoMore stronger.demand where
  accelerator hcount := by
    have hproves : (leastBinding stronger.demand).proves request.demand.accelerator = true := by
      by_contra hno
      apply h.capability
      refine ⟨hcount, ?_⟩
      simpa [leastCandidate] using hno
    obtain ⟨hclass, hcount'⟩ := (proves_leastBinding _ _).mp hproves
    exact ⟨hcount', hclass.symm, UInt64.not_lt.mp fun hbelow => h.vram ⟨hcount, hbelow⟩⟩
  cpu := UInt32.not_lt.mp h.cpu
  hostMemory := UInt64.not_lt.mp h.hostMemory
  pinnedMemory := UInt64.not_lt.mp h.pinnedMemory
  contiguity hrequired := by
    by_contra hno
    exact h.contiguity ⟨hrequired, hno⟩
  network hrequired := by
    refine ⟨?_, UInt64.not_lt.mp fun hbelow => h.bandwidth ⟨hrequired, hbelow⟩⟩
    by_contra hno
    apply h.nic
    refine ⟨hrequired, ?_⟩
    simpa [leastCandidate, hasNic_leastBinding] using hno
  storage := UInt64.not_lt.mp h.storage
  stateLocal hrequired := by
    by_contra hno
    exact h.stateLocal ⟨hrequired, hno⟩
  topology hvalid := by
    by_contra hother
    exact h.topology ⟨hvalid, Ne.symm hother⟩
  dependency := of_decide_eq_true (h.dependency _ rfl)

/-- The filter keeps every candidate of a stronger demand exactly for the demands that ask for
no more. -/
theorem keeps_iff_asksNoMore :
    (∀ (candidate : Candidate) (dependency : Option DependencyView)
      (policy : Option PolicyVeto),
      (hardFilterEvaluate stronger candidate dependency policy).eligible = true →
        (hardFilterEvaluate request candidate dependency policy).eligible = true) ↔
      request.demand.AsksNoMore stronger.demand := by
  constructor
  · intro h
    apply asksNoMore_of_admitted
    exact eligible_iff_admitted.mp
      (h _ _ _ (eligible_iff_admitted.mpr (admitted_leastCandidate stronger)))
  · intro hless candidate dependency policy heligible
    exact eligible_iff_admitted.mpr ((eligible_iff_admitted.mp heligible).relax hless)

/-- A pass lists the ids of the candidates that its views let through the filter. -/
theorem mem_eligible_of_scheduleSecond {st : SchedulerState} {views : ScheduleViews}
    {snapshot : List Candidate} {d : PlacementDecision}
    (h : (st.scheduleSecond request views snapshot).1 = .ok d) (id : CandidateId) :
    id ∈ d.eligible ↔ ∃ c ∈ snapshot, c.candidateId = id ∧
      (hardFilterEvaluate request c (views.dependency c) (views.policy c)).eligible = true := by
  obtain ⟨d', hd', hmade⟩ := st.exists_madeOf request views snapshot
  obtain rfl := Except.ok.inj (hd'.symm.trans h)
  rw [hmade.eligible, List.map_map, List.mem_map]
  constructor
  · rintro ⟨e, he, rfl⟩
    obtain ⟨hc, hrank, heligible⟩ := SchedulerState.mem_rankSnapshot he
    refine ⟨e.candidate, hc, ?_, heligible⟩
    rw [Function.comp_apply, hrank]
    rfl
  · rintro ⟨c, hc, rfl, heligible⟩
    refine ⟨⟨rankerEvaluate request c st.rankOptions, c⟩, ?_, rfl⟩
    rw [rankSnapshot, List.mem_insertionSort, List.mem_filterMap]
    refine ⟨c, hc, ?_⟩
    rw [evaluateCandidate, if_pos heligible]
    rfl

/-- A pass produces a plan when some candidate passes. -/
theorem producedPlan_of_scheduleSecond {st : SchedulerState} {views : ScheduleViews}
    {snapshot : List Candidate} {d : PlacementDecision}
    (h : (st.scheduleSecond request views snapshot).1 = .ok d) :
    d.producedPlan = true ↔ ∃ id, id ∈ d.eligible := by
  obtain ⟨d', hd', hmade⟩ := st.exists_madeOf request views snapshot
  obtain rfl := Except.ok.inj (hd'.symm.trans h)
  rw [hmade.produced_iff]
  exact ⟨List.exists_mem_of_ne_nil _, fun ⟨_, hid⟩ => List.ne_nil_of_mem hid⟩

/-- Whether a candidate alone is placed is whether the filter admits it. -/
theorem producedPlan_singleton_iff {st : SchedulerState} {dependency : Option DependencyView}
    {policy : Option PolicyVeto} {candidate : Candidate} {d : PlacementDecision}
    (h : (st.scheduleSecond request (.pure dependency policy) [candidate]).1 = .ok d) :
    d.producedPlan = true ↔
      (hardFilterEvaluate request candidate dependency policy).eligible = true := by
  rw [producedPlan_of_scheduleSecond h]
  constructor
  · rintro ⟨id, hid⟩
    obtain ⟨c, hc, _, heligible⟩ := (mem_eligible_of_scheduleSecond h id).mp hid
    obtain rfl := List.mem_singleton.mp hc
    exact heligible
  · intro heligible
    exact ⟨_, (mem_eligible_of_scheduleSecond h _).mpr
      ⟨candidate, List.mem_singleton_self _, rfl, heligible⟩⟩

/-- Asking for no more is exactly what never costs a request a candidate, and exactly what
never costs it its placement: over any two states, with any views, and with any candidates
the stronger demand did not have. -/
theorem asksNoMore_iff_placed :
    (request.demand.AsksNoMore stronger.demand ↔
      ∀ (st st' : SchedulerState) (views : ScheduleViews) (snapshot more : List Candidate)
        (d d' : PlacementDecision), snapshot ⊆ more →
        (st.scheduleSecond stronger views snapshot).1 = .ok d →
        (st'.scheduleSecond request views more).1 = .ok d' → d.eligible ⊆ d'.eligible) ∧
    (request.demand.AsksNoMore stronger.demand ↔
      ∀ (st st' : SchedulerState) (views : ScheduleViews) (snapshot more : List Candidate)
        (d d' : PlacementDecision), snapshot ⊆ more →
        (st.scheduleSecond stronger views snapshot).1 = .ok d →
        (st'.scheduleSecond request views more).1 = .ok d' →
        d.producedPlan = true → d'.producedPlan = true) := by
  have hlisted (hless : request.demand.AsksNoMore stronger.demand) {st st' : SchedulerState}
      {views : ScheduleViews} {snapshot more : List Candidate} {d d' : PlacementDecision}
      (hmore : snapshot ⊆ more) (hd : (st.scheduleSecond stronger views snapshot).1 = .ok d)
      (hd' : (st'.scheduleSecond request views more).1 = .ok d') :
      d.eligible ⊆ d'.eligible := by
    intro id hid
    obtain ⟨c, hc, hcid, heligible⟩ := (mem_eligible_of_scheduleSecond hd id).mp hid
    exact (mem_eligible_of_scheduleSecond hd' id).mpr
      ⟨c, hmore hc, hcid, keeps_iff_asksNoMore.mpr hless c _ _ heligible⟩
  have hplaced (h : ∀ (st st' : SchedulerState) (views : ScheduleViews)
      (snapshot more : List Candidate) (d d' : PlacementDecision), snapshot ⊆ more →
      (st.scheduleSecond stronger views snapshot).1 = .ok d →
      (st'.scheduleSecond request views more).1 = .ok d' →
      d.producedPlan = true → d'.producedPlan = true) :
      request.demand.AsksNoMore stronger.demand := by
    refine keeps_iff_asksNoMore.mp ?_
    intro candidate dependency policy heligible
    -- two passes over this candidate alone
    let st := SchedulerState.initial Sample.config
    obtain ⟨d, hd⟩ := st.scheduleSecond_isOk stronger (.pure dependency policy) [candidate]
    obtain ⟨d', hd'⟩ := st.scheduleSecond_isOk request (.pure dependency policy) [candidate]
    exact (producedPlan_singleton_iff hd').mp (h st st _ _ _ d d' (List.Subset.refl _) hd hd'
      ((producedPlan_singleton_iff hd).mpr heligible))
  refine ⟨⟨fun hless _ _ _ _ _ _ _ => hlisted hless, ?_⟩, ⟨?_, hplaced⟩⟩
  · intro h
    refine hplaced ?_
    intro st st' views snapshot more d d' hmore hd hd' hplan
    rw [producedPlan_of_scheduleSecond hd] at hplan
    obtain ⟨id, hid⟩ := hplan
    exact (producedPlan_of_scheduleSecond hd').mpr
      ⟨id, h st st' views snapshot more d d' hmore hd hd' hid⟩
  · intro hless st st' views snapshot more d d' hmore hd hd' hplan
    obtain ⟨id, hid⟩ := (producedPlan_of_scheduleSecond hd).mp hplan
    exact (producedPlan_of_scheduleSecond hd').mpr ⟨id, hlisted hless hmore hd hd' hid⟩

end FabricScheduler
