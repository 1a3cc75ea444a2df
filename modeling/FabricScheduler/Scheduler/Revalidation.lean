import FabricScheduler.Scheduler.Execution
import FabricScheduler.Scheduler.Sections

/-!
# What a revalidation notices

A plan keeps a fingerprint of the generations it was decided on. The fingerprint has one
field for each evidence record, one for the resource and one for the capability of the
bindings, taken from the first of them, and none for the other generations of a binding.
-/

namespace FabricScheduler

/-- The generations of all evidence records agree. -/
structure Candidate.SameEvidence (c c' : Candidate) : Prop where
  topology : c.locality.topologyGeneration = c'.locality.topologyGeneration
  capacity : c.capacity.generation = c'.capacity.generation
  reservation : c.reservation.generation = c'.reservation.generation
  congestion : c.congestion.generation = c'.congestion.generation
  health : c.health.generation = c'.health.generation
  residency : c.residency.residencyGeneration = c'.residency.residencyGeneration
  communication : c.communication.planGeneration = c'.communication.planGeneration

/-- The generations of a binding that a fingerprint has a field for agree. -/
structure DeviceBinding.SameResource (b b' : DeviceBinding) : Prop where
  resource : b.resourceGeneration = b'.resourceGeneration
  capability : b.capabilityGeneration = b'.capabilityGeneration

/-- All generations of a binding agree. -/
structure DeviceBinding.SameGenerations (b b' : DeviceBinding) : Prop
    extends b.SameResource b' where
  device : b.deviceGeneration = b'.deviceGeneration
  node : b.nodeGeneration = b'.nodeGeneration
  memoryDomain : b.memoryDomainGeneration = b'.memoryDomainGeneration
  nic : b.nicGeneration = b'.nicGeneration
  storage : b.storageGeneration = b'.storageGeneration
  cpuDomain : b.cpuDomainGeneration = b'.cpuDomainGeneration

/-- The first bindings differ in a generation that a fingerprint has a field for. -/
def Candidate.FirstDiffers (c c' : Candidate) : Prop :=
  ∃ b ∈ c.bindings.head?, ∃ b' ∈ c'.bindings.head?, ¬b.SameResource b'

/-- A revalidation reports no change exactly when the fingerprints agree. -/
theorem revalidatePlan_changes {plan : PlacementPlan} {current : GenerationFingerprint} :
    (revalidatePlan plan current).changes = [] ↔ plan.generations = current := by
  simp only [revalidatePlan]
  generalize plan.generations = g
  cases g
  cases current
  simp

theorem revalidatePlan_current {plan : PlacementPlan} {current : GenerationFingerprint} :
    (revalidatePlan plan current).current = true ↔ plan.generations = current :=
  decide_eq_true_iff

section Fingerprint

variable {c c' : Candidate} {request : SchedulingRequest} {dep : Option DependencyView}
  {epoch : CoordinatorEpoch}

/-- Equal fingerprints come from evidence of equal generations. -/
theorem sameEvidence_of_makeFingerprint
    (h : makeFingerprint c request dep epoch = makeFingerprint c' request dep epoch) :
    c.SameEvidence c' where
  topology := congrArg GenerationFingerprint.topology h
  capacity := congrArg GenerationFingerprint.capacity h
  reservation := congrArg GenerationFingerprint.reservation h
  congestion := congrArg GenerationFingerprint.congestion h
  health := congrArg GenerationFingerprint.health h
  residency := congrArg GenerationFingerprint.residency h
  communication := congrArg GenerationFingerprint.communicationPlan h

/-- Equal fingerprints come from first bindings of equal resource and capability
generations. -/
theorem not_firstDiffers_of_makeFingerprint
    (h : makeFingerprint c request dep epoch = makeFingerprint c' request dep epoch) :
    ¬c.FirstDiffers c' := by
  rintro ⟨b, hb, b', hb', hne⟩
  obtain ⟨rest, hc⟩ := List.head?_eq_some_iff.mp hb
  obtain ⟨rest', hc'⟩ := List.head?_eq_some_iff.mp hb'
  have hresource := congrArg GenerationFingerprint.resource h
  have hcapability := congrArg GenerationFingerprint.capability h
  simp only [makeFingerprint, hc, hc'] at hresource hcapability
  exact hne ⟨hresource, hcapability⟩

/-- Evidence of equal generations and bindings of equal resource and capability generations
give equal fingerprints. -/
theorem makeFingerprint_eq (hevidence : c.SameEvidence c')
    (hbindings : List.Forall₂ DeviceBinding.SameResource c.bindings c'.bindings) :
    makeFingerprint c request dep epoch = makeFingerprint c' request dep epoch := by
  obtain ⟨htopology, hcapacity, hreservation, hcongestion, hhealth, hresidency,
    hcommunication⟩ := hevidence
  simp only [makeFingerprint, htopology, hcapacity, hreservation, hcongestion, hhealth,
    hresidency, hcommunication]
  generalize c.bindings = bs at hbindings
  generalize c'.bindings = bs' at hbindings
  cases hbindings with
  | nil => rfl
  | cons hb _ => simp only [hb.resource, hb.capability]

end Fingerprint

section Refreshed

variable (st : SchedulerState) (request : SchedulingRequest) (views : ScheduleViews)
  (snapshot : List Candidate) (winner : RankedEntry) (others : List RankedEntry)

theorem generations_storedPlan :
    (st.storedPlan request views snapshot winner others).generations =
      makeFingerprint winner.candidate request views.planDependency st.epoch := rfl

/-- The plan of a winner is revalidated against the fingerprint of a candidate. -/
def revalidateAgainst (c' : Candidate) : RevalidationResult :=
  revalidatePlan (st.storedPlan request views snapshot winner others)
    (makeFingerprint c' request views.planDependency st.epoch)

/-- A plan is stale against a refreshed candidate, and a change is reported, when the
generation of an evidence record differs, or the resource or the capability generation of
the first binding. It is current when only generations differ that the fingerprint has no
field for. -/
theorem revalidate_refreshed (c' : Candidate) :
    (¬winner.candidate.SameEvidence c' ∨ winner.candidate.FirstDiffers c' →
      (revalidateAgainst st request views snapshot winner others c').current = false ∧
        (revalidateAgainst st request views snapshot winner others c').changes ≠ []) ∧
    (winner.candidate.SameEvidence c' →
      List.Forall₂ DeviceBinding.SameResource winner.candidate.bindings c'.bindings →
      (revalidateAgainst st request views snapshot winner others c').current = true ∧
        (revalidateAgainst st request views snapshot winner others c').changes = []) := by
  have hgenerations := generations_storedPlan st request views snapshot winner others
  constructor
  · intro hdiffers
    have hne : makeFingerprint winner.candidate request views.planDependency st.epoch ≠
        makeFingerprint c' request views.planDependency st.epoch := by
      intro heq
      rcases hdiffers with hevidence | hfirst
      · exact hevidence (sameEvidence_of_makeFingerprint heq)
      · exact not_firstDiffers_of_makeFingerprint heq hfirst
    rw [← hgenerations] at hne
    exact ⟨Bool.eq_false_iff.mpr (mt revalidatePlan_current.mp hne),
      mt revalidatePlan_changes.mp hne⟩
  · intro hevidence hbindings
    have heq := hgenerations.trans (makeFingerprint_eq hevidence hbindings)
    exact ⟨revalidatePlan_current.mpr heq, revalidatePlan_changes.mpr heq⟩

end Refreshed

/-- A candidate with one device at the given generations. -/
def Sample.deviceCandidate (deviceGeneration : DeviceGeneration)
    (resourceGeneration : ResourceGeneration) : Candidate :=
  { Sample.candidate ⟨1⟩ ⟨1⟩ with
    bindings := [{
      deviceId := ⟨1⟩, deviceGeneration, resourceId := ⟨1⟩, resourceGeneration, nodeId := ⟨1⟩
      nodeGeneration := ⟨1⟩, memoryDomainId := ⟨1⟩, memoryDomainGeneration := ⟨1⟩, nicId := ⟨1⟩
      nicGeneration := ⟨1⟩, storageId := ⟨1⟩, storageGeneration := ⟨1⟩, cpuDomainId := ⟨1⟩
      cpuDomainGeneration := ⟨1⟩, pcieRoot := [], sharesPcieRoot := false, capability := .cuda
      cudaCompatibility := 0, capabilityCurrent := true, capabilityGeneration := ⟨1⟩ }] }

/-- The winner of a pass over that candidate. -/
def Sample.deviceWinner : RankedEntry :=
  ⟨rankerEvaluate (request ⟨1⟩) (deviceCandidate ⟨1⟩ ⟨1⟩) config.rankOptions,
    deviceCandidate ⟨1⟩ ⟨1⟩⟩

/-- The resource has advanced: the plan is stale. -/
theorem revalidate_refreshed_resource :
    (revalidateAgainst (System.initial Sample.config).sched (Sample.request ⟨1⟩)
      (.pure none none) [Sample.deviceCandidate ⟨1⟩ ⟨1⟩] Sample.deviceWinner []
      (Sample.deviceCandidate ⟨1⟩ ⟨2⟩)).current = false := by
  refine ((revalidate_refreshed _ _ _ _ Sample.deviceWinner _ _).1 (.inr ?_)).1
  refine ⟨_, rfl, _, rfl, fun h => ?_⟩
  have hgeneration := h.resource
  simp at hgeneration

/-- The device has advanced: the plan is still current. -/
theorem not_revalidate_refreshed : ¬∀ (st : SchedulerState) (request : SchedulingRequest)
    (views : ScheduleViews) (snapshot : List Candidate) (winner : RankedEntry)
    (others : List RankedEntry) (c' : Candidate),
    c'.candidateId = winner.candidate.candidateId →
    ¬(winner.candidate.SameEvidence c' ∧
      List.Forall₂ DeviceBinding.SameGenerations winner.candidate.bindings c'.bindings) →
    (revalidateAgainst st request views snapshot winner others c').current = false ∧
      (revalidateAgainst st request views snapshot winner others c').changes ≠ [] := by
  intro h
  have hstale := (h (System.initial Sample.config).sched (Sample.request ⟨1⟩) (.pure none none)
    [Sample.deviceCandidate ⟨1⟩ ⟨1⟩] Sample.deviceWinner [] (Sample.deviceCandidate ⟨2⟩ ⟨1⟩)
    rfl ?_).1
  · have hevidence : (Sample.deviceCandidate ⟨1⟩ ⟨1⟩).SameEvidence
        (Sample.deviceCandidate ⟨2⟩ ⟨1⟩) := ⟨rfl, rfl, rfl, rfl, rfl, rfl, rfl⟩
    refine Bool.eq_false_iff.mp hstale (revalidatePlan_current.mpr ?_)
    exact (generations_storedPlan ..).trans
      (makeFingerprint_eq hevidence (.cons ⟨rfl, rfl⟩ .nil))
  · rintro ⟨_, hbindings⟩
    cases hbindings with
    | cons hb _ =>
        have hgeneration := hb.device
        simp at hgeneration

end FabricScheduler
