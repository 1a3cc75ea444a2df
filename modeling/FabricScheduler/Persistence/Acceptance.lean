import FabricScheduler.Persistence.File
import FabricScheduler.Scheduler.Execution

/-!
# What is loaded is well formed

Every reader of a record yields only values that pass the reader's checks. The loader
collects these facts over its lists, adds what it checks across records, and leaves no byte
of the payload unread.
-/

namespace FabricScheduler

open Decoder

/-- What the loader guarantees of the state it returns. -/
structure Persisted.Sound (p : Persisted) : Prop where
  epoch : p.epoch.isValid = true
  requests : (p.requests.map SchedulingRequest.requestId).Nodup
  plans : (p.plans.map PlacementPlan.planId).Nodup
  candidateIdentities : (p.candidateIdentities.map CandidateIdentity.candidateId).Nodup
  numbered : ∀ q ∈ p.plans, q.planId.value < p.nextPlanId
  selected : ∀ q ∈ p.plans, ∃ c ∈ p.candidateIdentities, c.candidateId = q.selectedCandidate
  evident : ∀ q ∈ p.plans, q.state.isAuthoritative = true → q.hasCommitmentEvidence = true
  valid : ∀ r ∈ p.requests, r.demand.validate = .ok ()
  finite : ∀ q ∈ p.plans, ∀ f ∈ q.selectedFactors, f.value.isFinite = true

/-- A demand is yielded only when it is valid. -/
theorem yields_decDemand : decDemand.Yields fun d => d.validate = .ok () := by
  -- the fields before the validation
  iterate 41 refine .skip fun _ => ?_
  exact yields_check.bind fun _ h => yields_pure h

theorem yields_decRequest : decRequest.Yields fun r => r.demand.validate = .ok () :=
  .skip fun _ => .skip fun _ => .skip fun _ => .skip fun _ => .skip fun _ => .skip fun _ =>
    yields_decDemand.bind fun _ h => yields_pure h

/-- A factor is yielded only when its value is finite. -/
theorem yields_decFactor : decFactor.Yields fun f => f.value.isFinite = true :=
  .skip fun _ => .skip fun _ => .skip fun _ => .skip fun _ => .skip fun _ => .skip fun _ =>
    yields_ensure.bind fun _ h => yields_pure h

theorem yields_getList {α : Type} {dec : ByteReader α} {P : α → Prop} (h : dec.Yields P) :
    (getList dec).Yields fun l => ∀ a ∈ l, P a :=
  .skip fun n => yields_many h n

theorem yields_decPlan :
    decPlan.Yields fun q => ∀ f ∈ q.selectedFactors, f.value.isFinite = true := by
  iterate 14 refine .skip fun _ => ?_
  refine (yields_getList yields_decFactor).bind fun factors hfinite => ?_
  iterate 10 refine .skip fun _ => ?_
  exact yields_pure hfinite

theorem yields_getDistinct {α κ : Type} [DecidableEq κ] {key : α → κ} {duplicate : String}
    {dec : ByteReader α} {P : α → Prop} (h : dec.Yields P) :
    (getDistinct key duplicate dec).Yields fun l => (l.map key).Nodup ∧ ∀ a ∈ l, P a :=
  .skip fun n s l rest hl =>
    have hl := yields_distinct h n [] s l rest hl
    ⟨hl.1.1, hl.2⟩

/-- The records of a payload are sound when they pass the checks against each other. -/
theorem yields_loadRecords (formatVersion : UInt32) :
    (loadRecords formatVersion).Yields fun p =>
      (checkPlans p.candidateIdentities p.plans = .ok () → p.Sound) ∧
        p.formatVersion = formatVersion := by
  refine .skip fun epoch => .skip fun authority => .skip fun nextPlanId => .skip fun _ =>
    .skip fun _ => .skip fun _ => yields_ensure.bind fun _ hepoch => ?_
  refine (yields_getDistinct yields_decRequest).bind fun requests hrequests => ?_
  refine (yields_getDistinct yields_decPlan).bind fun plans hplans => ?_
  refine yields_ensure.bind fun _ hnext => ?_
  refine (yields_getDistinct fun _ _ _ _ => trivial).bind fun candidateIdentities hids => ?_
  refine .skip fun history => .skip fun cancelled => yields_pure ⟨?_, rfl⟩
  intro hchecked
  have hplan := fun q hq => checkPlan_ok_iff.mp (checkPlans_ok_iff.mp hchecked q hq)
  exact ⟨hepoch, hrequests.1, hplans.1, hids.1, (maxPlan_lt_iff.mp hnext).2,
    fun q hq => (hplan q hq).1, fun q hq => (hplan q hq).2, hrequests.2, hplans.2⟩

/-- A payload that is accepted holds a sound state. -/
theorem yields_loadPayload (formatVersion : UInt32) : (loadPayload formatVersion).Yields fun p =>
    p.Sound ∧ p.formatVersion = formatVersion := by
  refine (yields_loadRecords formatVersion).bind fun p hp => ?_
  exact yields_check.bind fun _ hchecked => yields_pure ⟨hp.1 hchecked, hp.2⟩

/-- An 8-bit code that names no value of its enumeration is refused. -/
theorem getEnum_undeclared {α : Type} [Enumeration α] {code : UInt8}
    (h : Enumeration.ofCode? code.toNat = (none : Option α)) (message : String) (rest : Bytes) :
    (getEnum message : ByteReader α) (code :: rest) = .error ⟨.corruption, text message⟩ := by
  have hread : getU8 (code :: rest) = .ok (code, rest) := getU8_ok.mpr rfl
  rw [getEnum, bind_eq hread, h]
  rfl

/-- A code that names no kind of factor is refused. -/
theorem decFactor_undeclared {code : UInt16}
    (h : Enumeration.ofCode? code.toNat = (none : Option RankFactorKind)) (rest : Bytes) :
    decFactor (putU16 code ++ rest) = .error ⟨.corruption, text "invalid rank factor kind"⟩ := by
  rw [decFactor, bind_eq (reads_getU16 code rest), h]
  rfl

/-- The loader accepts only files that hold a sound state and nothing else in their
payload; a code that no enumeration value has is refused wherever one is read. -/
theorem persistLoad_sound :
    (∀ (input : Bytes) (p : Persisted), persistLoad input = .ok p → p.Sound ∧
      ∃ payload rest, loadFrame input = .ok ((p.formatVersion, payload), rest) ∧
        loadPayload p.formatVersion payload = .ok (p, [])) ∧
    (∀ (α : Type) [Enumeration α] (message : String) (code : UInt8) (rest : Bytes),
      Enumeration.ofCode? code.toNat = (none : Option α) →
      getEnum message (code :: rest) = (.error ⟨.corruption, text message⟩ : Except _ (α × _))) ∧
    ∀ (code : UInt16) (rest : Bytes),
      Enumeration.ofCode? code.toNat = (none : Option RankFactorKind) →
      decFactor (putU16 code ++ rest) = .error ⟨.corruption, text "invalid rank factor kind"⟩ := by
  refine ⟨?_, fun α _ message code rest h => getEnum_undeclared h message rest,
    fun code rest h => decFactor_undeclared h rest⟩
  intro input p hload
  rw [persistLoad] at hload
  split at hload
  · rename_i version payload rest hframe
    have hpayload := whole_ok.mp hload
    obtain ⟨hsound, rfl⟩ := yields_loadPayload version _ _ _ hpayload
    exact ⟨hsound, payload, rest, hframe, hpayload⟩
  · cases hload

/-- The file of a scheduler with one candidate is loaded. -/
theorem persistLoad_sound_ingested : ∃ p : Persisted,
    p.candidateIdentities.map CandidateIdentity.candidateId = [⟨1⟩] ∧ p.Sound := by
  have hfile : (System.after Sample.config System.NoRestore
      [.ingestCandidate (Sample.candidate ⟨1⟩ ⟨1⟩)]).map (fun t =>
        ((persistLoad (persistSave [] t.sched.snapshot)).toOption.map fun p =>
          p.candidateIdentities.map CandidateIdentity.candidateId)) = some (some [⟨1⟩]) := by
    decide +kernel
  obtain ⟨t, _, hload⟩ := Option.map_eq_some_iff.mp hfile
  obtain ⟨p, hp, hids⟩ := Option.map_eq_some_iff.mp hload
  refine ⟨p, hids, (persistLoad_sound.1 (persistSave [] t.sched.snapshot) p ?_).1⟩
  cases hread : persistLoad (persistSave [] t.sched.snapshot) with
  | ok q =>
      rw [hread] at hp
      exact congrArg Except.ok (Option.some.inj hp)
  | error e =>
      rw [hread] at hp
      cases hp

end FabricScheduler
