import FabricScheduler.Library.Enumeration

/-!
# Enumerations, texts and errors

Enumerations list their members in declaration order, which is the order of their
numeric codes on the wire and on disk. Character strings are byte strings: nothing in
the runtime requires them to be well-formed text.
-/

namespace FabricScheduler

/-- A character string as stored and transmitted. -/
abbrev Bytes := List UInt8

/-- The bytes of a literal text. -/
def text (s : String) : Bytes := s.toUTF8.toList

/-- The decimal rendering of an ordinal. -/
def decimal (n : UInt64) : Bytes := text (toString n.toNat)

private theorem toList_loop (bs : ByteArray) (i : Nat) (r : List UInt8) :
    ByteArray.toList.loop bs i r = r.reverse ++ bs.data.toList.drop i := by
  fun_induction ByteArray.toList.loop bs i r with
  | case1 i r hlt ih =>
      have hlen : i < bs.data.toList.length := hlt
      have hget : bs.get! i = bs.data.toList[i] := getElem!_pos bs.data i hlt
      rw [ih, List.drop_eq_getElem_cons hlen, hget, List.reverse_cons, List.append_assoc,
        List.singleton_append]
  | case2 i r hle =>
      have hnil : bs.data.toList.drop i = [] := List.drop_eq_nil_of_le (Nat.le_of_not_lt hle)
      rw [hnil, List.append_nil]

private theorem text_eq (s : String) : text s = s.toByteArray.data.toList :=
  toList_loop s.toByteArray 0 []

/-- Literal texts with the same bytes are the same. -/
theorem text_injective : Function.Injective text := by
  intro s t h
  rw [text_eq, text_eq] at h
  exact String.toByteArray_inj.mp (ByteArray.ext (Array.toList_inj.mp h))

/-- An ordinal is read off its decimal rendering. -/
theorem decimal_injective : Function.Injective decimal := by
  intro m n h
  have hstring : toString m.toNat = toString n.toNat := text_injective h
  rw [Nat.toString_eq_ofList_toDigits, Nat.toString_eq_ofList_toDigits] at hstring
  have hdigits := congrArg (Nat.ofDigitChars 10 · 0) (String.ofList_injective hstring)
  simp only [Nat.ofDigitChars_ten_toDigits] at hdigits
  exact UInt64.toNat_inj.mp hdigits

theorem length_text_ofList_le (l : List Char) : (text (String.ofList l)).length ≤ 4 * l.length := by
  rw [text_eq, String.toByteArray_ofList, List.utf8Encode, Array.length_toList]
  change (l.flatMap String.utf8EncodeChar).toByteArray.size ≤ _
  rw [List.size_toByteArray]
  induction l with
  | nil => exact Nat.le_refl 0
  | cons c l ih =>
      have hchar := c.utf8Size_le_four
      rw [List.flatMap_cons, List.length_append, List.length_cons, String.length_utf8EncodeChar]
      omega

/-- An ordinal has at most twenty digits, of at most four bytes each. -/
theorem length_decimal_le (n : UInt64) : (decimal n).length ≤ 80 := by
  have hdigits : (Nat.toDigits 10 n.toNat).length ≤ 20 :=
    (Nat.length_toDigits_le_iff (by decide) (by decide)).mpr
      (Nat.lt_trans n.toNat_lt (by decide))
  have hbytes := length_text_ofList_le (Nat.toDigits 10 n.toNat)
  rw [decimal, Nat.toString_eq_ofList_toDigits]
  omega

/-- How a component of evidence was obtained. -/
inductive Provenance
  | measured | reported | derived | estimated | forecast | synthetic | unknown
  deriving DecidableEq, Repr

instance : Enumeration Provenance where
  all := [.measured, .reported, .derived, .estimated, .forecast, .synthetic, .unknown]
  nodup := by decide
  complete a := by cases a <;> decide

/-- The kinds of scarce resource a candidate consumes. -/
inductive ResourceKind
  | accelerator | cpuCore | hostMemory | pinnedMemory | nic | storage | linkBandwidth
  | modelResidency
  deriving DecidableEq, Repr

instance : Enumeration ResourceKind where
  all := [.accelerator, .cpuCore, .hostMemory, .pinnedMemory, .nic, .storage,
    .linkBandwidth, .modelResidency]
  nodup := by decide
  complete a := by cases a <;> decide

/-- The named ranking factors. -/
inductive RankFactorKind
  | acceleratorFit | resourceHeadroom | vramHeadroom | cpuHeadroom | pinnedMemoryHeadroom
  | topologyLocality | numaLocality | pcieLocality | nicLocality | storageLocality
  | communicationCost | congestionPenalty | residualBandwidth | modelResidency
  | adapterResidency | reusableStateLocality | checkpointMovementCost | startupCost
  | reservationFit | failureDomainDiversification | healthMargin | energyPower
  | fragmentationImpact | externalPriority | migrationRecomputeCost | estimatedQueueing
  | policyPreference
  deriving DecidableEq, Repr

/-- The canonical factor order `kRankFactorOrder`, which is the declaration order. -/
def rankFactorOrder : List RankFactorKind :=
  [.acceleratorFit, .resourceHeadroom, .vramHeadroom, .cpuHeadroom, .pinnedMemoryHeadroom,
    .topologyLocality, .numaLocality, .pcieLocality, .nicLocality, .storageLocality,
    .communicationCost, .congestionPenalty, .residualBandwidth, .modelResidency,
    .adapterResidency, .reusableStateLocality, .checkpointMovementCost, .startupCost,
    .reservationFit, .failureDomainDiversification, .healthMargin, .energyPower,
    .fragmentationImpact, .externalPriority, .migrationRecomputeCost, .estimatedQueueing,
    .policyPreference]

instance : Enumeration RankFactorKind where
  all := rankFactorOrder
  nodup := by decide
  complete a := by cases a <;> decide

/-- Capability class of an accelerator. -/
inductive AcceleratorClass
  | none | cuda | rocm | metal | vulkan | noneRequired
  deriving DecidableEq, Repr

instance : Enumeration AcceleratorClass where
  all := [.none, .cuda, .rocm, .metal, .vulkan, .noneRequired]
  nodup := by decide
  complete a := by cases a <;> decide

/-- Communication pattern of a workload. -/
inductive CommunicationPattern
  | none | pointToPoint | allReduce | allGather | reduceScatter | allToAll | broadcast
  | gather | scatter
  deriving DecidableEq, Repr

instance : Enumeration CommunicationPattern where
  all := [.none, .pointToPoint, .allReduce, .allGather, .reduceScatter, .allToAll,
    .broadcast, .gather, .scatter]
  nodup := by decide
  complete a := by cases a <;> decide

/-- Latency sensitivity of a workload. -/
inductive LatencySensitivity
  | low | medium | high | critical
  deriving DecidableEq, Repr

instance : Enumeration LatencySensitivity where
  all := [.low, .medium, .high, .critical]
  nodup := by decide
  complete a := by cases a <;> decide

/-- The localities a fallback may substitute. -/
inductive LocalityKind
  | numa | pcie | nic | storage | topology
  deriving DecidableEq, Repr

instance : Enumeration LocalityKind where
  all := [.numa, .pcie, .nic, .storage, .topology]
  nodup := by decide
  complete a := by cases a <;> decide

/-- Outcome of the hard constraint filter. -/
inductive EligibilityStatus
  | eligible | rejectCapacity | rejectMemory | rejectContiguity | rejectCapability
  | rejectHealth | rejectTopology | rejectNuma | rejectPcie | rejectNetwork | rejectStorage
  | rejectReservation | rejectDependency | rejectCompatibility | rejectFailureDomain
  | rejectPolicy | revalidationRequired | insufficientEvidence | unknown
  deriving DecidableEq, Repr

instance : Enumeration EligibilityStatus where
  all := [.eligible, .rejectCapacity, .rejectMemory, .rejectContiguity, .rejectCapability,
    .rejectHealth, .rejectTopology, .rejectNuma, .rejectPcie, .rejectNetwork,
    .rejectStorage, .rejectReservation, .rejectDependency, .rejectCompatibility,
    .rejectFailureDomain, .rejectPolicy, .revalidationRequired, .insufficientEvidence,
    .unknown]
  nodup := by decide
  complete a := by cases a <;> decide

/-- The codes of `FabricError` raised by the modelled operations. -/
inductive ErrorCode
  | invalidArgument | invalidDemand | nonFinite | overflow | invalidCountRange
  | impossibleDuration | malformedLocalityConstraint | illegalLifecycleTransition
  | staleAuthority | unknownState | unsupportedVersion | corruption | protocolError
  | malformedFrame | oversizedFrame | checksumMismatch | truncation
  deriving DecidableEq, Repr

/-- A thrown error: its code and message. -/
structure FabricError where
  code : ErrorCode
  message : Bytes
  deriving DecidableEq, Repr

/-- Throw an error with a literal message. -/
def fail {α : Type} (code : ErrorCode) (message : String) : Except FabricError α :=
  .error ⟨code, text message⟩

end FabricScheduler
