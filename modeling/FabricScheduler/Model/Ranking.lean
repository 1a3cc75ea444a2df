import FabricScheduler.Model.Candidate

/-!
# Deterministic ranking

Each eligible candidate is scored by a weighted sum of named cost factors, lower being
better, and candidates are compared by score and then by the documented tie-break chain.
-/

namespace FabricScheduler

/-- A named ranking factor with its value, weight and provenance. -/
structure RankFactor (ν : Type) where
  kind : RankFactorKind
  value : ν
  weight : Double
  provenance : Provenance
  description : Bytes
  deriving DecidableEq, Repr

/-- The weight of every factor. -/
structure RankingWeights where
  weight : RankFactorKind → Double

/-- The weights a default-constructed configuration carries. -/
def RankingWeights.default : RankingWeights where
  weight
    | .acceleratorFit => .zero
    | .resourceHeadroom => .one
    | .vramHeadroom => .one
    | .cpuHeadroom => .one
    | .pinnedMemoryHeadroom => .one
    | .topologyLocality => .two
    | .numaLocality => .two
    | .pcieLocality => .two
    | .nicLocality => .oneAndHalf
    | .storageLocality => .oneAndHalf
    | .communicationCost => .three
    | .congestionPenalty => .twoAndHalf
    | .residualBandwidth => .one
    | .modelResidency => .three
    | .adapterResidency => .two
    | .reusableStateLocality => .two
    | .checkpointMovementCost => .two
    | .startupCost => .one
    | .reservationFit => .two
    | .failureDomainDiversification => .oneAndHalf
    | .healthMargin => .two
    | .energyPower => .half
    | .fragmentationImpact => .one
    | .externalPriority => .one
    | .migrationRecomputeCost => .one
    | .estimatedQueueing => .one
    | .policyPreference => .one

/-- Options that parameterize ranking; only the weights are consulted. -/
structure RankOptions where
  weights : RankingWeights

/-- The ranked output for one candidate. -/
structure RankedCandidate (ν : Type) where
  candidateId : CandidateId
  candidateGeneration : CandidateGeneration
  score : ν
  factors : List (RankFactor ν)
  unknownCount : UInt32
  evidenceStrength : UInt8
  movementCost : ν
  headroomCost : ν
  congestionCost : ν
  localResources : UInt32
  deterministic : Bool

/-- Evidence strength of a provenance, higher being better. -/
def provenanceStrength : Provenance → UInt8
  | .measured => 6
  | .reported => 5
  | .derived => 4
  | .estimated => 3
  | .forecast => 2
  | .synthetic => 1
  | .unknown => 0

/-- The reference movement of eight GiB. -/
def moveNormalizer : UInt64 := (8 : UInt64) <<< 30

section

variable {ν : Type} [CostArith ν]

open CostArith

def clamp01 (v : ν) : ν :=
  if lt v (ofDouble .zero) then ofDouble .zero
  else if lt (ofDouble .one) v then ofDouble .one
  else v

def ratioOrOne (need avail : Nat) : ν :=
  if avail = 0 then ofDouble .one else clamp01 (div (ofNat need) (ofNat avail))

def distanceNorm (d : UInt32) (divisor : Double) : ν :=
  clamp01 (div (ofNat d.toNat) (ofDouble divisor))

/-- The documented tie-break chain: lower score, fewer unknowns, stronger evidence, lower
movement cost, more headroom, lower congestion, more local resources, smaller id. -/
def rankComparator (a b : RankedCandidate ν) : Bool :=
  if !eq a.score b.score then lt a.score b.score
  else if a.unknownCount != b.unknownCount then a.unknownCount < b.unknownCount
  else if a.evidenceStrength != b.evidenceStrength then
    b.evidenceStrength < a.evidenceStrength
  else if !eq a.movementCost b.movementCost then lt a.movementCost b.movementCost
  else if !eq a.headroomCost b.headroomCost then lt a.headroomCost b.headroomCost
  else if !eq a.congestionCost b.congestionCost then lt a.congestionCost b.congestionCost
  else if a.localResources != b.localResources then b.localResources < a.localResources
  else a.candidateId < b.candidateId

/-- The VRAM a demand needs in total; the product wraps at 64 bits. -/
def requiredVram (accel : AcceleratorRequirement) : UInt64 :=
  if 0 < accel.aggregateVram then accel.aggregateVram
  else accel.vramPerDevice * accel.minimumCount.toUInt64

/-- The cost of a resource that is not resident, by whether bytes must move. -/
def nonResidentCost (moveBytes : UInt64) : ν :=
  if 0 < moveBytes then ofDouble .one else ofDouble .half

/-- `Ranker::compute_factor`: the value, provenance and description of one factor. -/
def computeFactor (kind : RankFactorKind) (request : SchedulingRequest) (c : Candidate) :
    ν × Provenance × Bytes :=
  let demand := request.demand
  let cap := c.capacity
  let loc := c.locality
  let comm := c.communication
  let res := c.residency
  match kind with
  | .acceleratorFit =>
      (ratioOrOne (requiredVram demand.accelerator).toNat cap.vramAvailable.toNat,
        cap.provenance, text "VRAM fit ratio (need/available)")
  | .resourceHeadroom =>
      let cpu : ν := ratioOrOne demand.cpuRequired.toNat cap.cpuAvailable.toNat
      let hm : ν := ratioOrOne demand.memory.hostMemory.toNat cap.hostMemoryAvailable.toNat
      (if lt cpu hm then hm else cpu,
        cap.provenance, text "aggregate CPU/host-memory demand ratio")
  | .vramHeadroom =>
      (ratioOrOne (requiredVram demand.accelerator).toNat cap.vramAvailable.toNat,
        cap.provenance, text "VRAM headroom ratio (need/available)")
  | .cpuHeadroom =>
      (ratioOrOne demand.cpuRequired.toNat cap.cpuAvailable.toNat,
        cap.provenance, text "CPU headroom ratio")
  | .pinnedMemoryHeadroom =>
      (ratioOrOne demand.memory.pinnedMemory.toNat cap.pinnedMemoryAvailable.toNat,
        cap.provenance, text "pinned-memory headroom ratio")
  | .topologyLocality =>
      -- The sum of the two distances is formed as a double and truncated to 32 bits.
      let d : ν := add (ofNat loc.numaDistance.toNat) (ofNat loc.pcieHops.toNat)
      let v : ν := distanceNorm (toU32 d) .eight
      (clamp01 (add v (ofDouble (if loc.sharesPcieRoot then .quarter else .zero))),
        loc.provenance, text "topology distance (NUMA+PCIe hops)")
  | .numaLocality =>
      (distanceNorm loc.numaDistance .four, loc.provenance, text "NUMA distance")
  | .pcieLocality =>
      let v : ν := distanceNorm loc.pcieHops .eight
      (clamp01 (add v (ofDouble (if loc.sharesPcieRoot then .half else .zero))),
        loc.provenance, text "PCIe hops / shared-root penalty")
  | .nicLocality =>
      (distanceNorm loc.nicDistance .four, loc.provenance, text "NIC distance")
  | .storageLocality =>
      (distanceNorm loc.storageDistance .four, loc.provenance, text "storage distance")
  | .communicationCost =>
      (clamp01 (add (add (ofDouble comm.estimatedCost) (ofDouble comm.derivedPathCost))
          (ofDouble comm.collectiveCost)),
        comm.provenance, text "communication cost (estimated+derived+collective)")
  | .congestionPenalty =>
      (clamp01 (ofDouble c.congestion.congestion),
        c.congestion.provenance, text "congestion penalty")
  | .residualBandwidth =>
      (clamp01 (sub (ofDouble .one) (ofDouble c.congestion.residualBandwidth)),
        c.congestion.provenance, text "inverse residual bandwidth")
  | .modelResidency =>
      (if res.modelResident then ofDouble .zero else nonResidentCost res.moveBytes,
        res.provenance, text "model residency / movement")
  | .adapterResidency =>
      (if res.adapterResident then ofDouble .zero else nonResidentCost res.moveBytes,
        res.provenance, text "adapter residency / movement")
  | .reusableStateLocality =>
      (if res.stateLocal then ofDouble .zero else ofDouble .one,
        res.provenance, text "reusable state locality")
  | .checkpointMovementCost =>
      let normalizer :=
        if 0 < demand.maximumMovementCost then demand.maximumMovementCost else moveNormalizer
      (clamp01 (div (ofNat res.moveBytes.toNat) (ofNat normalizer.toNat)),
        res.provenance, text "checkpoint/state movement cost")
  | .startupCost =>
      (if 0 < res.moveBytes then ofDouble .tenth else ofDouble .zero,
        res.provenance, text "startup/reload cost")
  | .reservationFit =>
      (clamp01 (div (ofNat c.reservation.reservedBytes.toNat)
          (ofNat (max 1 cap.vramTotal.toNat))),
        c.reservation.provenance, text "reservation pressure")
  | .failureDomainDiversification =>
      (ofDouble .zero, .synthetic, text "per-candidate failure-domain cost (plan-level)")
  | .healthMargin =>
      (clamp01 (sub (ofDouble .one) (ofDouble c.health.healthScore)),
        c.health.provenance, text "health margin (1 - health score)")
  | .energyPower =>
      (ofDouble .zero, .unknown, text "energy/power (not modeled; external evidence only)")
  | .fragmentationImpact =>
      (ofDouble .zero, .synthetic, text "expected fragmentation impact (plan-level)")
  | .externalPriority =>
      (ofDouble .zero, .reported, text "external priority (uniform across candidates)")
  | .migrationRecomputeCost =>
      (if 0 < res.moveBytes then
          clamp01 (div (ofNat res.moveBytes.toNat) (ofNat moveNormalizer.toNat))
        else ofDouble .zero,
        res.provenance, text "migration/recompute cost")
  | .estimatedQueueing =>
      (clamp01 (mul (ofDouble c.congestion.congestion) (ofDouble .half)),
        c.congestion.provenance, text "estimated queueing pressure")
  | .policyPreference =>
      (ofDouble .zero, .reported, text "policy preference (uniform per policy gate)")

/-- The running totals of `Ranker::evaluate`. -/
structure RankTotals (ν : Type) where
  factors : List (RankFactor ν)
  total : ν
  minStrength : UInt8
  unknown : UInt32
  moveCost : ν
  headroom : ν

/-- The factors that count as headroom. -/
def isHeadroomFactor : RankFactorKind → Bool
  | .resourceHeadroom | .vramHeadroom | .cpuHeadroom | .pinnedMemoryHeadroom => true
  | _ => false

/-- The loop body of `Ranker::evaluate` for one factor. -/
def accumulateFactor (request : SchedulingRequest) (candidate : Candidate)
    (options : RankOptions) (t : RankTotals ν) (kind : RankFactorKind) : RankTotals ν :=
  let weight := options.weights.weight kind
  let (value, prov, desc) := computeFactor (ν := ν) kind request candidate
  let strength := provenanceStrength prov
  { factors := t.factors ++ [⟨kind, value, weight, prov, desc⟩]
    total := add t.total (mul (ofDouble weight) value)
    minStrength := if strength < t.minStrength then strength else t.minStrength
    unknown := if prov = .unknown then t.unknown + 1 else t.unknown
    moveCost := if kind = .checkpointMovementCost then add t.moveCost value else t.moveCost
    headroom := if isHeadroomFactor kind then add t.headroom value else t.headroom }

/-- `Ranker::evaluate`. -/
def rankerEvaluate (request : SchedulingRequest) (candidate : Candidate)
    (options : RankOptions) : RankedCandidate ν :=
  let t := rankFactorOrder.foldl (accumulateFactor request candidate options)
    ⟨[], ofDouble .zero, 255, 0, ofDouble .zero, ofDouble .zero⟩
  { candidateId := candidate.candidateId
    candidateGeneration := candidate.candidateGeneration
    score := t.total
    factors := t.factors
    unknownCount := t.unknown
    evidenceStrength := if t.minStrength = 255 then 0 else t.minStrength
    movementCost := t.moveCost
    headroomCost := t.headroom
    congestionCost := clamp01 (ofDouble candidate.congestion.congestion)
    localResources := .ofNat (candidate.bindings.countP fun b =>
      b.memoryDomainId.isValid && candidate.locality.numaDistance == 0)
    deterministic := t.unknown == 0 }

end

end FabricScheduler
