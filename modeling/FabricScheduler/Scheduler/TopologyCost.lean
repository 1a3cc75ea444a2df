import FabricScheduler.Core.ExactCost
import FabricScheduler.Model.CostBounds
import FabricScheduler.Scheduler.Execution

/-!
# The topology cost and the conversion in it

The sum of the two distances is formed as a double and converted back to a 32-bit word. The
conversion truncates what fits a word and promises nothing of the rest, so the cost is what
it is meant to be exactly if the distances have a 32-bit sum.
-/

namespace FabricScheduler

open Double
open Binary64 (real Exact)

namespace Double

/-- A conversion to 32-bit words that truncates every number whose integer part is a word. Of
other doubles nothing is promised. -/
def Truncates (conv : Double → UInt32) : Prop :=
  ∀ d x, d.number = some (real x) → -1 < x → x < 2 ^ 32 → (conv d).toNat = ⌊x⌋₊

/-- Binary64 arithmetic with a given conversion to 32-bit words. -/
@[reducible] def arithmetic (conv : Double → UInt32) : CostArith Double where
  ofDouble := CostArith.ofDouble
  ofNat := CostArith.ofNat
  add := CostArith.add
  sub := CostArith.sub
  mul := CostArith.mul
  div := CostArith.div
  lt := CostArith.lt
  eq := CostArith.eq
  toU32 := conv

/-- The conversion that keeps the low 32 bits of the integer part. -/
def wrapU32 (d : Double) : UInt32 := .ofNat ⌊d.toRat⌋₊

end Double

namespace Candidate

variable (c : Candidate)

/-- The sum of the two distances, as it is formed before the conversion. -/
def distanceSum : Double :=
  CostArith.add (CostArith.ofNat c.locality.numaDistance.toNat)
    (CostArith.ofNat c.locality.pcieHops.toNat)

/-- The candidate at other distances. -/
def withDistances (numaDistance pcieHops : UInt32) : Candidate :=
  { c with locality := { c.locality with numaDistance, pcieHops } }

/-- The cost the topology factor is meant to have, without rounding. -/
def exactTopologyCost : ℚ :=
  min 1 (min 1 ((c.locality.numaDistance.toNat + c.locality.pcieHops.toNat : ℚ) / 8) +
    if c.locality.sharesPcieRoot then 1 / 4 else 0)

end Candidate

/-- The topology factor of a candidate under a conversion. -/
def topologyCost (conv : Double → UInt32) (request : SchedulingRequest) (c : Candidate) :
    Double :=
  (@computeFactor Double (Double.arithmetic conv) .topologyLocality request c).1

/-- The conversion in the topology factor is in range, the factor is exact under every
conversion, and it does not rise when the distances fall. -/
structure TopologyExact (c : Candidate) : Prop where
  inRange : ∃ x : ℚ, c.distanceSum.number = some (real x) ∧ -1 < x ∧ x < 2 ^ 32
  exact : ∀ conv, Truncates conv → ∀ request,
    (topologyCost conv request c).number = some (real c.exactTopologyCost)
  mono : ∀ conv, Truncates conv → ∀ request numaDistance pcieHops,
    numaDistance ≤ c.locality.numaDistance → pcieHops ≤ c.locality.pcieHops →
    Double.lt (topologyCost conv request c)
      (topologyCost conv request (c.withDistances numaDistance pcieHops)) = false

variable {c : Candidate}

/-- The sum of the distances is exact. -/
theorem number_distanceSum (c : Candidate) : c.distanceSum.number =
    some (real ((c.locality.numaDistance.toNat + c.locality.pcieHops.toNat : ℕ) : ℚ)) := by
  have hnuma := c.locality.numaDistance.toNat_lt
  have hpcie := c.locality.pcieHops.toNat_lt
  have hexact := Binary64.exact_natCast
    (n := c.locality.numaDistance.toNat + c.locality.pcieHops.toNat) (by omega)
  rw [Nat.cast_add] at hexact ⊢
  exact number_add_exact (number_ofNat_of_lt (by omega)) (number_ofNat_of_lt (by omega)) hexact

/-- Where the sum is a word the conversion returns it. -/
theorem toNat_conv_distanceSum {conv : Double → UInt32} (hconv : Truncates conv)
    (h : c.locality.numaDistance.toNat + c.locality.pcieHops.toNat < 2 ^ 32) :
    (conv c.distanceSum).toNat =
      c.locality.numaDistance.toNat + c.locality.pcieHops.toNat := by
  have hcast : ((c.locality.numaDistance.toNat + c.locality.pcieHops.toNat : ℕ) : ℚ) < 2 ^ 32 := by
    exact_mod_cast h
  rw [hconv _ _ (number_distanceSum c) (neg_one_lt_zero.trans_le (Nat.cast_nonneg _)) hcast, Nat.floor_natCast]

/-- The share of eight hops, up to one. -/
theorem min_one_div_eight (k : ℕ) : min 1 ((k : ℚ) / 8) = (min 8 k : ℕ) / 2 ^ 3 := by
  rw [Nat.cast_min, ← min_div_div_right (by norm_num)]
  norm_num

theorem number_distanceNorm_eight (d : UInt32) :
    (distanceNorm d .eight : Double).number = some (real (min 1 ((d.toNat : ℚ) / 8))) := by
  have hword := d.toNat_lt
  have hexact := Binary64.exact_div_two_pow (n := d.toNat) (by omega) (i := 3) (by norm_num)
  have hdiv := number_div_exact (number_ofNat_of_lt (n := d.toNat) (by omega)) number_eight
    (by norm_num) (by norm_num at hexact ⊢; exact hexact)
  have hclamp := number_clamp01 hdiv
  rw [max_eq_right (le_min zero_le_one (by positivity))] at hclamp
  exact hclamp

/-- The penalty of a shared root is added exactly. -/
theorem number_shared (d : UInt32) (shares : Bool) :
    (clamp01 (CostArith.add (distanceNorm d .eight)
      (CostArith.ofDouble (if shares then .quarter else .zero))) : Double).number =
      some (real (min 1 (min 1 ((d.toNat : ℚ) / 8) + if shares then 1 / 4 else 0))) := by
  have hnorm := number_distanceNorm_eight d
  have hpenalty : (if shares then Double.quarter else Double.zero).number =
      some (real (if shares then 1 / 4 else 0)) := by
    split
    · exact number_quarter
    · exact number_zero
  have hexact : Exact (min 1 ((d.toNat : ℚ) / 8) + if shares then 1 / 4 else 0) := by
    have hsum : min 1 ((d.toNat : ℚ) / 8) + (if shares then 1 / 4 else 0) =
        (min 8 d.toNat + (if shares then 2 else 0) : ℕ) / 2 ^ 3 := by
      rw [min_one_div_eight]
      split <;> push_cast <;> ring
    rw [hsum]
    refine Binary64.exact_div_two_pow ?_ (by norm_num)
    split <;> omega
  have hclamp := number_clamp01 (number_add_exact hnorm hpenalty hexact)
  rw [max_eq_right] at hclamp
  · exact hclamp
  · refine le_min zero_le_one (add_nonneg (le_min zero_le_one (by positivity)) ?_)
    split
    · norm_num
    · exact le_rfl

/-- Where the distances have a 32-bit sum the factor is exact. -/
theorem number_topologyCost {conv : Double → UInt32} (hconv : Truncates conv)
    (request : SchedulingRequest)
    (h : c.locality.numaDistance.toNat + c.locality.pcieHops.toNat < 2 ^ 32) :
    (topologyCost conv request c).number = some (real c.exactTopologyCost) := by
  have hnumber := number_shared (conv c.distanceSum) c.locality.sharesPcieRoot
  rw [toNat_conv_distanceSum hconv h, Nat.cast_add] at hnumber
  exact hnumber

theorem exactTopologyCost_withDistances_le {numaDistance pcieHops : UInt32}
    (hnuma : numaDistance ≤ c.locality.numaDistance) (hpcie : pcieHops ≤ c.locality.pcieHops) :
    (c.withDistances numaDistance pcieHops).exactTopologyCost ≤ c.exactTopologyCost := by
  have hnuma' : (numaDistance.toNat : ℚ) ≤ c.locality.numaDistance.toNat :=
    Nat.cast_le.mpr (UInt32.le_iff_toNat_le.mp hnuma)
  have hpcie' : (pcieHops.toNat : ℚ) ≤ c.locality.pcieHops.toNat :=
    Nat.cast_le.mpr (UInt32.le_iff_toNat_le.mp hpcie)
  unfold Candidate.exactTopologyCost Candidate.withDistances
  gcongr

/-- The topology factor is as it is meant to be exactly if the two distances have a 32-bit
sum. -/
theorem topologyExact_iff (c : Candidate) : TopologyExact c ↔
    c.locality.numaDistance.toNat + c.locality.pcieHops.toNat < 2 ^ 32 := by
  constructor
  · intro h
    obtain ⟨x, hx, _, hlt⟩ := h.inRange
    rw [Binary64.real_injective (Option.some.inj (hx.symm.trans (number_distanceSum c)))] at hlt
    exact_mod_cast hlt
  · intro h
    refine ⟨⟨_, number_distanceSum c, neg_one_lt_zero.trans_le (Nat.cast_nonneg _),
      by exact_mod_cast h⟩, fun conv hconv request => number_topologyCost hconv request h, ?_⟩
    intro conv hconv request numaDistance pcieHops hnuma hpcie
    have hlower : (c.withDistances numaDistance pcieHops).locality.numaDistance.toNat +
        (c.withDistances numaDistance pcieHops).locality.pcieHops.toNat < 2 ^ 32 := by
      have hnuma' := UInt32.le_iff_toNat_le.mp hnuma
      have hpcie' := UInt32.le_iff_toNat_le.mp hpcie
      exact (add_le_add hnuma' hpcie').trans_lt h
    rw [← Bool.not_eq_true, lt_real_iff (number_topologyCost hconv request h)
      (number_topologyCost hconv request hlower), not_lt]
    exact exactTopologyCost_withDistances_le hnuma hpcie

theorem truncates_wrapU32 : Truncates wrapU32 := by
  intro d x hx hlow hhigh
  have hfloor : ⌊x⌋₊ < 2 ^ 32 := (Nat.floor_lt' (by norm_num)).mpr (by exact_mod_cast hhigh)
  rw [wrapU32, toRat_eq hx, UInt32.toNat_ofNat', Nat.mod_eq_of_lt hfloor]

/-- Under the conversion that keeps the low bits, distances past a word start again at
nothing. -/
theorem number_topologyCost_wrapU32 (request : SchedulingRequest) (c : Candidate) :
    (topologyCost wrapU32 request c).number = some (real (min 1
      (min 1 ((((c.locality.numaDistance.toNat + c.locality.pcieHops.toNat) % 2 ^ 32 : ℕ) : ℚ) /
        8) + if c.locality.sharesPcieRoot then 1 / 4 else 0))) := by
  have hword : (wrapU32 c.distanceSum).toNat =
      (c.locality.numaDistance.toNat + c.locality.pcieHops.toNat) % 2 ^ 32 := by
    rw [wrapU32, toRat_eq (number_distanceSum c), Nat.floor_natCast, UInt32.toNat_ofNat']
  have hnumber := number_shared (wrapU32 c.distanceSum) c.locality.sharesPcieRoot
  rw [hword] at hnumber
  exact hnumber

/-- The sample candidate at the greatest NUMA distance and one hop. -/
def Sample.farCandidate : Candidate :=
  { Sample.candidate ⟨1⟩ ⟨1⟩ with
    locality := { (Sample.candidate ⟨1⟩ ⟨1⟩).locality with
      numaDistance := 0xFFFFFFFF, pcieHops := 1, sharesPcieRoot := false } }

/-- An admitted candidate at the greatest NUMA distance can cost less than one nearby. -/
theorem not_topologyExact : ¬∀ (st : SchedulerState) (c : Candidate),
    (st.ingestCandidate c).1 = .ok () → TopologyExact c := by
  intro hall
  have hexact := hall (.initial Sample.config) Sample.farCandidate (by decide +kernel)
  have hmono := hexact.mono wrapU32 truncates_wrapU32 (Sample.request ⟨1⟩) 8 0 (by decide)
    (by decide)
  rw [← Bool.not_eq_true, lt_real_iff (number_topologyCost_wrapU32 _ _)
    (number_topologyCost_wrapU32 _ _)] at hmono
  apply hmono
  have hfar : (Sample.farCandidate.locality.numaDistance.toNat +
      Sample.farCandidate.locality.pcieHops.toNat) % 2 ^ 32 = 0 := by decide
  have hnear : ((Sample.farCandidate.withDistances 8 0).locality.numaDistance.toNat +
      (Sample.farCandidate.withDistances 8 0).locality.pcieHops.toNat) % 2 ^ 32 = 8 := by decide
  rw [hfar, hnear]
  norm_num [Sample.farCandidate, Candidate.withDistances]

end FabricScheduler
