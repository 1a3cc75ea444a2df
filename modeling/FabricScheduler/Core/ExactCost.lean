import Mathlib.Data.Rat.Floor
import FabricScheduler.Core.DoubleOrder

/-!
# Costs without rounding

Ranking read over the rationals: a stored double stands for the number it denotes, and no
operation rounds.
-/

namespace FabricScheduler

open Binary64 (real)

namespace Double

/-- The rational a double denotes; zero when it denotes none. -/
def toRat (d : Double) : ℚ :=
  match d.unpacked with
  | .finite s m e _ => Binary64.signed s (Binary64.magnitude m e)
  | _ => 0

theorem toRat_eq {d : Double} {x : ℚ} (h : d.number = some (real x)) : d.toRat = x := by
  rcases Binary64.value_eq_real h with ⟨s, hd, rfl⟩ | ⟨s, m, e, hm, hd, rfl⟩
  · rw [toRat, hd]
  · rw [toRat, hd]

@[simp] theorem toRat_zero : zero.toRat = 0 := toRat_eq number_zero

@[simp] theorem toRat_one : one.toRat = 1 := toRat_eq number_one

@[simp] theorem toRat_half : half.toRat = 1 / 2 := by
  have hhalf : half.number = some (real (Binary64.magnitude (2 ^ 52) (-53))) := rfl
  rw [toRat_eq hhalf, Binary64.magnitude]
  norm_num

/-- A double that denotes no negative number has no negative value. -/
theorem toRat_nonneg {d : Double} (h : ∀ z ∈ d.number, real 0 ≤ z) : 0 ≤ d.toRat := by
  unfold toRat
  split
  · rename_i s m e hm hd
    have hnumber : d.number = some (real (Binary64.signed s (Binary64.magnitude m e))) := by
      rw [number, hd]
      rfl
    exact Binary64.real_le_real.mp (h _ hnumber)
  · exact le_rfl

theorem toRat_tenth_nonneg : 0 ≤ tenth.toRat := by
  have htenth : tenth.number = some (real (Binary64.magnitude 7205759403792794 (-56))) := rfl
  rw [toRat_eq htenth, Binary64.magnitude]
  positivity

end Double

/-- Arithmetic on rationals. -/
instance : CostArith ℚ where
  ofDouble := Double.toRat
  ofNat n := n
  add := (· + ·)
  sub := (· - ·)
  mul := (· * ·)
  div := (· / ·)
  lt x y := x < y
  eq x y := x = y
  toU32 x := .ofNat (min ⌊x⌋₊ (2 ^ 32 - 1))

namespace CostArith

variable (x y : ℚ)

@[simp] theorem ofDouble_rat (d : Double) : (ofDouble d : ℚ) = d.toRat := rfl

@[simp] theorem ofNat_rat (n : ℕ) : (ofNat n : ℚ) = n := rfl

@[simp] theorem add_rat : add x y = x + y := rfl

@[simp] theorem sub_rat : sub x y = x - y := rfl

@[simp] theorem mul_rat : mul x y = x * y := rfl

@[simp] theorem div_rat : div x y = x / y := rfl

@[simp] theorem lt_rat : lt x y = decide (x < y) := rfl

@[simp] theorem eq_rat : eq x y = decide (x = y) := rfl

end CostArith

end FabricScheduler
