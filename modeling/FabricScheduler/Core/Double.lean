import FabricScheduler.Core.Types

/-!
# Double-precision numbers and cost arithmetic

A stored double is its 64-bit pattern, so copying, writing and reading it lose nothing.
Its arithmetic and comparisons are the binary64 operations. Ranking is written against
the operations it uses, so the same code can be read over another number domain.
-/

namespace FabricScheduler

/-- A double as its 64-bit pattern. -/
@[ext] structure Double where
  bits : UInt64
  deriving DecidableEq, Repr, Inhabited

namespace Double

/-- The binary64 number a pattern denotes. -/
def toFloat (d : Double) : Float := Float.ofBits d.bits

/-- The pattern of a binary64 number. -/
def ofFloat (f : Float) : Double := ⟨f.toBits⟩

/-- `std::isfinite`. -/
def isFinite (d : Double) : Bool := d.toFloat.isFinite

/-- The comparison `<` of doubles; false when either side is not a number. -/
def lt (a b : Double) : Bool := a.toFloat.lt b.toFloat

/-- The comparison `==` of doubles; the two zeros are equal. -/
def eq (a b : Double) : Bool := a.toFloat.beq b.toFloat

def zero : Double := ⟨0⟩
def half : Double := ⟨0x3FE0000000000000⟩
def one : Double := ⟨0x3FF0000000000000⟩
def oneAndHalf : Double := ⟨0x3FF8000000000000⟩
def two : Double := ⟨0x4000000000000000⟩
def twoAndHalf : Double := ⟨0x4004000000000000⟩
def three : Double := ⟨0x4008000000000000⟩
def four : Double := ⟨0x4010000000000000⟩
def eight : Double := ⟨0x4020000000000000⟩
/-- The literal `0.25`. -/
def quarter : Double := ⟨0x3FD0000000000000⟩
/-- The literal `0.1`, rounded as the compiler rounds it. -/
def tenth : Double := ⟨0x3FB999999999999A⟩

end Double

/-- The number operations used by ranking. -/
class CostArith (ν : Type) where
  /-- The value of a stored double. -/
  ofDouble : Double → ν
  /-- The value of an unsigned integer. -/
  ofNat : Nat → ν
  add : ν → ν → ν
  sub : ν → ν → ν
  mul : ν → ν → ν
  div : ν → ν → ν
  lt : ν → ν → Bool
  eq : ν → ν → Bool
  /-- The integer part as a 32-bit word. The source leaves a value that does not fit
  undefined; it is clamped here. -/
  toU32 : ν → UInt32

/-- Binary64 arithmetic on patterns. -/
instance : CostArith Double where
  ofDouble := id
  ofNat n := .ofFloat (Float.ofNat n)
  add a b := .ofFloat (a.toFloat + b.toFloat)
  sub a b := .ofFloat (a.toFloat - b.toFloat)
  mul a b := .ofFloat (a.toFloat * b.toFloat)
  div a b := .ofFloat (a.toFloat / b.toFloat)
  lt := Double.lt
  eq := Double.eq
  toU32 d := d.toFloat.toUInt32

end FabricScheduler
