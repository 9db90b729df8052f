/-! # Binary floating-point numbers of 32 bits

A number is its bit pattern in the IEEE 754 interchange format binary32: a sign bit, eight bits of
biased exponent and 23 bits of fraction. No arithmetic is done on these numbers; they are stored,
compared and written. -/

namespace TensorGraph

/-- A binary32 number, given by its `bits`. -/
structure Binary32 where
  bits : UInt32
  deriving DecidableEq, Inhabited

namespace Binary32

/-- Positive zero. -/
def zero : Binary32 := ⟨0⟩

/-- The number 1. -/
def one : Binary32 := ⟨0x3f800000⟩

/-- Whether the sign bit is set. -/
def negative (x : Binary32) : Bool := decide (0x80000000 ≤ x.bits.toNat)

/-- The eight exponent bits. -/
def exponent (x : Binary32) : Nat := x.bits.toNat / 0x800000 % 0x100

/-- The 23 fraction bits. -/
def fraction (x : Binary32) : Nat := x.bits.toNat % 0x800000

/-- No number: all exponent bits set and a `fraction`. -/
def isNaN (x : Binary32) : Bool := x.exponent = 255 && x.fraction ≠ 0

/-- An infinity: all exponent bits set and no `fraction`. -/
def isInfinite (x : Binary32) : Bool := x.exponent = 255 && x.fraction = 0

/-- Zero of either sign. -/
def isZero (x : Binary32) : Bool := x.exponent = 0 && x.fraction = 0

/-- The magnitude of a finite number is `significand * 2 ^ (scale - 149)`. -/
def significand (x : Binary32) : Nat :=
  if x.exponent = 0 then x.fraction else 0x800000 + x.fraction

/-- The power of two by which the significand counts, above the least one. -/
def scale (x : Binary32) : Nat := x.exponent - 1

/-- Equality as numbers: both zeros are equal, and what is no number (`isNaN`) equals nothing. -/
def numEq (x y : Binary32) : Bool :=
  !x.isNaN && !y.isNaN && (x.bits == y.bits || (x.isZero && y.isZero))

end Binary32
end TensorGraph
