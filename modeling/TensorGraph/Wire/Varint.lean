import TensorGraph.Tensor.Bytes

/-! # Variable-length numbers

A number is written in groups of seven bits, least significant first; every byte but the last has
its high bit set. A reader limits how many bytes a number may have and how large the last of them
may be. Reading need not be of the shortest form; writing is. -/

namespace TensorGraph.Wire.Varint

/-- The number at the start of a string and the bytes after it. There may be `extra + 1` bytes, the
last of them at most `top`. -/
def read (top : UInt8) : Nat → Bytes → Option (Nat × Bytes)
  | _, [] => none
  | 0, b :: bytes => if b ≤ top then some (b.toNat, bytes) else none
  | extra + 1, b :: bytes =>
    if b < 128 then some (b.toNat, bytes)
    else
      match read top extra bytes with
      | some (n, rest) => some (b.toNat - 128 + 128 * n, rest)
      | none => none

/-- A number below `2 ^ 64`, in at most ten bytes. -/
def read64 : Bytes → Option (Nat × Bytes) := read 0x01 9

/-- A number below `2 ^ 32`, in at most five bytes. -/
def read32 : Bytes → Option (Nat × Bytes) := read 0x0f 4

/-- The shortest form of a number, in at most `extra + 1` bytes. -/
def write : Nat → Nat → Bytes
  | 0, n => [UInt8.ofNat n]
  | extra + 1, n =>
    if n < 128 then [UInt8.ofNat n] else UInt8.ofNat (n % 128 + 128) :: write extra (n / 128)

/-- The shortest form of a number below `2 ^ 64`. -/
def write64 : Nat → Bytes := write 9

/-- Reading by `read` takes at least one byte. -/
theorem length_lt_of_read {top : UInt8} {extra n : Nat} {bytes rest : Bytes}
    (h : read top extra bytes = some (n, rest)) : rest.length < bytes.length := by
  fun_induction read top extra bytes generalizing n with
  | case1 => cases h
  | case2 b bytes _ => cases h; simp
  | case3 => cases h
  | case4 extra b bytes _ => cases h; simp
  | case5 extra b bytes _ m rest' hr ih =>
    cases h
    have := ih hr
    simp only [List.length_cons]; omega
  | case6 => cases h

/-- The numbers that fill a string; the last must be whole. -/
def readAll (bytes : Bytes) : Option (List Nat) :=
  match bytes with
  | [] => some []
  | b :: bytes =>
    match h : read64 (b :: bytes) with
    | some (n, rest) =>
      have _hLt := length_lt_of_read h
      (readAll rest).map (n :: ·)
    | none => none
termination_by bytes.length
decreasing_by exact _hLt

end TensorGraph.Wire.Varint
