import TensorGraph.Tensor.Basic

/-! # Raw bytes of tensors

Elements are stored as little-endian words: four bytes for a binary32 number, eight for an index.
The bytes of a tensor are the words of its elements in order, and a tensor is read from exactly
as many bytes as its shape and kind ask for. -/

namespace TensorGraph

/-- A string of bytes. -/
abbrev Bytes := List UInt8

namespace Word

/-- The number whose base-256 digits are `bytes`, from the least significant one on. -/
def ofBytes (bytes : Bytes) : Nat :=
  bytes.foldr (fun b n => b.toNat + 256 * n) 0

/-- The last `count` base-256 digits of a number, from the least significant one on. -/
def toBytes : Nat → Nat → Bytes
  | 0, _ => []
  | count + 1, n => UInt8.ofNat n :: toBytes count (n / 256)

@[simp] theorem length_toBytes (count n : Nat) : (toBytes count n).length = count := by
  induction count generalizing n with
  | zero => rfl
  | succ count ih => simp [toBytes, ih]

/-- The words of `width` bytes that a string starts with, as many as asked for. -/
def split (width : Nat) : Nat → Bytes → List Nat
  | 0, _ => []
  | count + 1, bytes => ofBytes (bytes.take width) :: split width count (bytes.drop width)

@[simp] theorem length_split (width count : Nat) (bytes : Bytes) :
    (split width count bytes).length = count := by
  induction count generalizing bytes with
  | zero => rfl
  | succ count ih => simp [split, ih]

end Word

/-! ### Single elements -/

namespace Binary32

/-- The four bytes of a number, least significant first. -/
def toBytes (x : Binary32) : Bytes := Word.toBytes 4 x.bits.toNat

/-- The number whose bits are those of `word`. -/
def ofWord (word : Nat) : Binary32 := ⟨UInt32.ofNat word⟩

end Binary32

namespace Index

/-- The eight bytes of an index in two's complement, least significant first. -/
def toBytes (i : Int64) : Bytes := Word.toBytes 8 i.toUInt64.toNat

/-- The index whose two's complement is `word`. -/
def ofWord (word : Nat) : Int64 := (UInt64.ofNat word).toInt64

end Index

/-! ### Tensors -/

namespace Elements

/-- As many elements of the given kind as `count` says, from their bytes. -/
def ofBytes (kind : ElementKind) (count : Nat) (bytes : Bytes) : Elements :=
  match kind with
  | .float => float ((Word.split kind.width count bytes).map Binary32.ofWord).toArray
  | .index => index ((Word.split kind.width count bytes).map Index.ofWord).toArray

@[simp] theorem size_ofBytes (kind : ElementKind) (count : Nat) (bytes : Bytes) :
    (ofBytes kind count bytes).size = count := by
  cases kind <;> simp [ofBytes, size]

/-- The bytes of the elements in order, `kind.width` of them for each one. -/
def toBytes : Elements → Bytes
  | float values => values.toList.flatMap Binary32.toBytes
  | index values => values.toList.flatMap Index.toBytes

end Elements

namespace Tensor

/-- The bytes of the elements in order. -/
def toBytes (t : Tensor) : Bytes := t.elements.toBytes

/-- The tensor of the given kind and shape whose elements are stored in `bytes`. There must be as
many of these as `countBytes` asks for. -/
def ofBytes (kind : ElementKind) (dims : List Nat) (bytes : Bytes) :
    Except TensorError Tensor := do
  let expected ← countBytes kind dims
  check (bytes.length = expected) (.byteCount expected bytes.length)
  .ok ⟨dims, .ofBytes kind (volume dims) bytes, Elements.size_ofBytes kind (volume dims) bytes⟩

end Tensor
end TensorGraph
