import TensorGraph.Shape.Basic

/-! # Element kinds and tensor errors

A tensor holds numbers of one of two kinds. The errors of tensor operations carry what their
messages tell. -/

namespace TensorGraph

/-- The kinds of elements: binary32 numbers, or signed 64-bit integers for indices and shapes. -/
inductive ElementKind
  | float
  | index
  deriving DecidableEq, Inhabited

namespace ElementKind

/-- Bytes of one element: 4 for `float` and 8 for `index`. -/
def width : ElementKind → Nat
  | float => 4
  | index => 8

def text : ElementKind → String
  | float => "Float"
  | index => "Index"

end ElementKind

/-- Why a tensor operation fails. -/
inductive TensorError
  /-- The number of elements is not the one the shape asks for. -/
  | elementCount (dims : List Nat) (expected actual : Nat)
  /-- The number of bytes is not the one the shape and kind ask for. -/
  | byteCount (expected actual : Nat)
  /-- The elements of one tensor do not fit another kind or shape. -/
  | copyMismatch (fromKind : ElementKind) (fromDims : List Nat) (toKind : ElementKind)
      (toDims : List Nat)
  /-- The list does not rearrange the axes of the tensor. -/
  | permutation (shuffle : List Nat) (rank : Nat)
  /-- The number of elements or bytes is no size. -/
  | overflow (dims : List Nat)
  /-- More bytes are asked for than can be allocated. -/
  | capacity
  deriving DecidableEq

open Text in
/-- The text of a tensor error. -/
def TensorError.message : TensorError → String
  | elementCount dims expected actual =>
    s!"payload holds {actual} elements but the shape {sizes dims} requires {expected}"
  | byteCount expected actual =>
    s!"raw payload of {actual} bytes does not match the {expected} bytes required"
  | copyMismatch fromKind fromDims toKind toDims =>
    s!"cannot copy a {fromKind.text} tensor of shape {sizes fromDims} into a {toKind.text} " ++
      s!"tensor of shape {sizes toDims}"
  | permutation shuffle rank =>
    s!"invalid permutation {sizes shuffle} for a tensor of rank {rank}"
  | overflow dims => s!"shape {sizes dims} has more elements than fit in memory"
  | capacity => "capacity overflow"

/-- Whether a failure ends the program and is not reported to the caller, as `capacity` does. -/
def TensorError.isFault : TensorError → Bool
  | capacity => true
  | _ => false

end TensorGraph
