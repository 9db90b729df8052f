import TensorGraph.Lowering.Basic
import TensorGraph.Lowering.Options

/-! # Operators on shapes

Reshaping resolves the shape asked for against the shape of the input; axes may be negative and
then count from the end. Newer models give shapes and axes as a constant second input, older ones
as an attribute. -/

namespace TensorGraph

/-! ### Target shapes -/

/-- The dimension that an `entry` of a target shape stands for. The first -1 stands for a dimension
yet to be found, here 1, and 0 for the dimension of the input at the same `place`. -/
def targetDim (dims : List Nat) (target : List Int64) (place : Nat) (entry : Int64) :
    Except LoadError Nat :=
  if entry = -1 ∧ target.idxOf (-1) = place then .ok 1
  else if entry = 0 then found dims[place]? (.shape (.copiedDim target dims.length))
  else if 0 < entry.toInt then .ok entry.toInt.toNat
  else .error (.shape (.invalidTarget target))

/-- The number of elements of a shape that a load needs to know. -/
def countOf (dims : List Nat) : Except LoadError Nat :=
  (countElements dims).mapError fun cause => .graph (.tensor cause)

/-- The dimensions with `size` at a `place`, which must be there. -/
def replaceDim (dims : List Nat) (place size : Nat) : Except GraphError (List Nat) := do
  check (place < dims.length) (.outOfRange place dims.length)
  return dims.set place size

/-- The dimensions before a `place` and those from it on; the place must not lie behind the end. -/
def splitDims (dims : List Nat) (place : Nat) : Except GraphError (List Nat × List Nat) := do
  check (place ≤ dims.length) (.outOfRange place dims.length)
  return (dims.take place, dims.drop place)

/-- The shape that a target shape stands for, each entry as `targetDim` says. The dimension for -1
is what the other dimensions leave of the number of elements. -/
def resolveTarget (dims : List Nat) (target : List Int64) : Except LoadError (List Nat) := do
  let known ← target.zipIdx.mapM fun (entry, place) => targetDim dims target place entry
  if (-1) ∈ target then
    let total ← countOf dims
    let count ← countOf known
    check (count ≠ 0 ∧ total % count = 0) (.shape (.reshape dims target))
    (replaceDim known (target.idxOf (-1)) (total / count)).mapError .graph
  else return known

namespace Lowering

open Onnx (NodeRecord)

/-! ### Reshaping -/

/-- The target shape of a reshaping: the second input, else the attribute `shape`. -/
def targetShape (node : NodeRecord) : Lowering (List Int64) := do
  match node.input? 1 with
  | some name => constantIndices "shape" name
  | none => found (← node.view.ints? "shape") (LoadError.attribute (.missing "shape"))

/-- A reshaping to the `resolveTarget` of a target shape. -/
def reshape (node : NodeRecord) : Lowering Unit := do
  let input ← inputValue node 0
  let target ← targetShape node
  let into ← resolveTarget (← dims input) target
  let output ← Build.reshape node.title input into
  bindOutput node output

/-- The place at which a shape is cut in two by `axis`. It may lie behind the last dimension. -/
def splitPlace (axis : Int64) (rank : Nat) : Except LoadError Nat :=
  let resolved := if axis.toInt < 0 then axis.toInt + rank else axis.toInt
  if 0 ≤ resolved ∧ resolved ≤ rank then .ok resolved.toNat
  else .error (.attribute (.invalid "axis" (.splitRange resolved rank)))

/-- A reshaping to a matrix: the dimensions before the `splitPlace`, and those from it on, become
one. -/
def flatten (node : NodeRecord) : Lowering Unit := do
  let input ← inputValue node 0
  let inputDims ← dims input
  let axis ← node.view.intOr "axis" 1
  let place ← splitPlace axis inputDims.length
  let (outer, inner) ← (splitDims inputDims place).mapError LoadError.graph
  let outer ← countOf outer
  let inner ← countOf inner
  let output ← Build.reshape node.title input [outer, inner]
  bindOutput node output

/-! ### Dimensions of size 1 -/

/-- The axes of a node: the attribute `axes`, else the second input. -/
def axesOf (node : NodeRecord) : Lowering (List Int64) := do
  match ← node.view.ints? "axes" with
  | some axes => return axes
  | none =>
    match node.input? 1 with
    | some name => constantIndices "axes" name
    | none => throw (.attribute (.missing "axes"))

/-- The axes of a node among `rank` axes. -/
def resolvedAxes (node : NodeRecord) (rank : Nat) : Lowering (List Nat) := do
  let axes ← axesOf node
  axes.mapM fun axis => Onnx.axisOf "axes" axis rank

/-- How many axes a node has, as far as that is known: as many as the attribute `axes` lists, or the
tensor of the second input holds. -/
def axesCount (node : NodeRecord) : Lowering Nat := do
  match ← node.view.ints? "axes" with
  | some axes => return axes.length
  | none =>
    let t ← table
    match (node.input? 1).bind t.tensor? with
    | some tensor => return tensor.size
    | none => return 0

/-- The removal of dimensions of size 1. -/
def squeeze (node : NodeRecord) : Lowering Unit := do
  let input ← inputValue node 0
  let rank := (← dims input).length
  let axes ← resolvedAxes node rank
  let output ← Build.squeeze node.title input axes
  bindOutput node output

/-- The insertion of dimensions of size 1; the axes are those of the result. -/
def unsqueeze (node : NodeRecord) : Lowering Unit := do
  let input ← inputValue node 0
  let rank := (← dims input).length
  let count ← axesCount node
  let axes ← resolvedAxes node (rank + count)
  let output ← Build.expandDims node.title input axes
  bindOutput node output

/-! ### Rearranging -/

/-- A transposition by the attribute `perm`, which must be given. -/
def transpose (node : NodeRecord) : Lowering Unit := do
  let input ← inputValue node 0
  let perm ← node.view.ints "perm"
  let shuffle ← Onnx.sizesOf "perm" perm
  let output ← Build.transpose node.title input shuffle
  bindOutput node output

/-- The concatenation of all inputs along the attribute `axis`, which must be given. -/
def concat (node : NodeRecord) : Lowering Unit := do
  let inputs ← inputValues node
  let first ← found inputs.head? (LoadError.shape (.noInputs "Concat"))
  let rank := (← dims first).length
  let axis ← node.view.int "axis"
  let axis ← Onnx.axisOf "axis" axis rank
  let output ← Build.concat node.title inputs axis
  bindOutput node output

end Lowering
end TensorGraph
