import TensorGraph.Lowering.Basic
import TensorGraph.Lowering.Options

/-! # Operators that keep the shape, and constants -/

namespace TensorGraph.Lowering

open Onnx (NodeRecord)

/-- The first output is the first input. -/
def identity (node : NodeRecord) : Lowering Unit := do
  let input ← inputValue node 0
  bindOutput node input

/-- An operation on each element. -/
def unary (op : UnaryOp) (node : NodeRecord) : Lowering Unit := do
  let input ← inputValue node 0
  let output ← Build.unary node.title op input
  bindOutput node output

/-- A normalized exponential along `axis`, by default the second one. -/
def softMax (node : NodeRecord) : Lowering Unit := do
  let input ← inputValue node 0
  let rank := (← dims input).length
  let axis ← node.view.intOr "axis" 1
  let axis ← Onnx.axisOf "axis" axis rank
  let output ← Build.softMax node.title input axis
  bindOutput node output

/-- A normalization over the second dimension with four constant tensors, by
`Build.batchNormalization`. -/
def batchNormalization (node : NodeRecord) : Lowering Unit := do
  let input ← inputValue node 0
  let options ← BatchOptions.read node.view
  let scale ← constant (← node.input 1)
  let bias ← constant (← node.input 2)
  let mean ← constant (← node.input 3)
  let variance ← constant (← node.input 4)
  let output ← Build.batchNormalization node.title input 1 options.epsilon options.momentum
    { scale, bias, mean, variance }
  bindOutput node output

/-- The tensor of a constant is stored under the name of the first output by `Table.insert`; it
becomes a node when that name is used for a `value`. A tensor lent by the caller is not even looked
at. -/
def storeConstant (node : NodeRecord) : Lowering Unit := do
  let name ← node.output
  if (← table).isLent name then return ()
  let record ← node.view.tensor "value"
  let tensor ← record.materialize
  updateTable fun t => .ok (t.insert name tensor)

end TensorGraph.Lowering
