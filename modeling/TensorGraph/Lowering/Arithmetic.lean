import TensorGraph.Lowering.Basic
import TensorGraph.Lowering.Options
import TensorGraph.Shape.Broadcast

/-! # Element-wise arithmetic and matrix products

Operands of different shapes are broadcast to one shape, as far as the mode allows, before they are
combined element by element. -/

namespace TensorGraph.Lowering

open Onnx (NodeRecord)

/-! ### Broadcasting -/

/-- Where the first dimension of the shape `dims` stands when its last dimension is aligned with
that of `into`, a shape of at least its rank. -/
def alignment (dims into : List Nat) : Except GraphError Nat := do
  check (dims.length ≤ into.length) (.outOfRange dims.length into.length)
  return into.length - dims.length

/-- The value in the shape `into`, by a `Build.broadcast` from `axis` on where the shapes differ. -/
def broadcastTo (name : String) (id : NodeId) (into : List Nat) (axis : Nat) : Lowering NodeId := do
  if (← dims id) = into then return id
  Build.broadcast name id into axis

/-- The axis at which a right operand is placed in the shape of a left operand. -/
def legacyAxis (axis : Option Int64) (lhs rhs : List Nat) : Except LoadError Nat :=
  match axis with
  | some axis => (Onnx.axisOf "axis" axis lhs.length).mapError .attribute
  | none => (alignment rhs lhs).mapError fun _ => .shape (.broadcastTo rhs lhs)

/-- Two operands of different shapes in one shape, as far as `mode` allows. -/
def align (name : String) (lhs rhs : NodeId) (lhsDims rhsDims : List Nat) (mode : BroadcastMode) :
    Lowering (NodeId × NodeId) :=
  match mode with
  | .disabled => pure (lhs, rhs)
  | .legacy axis => do
    let axis ← legacyAxis axis lhsDims rhsDims
    let rhs ← broadcastTo s!"{name}.rhs_broadcast" rhs lhsDims axis
    return (lhs, rhs)
  | .multidirectional => do
    let common ← found (joinShape? lhsDims rhsDims)
      (LoadError.shape (.broadcastWith lhsDims rhsDims))
    let lhsAxis ← (alignment lhsDims common).mapError LoadError.graph
    let lhs ← broadcastTo s!"{name}.lhs_broadcast" lhs common lhsAxis
    let rhsAxis ← (alignment rhsDims common).mapError LoadError.graph
    let rhs ← broadcastTo s!"{name}.rhs_broadcast" rhs common rhsAxis
    return (lhs, rhs)

/-- The combination of two operands, element by element, after `align` has brought them to one shape
if their shapes differ. -/
def elementwise (name : String) (op : ArithmeticOp) (lhs rhs : NodeId) (mode : BroadcastMode) :
    Lowering NodeId := do
  let lhsDims ← dims lhs
  let rhsDims ← dims rhs
  let (lhs, rhs) ←
    if lhsDims = rhsDims then pure (lhs, rhs) else align name lhs rhs lhsDims rhsDims mode
  Build.arithmetic name op lhs rhs

/-! ### Operators -/

/-- An operation on two operands. -/
def binary (op : ArithmeticOp) (opset : Int64) (node : NodeRecord) : Lowering Unit := do
  let mode ← BroadcastMode.read node.view opset
  let lhs ← inputValue node 0
  let rhs ← inputValue node 1
  let output ← elementwise node.title op lhs rhs mode
  bindOutput node output

/-- How the operands of a sum are brought together: in newer operator sets, from `broadcastingOpset`
on, as `multidirectional` says. -/
def sumMode (opset : Int64) : BroadcastMode :=
  if broadcastingOpset ≤ opset.toInt then .multidirectional else .disabled

/-- The sum of `first` and `others`, from left to right. The last addition has the name of the node
and the ones before it are numbered. -/
def addAll (node : NodeRecord) (mode : BroadcastMode) (first : NodeId) (others : List NodeId) :
    Lowering NodeId :=
  others.zipIdx.foldlM (fun total (operand, i) =>
    let name := if i + 1 = others.length then node.title else node.part s!"partial{i}"
    elementwise name .add total operand mode) first

/-- The sum of any positive number of operands. -/
def sum (opset : Int64) (node : NodeRecord) : Lowering Unit := do
  match ← inputValues node with
  | [] => throw (.shape (.noInputs "Sum"))
  | first :: others =>
    let output ← addAll node (sumMode opset) first others
    bindOutput node output

/-- A matrix operand, transposed if `flip` asks for it. -/
def orient (flip : Bool) (name : String) (id : NodeId) : Lowering NodeId :=
  if flip then Build.transpose name id [1, 0] else pure id

/-- The addend of a matrix product in the shape of the product, as far as `broadcast` is on. -/
def fitAddend (node : NodeRecord) (broadcast : Bool) (product addend : NodeId) :
    Lowering NodeId := do
  let productDims ← dims product
  let addendDims ← dims addend
  if broadcast ∧ addendDims ≠ productDims then
    let axis ← (alignment addendDims productDims).mapError fun _ =>
      LoadError.shape (.broadcastAddend addendDims productDims)
    Build.broadcast (node.part "c_broadcast") addend productDims axis
  else return addend

/-- A product of two matrices, each transposed if asked for, with an optional addend. -/
def gemm (opset : Int64) (node : NodeRecord) : Lowering Unit := do
  let options ← GemmOptions.read node.view opset
  let a ← inputValue node 0
  let b ← inputValue node 1
  let c ← (node.input? 2).mapM value
  let a ← orient options.transA (node.part "a_transposed") a
  let b ← orient options.transB (node.part "b_transposed") b
  match c with
  | none =>
    let output ← Build.matMul node.title a b
    bindOutput node output
  | some c =>
    let product ← Build.matMul (node.part "matmul") a b
    let addend ← fitAddend node options.broadcast product c
    let output ← Build.arithmetic node.title .add product addend
    bindOutput node output

/-- A product of two matrices. -/
def matMul (node : NodeRecord) : Lowering Unit := do
  let a ← inputValue node 0
  let b ← inputValue node 1
  let output ← Build.matMul node.title a b
  bindOutput node output

end TensorGraph.Lowering
