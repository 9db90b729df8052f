import TensorGraph.Graph.Error
import TensorGraph.Shape.Axes

/-! # Shape rules

A draft describes a node that may be added to a graph: its kind, its operands and its result type.
For each kind of node there is one rule that makes the draft from the operands and parameters, or
refuses them. The rules only read the graph. -/

namespace TensorGraph

/-! ### Reading a graph -/

namespace Graph

/-- The node of a handle. -/
def node (g : Graph) (id : NodeId) : Except GraphError Node :=
  found g.nodes[id.index]? (.unknownNode id)

/-- The type of a type handle, its entry in `Graph.types`. -/
def resolve (g : Graph) (ref : TypeRef) : Except GraphError ValueType :=
  found g.types[ref.index]? (.staleType ref)

/-- The result type of a node: what `resolve` gives for the handle in it. -/
def typeOf (g : Graph) (id : NodeId) : Except GraphError ValueType := do
  g.resolve (← g.node id).type

/-- The result shape of a node. -/
def dims (g : Graph) (id : NodeId) : Except GraphError (List Nat) := do
  return (← g.typeOf id).dims

/-- The element kind of a node. -/
def kind (g : Graph) (id : NodeId) : Except GraphError ElementKind := do
  return (← g.typeOf id).kind

end Graph

/-- The dimension at the position `axis`. -/
def dimAt (dims : List Nat) (axis : Nat) : Except GraphError Nat :=
  found dims[axis]? (.outOfRange axis dims.length)

/-- The four dimensions of a batch of channel-last images, or of a bank of square filters. -/
structure ImageDims where
  count : Nat
  height : Nat
  width : Nat
  channels : Nat
  deriving DecidableEq

namespace ImageDims

def ofList? : List Nat → Option ImageDims
  | [count, height, width, channels] => some ⟨count, height, width, channels⟩
  | _ => none

def toList (d : ImageDims) : List Nat := [d.count, d.height, d.width, d.channels]

theorem ofList?_eq_some {dims : List Nat} {d : ImageDims} :
    ofList? dims = some d ↔ dims = d.toList := by
  constructor
  · intro h
    unfold ofList? at h
    split at h
    · cases h; rfl
    · cases h
  · rintro rfl; rfl

end ImageDims

namespace Graph

variable (g : Graph) (name : String)

/-- The dimensions of an operand of rank 4. -/
def imageDims (id : NodeId) : Except GraphError ImageDims := do
  let dims ← g.dims id
  found (ImageDims.ofList? dims) (.rank name 4 dims.length)

/-- The dimensions of an operand of rank 2. -/
def matrixDims (id : NodeId) : Except GraphError (Nat × Nat) := do
  match ← g.dims id with
  | [rows, columns] => .ok (rows, columns)
  | dims => .error (.rank name 2 dims.length)

/-- The length of an operand of rank 1. -/
def vectorLength (id : NodeId) : Except GraphError Nat := do
  match ← g.dims id with
  | [length] => .ok length
  | dims => .error (.rank name 1 dims.length)

end Graph

/-! ### Drafts -/

/-- The result type of a node that is yet to be added: a type that may be new, or the one that a
handle stands for. -/
inductive ResultType
  | ofType (type : ValueType)
  | ofRef (ref : TypeRef)
  deriving DecidableEq

/-- A node that may be added to a graph. -/
structure Draft where
  kind : NodeKind
  operands : List NodeId
  result : ResultType
  deriving DecidableEq

namespace Draft

variable (g : Graph) (name : String)

/-- A node that holds a tensor. -/
def parameter (tensor : Tensor) : Draft :=
  { kind := .parameter tensor, operands := [], result := .ofType tensor.type }

/-- A transposition by a permutation of the axes. -/
def transpose (input : NodeId) (shuffle : List Nat) : Except GraphError Draft := do
  let type ← g.typeOf input
  check (isPermutation shuffle type.rank) (.tensor (.permutation shuffle type.rank))
  let dims ← shuffle.mapM (dimAt type.dims)
  return { kind := .transpose shuffle, operands := [input], result := .ofType ⟨type.kind, dims⟩ }

/-- A convolution of images by a bank of filters `[depth, kernel, kernel, channels / group]`, with
a bias `[depth]`. The type `out` must be the one that the window implies. -/
def convolution (input filter bias : NodeId) (out : TypeRef) (window : Window) (group : Nat) :
    Except GraphError Draft := do
  let image ← g.imageDims name input
  let filters ← g.imageDims name filter
  let biasLength ← g.vectorLength name bias
  check (group ≠ 0 ∧ image.channels % group = 0 ∧
      Size.mul filters.channels group = image.channels)
    (.misfit name (.filterChannels filters.toList image.channels group))
  check (filters.height = window.kernel ∧ filters.width = window.kernel)
    (.misfit name (.filterKernel filters.toList window.kernel))
  check (biasLength = filters.count) (.misfit name (.biasLength biasLength filters.count))
  let (height, width) ← found (window.outputSize? image.height image.width)
    (.misfit name (.window window image.height image.width))
  let expected := [image.count, height, width, filters.count]
  let type ← g.resolve out
  check (type.dims = expected) (.misfit name (.outputType type expected))
  return {
    kind := .convolution window group
    operands := [input, filter, bias]
    result := .ofRef out }

/-- A pooling of images. -/
def pool (kind : PoolKind) (input : NodeId) (window : Window) : Except GraphError Draft := do
  let image ← g.imageDims name input
  let elements ← g.kind input
  let (height, width) ← found (window.outputSize? image.height image.width)
    (.misfit name (.window window image.height image.width))
  return {
    kind := .pool kind window
    operands := [input]
    result := .ofType ⟨elements, [image.count, height, width, image.channels]⟩ }

/-- Axes without repetition below `rank`, in the ascending order of `sortAxes`. -/
def axesBelow (axes : List Nat) (rank : Nat) : Except GraphError (List Nat) := do
  check (axes.Nodup ∧ ∀ a ∈ axes, a < rank) (.misfit name (.axes axes rank))
  return sortAxes axes

/-- The removal of the dimensions at `axes`, which must be of size 1. -/
def squeeze (input : NodeId) (axes : List Nat) : Except GraphError Draft := do
  let type ← g.typeOf input
  let axes ← axesBelow name axes type.rank
  axes.forM fun axis => do
    let size ← dimAt type.dims axis
    check (size = 1) (.misfit name (.squeezedSize axis size))
  return {
    kind := .squeeze axes
    operands := [input]
    result := .ofType ⟨type.kind, removeAxes axes type.dims⟩ }

/-- The insertion of dimensions of size 1, given by their places in the result. -/
def expandDims (input : NodeId) (axes : List Nat) : Except GraphError Draft := do
  let type ← g.typeOf input
  let axes ← axesBelow name axes (type.rank + axes.length)
  let dims ← insertAxes GraphError.outOfRange axes type.dims
  return { kind := .expandDims axes, operands := [input], result := .ofType ⟨type.kind, dims⟩ }

/-- The size of the channel dimension of an operand. -/
def channelCount (input : NodeId) (channel : Nat) : Except GraphError Nat := do
  let type ← g.typeOf input
  found type.dims[channel]? (.misfit name (.channelRange channel type))

/-- A normalization with the given four `parameters`. -/
def batchNormalization (input : NodeId) (channel : Nat) (epsilon momentum : Binary32)
    (parameters : List NodeId) : Except GraphError Draft := do
  let node ← g.node input
  return {
    kind := .batchNormalization channel epsilon momentum
    operands := input :: parameters
    result := .ofRef node.type }

/-- The concatenation of operands that agree in kind and, off the axis, in shape. -/
def concat (inputs : List NodeId) (axis : Nat) : Except GraphError Draft := do
  let first ← found inputs.head? (.misfit name .noOperands)
  let firstType ← g.typeOf first
  check (axis < firstType.rank) (.misfit name (.axisOfType axis firstType))
  let extents ← inputs.mapM fun input => do
    let type ← g.typeOf input
    check (type.kind = firstType.kind ∧ type.dims.set axis 0 = firstType.dims.set axis 0)
      (.misfit name (.concatenation type firstType axis))
    dimAt type.dims axis
  return {
    kind := .concat axis
    operands := inputs
    result := .ofType ⟨firstType.kind, firstType.dims.set axis (extents.foldl Size.add 0)⟩ }

/-- The product of two matrices of one kind. -/
def matMul (lhs rhs : NodeId) : Except GraphError Draft := do
  let (rows, inner) ← g.matrixDims name lhs
  let (inner', columns) ← g.matrixDims name rhs
  let elements ← g.kind lhs
  let actual ← g.kind rhs
  check (actual = elements) (.kind name elements actual)
  check (inner = inner') (.misfit name (.product [rows, inner] [inner', columns]))
  return { kind := .matMul, operands := [lhs, rhs], result := .ofType ⟨elements, [rows, columns]⟩ }

/-- Whether a shape fits into another one from `axis` on, dimensions of size 1 being stretched. -/
def fitsAt (dims into : List Nat) (axis : Nat) : Bool :=
  axis + dims.length ≤ into.length &&
    (dims.zip (into.drop axis)).all fun (d, e) => d == 1 || d == e

/-- Whether each dimension is 1 or the one of `into` at its place, the first one at `place` and the
next ones behind it. -/
def matchesFrom (into : List Nat) : Nat → List Nat → Except GraphError Bool
  | _, [] => .ok true
  | place, d :: dims =>
    if d = 1 then matchesFrom into (Size.add place 1) dims
    else do
      let e ← dimAt into place
      if d = e then matchesFrom into (Size.add place 1) dims else return false

/-- Whether a shape fits into another one from `axis` on, as far as sums of sizes tell. Lists are
short enough for the sum of two lengths to be a size; only for an axis past the end of `into` the
last place may be none, and then it is reduced to a size. -/
def fits (dims into : List Nat) (axis : Nat) : Except GraphError Bool :=
  if axis ≤ into.length ∨ axis + dims.length < Size.bound then .ok (fitsAt dims into axis)
  else if Size.add axis dims.length ≤ into.length then matchesFrom into axis dims
  else .ok false

/-- The broadcast of an operand to the shape `dims`, in which its own dimensions start at `axis`. -/
def broadcast (input : NodeId) (dims : List Nat) (axis : Nat) : Except GraphError Draft := do
  let type ← g.typeOf input
  let fitting ← fits type.dims dims axis
  check fitting (.misfit name (.broadcast type dims axis))
  return { kind := .broadcast axis, operands := [input], result := .ofType ⟨type.kind, dims⟩ }

/-- An operation on pairs of elements of two operands of one type. -/
def arithmetic (op : ArithmeticOp) (lhs rhs : NodeId) : Except GraphError Draft := do
  let left := (← g.node lhs).type
  let right := (← g.node rhs).type
  if left = right then
    return { kind := .arithmetic op, operands := [lhs, rhs], result := .ofRef left }
  else
    throw (.misfit name (.operandTypes op (← g.resolve left) (← g.resolve right)))

/-- An operation on each element of an operand. -/
def unary (op : UnaryOp) (input : NodeId) : Except GraphError Draft := do
  return { kind := .unary op, operands := [input], result := .ofRef (← g.node input).type }

/-- A normalized exponential along an axis. -/
def softMax (input : NodeId) (axis : Nat) : Except GraphError Draft := do
  let node ← g.node input
  let type ← g.resolve node.type
  check (axis < type.rank) (.misfit name (.axisOfRank axis type.rank))
  return { kind := .softMax axis, operands := [input], result := .ofRef node.type }

/-- The same elements in the shape `dims`, if it has as many of them. -/
def reshape (input : NodeId) (dims : List Nat) : Except GraphError Draft := do
  let type ← g.typeOf input
  let before ← (countElements type.dims).mapError .tensor
  let after ← (countElements dims).mapError .tensor
  check (before = after) (.misfit name (.reshape type dims))
  return { kind := .reshape, operands := [input], result := .ofType ⟨type.kind, dims⟩ }

/-- The end of a graph result. -/
def save (input : NodeId) : Except GraphError Draft := do
  return { kind := .save, operands := [input], result := .ofRef (← g.node input).type }

end Draft
end TensorGraph
