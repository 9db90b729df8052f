import TensorGraph.Graph.Draft

/-! # Building graphs

A construction step runs on a graph that it may extend; a failing step says why, and what it added
before it failed stays. Except for batch normalization, which adds its four parameters one by one,
a step adds exactly one node, or fails and adds nothing. -/

namespace TensorGraph

/-- A step on a `Graph`, with a result or a `GraphError`. -/
abbrev Build := EStateM GraphError Graph

namespace Graph

/-- Adds the node that a `Draft` describes. -/
def add (g : Graph) (name : String) (draft : Draft) : NodeId × Graph :=
  match draft.result with
  | .ofType type =>
    let (ref, g) := g.intern type
    g.push ⟨name, draft.kind, draft.operands, ref⟩
  | .ofRef ref => g.push ⟨name, draft.kind, draft.operands, ref⟩

end Graph

namespace Build

variable {α : Type}

/-- Reads the graph and leaves it as it is. -/
def read (query : Graph → Except GraphError α) : Build α := fun g =>
  match query g with
  | .ok a => .ok a g
  | .error e => .error e g

/-- Adds the node that `rule` drafts from the graph; if it drafts none, nothing is added. -/
def create (name : String) (rule : Graph → Except GraphError Draft) : Build NodeId := fun g =>
  match rule g with
  | .ok draft => let (id, g') := g.add name draft; .ok id g'
  | .error e => .error e g

/-- The handle of a type, which is added by `Graph.intern` if it is not there yet. -/
def intern (type : ValueType) : Build TypeRef := fun g =>
  let (ref, g') := g.intern type
  .ok ref g'

/-- Adds a node that holds a tensor. -/
def parameter (name : String) (tensor : Tensor) : Build NodeId :=
  create name fun _ => .ok (.parameter tensor)

/-- Adds a transposition by `shuffle`, a permutation of the axes. -/
def transpose (name : String) (input : NodeId) (shuffle : List Nat) : Build NodeId :=
  create name (Draft.transpose · input shuffle)

/-- Adds a convolution of images by filters with a bias. -/
def convolution (name : String) (input filter bias : NodeId) (out : TypeRef) (window : Window)
    (group : Nat) : Build NodeId :=
  create name (Draft.convolution · name input filter bias out window group)

/-- Adds a pooling of images. -/
def pool (name : String) (kind : PoolKind) (input : NodeId) (window : Window) : Build NodeId :=
  create name (Draft.pool · name kind input window)

/-- Adds the removal of dimensions of size 1. -/
def squeeze (name : String) (input : NodeId) (axes : List Nat) : Build NodeId :=
  create name (Draft.squeeze · name input axes)

/-- Adds the insertion of dimensions of size 1. -/
def expandDims (name : String) (input : NodeId) (axes : List Nat) : Build NodeId :=
  create name (Draft.expandDims · name input axes)

/-- Adds a concatenation along an axis. -/
def concat (name : String) (inputs : List NodeId) (axis : Nat) : Build NodeId :=
  create name (Draft.concat · name inputs axis)

/-- Adds a product of two matrices. -/
def matMul (name : String) (lhs rhs : NodeId) : Build NodeId :=
  create name (Draft.matMul · name lhs rhs)

/-- Adds a broadcast to the shape `dims`, into which the operand is placed from `axis` on. -/
def broadcast (name : String) (input : NodeId) (dims : List Nat) (axis : Nat) : Build NodeId :=
  create name (Draft.broadcast · name input dims axis)

/-- Adds an operation on pairs of elements. -/
def arithmetic (name : String) (op : ArithmeticOp) (lhs rhs : NodeId) : Build NodeId :=
  create name (Draft.arithmetic · name op lhs rhs)

/-- Adds an operation on each element. -/
def unary (name : String) (op : UnaryOp) (input : NodeId) : Build NodeId :=
  create name (Draft.unary · op input)

/-- Adds a normalized exponential along an axis. -/
def softMax (name : String) (input : NodeId) (axis : Nat) : Build NodeId :=
  create name (Draft.softMax · name input axis)

/-- Adds a change of shape. -/
def reshape (name : String) (input : NodeId) (dims : List Nat) : Build NodeId :=
  create name (Draft.reshape · name input dims)

/-- Adds the end of a graph result. -/
def save (name : String) (input : NodeId) : Build NodeId :=
  create name (Draft.save · input)

end Build

/-- The four tensors of a batch normalization. -/
structure BatchParameters where
  scale : Tensor
  bias : Tensor
  mean : Tensor
  variance : Tensor

/-- The tensors with the names of their parameters. -/
def BatchParameters.named (p : BatchParameters) : List (String × Tensor) :=
  [("scale", p.scale), ("bias", p.bias), ("mean", p.mean), ("var", p.variance)]

/-- The tensor of a channel parameter: zeros, one for each channel, into which the elements of
`source` are copied. -/
def channelTensor (channels : Nat) (source : Tensor) : Except GraphError Tensor :=
  (do
    let zeros ← Tensor.zeros .float [channels]
    zeros.copyFrom source).mapError .tensor

namespace Build

/-- Adds `channelTensor channels source` as a parameter. -/
def channelParameter (name : String) (channels : Nat) (source : Tensor) : Build NodeId := do
  let tensor ← read fun _ => channelTensor channels source
  parameter name tensor

/-- A batch normalization over the dimension `channel`. Its tensors become parameters of their
own, named after it, before the node is added. -/
def batchNormalization (name : String) (input : NodeId) (channel : Nat)
    (epsilon momentum : Binary32) (tensors : BatchParameters) : Build NodeId := do
  let channels ← read (Draft.channelCount · name input channel)
  let parameters ← tensors.named.mapM fun (role, source) =>
    channelParameter s!"{name}.{role}" channels source
  create name (Draft.batchNormalization · input channel epsilon momentum parameters)

end Build
end TensorGraph
