import TensorGraph.Check
import TensorGraph.KeyMap
import TensorGraph.Shape.Window
import TensorGraph.Tensor.Basic

/-! # Computation graphs

A graph is a list of nodes and a list of result types, both in order of creation. A node refers to
its operands by their place in the node list and to its result type by its place in the type list.
A map from types to their handles lets equal types share one place, so that two nodes have the same
type exactly when they have the same type handle. Image operands are laid out channel-last.

A checkpoint records how long the two lists are; rolling back cuts them to that length and drops the
handles that lie beyond. -/

namespace TensorGraph

/-! ### Handles and types -/

/-- The handle of a node: its place in the list `Graph.nodes`. -/
structure NodeId where
  index : Nat
  deriving DecidableEq, Inhabited

def NodeId.text (id : NodeId) : String := s!"%{id.index}"

/-- The handle of a type: its place in the list `Graph.types`. -/
structure TypeRef where
  index : Nat
  deriving DecidableEq, Inhabited

/-- The type of a value: its element kind and shape. -/
structure ValueType where
  kind : ElementKind
  dims : List Nat
  deriving DecidableEq, Inhabited

namespace ValueType

def rank (type : ValueType) : Nat := type.dims.length

def text (type : ValueType) : String := type.kind.text ++ Text.sizes type.dims

end ValueType

/-- The `ValueType` of the values that a tensor is. -/
def Tensor.type (t : Tensor) : ValueType := ⟨t.kind, t.dims⟩

/-! ### Nodes -/

/-- Operations on two elements. -/
inductive ArithmeticOp
  | add
  | sub
  | mul
  | div
  deriving DecidableEq

def ArithmeticOp.text : ArithmeticOp → String
  | add => "Add"
  | sub => "Sub"
  | mul => "Mul"
  | div => "Div"

/-- Operations on one element. -/
inductive UnaryOp
  | relu
  | sigmoid
  | tanh
  deriving DecidableEq

def UnaryOp.text : UnaryOp → String
  | relu => "Relu"
  | sigmoid => "Sigmoid"
  | tanh => "Tanh"

/-- What pooling takes from a window. -/
inductive PoolKind
  | max
  | average
  deriving DecidableEq

def PoolKind.text : PoolKind → String
  | max => "Max"
  | average => "Avg"

/-- What a node computes from its operands. -/
inductive NodeKind
  /-- A parameter or input that holds a tensor; no operands. -/
  | parameter (tensor : Tensor)
  /-- Dimension `i` of the result is dimension `shuffle[i]` of the operand. -/
  | transpose (shuffle : List Nat)
  /-- Operands: an image, filters and a bias. -/
  | convolution (window : Window) (group : Nat)
  | pool (kind : PoolKind) (window : Window)
  | squeeze (axes : List Nat)
  | expandDims (axes : List Nat)
  /-- Operands: the input, then scale, bias, mean and variance for each channel. -/
  | batchNormalization (channel : Nat) (epsilon momentum : Binary32)
  | concat (axis : Nat)
  | matMul
  /-- Dimension 0 of the operand is aligned with dimension `axis` of the result. -/
  | broadcast (axis : Nat)
  | arithmetic (op : ArithmeticOp)
  | unary (op : UnaryOp)
  | softMax (axis : Nat)
  | reshape
  /-- The end of a graph result. -/
  | save
  deriving DecidableEq

namespace NodeKind

def isParameter : NodeKind → Bool
  | parameter _ => true
  | _ => false

def isSave : NodeKind → Bool
  | save => true
  | _ => false

end NodeKind

/-- A node of a graph. -/
structure Node where
  name : String
  kind : NodeKind
  operands : List NodeId
  type : TypeRef
  deriving DecidableEq

/-- The tensor of a node, if its kind is `NodeKind.parameter`. -/
def Node.tensor? (n : Node) : Option Tensor :=
  match n.kind with
  | .parameter tensor => some tensor
  | _ => none

/-! ### Graphs -/

/-- Nodes and types in order of creation, with the handle of each type. -/
structure Graph where
  name : String
  nodes : List Node := []
  types : List ValueType := []
  refs : KeyMap ValueType TypeRef := {}
  deriving DecidableEq

/-- The lengths of the two lists `Graph.nodes` and `Graph.types`. -/
structure Checkpoint where
  nodes : Nat
  types : Nat
  deriving DecidableEq

namespace Graph

/-- The graph without nodes. -/
def empty (name : String) : Graph := { name }

/-- Adds a type at the end. -/
def addType (g : Graph) (type : ValueType) : TypeRef × Graph :=
  let ref : TypeRef := ⟨g.types.length⟩
  (ref, { g with types := g.types ++ [type], refs := g.refs.insert type ref })

/-- The handle of a type, which is added by `addType` if `refs` has none for it. -/
def intern (g : Graph) (type : ValueType) : TypeRef × Graph :=
  match g.refs.get? type with
  | some ref => (ref, g)
  | none => g.addType type

/-- Adds a node at the end. -/
def push (g : Graph) (node : Node) : NodeId × Graph :=
  (⟨g.nodes.length⟩, { g with nodes := g.nodes ++ [node] })

/-- The lengths of `nodes` and `types` as they are now. -/
def checkpoint (g : Graph) : Checkpoint := ⟨g.nodes.length, g.types.length⟩

/-- Drops the nodes and types beyond the lengths of a checkpoint. -/
def rollback (g : Graph) (c : Checkpoint) : Graph :=
  { g with
    nodes := g.nodes.take c.nodes
    types := g.types.take c.types
    refs := g.refs.retain fun ref => ref.index < c.types }

/-- The nodes with their handles, which are their places in `nodes`. -/
def entries (g : Graph) : List (NodeId × Node) :=
  g.nodes.zipIdx.map fun (node, i) => (⟨i⟩, node)

/-- The nodes that hold tensors, those of kind `NodeKind.parameter`. -/
def parameters (g : Graph) : List (NodeId × Node) :=
  g.entries.filter fun e => e.2.kind.isParameter

/-- The nodes that end a graph result, those of kind `NodeKind.save`. -/
def saves (g : Graph) : List (NodeId × Node) :=
  g.entries.filter fun e => e.2.kind.isSave

end Graph
end TensorGraph
