import TensorGraph.Graph.Basic

/-! # Graph errors

A node is refused when an operand is missing or when the types of the operands and the parameters
of the node do not fit each other. -/

namespace TensorGraph

open Text

/-- How shapes and parameters of a new node fail to fit. -/
inductive Misfit
  | filterChannels (filter : List Nat) (channels group : Nat)
  | filterKernel (filter : List Nat) (kernel : Nat)
  | biasLength (length depth : Nat)
  | window (window : Window) (height width : Nat)
  | outputType (type : ValueType) (expected : List Nat)
  | squeezedSize (axis size : Nat)
  | channelRange (channel : Nat) (type : ValueType)
  | noOperands
  | axisOfType (axis : Nat) (type : ValueType)
  | concatenation (type first : ValueType) (axis : Nat)
  | product (lhs rhs : List Nat)
  | broadcast (type : ValueType) (dims : List Nat) (axis : Nat)
  | operandTypes (op : ArithmeticOp) (lhs rhs : ValueType)
  | axisOfRank (axis rank : Nat)
  | reshape (type : ValueType) (dims : List Nat)
  | axes (axes : List Nat) (rank : Nat)
  deriving DecidableEq

def Misfit.message : Misfit → String
  | filterChannels filter channels group =>
    s!"filter {sizes filter} does not match {channels} input channels in {group} groups"
  | filterKernel filter kernel => s!"filter {sizes filter} does not match kernel {kernel}"
  | biasLength length depth => s!"bias of length {length} does not match depth {depth}"
  | window w height width => s!"window {w.text} does not fit {height}x{width}"
  | outputType type expected =>
    s!"output type {type.text} does not match expected {sizes expected}"
  | squeezedSize axis size => s!"cannot squeeze dimension {axis} of size {size}"
  | channelRange channel type =>
    s!"channel dimension {channel} is out of range for {type.text}"
  | noOperands => "concat needs at least one input"
  | axisOfType axis type => s!"axis {axis} is out of range for {type.text}"
  | concatenation type first axis =>
    s!"cannot concatenate {type.text} with {first.text} along axis {axis}"
  | product lhs rhs => s!"cannot multiply {sizes lhs} by {sizes rhs}"
  | broadcast type dims axis =>
    s!"cannot broadcast {type.text} to {sizes dims} at axis {axis}"
  | operandTypes op lhs rhs => s!"operands of {op.text} differ: {lhs.text} and {rhs.text}"
  | axisOfRank axis rank => s!"axis {axis} is out of range for rank {rank}"
  | reshape type dims => s!"cannot reshape {type.text} into {sizes dims}"
  | axes given rank => s!"invalid axes {sizes given} for rank {rank}"

/-- Why a graph operation fails. The last two causes, `staleType` and `outOfRange`, are broken
assumptions about handles and places in lists. -/
inductive GraphError
  | unknownNode (id : NodeId)
  | rank (node : String) (expected actual : Nat)
  | kind (node : String) (expected actual : ElementKind)
  | misfit (node : String) (cause : Misfit)
  | tensor (cause : TensorError)
  /-- The type handle points past the types of the graph. -/
  | staleType (ref : TypeRef)
  /-- A list is shorter than the position that is read or filled. -/
  | outOfRange (index length : Nat)
  deriving DecidableEq

namespace GraphError

/-- The text of a graph error. -/
def message : GraphError → String
  | unknownNode id => s!"node {id.text} does not exist"
  | rank node expected actual =>
    s!"{node}: expected an input of rank {expected}, got {actual}"
  | kind node expected actual =>
    s!"{node}: expected {expected.text} elements, got {actual.text}"
  | misfit node cause => s!"{node}: {cause.message}"
  | tensor cause => cause.message
  | staleType ref => s!"type {ref.index} does not exist"
  | outOfRange index length =>
    s!"index out of bounds: the len is {length} but the index is {index}"

/-- Whether a failure ends the program and is not reported to the caller as a `GraphError`. -/
def isFault : GraphError → Bool
  | staleType _ => true
  | outOfRange _ _ => true
  | tensor cause => cause.isFault
  | _ => false

end GraphError
end TensorGraph
