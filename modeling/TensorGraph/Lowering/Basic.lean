import TensorGraph.Graph.Build
import TensorGraph.Load.Table

/-! # Lowering steps

Lowering turns the nodes of a model into nodes of a graph. It works on a workspace: the graph that
is extended and the table of names. A step ends with a result or an error, and in both cases with
the workspace as far as it got.

The names of the operands of a node are resolved through the table; the value that a node is turned
into is bound to its first output. -/

namespace TensorGraph

/-- The `Graph` under construction and the `Table` of the names known so far. -/
structure Workspace where
  graph : Graph
  table : Table := {}
  deriving DecidableEq

/-- A step on a `Workspace`, with a result or a `LoadError`. -/
abbrev Lowering := EStateM LoadError Workspace

/-! ### Reading a node -/

namespace Onnx.NodeRecord

variable (node : NodeRecord)

/-- The name given to what a node is turned into: its own, or that of its first output. -/
def title : String :=
  if node.name.isEmpty then node.outputs.headD "" else node.name

/-- The name of an auxiliary part of what a node is turned into. -/
def part (suffix : String) : String := s!"{node.title}.{suffix}"

/-- The input at a `position`, if it is given. An empty name stands for an input left out. -/
def input? (position : Nat) : Option String :=
  node.inputs[position]?.filter fun name => !name.isEmpty

/-- The input at a `position`, which must be given. -/
def input (position : Nat) : Except LoadError String :=
  found (node.input? position) (.shape (.missingInput node.opType position))

/-- The first output, which must have a name. -/
def output : Except LoadError String :=
  found (node.outputs.head?.filter fun name => !name.isEmpty) (.shape (.missingOutput node.opType))

end Onnx.NodeRecord

namespace Lowering

variable {α : Type}

/-! ### Steps that only read, and steps on the graph -/

/-- A result that does not depend on the workspace. -/
def ofExcept (result : Except LoadError α) : Lowering α := fun s =>
  match result with
  | .ok a => .ok a s
  | .error e => .error e s

instance : MonadLift (Except LoadError) Lowering := ⟨ofExcept⟩

instance : MonadLift (Except Onnx.AttributeError) Lowering :=
  ⟨fun result => ofExcept (result.mapError .attribute)⟩

/-- A step on the graph of the workspace; its error becomes one of `LoadError.graph`. -/
def onGraph (step : Build α) : Lowering α := fun s =>
  match step s.graph with
  | .ok a graph => .ok a { s with graph }
  | .error e graph => .error (.graph e) { s with graph }

instance : MonadLift Build Lowering := ⟨onGraph⟩

/-- The shape of a value. -/
def dims (id : NodeId) : Lowering (List Nat) := onGraph (.read (·.dims id))

/-- The table as it is now. -/
def table : Lowering Table := fun s => .ok s.table s

/-- Replaces the table by what is made of it, unless that fails. -/
def updateTable (update : Table → Except LoadError Table) : Lowering Unit := fun s =>
  match update s.table with
  | .ok table => .ok () { s with table }
  | .error e => .error e s

/-! ### Names -/

/-- The graph value of a name. A tensor becomes a parameter of the graph the first time that its
name is used for a value, and `Table.bind` remembers it. -/
def value (name : String) : Lowering NodeId := fun s =>
  match s.table.value? name with
  | some id => .ok id s
  | none =>
    match s.table.tensor? name with
    | none => .error (.unresolved name) s
    | some tensor =>
      let (id, graph) := s.graph.add name (.parameter tensor)
      .ok id { graph, table := s.table.bind name id }

/-- The `value` of the input at a `position`. -/
def inputValue (node : Onnx.NodeRecord) (position : Nat) : Lowering NodeId := do
  value (← node.input position)

/-- The graph values of all inputs. -/
def inputValues (node : Onnx.NodeRecord) : Lowering (List NodeId) :=
  node.inputs.mapM value

/-- The tensor of a name that must stand for one, by `Table.constant`. -/
def constant (name : String) : Lowering Tensor := do
  (← table).constant name

/-- The numbers of the index tensor that a name must stand for; `role` says what for. -/
def constantIndices (role name : String) : Lowering (List Int64) := do
  match (← table).lookup? name with
  | some (.tensor tensor) =>
    let indices ← found tensor.indices? (LoadError.shape (.notIntegers role name))
    return indices.toList
  | some (.value _) => throw (.notConstant name)
  | none => throw (.unresolved name)

/-- Binds a value to the first output of a node by `Table.bind`. -/
def bindOutput (node : Onnx.NodeRecord) (id : NodeId) : Lowering Unit := do
  let name ← node.output
  updateTable fun t => .ok (t.bind name id)

end Lowering
end TensorGraph
