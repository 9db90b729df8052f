import TensorGraph.Load.Description
import TensorGraph.Lowering.Operator

/-! # Loading models into a graph

A load lends the tensors of the caller, fills the table with the stored tensors and the declared
inputs of the model, lowers its nodes in order and binds its outputs. A load that fails leaves the
graph as it was. -/

namespace TensorGraph

/-- What `load` does besides lowering nodes. -/
structure LoadOptions where
  /-- Whether the stored tensors of the model are materialized. -/
  initializers : Bool := false
  /-- Whether the declared outputs are bound. -/
  outputs : Bool := false
  /-- The tensors that the caller lends, by name. -/
  lent : List (String × Tensor) := []
  /-- The greatest number of bytes of a model and of a declared input. -/
  limit : Nat := defaultLimit

namespace LoadOptions

/-- Inputs and nodes only, for callers that lend the constants. -/
def embedding : LoadOptions := {}

/-- Everything that the model holds. -/
def standalone : LoadOptions := { initializers := true, outputs := true }

end LoadOptions

/-- What a `load` tells when it succeeds. -/
structure Loaded where
  irVersion : Int64
  opsetVersion : Int64
  /-- The declared outputs with the nodes that end them. -/
  outputs : List (String × NodeId)
  /-- The graph values of all names. -/
  values : NameMap NodeId

/-- The node that ends the output `name`. -/
def Loaded.output? (m : Loaded) (name : String) : Option NodeId :=
  (m.outputs.find? fun e => e.1 == name).map Prod.snd

namespace Lowering

open Onnx

/-! ### The steps of a load -/

/-- Materializes the stored tensors of a model in order, by `Table.storeInitializer`. -/
def storeInitializers (records : List TensorRecord) : Lowering Unit :=
  records.forM fun record => updateTable (·.storeInitializer record)

/-- Gives the declared inputs of a model tensors of zeros, in order, by `Table.declareInput`. -/
def declareInputs (limit : Nat) (records : List ValueRecord) : Lowering Unit :=
  records.forM fun record => updateTable (Table.declareInput limit · record)

/-- Lowers a node of a model; an unsupported operator and any failure are reported for the node
(`LoadError.inNode`). -/
def lowerNode (opset : Int64) (node : NodeRecord) : Lowering Unit := fun s =>
  match lower opset node s with
  | .ok true s => .ok () s
  | .ok false s => .error (.unsupportedOperator node.opType node.title) s
  | .error e s => .error (e.inNode node.opType node.title) s

/-- The name of the node that ends an output. -/
def resultName (output : String) : String := s!"save_{output}"

/-- Ends an output by a `Build.save`; its name must stand for a graph value. -/
def bindResult (output : ValueRecord) : Lowering (String × NodeId) := do
  let id ← found ((← table).value? output.name) (LoadError.unresolved output.name)
  let save ← Build.save (resultName output.name) id
  return (output.name, save)

/-- Ends the declared outputs in order by `bindResult`; there must be one. -/
def bindResults (outputs : List ValueRecord) : Lowering (List (String × NodeId)) := do
  ofExcept (check (outputs ≠ []) .noOutputs)
  outputs.mapM bindResult

/-- Fills the table: the tensors that the caller lends, the stored tensors of the model if
`initializers` asks for them, and the declared inputs. -/
def seed (options : LoadOptions) (model : Description) : Lowering Unit := do
  updateTable fun t => .ok (t.lendAll options.lent)
  if options.initializers then storeInitializers model.graph.initializers
  declareInputs options.limit model.graph.inputs

/-- Lowers nodes in order by `lowerNode`. -/
def lowerNodes (opset : Int64) (nodes : List NodeRecord) : Lowering Unit :=
  nodes.forM (lowerNode opset)

/-- Ends the declared outputs by `bindResults` if `outputs` asks for it. -/
def finish (options : LoadOptions) (model : Description) : Lowering (List (String × NodeId)) :=
  if options.outputs then bindResults model.graph.outputs else pure []

/-- Lowers a model: `seed`, then `lowerNodes`, then `finish`. -/
def lowerModel (options : LoadOptions) (model : Description) : Lowering Loaded := do
  seed options model
  lowerNodes model.opsetVersion model.graph.nodes
  let outputs ← finish options model
  let t ← table
  return {
    irVersion := model.irVersion
    opsetVersion := model.opsetVersion
    outputs
    values := t.values }

end Lowering

/-! ### Loading -/

/-- A load: what happened, a `Loaded` or a `LoadError`, and the graph afterwards. -/
abbrev Outcome := Except LoadError Loaded × Graph

/-- Loads a model into a graph, which is rolled back to its checkpoint (`Graph.rollback`) if that
fails. -/
def load (options : LoadOptions) (model : Description) (g : Graph) : Outcome :=
  match Lowering.lowerModel options model { graph := g } with
  | .ok loaded s => (.ok loaded, s.graph)
  | .error e s => (.error e, s.graph.rollback g.checkpoint)

/-- Loads what was read by `load`, if it was; otherwise the graph stays as it is. -/
def loadRead (options : LoadOptions) (read : Except LoadError Description) (g : Graph) : Outcome :=
  match read with
  | .ok model => load options model g
  | .error e => (.error e, g)

/-- Loads a model from bytes, which `Description.ofBytes` reads. -/
def loadBytes (options : LoadOptions) (bytes : Bytes) : Graph → Outcome :=
  loadRead options (Description.ofBytes options.limit bytes)

/-- Loads a model from a stream, which `Description.ofStream` reads. -/
def loadStream (options : LoadOptions) (stream : Stream) : Graph → Outcome :=
  loadRead options (Description.ofStream options.limit stream)

/-- Loads a model from the file at a path, which `Description.ofFile` reads. -/
def loadFile (options : LoadOptions) (path : String) (file : File) : Graph → Outcome :=
  loadRead options (Description.ofFile options.limit path file)

end TensorGraph
