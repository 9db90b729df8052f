import TensorGraph.Proofs.Lowering.Options
import TensorGraph.Proofs.Lowering.Squeeze
import TensorGraph.Proofs.Lowering.Target

/-! # A list as an attribute and as an input

Reshaping, squeezing and unsqueezing take a list of numbers besides their operand: a target shape or
axes. Older models give the list as an attribute, newer ones as a constant second input, and the
operators do not agree on which of the two comes first. Once the list is known, an operator resolves
its operand and builds a node from the operand, its shape and the list; where the list was found no
longer matters, so both forms of a node are lowered alike. -/

namespace TensorGraph

open Onnx (NodeRecord)

/-- Two nodes that differ in their `attributes` and in the `inputs` after the first at most. -/
structure Onnx.NodeRecord.SameHead (node other : NodeRecord) : Prop where
  name : other.name = node.name
  opType : other.opType = node.opType
  domain : other.domain = node.domain
  outputs : other.outputs = node.outputs
  first : other.input? 0 = node.input? 0

/-- A node takes its `title` from its name and outputs. -/
theorem Onnx.NodeRecord.title_congr {node other : NodeRecord} (hname : other.name = node.name)
    (houtputs : other.outputs = node.outputs) : other.title = node.title := by
  rw [title, title, hname, houtputs]

namespace Onnx.NodeRecord.SameHead

variable {node other : NodeRecord}

theorem title_eq (h : node.SameHead other) : other.title = node.title :=
  title_congr h.name h.outputs

theorem operator?_eq (h : node.SameHead other) : other.operator? = node.operator? := by
  rw [operator?, operator?, h.domain, h.opType]

theorem input_eq (h : node.SameHead other) : other.input 0 = node.input 0 := by
  rw [input, input, h.first, h.opType]

theorem output_eq (h : node.SameHead other) : other.output = node.output := by
  rw [output, output, h.outputs, h.opType]

end Onnx.NodeRecord.SameHead

namespace Lowering

variable {α : Type} {s r t : Workspace} {node other : NodeRecord} {list : List Int64}

/-! ### Operands first, then a node -/

/-- Reads operands and a shape by `read`, builds a node from them by `build` and binds it to the
output. -/
def assemble (node : NodeRecord) (read : Lowering (α × List Nat))
    (build : α → List Nat → Lowering NodeId) : Lowering Unit := do
  let (operands, shape) ← read
  let output ← build operands shape
  bindOutput node output

/-- The first input and its shape. -/
def readInput (node : NodeRecord) : Lowering (NodeId × List Nat) := do
  let input ← inputValue node 0
  return (input, ← dims input)

theorem assemble_readInput (build : NodeId → List Nat → Lowering NodeId) :
    assemble node (readInput node) build = (do
      let input ← inputValue node 0
      let shape ← dims input
      let output ← build input shape
      bindOutput node output) := by
  simp only [assemble, readInput, bind_assoc, pure_bind]

theorem bindOutput_congr (h : node.SameHead other) (id : NodeId) :
    bindOutput other id = bindOutput node id := by
  rw [bindOutput, bindOutput, h.output_eq]

theorem readInput_congr (h : node.SameHead other) : readInput other = readInput node := by
  rw [readInput, readInput, inputValue, inputValue, h.input_eq]

theorem assemble_congr (h : node.SameHead other) (read : Lowering (α × List Nat))
    (build : α → List Nat → Lowering NodeId) :
    assemble other read build = assemble node read build := by
  simp only [assemble, bindOutput_congr h]

theorem readInput_eq_ok {input : NodeId} {shape : List Nat} :
    readInput node s = .ok (input, shape) t ↔
      inputValue node 0 s = .ok input t ∧ t.graph.dims input = .ok shape := by
  unfold readInput
  simp only [Step.bind_eq_ok, dims_eq_ok, Step.pure_eq_ok, Prod.mk.injEq]
  constructor
  · rintro ⟨_, _, hinput, _, _, ⟨hshape, rfl⟩, ⟨rfl, rfl⟩, rfl⟩
    exact ⟨hinput, hshape⟩
  · rintro ⟨hinput, hshape⟩
    exact ⟨_, _, hinput, _, _, ⟨hshape, rfl⟩, ⟨rfl, rfl⟩, rfl⟩

/-- Nodes of one operator are lowered alike when its `step` does the same for both. -/
theorem lower_congr {opset : Int64} {op : Operator} (hop : node.operator? = some op)
    (hop' : other.operator? = some op) (h : step opset other op s = step opset node op s) :
    lower opset other s = lower opset node s := by
  simp only [lower, hop, hop', Step.bind_apply, h]

/-! ### Operators with a list -/

/-- The operators that take a list of numbers besides their operand. -/
inductive ListOperator
  | reshape
  | squeeze
  | unsqueeze

namespace ListOperator

def operator : ListOperator → Operator
  | reshape => .reshape
  | squeeze => .squeeze
  | unsqueeze => .unsqueeze

/-- The name of the attribute with the list. -/
def key : ListOperator → String
  | reshape => "shape"
  | squeeze => "axes"
  | unsqueeze => "axes"

/-- Adds the node for an operand of the shape `shape` and a list. -/
def build (op : ListOperator) (title : String) (list : List Int64) (input : NodeId)
    (shape : List Nat) : Lowering NodeId :=
  match op with
  | reshape => do
    let into ← resolveTarget shape list
    Build.reshape title input into
  | squeeze => do
    let axes ← list.mapM fun axis => Onnx.axisOf "axes" axis shape.length
    Build.squeeze title input axes
  | unsqueeze => do
    let axes ← list.mapM fun axis => Onnx.axisOf "axes" axis (shape.length + list.length)
    Build.expandDims title input axes

/-- The node gives the list, by its attribute (`key`) or by the index tensor of its second input.
Where both are there, a reshaping takes the input and the other operators take the attribute. -/
inductive Gives (op : ListOperator) (s : Workspace) (node : NodeRecord) : List Int64 → Prop
  | listed {list : List Int64} (hlist : node.view.ints? op.key = .ok (some list))
      (hsecond : op = reshape → node.input? 1 = none) : Gives op s node list
  | input {name : String} {tensor : Tensor} {values : Array Int64}
      (hkey : op ≠ reshape → node.view.ints? op.key = .ok none) (hname : node.input? 1 = some name)
      (htensor : s.table.tensor? name = some tensor) (hvalues : tensor.indices? = some values) :
    Gives op s node values.toList

end ListOperator

theorem givesAxes_of_gives {op : ListOperator} (h : op.Gives s node list) (hkey : op.key = "axes") :
    GivesAxes s node list := by
  have hop : op ≠ .reshape := by
    rintro rfl
    exact absurd hkey (by decide)
  cases h with
  | listed hlist => exact .listed (hkey ▸ hlist)
  | input hnone hname htensor hvalues => exact .input (hkey ▸ hnone hop) hname htensor hvalues

theorem targetShape_of_gives (h : ListOperator.reshape.Gives s node list) :
    targetShape node s = .ok list s := by
  unfold targetShape
  cases h with
  | listed hlist hsecond =>
    simp only [hsecond rfl, Step.bind_eq_ok]
    exact ⟨_, s, liftAttribute_eq_ok.2 ⟨hlist, rfl⟩, lift_eq_ok.2 ⟨rfl, rfl⟩⟩
  | input hnone hname htensor hvalues =>
    simp only [hname]
    exact constantIndices_eq_ok.2 ⟨⟨_, _, htensor, hvalues, rfl⟩, rfl⟩

theorem ListOperator.Gives.of_tensor?_eq {op : ListOperator} (h : op.Gives s node list)
    (ht : ∀ name, t.table.tensor? name = s.table.tensor? name) : op.Gives t node list := by
  cases h with
  | listed hlist hsecond => exact .listed hlist hsecond
  | input hnone hname htensor hvalues =>
    exact .input hnone hname ((ht _).trans htensor) hvalues

/-- **With the list at hand** (`Gives`), an operator only needs its operand. -/
theorem step_eq_assemble (opset : Int64) {op : ListOperator} (h : op.Gives s node list) :
    step opset node op.operator s =
      assemble node (readInput node) (op.build node.title list) s := by
  rw [assemble_readInput]
  -- The list does not change while the operand is resolved.
  have hgives : ∀ input r, inputValue node 0 s = .ok input r → op.Gives r node list :=
    fun input r hr => h.of_tensor?_eq (tensor?_of_inputValue hr)
  cases op with
  | reshape =>
    refine Step.bind_congr fun input r hr => ?_
    rw [Step.bind_of_ok (targetShape_of_gives (hgives input r hr))]
    refine Step.bind_congr fun shape r' hr' => ?_
    simp only [ListOperator.build, bind_assoc]
  | squeeze =>
    refine Step.bind_congr fun input r hr => Step.bind_congr fun shape r' hr' => ?_
    obtain ⟨-, rfl⟩ := dims_eq_ok.1 hr'
    have haxes := axesOf_of_gives (givesAxes_of_gives (hgives input r' hr) rfl)
    simp only [ListOperator.build, resolvedAxes, bind_assoc]
    rw [Step.bind_of_ok haxes]
  | unsqueeze =>
    refine Step.bind_congr fun input r hr => Step.bind_congr fun shape r' hr' => ?_
    obtain ⟨-, rfl⟩ := dims_eq_ok.1 hr'
    have hgives := givesAxes_of_gives (hgives input r' hr) rfl
    simp only [ListOperator.build, resolvedAxes, bind_assoc]
    rw [Step.bind_of_ok (axesCount_of_gives hgives), Step.bind_of_ok (axesOf_of_gives hgives)]

/-! ### What is added -/

/-- One node is added for the `draft`, which has the value of the first input as its only operand,
and is bound to the output. The value is the only other node that may be new. -/
structure Appends (node : NodeRecord) (s t : Workspace) (input : String) (operand : NodeId)
    (r : Workspace) (draft : Draft) : Prop where
  first : node.input? 0 = some input
  value : value input s = .ok operand r
  operands : draft.operands = [operand]
  made : draft.kind.isParameter = false
  eq : ∃ output, node.output = .ok output ∧ t = bound r node.title output draft

/-- The nodes of an addition (`Appends`) are those that were there, perhaps a parameter for the
first input, and the new node. -/
theorem Appends.nodes_eq {input : String} {operand : NodeId} {draft : Draft}
    (h : Appends node s t input operand r draft) : ∃ adopted ref,
      (adopted = [] ∨ ∃ tensor ref, adopted = [⟨input, .parameter tensor, [], ref⟩]) ∧
      t.graph.nodes = s.graph.nodes ++ adopted ++ [⟨node.title, draft.kind, [operand], ref⟩] := by
  obtain ⟨output, -, rfl⟩ := h.eq
  simp only [bound, Graph.nodes_add, h.operands]
  rcases value_eq_ok.1 h.value with ⟨-, rfl⟩ | ⟨-, -, tensor, -, rfl⟩
  · exact ⟨[], _, .inl rfl, by rw [List.append_nil]⟩
  · simp only [Graph.nodes_add]
    exact ⟨_, _, .inr ⟨tensor, _, rfl⟩, rfl⟩

theorem build_eq_ok {op : ListOperator} {title : String} {input id : NodeId} {shape : List Nat}
    (h : op.build title list input shape s = .ok id t) : ∃ draft, draft.operands = [input] ∧
      draft.kind.isParameter = false ∧ id = ⟨s.graph.nodes.length⟩ ∧
      t = { s with graph := (s.graph.add title draft).2 } := by
  cases op with
  | reshape =>
    obtain ⟨into, _, hinto, hcreate⟩ := Step.bind_eq_ok.1 h
    obtain ⟨-, rfl⟩ := lift_eq_ok.1 hinto
    obtain ⟨_, hdraft, hid, ht⟩ := create_eq_ok.1 hcreate
    obtain ⟨type, n, -, -, -, rfl⟩ := Draft.reshape_eq_ok.1 hdraft
    exact ⟨_, rfl, rfl, hid, ht⟩
  | squeeze =>
    obtain ⟨axes, _, haxes, hcreate⟩ := Step.bind_eq_ok.1 h
    obtain ⟨-, rfl⟩ := mapM_liftAttribute_eq_ok.1 haxes
    obtain ⟨_, hdraft, hid, ht⟩ := create_eq_ok.1 hcreate
    obtain ⟨type, -, -, -, rfl⟩ := Draft.squeeze_eq_ok.1 hdraft
    exact ⟨_, rfl, rfl, hid, ht⟩
  | unsqueeze =>
    obtain ⟨axes, _, haxes, hcreate⟩ := Step.bind_eq_ok.1 h
    obtain ⟨-, rfl⟩ := mapM_liftAttribute_eq_ok.1 haxes
    obtain ⟨_, hdraft, hid, ht⟩ := create_eq_ok.1 hcreate
    obtain ⟨type, long, -, -, -, -, rfl⟩ := Draft.expandDims_eq_ok.1 hdraft
    exact ⟨_, rfl, rfl, hid, ht⟩

theorem appends_of_assemble {op : ListOperator}
    (h : assemble node (readInput node) (op.build node.title list) s = .ok () t) :
    ∃ input operand r draft, Appends node s t input operand r draft := by
  obtain ⟨⟨operand, shape⟩, r, hread, hbuild⟩ := Step.bind_eq_ok.1 h
  obtain ⟨id, _, hmade, hbind⟩ := Step.bind_eq_ok.1 hbuild
  obtain ⟨hinput, -⟩ := readInput_eq_ok.1 hread
  obtain ⟨input, hfirst, hvalue⟩ := inputValue_eq_ok.1 hinput
  obtain ⟨draft, hoperands, hkind, rfl, rfl⟩ := build_eq_ok hmade
  obtain ⟨output, houtput, rfl⟩ := bindOutput_eq_ok.1 hbind
  exact ⟨input, operand, r, draft, hfirst, hvalue, hoperands, hkind, output, houtput, rfl⟩

/-! ### Two forms of one node -/

/-- The older form of a node: the attribute has the `list` and no second input is given. -/
structure ListOperator.Older (op : ListOperator) (node : NodeRecord) (list : List Int64) :
    Prop where
  listed : node.view.ints? op.key = .ok (some list)
  second : node.input? 1 = none

/-- The newer form of a node: the attribute is not there, and the second input names an index tensor
with the `list`. -/
structure ListOperator.Newer (op : ListOperator) (s : Workspace) (node : NodeRecord)
    (list : List Int64) (name : String) : Prop where
  missing : node.view.get? op.key = none
  second : node.input? 1 = some name
  constant : ∃ tensor values, s.table.tensor? name = some tensor ∧
    tensor.indices? = some values ∧ values.toList = list

theorem ListOperator.Older.gives {op : ListOperator} (h : op.Older node list) :
    op.Gives s node list :=
  .listed h.listed fun _ => h.second

theorem ListOperator.Newer.gives {op : ListOperator} {name : String}
    (h : op.Newer s node list name) : op.Gives s node list := by
  obtain ⟨tensor, values, htensor, hvalues, rfl⟩ := h.constant
  exact .input (fun _ => Onnx.Attributes.ints?_of_missing h.missing) h.second htensor hvalues

/-- **Both forms of a node are lowered alike.** A node with a list as its attribute (`Older`) and
the same node with the list as a constant second input (`Newer`) end alike in every workspace: with
the same error or with the same graph and names. The constant is not turned into a node: besides the
node for the operator only the first input may be new, and it is the only operand (`Appends`). -/
theorem lower_forms (opset : Int64) {op : ListOperator} {older newer : NodeRecord} {name : String}
    (hop : older.operator? = some op.operator) (hsame : older.SameHead newer)
    (hold : op.Older older list) (hnew : op.Newer s newer list name) :
    lower opset newer s = lower opset older s ∧
    ∀ t, lower opset newer s = .ok true t → ∃ input operand r draft,
      Appends newer s t input operand r draft ∧ ∃ adopted ref,
        (adopted = [] ∨ ∃ tensor ref, adopted = [⟨input, .parameter tensor, [], ref⟩]) ∧
        t.graph.nodes =
          s.graph.nodes ++ adopted ++ [⟨newer.title, draft.kind, [operand], ref⟩] := by
  have hop' : newer.operator? = some op.operator := hsame.operator?_eq.trans hop
  have hstep : step opset newer op.operator s = step opset older op.operator s := by
    rw [step_eq_assemble opset hnew.gives, step_eq_assemble opset hold.gives,
      assemble_congr hsame, readInput_congr hsame, hsame.title_eq]
  refine ⟨lower_congr hop hop' hstep, fun t ht => ?_⟩
  have hassemble := (lower_eq_ok_true hop').1 ht
  rw [step_eq_assemble opset hnew.gives] at hassemble
  obtain ⟨input, operand, r, draft, h⟩ := appends_of_assemble hassemble
  exact ⟨input, operand, r, draft, h, h.nodes_eq⟩

/-- A matrix and a target shape. -/
def reshapeStart : Workspace where
  graph := .empty "g"
  table := Table.lendAll {} [("x", ⟨[2, 3], .zeros .float 6, rfl⟩),
    ("shape", ⟨[2], .index #[3, -1], rfl⟩)]

/-- A reshaping that reads its target from a tensor. -/
def reshapeByInput : NodeRecord :=
  { inputs := ["x", "shape"], outputs := ["y"], opType := "Reshape" }

/-- The same reshaping with the target as its attribute. -/
def reshapeByAttribute : NodeRecord :=
  { reshapeByInput with
    inputs := ["x"], attributes := [{ name := "shape", type := 7, ints := [3, -1] }] }

/-- Both reshapings, `reshapeByInput` and `reshapeByAttribute`, add the matrix and one node. -/
theorem lower_forms_matrix :
    lower 13 reshapeByInput reshapeStart = lower 13 reshapeByAttribute reshapeStart ∧
    ∃ t, lower 13 reshapeByAttribute reshapeStart = .ok true t ∧
      t.graph.nodes.map (·.name) = ["x", "y"] := by
  have hop : reshapeByAttribute.operator? = some ListOperator.reshape.operator := rfl
  have hhead : reshapeByAttribute.SameHead reshapeByInput := ⟨rfl, rfl, rfl, rfl, rfl⟩
  have hold : ListOperator.reshape.Older reshapeByAttribute [3, -1] := ⟨rfl, rfl⟩
  have hnew : ListOperator.reshape.Newer reshapeStart reshapeByInput [3, -1] "shape" :=
    ⟨rfl, rfl, _, _, rfl, rfl, rfl⟩
  obtain ⟨hsame, -⟩ := lower_forms 13 hop hhead hold hnew
  have hruns : lower 13 reshapeByAttribute reshapeStart =
      .ok true (Step.after (lower 13 reshapeByAttribute) reshapeStart) := rfl
  exact ⟨hsame, _, hruns, rfl⟩

end Lowering
end TensorGraph
