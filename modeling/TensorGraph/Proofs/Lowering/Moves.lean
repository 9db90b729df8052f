import TensorGraph.Proofs.Lowering.Trait
import TensorGraph.Proofs.Lowering.Success

/-! # What lowering a node can do

Lowering a node changes a workspace by four kinds of moves only: an operation on the graph, the
first use of a tensor as a value, the binding of the first output, and, for a constant, the storing
of its tensor. Whatever these moves keep is kept by lowering, whether it succeeds or fails. -/

namespace TensorGraph

open Onnx (NodeRecord)
open Step (after MovesBy)

namespace Lowering

/-- The moves that lowering a node of an operator is made of. -/
inductive Move (op : Operator) (node : NodeRecord) : Workspace → Workspace → Prop
  /-- An operation on the graph. -/
  | operate (s : Workspace) (o : Graph.Operation) :
      Move op node s { s with graph := o.run s.graph }
  /-- The tensor of an input becomes a parameter, as the name has no graph value yet. -/
  | adopt (s : Workspace) (name : String) (tensor : Tensor) (hname : name ∈ node.inputs)
      (hvalue : s.table.value? name = none) (htensor : s.table.tensor? name = some tensor) :
      Move op node s {
        graph := (s.graph.add name (.parameter tensor)).2
        table := s.table.bind name ⟨s.graph.nodes.length⟩ }
  /-- The first output is bound to a graph value. -/
  | bind (s : Workspace) (name : String) (id : NodeId) (hname : node.output = .ok name) :
      Move op node s { s with table := s.table.bind name id }
  /-- The tensor of a constant is stored under the first output. -/
  | store (s : Workspace) (name : String) (record : Onnx.TensorRecord) (tensor : Tensor)
      (hop : op = .constant) (hname : node.output = .ok name)
      (hrecord : node.view.tensor "value" = .ok record)
      (htensor : record.materialize = .ok tensor) :
      Move op node s { s with table := s.table.insert name tensor }

/-! ### Steps that change nothing -/

section Still

variable {α : Type} {M : Workspace → Workspace → Prop}

theorem movesBy_ofExcept (result : Except LoadError α) : MovesBy M (ofExcept result) := by
  refine .of_still fun s => ?_
  unfold ofExcept after
  cases result <;> rfl

theorem movesBy_liftExcept (result : Except LoadError α) :
    MovesBy M (liftM result : Lowering α) := movesBy_ofExcept result

theorem movesBy_liftAttribute (result : Except Onnx.AttributeError α) :
    MovesBy M (liftM result : Lowering α) := movesBy_ofExcept _

theorem movesBy_table : MovesBy M table := .of_still fun _ => rfl

theorem after_onGraph (step : Build α) (s : Workspace) :
    after (onGraph step) s = { s with graph := after step s.graph } := by
  unfold onGraph after
  simp only
  cases step s.graph <;> rfl

theorem movesBy_read (query : Graph → Except GraphError α) :
    MovesBy M (liftM (Build.read query) : Lowering α) := by
  refine .of_still fun s => ?_
  show after (onGraph (.read query)) s = s
  rw [after_onGraph, Build.after_read]

end Still

/-! ### Steps that change something -/

section Changes

variable {α : Type} {M : Workspace → Workspace → Prop} {node : NodeRecord}

theorem after_updateTable (update : Table → Except LoadError Table) (s : Workspace) :
    after (updateTable update) s = s ∨ ∃ t, update s.table = .ok t ∧
      after (updateTable update) s = { s with table := t } := by
  unfold after updateTable
  cases h : update s.table with
  | ok t => exact .inr ⟨t, rfl, rfl⟩
  | error e => exact .inl rfl

/-- A name is looked up by `value`, or else its tensor becomes a parameter. -/
theorem after_value (name : String) (s : Workspace) : after (value name) s = s ∨
    ∃ tensor, s.table.value? name = none ∧ s.table.tensor? name = some tensor ∧
      after (value name) s = {
        graph := (s.graph.add name (.parameter tensor)).2
        table := s.table.bind name ⟨s.graph.nodes.length⟩ } := by
  unfold after value
  cases s.table.value? name with
  | some id => exact .inl rfl
  | none =>
    cases s.table.tensor? name with
    | none => exact .inl rfl
    | some tensor =>
      simp only [Graph.add_fst]
      exact .inr ⟨tensor, trivial, rfl, rfl⟩

theorem movesBy_onGraph {x : Build α}
    (h : ∀ s : Workspace, M s { s with graph := after x s.graph }) : MovesBy M (onGraph x) := by
  refine .of_move fun s => .inr ?_
  rw [after_onGraph]
  exact h s

theorem movesBy_value_of {name : String} (h : ∀ (s : Workspace) tensor,
    s.table.value? name = none → s.table.tensor? name = some tensor → M s {
      graph := (s.graph.add name (.parameter tensor)).2
      table := s.table.bind name ⟨s.graph.nodes.length⟩ }) : MovesBy M (value name) := by
  refine .of_move fun s => ?_
  rcases after_value name s with hs | ⟨tensor, hvalue, htensor, hs⟩
  · exact .inl hs
  · rw [hs]
    exact .inr (h s tensor hvalue htensor)

theorem movesBy_bindOutput_of {id : NodeId} (h : ∀ (s : Workspace) name, node.output = .ok name →
    M s { s with table := s.table.bind name id }) : MovesBy M (bindOutput node id) := by
  refine (movesBy_liftExcept _).bind_of fun s name t hname => .of_move fun r => ?_
  rcases after_updateTable (fun t => .ok (t.bind name id)) r with hr | ⟨known, hknown, hr⟩
  · exact .inl hr
  · cases hknown
    rw [hr]
    exact .inr (h r name (ofExcept_eq_ok.1 hname).1)

end Changes

/-! ### The parts of lowering steps -/

section Parts

variable {op : Operator} {node : NodeRecord}

theorem movesBy_create (name : String) (c : Graph.Constructor) :
    MovesBy (Move op node) (liftM (Build.create name (c.rule name)) : Lowering NodeId) :=
  movesBy_onGraph fun s => .operate s (.create name c)

theorem movesBy_value {name : String} (hname : name ∈ node.inputs) :
    MovesBy (Move op node) (value name) :=
  movesBy_value_of fun s tensor hvalue htensor => .adopt s name tensor hname hvalue htensor

theorem movesBy_inputValue (position : Nat) :
    MovesBy (Move op node) (inputValue node position) := by
  refine (movesBy_liftExcept _).bind_of fun s name t h => ?_
  have hname := (ofExcept_eq_ok.1 h).1
  exact movesBy_value (NodeRecord.mem_inputs_of_input? (found_eq_ok.1 hname))

theorem movesBy_intern (type : ValueType) :
    MovesBy (Move op node) (liftM (Build.intern type) : Lowering TypeRef) :=
  movesBy_onGraph fun s => .operate s (.intern type)

theorem movesBy_bindOutput (id : NodeId) : MovesBy (Move op node) (bindOutput node id) :=
  movesBy_bindOutput_of fun s name hname => .bind s name id hname

theorem movesBy_batchNormalization (name : String) (input : NodeId) (channel : Nat)
    (epsilon momentum : Binary32) (tensors : BatchParameters) :
    MovesBy (Move op node)
      (onGraph (.batchNormalization name input channel epsilon momentum tensors)) :=
  movesBy_onGraph fun s =>
    .operate s (.batchNormalization name input channel epsilon momentum tensors)

theorem movesBy_axesCount : MovesBy (Move op node) (axesCount node) := by
  refine (movesBy_liftAttribute _).bind fun axes => ?_
  cases axes with
  | some axes => exact .pure _
  | none =>
    refine movesBy_table.bind fun t => ?_
    split
    · exact .pure _
    · exact .pure _

/-- Only for the operator of constants is a tensor stored. -/
theorem movesBy_storeConstant : MovesBy (Move .constant node) (storeConstant node) := by
  refine (movesBy_liftExcept _).bind_of fun s name t h => ?_
  have hname := (ofExcept_eq_ok.1 h).1
  refine movesBy_table.bind fun known => ?_
  split
  · exact .pure ()
  refine (movesBy_liftAttribute _).bind_of fun s record t h => ?_
  have hrecord : node.view.tensor "value" = .ok record := by
    have hmap := (ofExcept_eq_ok.1 h).1
    cases hv : node.view.tensor "value" with
    | ok r => rw [hv] at hmap; cases hmap; rfl
    | error e => rw [hv] at hmap; cases hmap
  refine (movesBy_liftExcept _).bind_of fun s tensor t h => ?_
  have htensor := (ofExcept_eq_ok.1 h).1
  refine .of_move fun r => ?_
  rcases after_updateTable (fun t => .ok (t.insert name tensor)) r with hs | ⟨t', ht, hs⟩
  · exact .inl hs
  · cases ht
    rw [hs]
    exact .inr (.store r name record tensor rfl hname hrecord htensor)

end Parts

/-! ### All operators -/

/-- Being made of moves (`Move`), as a trait. -/
def moving (op : Operator) (node : NodeRecord) : Trait node op where
  Has := MovesBy (Move op node)
  has_pure := .pure
  has_bind := MovesBy.bind_of
  has_ofExcept _ := movesBy_ofExcept _
  has_table := movesBy_table
  has_value h := movesBy_value (NodeRecord.valueInputs_subset op h)
  has_read := movesBy_read
  has_create name c _ := movesBy_create name c
  has_intern := movesBy_intern
  has_batchNormalization := movesBy_batchNormalization
  has_bindOutput := movesBy_bindOutput

/-- **Lowering a node is made of moves** (`Move`), whatever its operator is and whether it
succeeds. -/
theorem movesBy_step (opset : Int64) (node : NodeRecord) (op : Operator) :
    MovesBy (Move op node) (step opset node op) := by
  by_cases hop : op = .constant
  · subst hop
    exact movesBy_storeConstant
  · exact (moving op node).has_step hop opset

/-! ### What every move keeps -/

/-- A move changes the graph by at most one operation (`Graph.Operated`). -/
theorem Move.operated {op : Operator} {node : NodeRecord} {s t : Workspace}
    (h : Move op node s t) : s.graph.Operated t.graph := by
  cases h with
  | operate o => exact .single o _
  | adopt name tensor _ _ _ => exact .single (.create name (.parameter tensor)) _
  | bind name id _ => exact .refl _
  | store name record tensor _ _ _ _ => exact .refl _

/-- Only the move of a constant changes a tensor, so all other operators leave `tensors` as they
are. -/
theorem Move.tensors_eq {op : Operator} {node : NodeRecord} {s t : Workspace}
    (h : Move op node s t) (hop : op ≠ .constant) : t.table.tensors = s.table.tensors := by
  cases h with
  | operate o => rfl
  | adopt name tensor _ _ _ => rfl
  | bind name id _ => rfl
  | store name record tensor hc _ _ _ => exact absurd hc hop

theorem operated_of_movesBy {α : Type} {op : Operator} {node : NodeRecord} {x : Lowering α}
    (hx : MovesBy (Move op node) x) (s : Workspace) : s.graph.Operated (after x s).graph :=
  hx.lift (P := fun s t => s.graph.Operated t.graph) (fun s => .refl s.graph)
    (fun _ _ _ h hmove => h.trans hmove.operated) s

/-- A step of an operator that is not `Operator.constant` leaves all tensors as they are. -/
theorem tensors_eq_of_movesBy {α : Type} {op : Operator} {node : NodeRecord} (hop : op ≠ .constant)
    {x : Lowering α} (hx : MovesBy (Move op node) x) (s : Workspace) :
    (after x s).table.tensors = s.table.tensors :=
  hx.lift (P := fun s t => t.table.tensors = s.table.tensors) (fun _ => rfl)
    (fun _ _ _ h hmove => (hmove.tensors_eq hop).trans h) s

end Lowering
end TensorGraph
