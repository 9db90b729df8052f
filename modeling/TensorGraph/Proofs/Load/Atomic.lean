import TensorGraph.Load.Loader
import TensorGraph.Proofs.Lowering.Moves

/-! # Loads as operations on the graph

Every phase of a load changes the graph by operations only, so a load makes a reachable graph of a
reachable graph, and what it has made when it fails extends the graph that it began with. Rolling
back therefore gives exactly that graph again: its nodes, its types and the handles of its types. -/

namespace TensorGraph

open Onnx
open Step (after MovesBy)

namespace Lowering

/-- Every state in which the step ends has a graph made by operations (`Graph.Operated`). -/
def Builds {α : Type} (x : Lowering α) : Prop := MovesBy (fun s t => s.graph.Operated t.graph) x

theorem Builds.operated {α : Type} {x : Lowering α} (hx : Builds x) (s : Workspace) :
    s.graph.Operated (after x s).graph :=
  hx.lift (P := fun s t => s.graph.Operated t.graph) (fun s => .refl s.graph)
    (fun _ _ _ h hmove => h.trans hmove) s

/-! ### The phases of a load -/

theorem builds_updateTable (update : Table → Except LoadError Table) :
    Builds (updateTable update) := by
  refine .of_move fun s => ?_
  rcases after_updateTable update s with hs | ⟨t, -, hs⟩
  · exact .inl hs
  · rw [hs]
    exact .inr (.refl _)

theorem builds_storeInitializers (records : List TensorRecord) :
    Builds (storeInitializers records) :=
  .forM fun _ _ => builds_updateTable _

theorem builds_declareInputs (limit : Nat) (records : List ValueRecord) :
    Builds (declareInputs limit records) :=
  .forM fun _ _ => builds_updateTable _

theorem builds_lower (opset : Int64) (node : NodeRecord) : Builds (lower opset node) := by
  unfold lower
  cases node.operator? with
  | none => exact .pure false
  | some op =>
    refine MovesBy.bind ?_ fun _ => .pure true
    exact (movesBy_step opset node op).mono fun _ _ => Move.operated

/-- Reporting an error for the node, as `lowerNode` does, leaves the workspace as far as `lower`
got. -/
theorem after_lowerNode (opset : Int64) (node : NodeRecord) (s : Workspace) :
    after (lowerNode opset node) s = after (lower opset node) s := by
  unfold after lowerNode
  cases lower opset node s with
  | ok supported t => cases supported <;> rfl
  | error e t => rfl

theorem builds_lowerNode (opset : Int64) (node : NodeRecord) : Builds (lowerNode opset node) := by
  intro s
  rw [after_lowerNode]
  exact builds_lower opset node s

/-- Binding the outputs by `bindResults` moves as making the nodes that end them does. -/
theorem movesBy_bindResults {M : Workspace → Workspace → Prop} (hsave : ∀ name id,
    MovesBy M (onGraph (.create name (Graph.Constructor.rule name (.save id)))))
    (outputs : List ValueRecord) : MovesBy M (bindResults outputs) := by
  have hbind : ∀ output, MovesBy M (bindResult output) := by
    intro output
    refine movesBy_table.bind fun t => (movesBy_liftExcept _).bind fun id => ?_
    exact MovesBy.bind (hsave (resultName output.name) id) fun save => .pure _
  exact (movesBy_ofExcept _).bind fun _ => .mapM fun output _ => hbind output

theorem builds_bindResults (outputs : List ValueRecord) : Builds (bindResults outputs) :=
  movesBy_bindResults (fun name id => movesBy_onGraph fun _ => .single (.create name (.save id)) _)
    outputs

theorem builds_seed (options : LoadOptions) (model : Description) :
    Builds (seed options model) := by
  refine (builds_updateTable _).bind fun _ => ?_
  split
  · exact (builds_storeInitializers _).bind fun _ => builds_declareInputs _ _
  · exact builds_declareInputs _ _

theorem builds_lowerNodes (opset : Int64) (nodes : List NodeRecord) :
    Builds (lowerNodes opset nodes) :=
  .forM fun node _ => builds_lowerNode opset node

theorem builds_finish (options : LoadOptions) (model : Description) :
    Builds (finish options model) := by
  unfold finish
  split
  · exact builds_bindResults _
  · exact .pure []

theorem builds_lowerModel (options : LoadOptions) (model : Description) :
    Builds (lowerModel options model) := by
  refine (builds_seed options model).bind fun _ => (builds_lowerNodes _ _).bind fun _ => ?_
  exact (builds_finish options model).bind fun outputs => movesBy_table.bind fun t => .pure _

end Lowering

/-! ### The graph after a load -/

section Load

variable {options : LoadOptions} {model : Description} {g h : Graph}

/-- A load that succeeds has changed the graph by operations (`Graph.Operated`). -/
theorem operated_of_load_ok {loaded : Loaded} (hload : load options model g = (.ok loaded, h)) :
    g.Operated h := by
  have hend := (Lowering.builds_lowerModel options model).operated { graph := g }
  unfold load at hload
  split at hload
  · next s hs =>
    rw [Step.after_of_ok hs] at hend
    cases hload
    exact hend
  · cases hload

/-- **A load that fails leaves the graph as it was**: its `nodes`, its `types` and the handles of
its types in `refs`, whatever the phase in which it fails and whatever was added before. -/
theorem graph_of_load_error (hg : g.Reachable) {e : LoadError}
    (hload : load options model g = (.error e, h)) : h = g := by
  have hend := (Lowering.builds_lowerModel options model).operated { graph := g }
  unfold load at hload
  split at hload
  · cases hload
  · next s hs =>
    rw [Step.after_of_error hs] at hend
    cases hload
    exact Graph.rollback_of_extends hg.indexed.refsBelow hend.toExtends

/-- A load into a graph that holds a parameter, which fails at its second node: the parameter and
the node made for the first one, and their type, are gone again. -/
theorem graph_of_softMax_error :
    let held : Tensor := ⟨[1], .float #[.zero], rfl⟩
    let g := (Graph.Operation.create "held" (.parameter held)).run (.empty "g")
    let dims : List DimensionRecord := [{ size := some (.fixed 2) }]
    let input : ValueRecord := {
      name := "x"
      type := some { tensorType := some { elementType := floatCode, shape := some { dims } } } }
    let relu : NodeRecord := { inputs := ["x"], outputs := ["y"], opType := "Relu" }
    let softMax : NodeRecord := { inputs := ["y"], outputs := ["z"], opType := "Softmax" }
    let model : Description := {
      irVersion := 8, opsetVersion := 13, graph := { inputs := [input], nodes := [relu, softMax] } }
    g.nodes.length = 1 ∧ (load .embedding model g).1 = .error (.node "Softmax" "z"
      (.attribute (.invalid "axis" (.axisRange 1 1)))) ∧ (load .embedding model g).2 = g := by
  intro held g dims input relu softMax model
  have hg : g.Reachable := .operate (.empty "g") _
  have hfail : (load .embedding model g).1 = .error (.node "Softmax" "z"
      (.attribute (.invalid "axis" (.axisRange 1 1)))) := rfl
  exact ⟨rfl, hfail, graph_of_load_error hg (Prod.ext hfail rfl)⟩

end Load

end TensorGraph
