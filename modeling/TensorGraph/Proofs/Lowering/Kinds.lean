import TensorGraph.Proofs.Graph.Kinds
import TensorGraph.Proofs.Lowering.Moves

/-! # The kinds of nodes that lowerings add

An operator uses some constructors and not others, and whatever it does, it adds nodes of their
kinds only. Besides these, a tensor that is first used as a value becomes a parameter, and batch
normalization adds a node of its own kind. -/

namespace TensorGraph

open Onnx (NodeRecord)
open Step (after MovesBy)
open TensorGraph.Graph (AddsOnly)

namespace Lowering

variable {K : NodeKind → Prop}

/-- Every state in which the step ends has a graph to which only nodes of kinds in `K` were
added. -/
def Adding (K : NodeKind → Prop) {α : Type} (x : Lowering α) : Prop :=
  MovesBy (fun s t => s.graph.AddsOnly K t.graph) x

theorem Adding.addsOnly {α : Type} {x : Lowering α} (hx : Adding K x) (s : Workspace) :
    s.graph.AddsOnly K (after x s).graph :=
  hx.lift (P := fun s t => s.graph.AddsOnly K t.graph) (fun s => .refl s.graph)
    (fun _ _ _ h hmove => h.trans hmove) s

theorem Adding.addsOnly_of_ok {α : Type} {x : Lowering α} {a : α} {s t : Workspace}
    (hx : Adding K x) (h : x s = .ok a t) : s.graph.AddsOnly K t.graph := by
  have hend := hx.addsOnly s
  rwa [Step.after_of_ok h] at hend

theorem adding_onGraph {α : Type} {x : Build α} (hx : MovesBy (AddsOnly K) x) :
    Adding K (onGraph x) :=
  movesBy_onGraph fun s =>
    hx.lift (P := AddsOnly K) .refl (fun _ _ _ h hmove => h.trans hmove) s.graph

/-- A name is looked up by `value`, or else its tensor becomes a parameter. -/
theorem adding_value (hparameter : ∀ tensor, K (.parameter tensor)) (name : String) :
    Adding K (value name) :=
  movesBy_value_of fun s tensor _ _ => .add s.graph name (hparameter tensor)

/-- Adding only nodes of kinds in `K`, as a trait of the operators that use constructors of these
kinds (`UsedBy`). -/
def adding {op : Operator}
    (hbatch : ∀ channel epsilon momentum, K (.batchNormalization channel epsilon momentum))
    (hused : ∀ c : Graph.Constructor, c.UsedBy op → K c.kind) (node : NodeRecord) :
    Trait node op where
  Has := Adding K
  has_pure := .pure
  has_bind := MovesBy.bind_of
  has_ofExcept _ := movesBy_ofExcept _
  has_table := movesBy_table
  has_value _ := adding_value (fun tensor => hused (.parameter tensor) trivial) _
  has_read := movesBy_read
  has_create name c hc := adding_onGraph (Build.addsOnly_constructor name (hused c hc))
  has_intern type := adding_onGraph (Build.addsOnly_intern type)
  has_batchNormalization name input channel epsilon momentum tensors :=
    adding_onGraph (Build.addsOnly_batchNormalization name input tensors
      (fun tensor => hused (.parameter tensor) trivial) (hbatch channel epsilon momentum))
  has_bindOutput _ := movesBy_bindOutput_of fun s _ _ => .refl s.graph

/-- Constants only store tensors. -/
theorem adding_storeConstant (node : NodeRecord) : Adding K (storeConstant node) := by
  refine (movesBy_liftExcept _).bind fun name => movesBy_table.bind fun known => ?_
  split
  · exact .pure ()
  refine (movesBy_liftAttribute _).bind fun record => (movesBy_liftExcept _).bind fun tensor => ?_
  refine .of_move fun s => ?_
  rcases after_updateTable (fun t => .ok (t.insert name tensor)) s with hs | ⟨t, -, hs⟩
  · exact .inl hs
  · rw [hs]
    exact .inr (.refl s.graph)

/-- **An operator adds nodes of the kinds of its constructors** (`UsedBy`), and normalizations of
batches, whether it succeeds or fails. -/
theorem adding_step {op : Operator}
    (hbatch : ∀ channel epsilon momentum, K (.batchNormalization channel epsilon momentum))
    (hused : ∀ c : Graph.Constructor, c.UsedBy op → K c.kind) (opset : Int64) (node : NodeRecord) :
    Adding K (step opset node op) := by
  by_cases hop : op = .constant
  · subst hop
    exact adding_storeConstant node
  · exact (adding hbatch hused node).has_step hop opset

end Lowering
end TensorGraph
