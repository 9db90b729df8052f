import TensorGraph.Proofs.Lowering.Adoption
import TensorGraph.Proofs.Lowering.Constants

/-! # What lowering a node leaves alone

A lowering has two phases. In the first one the graph grows and names of operands get new
parameters for their tensors; in the second one the first output is bound, and that cannot fail
once it has begun. So what a failed lowering leaves behind is what the first phase has made, and a
lowering that succeeds touches the first output besides. Nothing is asked of the workspace: its
table may hold handles that stand for no node. -/

namespace TensorGraph

open Onnx (NodeRecord)
open Step (after MovesBy)

namespace Lowering

/-! ### The first phase -/

/-- Adoption (`Adopts`) in which the handles that names get are new. -/
structure AdoptsNew (names : List String) (s t : Workspace) : Prop extends Adopts names s t where
  /-- A handle that a name has got stands for a node that was not there before. -/
  behind : ∀ {name id}, t.table.value? name = some id →
    s.table.value? name = some id ∨ s.graph.nodes.length ≤ id.index

namespace AdoptsNew

variable {names : List String} {s t u : Workspace}

theorem of_extends {g : Graph} (h : s.graph.Extends g) :
    AdoptsNew names s { s with graph := g } where
  toAdopts := .of_extends h
  behind := .inl

theorem refl (s : Workspace) : AdoptsNew names s s := of_extends (.refl s.graph)

theorem trans (hst : AdoptsNew names s t) (htu : AdoptsNew names t u) : AdoptsNew names s u where
  toAdopts := hst.toAdopts.trans htu.toAdopts
  behind := by
    intro name id h
    rcases htu.behind h with h | h
    · exact hst.behind h
    · exact .inr (hst.graph.nodes.length_le.trans h)

/-- The tensor of a name that has no graph value (`value?`) becomes a parameter. -/
theorem adopt {name : String} {tensor : Tensor} (hname : name ∈ names)
    (hvalue : s.table.value? name = none) (htensor : s.table.tensor? name = some tensor) :
    AdoptsNew names s {
      graph := (s.graph.add name (.parameter tensor)).2
      table := s.table.bind name ⟨s.graph.nodes.length⟩ } where
  toAdopts := .adopt hname hvalue htensor
  behind := by
    intro other id hother
    rw [Table.value?_bind] at hother
    split at hother
    · cases hother
      exact .inr le_rfl
    · exact .inl hother

theorem after_of_movesBy {α : Type} {x : Lowering α} (hx : MovesBy (AdoptsNew names) x)
    (s : Workspace) : AdoptsNew names s (after x s) :=
  hx.lift refl (fun _ _ _ => trans) s

end AdoptsNew

/-- An operation on the graph, by `onGraph`, touches no name. -/
theorem adoptsNew_onGraph {α : Type} {names : List String} {x : Build α}
    (h : ∀ g : Graph, g.Extends (after x g)) : MovesBy (AdoptsNew names) (onGraph x) :=
  movesBy_onGraph fun s => .of_extends (h s.graph)

/-- The first phase as a trait, `AdoptsNew`. -/
def adoptingNew (node : NodeRecord) (op : Operator) : InnerTrait node op where
  Has := MovesBy (AdoptsNew (node.valueInputs op))
  has_pure := .pure
  has_bind := MovesBy.bind_of
  has_ofExcept _ := movesBy_ofExcept _
  has_table := movesBy_table
  has_value hname := movesBy_value_of fun _ _ hvalue htensor => .adopt hname hvalue htensor
  has_read := movesBy_read
  has_create name c _ := adoptsNew_onGraph fun g => g.extends_run (.create name c)
  has_intern type := adoptsNew_onGraph fun g => g.extends_intern type
  has_batchNormalization name input channel epsilon momentum tensors :=
    adoptsNew_onGraph fun g =>
      g.extends_run (.batchNormalization name input channel epsilon momentum tensors)

/-! ### The second phase -/

/-- How the lowering of a node from the workspace `s` on can end: it is refused in the first phase,
or it comes to the end of it and binds the first output. -/
inductive Framed (node : NodeRecord) (op : Operator) (s : Workspace) :
    EStateM.Result LoadError Workspace Unit → Prop
  | refused (e : LoadError) {t : Workspace} (h : AdoptsNew (node.valueInputs op) s t) :
      Framed node op s (.error e t)
  | bound {r : Workspace} (h : AdoptsNew (node.valueInputs op) s r) {output : String}
      (houtput : node.output = .ok output) (id : NodeId) :
      Framed node op s (.ok () { r with table := r.table.bind output id })

section Framed

variable {node : NodeRecord} {op : Operator} {s : Workspace}

theorem Framed.of_adoptsNew {r : Workspace} (hsr : AdoptsNew (node.valueInputs op) s r)
    {result : EStateM.Result LoadError Workspace Unit} (h : Framed node op r result) :
    Framed node op s result := by
  cases h with
  | refused e hrt => exact .refused e (hsr.trans hrt)
  | bound hrt houtput id => exact .bound (hsr.trans hrt) houtput id

theorem framed_bind {α : Type} {x : Lowering α} {f : α → Lowering Unit}
    (hx : MovesBy (AdoptsNew (node.valueInputs op)) x)
    (hf : ∀ s a t, x s = .ok a t → ∀ s, Framed node op s (f a s)) (s : Workspace) :
    Framed node op s ((x >>= f) s) := by
  have hafter := AdoptsNew.after_of_movesBy hx s
  rw [Step.bind_apply]
  cases h : x s with
  | ok a r =>
    rw [Step.after_of_ok h] at hafter
    exact (hf s a r h r).of_adoptsNew hafter
  | error e r =>
    rw [Step.after_of_error h] at hafter
    exact .refused e hafter

theorem framed_bindOutput (id : NodeId) (s : Workspace) :
    Framed node op s (bindOutput node id s) := by
  unfold bindOutput
  cases houtput : node.output with
  | ok output => exact .bound (.refl s) houtput id
  | error e => exact .refused e (.refl s)

/-- **Lowering is one phase after the other** (`Framed`), for every operator but the one of
constants. -/
theorem framed_step (hop : op ≠ .constant) (opset : Int64) (s : Workspace) :
    Framed node op s (step opset node op s) :=
  (adoptingNew node op).ends_step (fun x => ∀ s, Framed node op s (x s)) framed_bind
    framed_bindOutput hop opset s

end Framed

/-! ### Constants -/

/-- If a sequence that begins with `result` fails, then the result is a failure, which changes
nothing, or the rest fails. -/
theorem of_ofExcept_bind_eq_error {α β : Type} {result : Except LoadError α} {f : α → Lowering β}
    {s t : Workspace} {e : LoadError} (h : (ofExcept result >>= f) s = .error e t) :
    t = s ∨ ∃ a, f a s = .error e t := by
  cases result with
  | ok a => exact .inr ⟨a, h⟩
  | error e' =>
    cases h
    exact .inl rfl

/-- Until the tensor of a constant is stored by `storeConstant`, nothing changes. -/
theorem storeConstant_eq_error {node : NodeRecord} {s t : Workspace} {e : LoadError}
    (h : storeConstant node s = .error e t) : t = s := by
  obtain hs | ⟨name, hname⟩ := of_ofExcept_bind_eq_error h
  · exact hs
  rw [Step.bind_apply] at hname
  simp only [table] at hname
  split at hname
  · cases hname
  obtain hs | ⟨record, hrecord⟩ := of_ofExcept_bind_eq_error hname
  · exact hs
  obtain hs | ⟨tensor, htensor⟩ := of_ofExcept_bind_eq_error hrecord
  · exact hs
  cases htensor

/-! ### All nodes -/

/-- What the lowering of a node may change in a workspace. The names that are `settled` are those
that the lowering may give a new meaning: its first output, if it succeeds. -/
structure Touches (node : NodeRecord) (settled : String → Prop) (s t : Workspace) : Prop where
  /-- The nodes and the types that were there are still there, and come first. -/
  graph : s.graph.Extends t.graph
  /-- Only a constant changes a tensor, and it changes none that the caller has lent. -/
  tensors : ∀ name, t.table.tensors.get? name ≠ s.table.tensors.get? name →
    node.operator? = some .constant ∧ settled name ∧ s.table.isLent name = false
  /-- A graph value is replaced only for a settled name. -/
  kept : ∀ name id, s.table.value? name = some id →
    t.table.value? name = some id ∨ (node.operator? ≠ some .constant ∧ settled name)
  /-- A name that had no graph value gets one as an input, which is then a new parameter with the
  tensor of the name, or as a settled name. -/
  fresh : ∀ name id, s.table.value? name = none → t.table.value? name = some id →
    (name ∈ node.inputs ∧ s.graph.nodes.length ≤ id.index ∧
      ∃ tensor, s.table.tensor? name = some tensor ∧ t.graph.Holds id name tensor) ∨
    (node.operator? ≠ some .constant ∧ settled name)

namespace Touches

variable {node : NodeRecord} {op : Operator} {settled : String → Prop} {s t : Workspace}

theorem refl (s : Workspace) : Touches node settled s s where
  graph := .refl s.graph
  tensors _ h := absurd rfl h
  kept _ _ := .inl
  fresh name id hnone hsome := by
    rw [hnone] at hsome
    cases hsome

/-- What the first phase has made (`AdoptsNew`) settles no name. -/
theorem of_adoptsNew (h : AdoptsNew (node.valueInputs op) s t) : Touches node settled s t where
  graph := h.graph
  tensors name hname := absurd (by rw [h.tensors]) hname
  kept _ _ hid := .inl (h.kept hid)
  fresh := by
    intro name id hnone hid
    have hlen : s.graph.nodes.length ≤ id.index :=
      (h.behind hid).resolve_left (by rw [hnone]; nofun)
    obtain ⟨hname, hholds⟩ := (h.fresh hid).resolve_left (by rw [hnone]; nofun)
    exact .inl ⟨NodeRecord.valueInputs_subset op hname, hlen, hholds⟩

/-- The binding of a settled name by `Table.bind` touches no other one. -/
theorem bind (h : Touches node settled s t) (hop : node.operator? ≠ some .constant)
    {output : String} (houtput : settled output) (id : NodeId) :
    Touches node settled s { t with table := t.table.bind output id } where
  graph := h.graph
  tensors := h.tensors
  kept := by
    intro name old hold
    by_cases hname : output = name
    · exact .inr ⟨hop, hname ▸ houtput⟩
    · rw [Table.value?_bind, if_neg hname]
      exact h.kept name old hold
  fresh := by
    intro name new hnone hnew
    by_cases hname : output = name
    · exact .inr ⟨hop, hname ▸ houtput⟩
    · rw [Table.value?_bind, if_neg hname] at hnew
      exact h.fresh name new hnone hnew

/-- Storing the tensor of a constant by `Table.insert` touches its slot only. -/
theorem store (hop : node.operator? = some .constant) {output : String}
    (houtput : settled output) (hlent : s.table.isLent output = false) (tensor : Tensor) :
    Touches node settled s { s with table := s.table.insert output tensor } where
  graph := .refl s.graph
  tensors := by
    intro name hname
    obtain rfl : output = name := by
      by_contra hne
      exact hname (Table.get?_insert_of_ne hne)
    exact ⟨hop, houtput, hlent⟩
  kept name id hid := .inl (by rwa [Table.value?, Table.values_insert])
  fresh := by
    intro name id hnone hid
    rw [Table.value?, Table.values_insert, ← Table.value?, hnone] at hid
    cases hid

end Touches

section Nodes

variable {node : NodeRecord} {op : Operator} {s : Workspace}

/-- A step of a node settles the first output if it succeeds, which then stands for something, and
nothing if it fails. -/
inductive Settles (node : NodeRecord) (s : Workspace) :
    EStateM.Result LoadError Workspace Unit → Prop
  | ok (u : Unit) {t : Workspace} (h : Touches node (node.output = .ok ·) s t) {output : String}
      (houtput : node.output = .ok output) (hsome : (t.table.lookup? output).isSome = true) :
      Settles node s (.ok u t)
  | error (e : LoadError) {t : Workspace} (h : Touches node (fun _ => False) s t) :
      Settles node s (.error e t)

theorem settles_storeConstant (hop : node.operator? = some .constant) :
    Settles node s (storeConstant node s) := by
  cases hstored : storeConstant node s with
  | error e t =>
    obtain rfl := storeConstant_eq_error hstored
    exact .error e (.refl t)
  | ok u t =>
    obtain ⟨output, houtput, hcases⟩ := storeConstant_eq_ok hstored
    rcases hcases with ⟨hlent, rfl⟩ | ⟨hlent, _, tensor, -, -, rfl⟩
    · refine .ok u (.refl t) houtput ?_
      rw [Table.isSome_lookup?, Table.isSome_of_isLent hlent, Bool.true_or]
    · refine .ok u (.store hop houtput hlent tensor) houtput ?_
      rw [Table.isSome_lookup?, Table.tensor?_insert hlent, if_pos rfl, Option.isSome_some,
        Bool.true_or]

theorem Framed.settles {result : EStateM.Result LoadError Workspace Unit}
    (h : Framed node op s result) (hop : node.operator? ≠ some .constant) :
    Settles node s result := by
  cases h with
  | refused e h => exact .error e (.of_adoptsNew h)
  | bound h houtput id =>
    refine .ok () ((Touches.of_adoptsNew h).bind hop houtput id) houtput ?_
    rw [Table.isSome_lookup?, Table.value?_bind, if_pos rfl, Option.isSome_some, Bool.or_true]

theorem settles_step (hop : node.operator? = some op) (opset : Int64) :
    Settles node s (step opset node op s) := by
  by_cases hconstant : op = .constant
  · subst hconstant
    exact settles_storeConstant hop
  · refine (framed_step hconstant opset s).settles ?_
    rw [hop]
    exact fun h => hconstant (Option.some.inj h)

end Nodes

/-- **Lowering a node touches only what it should** (`Touches`), in every workspace. A node that is
not supported changes nothing at all; one that is refused settles no name, and one that is lowered
settles its first output only, which then stands for something (`Settles`). -/
theorem lower_frame (opset : Int64) (node : NodeRecord) (s : Workspace) :
    match lower opset node s with
    | .ok true t => Touches node (node.output = .ok ·) s t ∧
        ∃ output, node.output = .ok output ∧ (t.table.lookup? output).isSome = true
    | .ok false t => t = s
    | .error _ t => Touches node (fun _ => False) s t := by
  unfold lower
  cases hop : node.operator? with
  | none => rfl
  | some op =>
    have hstep : Settles node s (step opset node op s) := settles_step hop opset
    dsimp only
    rw [Step.bind_apply]
    generalize step opset node op s = result at hstep
    cases hstep with
    | ok u h houtput hsome => exact ⟨h, _, houtput, hsome⟩
    | error e h => exact h

end Lowering
end TensorGraph
