import TensorGraph.Proofs.Lowering.Forms

/-! # Steps that do not look at the tensors

The tensors of the table only matter to a step that resolves one of their names. A step that
resolves none of the names whose tensors are exchanged is **blind**: it ends alike with the one
tensors and with the others, and leaves them in the table. Being blind is kept by sequences, so it
has to be looked at for the smallest steps only. -/

namespace TensorGraph

open Onnx (NodeRecord)

/-- The workspace with the tensors `tensors`. -/
def Workspace.withTensors (s : Workspace) (tensors : NameMap Slot) : Workspace :=
  { s with table := { s.table with tensors } }

namespace Lowering

variable {α β : Type} {node : NodeRecord}

/-- The end of a run, with the tensors `tensors` in the table. -/
def retensor (tensors : NameMap Slot) :
    EStateM.Result LoadError Workspace α → EStateM.Result LoadError Workspace α
  | .ok a t => .ok a (t.withTensors tensors)
  | .error e t => .error e (t.withTensors tensors)

/-- The step keeps the tensors of the table, and with `new` in place of `old` it does the same. -/
def Blind (old new : NameMap Slot) (x : Lowering α) : Prop :=
  ∀ s : Workspace, s.table.tensors = old →
    x (s.withTensors new) = retensor new (x s) ∧ (Step.after x s).table.tensors = old

namespace Blind

variable {old new : NameMap Slot} {x : Lowering α}

theorem pure (a : α) : Blind old new (Pure.pure a : Lowering α) := fun _ hs => ⟨rfl, hs⟩

theorem bind {f : α → Lowering β} (hx : Blind old new x) (hf : ∀ a, Blind old new (f a)) :
    Blind old new (x >>= f) := by
  intro s hs
  obtain ⟨heq, hkept⟩ := hx s hs
  simp only [Step.after, Step.bind_apply, heq] at hkept ⊢
  cases hrun : x s with
  | ok a t =>
    rw [hrun] at hkept
    exact hf a t hkept
  | error e t =>
    rw [hrun] at hkept
    exact ⟨rfl, hkept⟩

theorem ofExcept (result : Except LoadError α) : Blind old new (ofExcept result) := by
  intro s hs
  cases result with
  | ok a => exact ⟨rfl, hs⟩
  | error e => exact ⟨rfl, hs⟩

theorem lift_bind {result : Except LoadError α} {f : α → Lowering β}
    (h : ∀ a, result = .ok a → Blind old new (f a)) :
    Blind old new ((liftM result : Lowering α) >>= f) := by
  cases result with
  | ok a => exact h a rfl
  | error e => exact fun s hs => ⟨rfl, hs⟩

theorem onGraph (step : Build α) : Blind old new (onGraph step) := by
  intro s hs
  simp only [Step.after, Lowering.onGraph, Workspace.withTensors]
  cases step s.graph with
  | ok a g => exact ⟨rfl, hs⟩
  | error e g => exact ⟨rfl, hs⟩

/-- A name is resolved by `value` alike if its tensor stays. -/
theorem value {name : String} (h : new.get? name = old.get? name) :
    Blind old new (value name) := by
  intro s hs
  have hvalue : (s.withTensors new).table.value? name = s.table.value? name := rfl
  have htensor : (s.withTensors new).table.tensor? name = s.table.tensor? name := by
    show (new.get? name).map Slot.tensor = (s.table.tensors.get? name).map Slot.tensor
    rw [h, hs]
  simp only [Step.after, Lowering.value, hvalue, htensor]
  cases s.table.value? name with
  | some id => exact ⟨rfl, hs⟩
  | none =>
    cases s.table.tensor? name with
    | none => exact ⟨rfl, hs⟩
    | some tensor => exact ⟨rfl, hs⟩

theorem bindOutput (node : NodeRecord) (id : NodeId) : Blind old new (bindOutput node id) := by
  refine (ofExcept _).bind fun name => ?_
  exact fun s hs => ⟨rfl, hs⟩

theorem mapM {l : List α} {f : α → Lowering β} (h : ∀ a ∈ l, Blind old new (f a)) :
    Blind old new (l.mapM f) := by
  induction l with
  | nil => exact pure []
  | cons a l ih =>
    rw [List.mapM_cons]
    refine (h a List.mem_cons_self).bind fun b => ?_
    exact (ih fun c hc => h c (List.mem_cons_of_mem _ hc)).bind fun _ => pure _

theorem inputValue {position : Nat}
    (h : ∀ name, node.input? position = some name → new.get? name = old.get? name) :
    Blind old new (inputValue node position) :=
  lift_bind fun name hname => value (h name (input_eq_ok.1 hname))

theorem readInput (h : ∀ name, node.input? 0 = some name → new.get? name = old.get? name) :
    Blind old new (readInput node) :=
  (inputValue h).bind fun _ => (onGraph _).bind fun _ => pure _

theorem broadcastTo (name : String) (id : NodeId) (into : List Nat) (axis : Nat) :
    Blind old new (broadcastTo name id into axis) := by
  refine (onGraph _).bind fun shape => ?_
  split
  · exact pure id
  · exact onGraph _

theorem assemble {read : Lowering (α × List Nat)} {build : α → List Nat → Lowering NodeId}
    (hread : Blind old new read) (hbuild : ∀ operands shape, Blind old new (build operands shape)) :
    Blind old new (assemble node read build) :=
  hread.bind fun p => (hbuild p.1 p.2).bind fun id => bindOutput node id

end Blind

end Lowering
end TensorGraph
