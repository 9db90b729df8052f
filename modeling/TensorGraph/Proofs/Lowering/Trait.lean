import TensorGraph.Proofs.Lowering.Coupling

/-! # Traits of lowerings

A **trait** is a condition on single parts of lowerings. It asks that sequences keep the condition
and that it holds of the smallest parts. As a coupling that does not look at the second run, it
holds of every operator except the one of constants (`Trait.has_step`).

The binding of the output is the last part of every lowering. An **inner trait** need not hold of
it; what a lowering is as a whole is then a condition of its own (`InnerTrait.ends_step`). -/

namespace TensorGraph

open Onnx (NodeRecord)

namespace Lowering

/-- The only world of a coupling that keeps track of nothing. -/
inductive Timeless
  | now

instance : Preorder Timeless where
  le _ _ := True
  le_refl _ := trivial
  le_trans _ _ _ _ _ := trivial

/-- A condition on the parts of a lowering of a node that come before the last one, with its closure
properties. -/
structure InnerTrait (node : NodeRecord) (op : Operator) where
  /-- The condition. -/
  Has : {α : Type} → Lowering α → Prop
  has_pure : ∀ {α : Type} (a : α), Has (pure a)
  /-- Only the results that the first part can have matter for the second one. -/
  has_bind : ∀ {α β : Type} {x : Lowering α} {f : α → Lowering β}, Has x →
    (∀ s a t, x s = .ok a t → Has (f a)) → Has (x >>= f)
  has_ofExcept : ∀ {α : Type} {result : Except LoadError α},
    Avoids LoadError.ReportsNode result → Has (ofExcept result)
  has_table : Has table
  has_value : ∀ {name : String}, name ∈ node.valueInputs op → Has (value name)
  has_read : ∀ {α : Type} (query : Graph → Except GraphError α), Has (onGraph (.read query))
  has_create : ∀ (name : String) (c : Graph.Constructor), c.UsedBy op →
    Has (onGraph (.create name (c.rule name)))
  has_intern : ∀ type : ValueType, Has (onGraph (.intern type))
  has_batchNormalization : ∀ (name : String) (input : NodeId) (channel : Nat)
    (epsilon momentum : Binary32) (tensors : BatchParameters),
    Has (onGraph (.batchNormalization name input channel epsilon momentum tensors))

/-- A condition on all parts of a lowering of a node, with its closure properties. -/
structure Trait (node : NodeRecord) (op : Operator) extends InnerTrait node op where
  has_bindOutput : ∀ id : NodeId, Has (bindOutput node id)

namespace InnerTrait

variable {node : NodeRecord} {op : Operator} (T : InnerTrait node op)

theorem has_result {α : Type} {result : Except LoadError α}
    (h : Avoids (LoadError.Foreign (op ≠ .conv)) result) : T.Has (ofExcept result) :=
  T.has_ofExcept (h.mono fun _ => LoadError.ReportsNode.foreign)

theorem has_throw {α : Type} {e : LoadError} (h : ¬ e.ReportsNode) :
    T.Has (throw e : Lowering α) :=
  T.has_ofExcept (.error h)

theorem has_constant (name : String) : T.Has (constant name) :=
  T.has_bind T.has_table fun _ t _ _ => T.has_result (avoids_constant t name)

theorem has_constantIndices (role name : String) : T.Has (constantIndices role name) := by
  refine T.has_bind T.has_table fun _ t _ _ => ?_
  cases t.lookup? name with
  | none => exact T.has_throw (by nofun)
  | some operand =>
    cases operand with
    | tensor tensor => exact T.has_bind (T.has_ofExcept (.found nofun)) fun _ _ _ _ => T.has_pure _
    | value id => exact T.has_throw (by nofun)

theorem has_channelLast (name : String) (input : NodeId) : T.Has (channelLast name input) := by
  refine T.has_bind (T.has_create name (.transpose input toChannelLast) trivial)
    fun _ images _ _ => ?_
  have himage : T.Has (imageDims images) :=
    T.has_bind (T.has_read _) fun _ dims _ _ => T.has_ofExcept (.found nofun)
  exact T.has_bind himage fun _ image _ _ => T.has_pure _

/-- An inner trait as a coupling, for what a lowering is as a whole (`Ends`). The results of the
second part stand for those that the first part can have. -/
def coupling (Ends : Lowering Unit → Prop)
    (hbind : ∀ {α : Type} {x : Lowering α} {f : α → Lowering Unit}, T.Has x →
      (∀ s a t, x s = .ok a t → Ends (f a)) → Ends (x >>= f))
    (hlast : ∀ id : NodeId, Ends (bindOutput node id)) : Coupling Timeless node op where
  ids _ _ _ := True
  refs _ _ _ := True
  seen _ _ := True
  ids_mono _ _ := trivial
  refs_mono _ _ := trivial
  seen_mono _ _ := trivial
  Couples _ x _ post := T.Has x ∧ ∀ s a t, x s = .ok a t → ∃ b, post .now a b
  Ends _ x _ := Ends x
  couples_pure h := ⟨T.has_pure _, fun s a t ha => ⟨_, (Step.pure_eq_ok.1 ha).1 ▸ h⟩⟩
  couples_bind := by
    intro _ _ _ x _ f _ _ _ hx hf
    refine ⟨T.has_bind hx.1 fun s a t ha => ?_, fun s c t hc => ?_⟩
    · obtain ⟨b, hb⟩ := hx.2 s a t ha
      exact (hf .now a b le_rfl hb).1
    · obtain ⟨a, r, ha, hc⟩ := Step.bind_eq_ok.1 hc
      obtain ⟨b, hb⟩ := hx.2 s a r ha
      exact (hf .now a b le_rfl hb).2 r c t hc
  ends_bind := by
    intro _ _ x _ f _ _ hx hf
    refine hbind hx.1 fun s a t ha => ?_
    obtain ⟨b, hb⟩ := hx.2 s a t ha
    exact hf .now a b le_rfl hb
  couples_ofExcept h := ⟨T.has_result h, fun s a t ha => ⟨a, rfl, rfl, (ofExcept_eq_ok.1 ha).1⟩⟩
  couples_value h := ⟨T.has_value h, fun _ a _ _ => ⟨a, trivial, trivial⟩⟩
  couples_constant _ := ⟨T.has_constant _, fun _ a _ _ => ⟨a, rfl, rfl⟩⟩
  couples_constantIndices role _ _ := ⟨T.has_constantIndices role _, fun _ a _ _ => ⟨a, rfl, rfl⟩⟩
  couples_tensorOf _ :=
    ⟨T.has_bind T.has_table fun _ _ _ _ => T.has_pure _, fun _ a _ _ => ⟨a, rfl, rfl⟩⟩
  couples_dims _ := ⟨T.has_read _, fun _ a _ _ => ⟨a, rfl, rfl⟩⟩
  couples_kind _ := ⟨T.has_read _, fun _ a _ _ => ⟨a, rfl, rfl⟩⟩
  couples_create name _ hused := ⟨T.has_create name _ hused, fun _ a _ _ => ⟨a, trivial⟩⟩
  couples_channelLast name _ := ⟨T.has_channelLast name _, fun _ a _ _ => ⟨a, trivial, rfl⟩⟩
  couples_intern type := ⟨T.has_intern type, fun _ a _ _ => ⟨a, trivial⟩⟩
  couples_batchNormalization name channel epsilon momentum tensors _ _ :=
    ⟨T.has_batchNormalization name _ channel epsilon momentum tensors, fun _ a _ _ => ⟨a, trivial⟩⟩
  ends_bindOutput _ _ := hlast _

/-- **Every operator ends as its parts do** (`Ends`), if a part with the trait before an end is an
end, and the binding of the output is one. Constants are left out, as they look no operand up and
make no node. -/
theorem ends_step (Ends : Lowering Unit → Prop)
    (hbind : ∀ {α : Type} {x : Lowering α} {f : α → Lowering Unit}, T.Has x →
      (∀ s a t, x s = .ok a t → Ends (f a)) → Ends (x >>= f))
    (hlast : ∀ id : NodeId, Ends (bindOutput node id)) (hop : op ≠ .constant) (opset : Int64) :
    Ends (step opset node op) :=
  (T.coupling Ends hbind hlast).ends_step (w := .now) hop opset

end InnerTrait

/-- **Every operator has every trait** (`Trait.Has`). Constants are left out here, too. -/
theorem Trait.has_step {node : NodeRecord} {op : Operator} (T : Trait node op)
    (hop : op ≠ .constant) (opset : Int64) : T.Has (step opset node op) :=
  T.ends_step T.Has T.has_bind T.has_bindOutput hop opset

end Lowering
end TensorGraph
