import TensorGraph.Proofs.Lowering.Created
import TensorGraph.Proofs.Lowering.Failures

/-! # Operands brought to one shape

Two operands of an element-wise operation are combined when the broadcasting mode brings their
shapes to one shape. An operand that has another shape is broadcast to it; the operation itself then
has two operands of one type, which its rule accepts whenever the operands agree in kind. -/

namespace TensorGraph

/-! ### What the modes accept -/

/-- The axis of the shape `left` from which on the shape `right` is placed in it: the one that a
number stands for, counted from the end if it is negative, or else the one that aligns the last
dimensions. -/
def LegacyPlace (axis : Option Int64) (left right : List Nat) (place : Nat) : Prop :=
  match axis with
  | some axis => place < left.length ∧
      (place : Int) = if axis.toInt < 0 then axis.toInt + left.length else axis.toInt
  | none => place = left.length - right.length

namespace BroadcastMode

/-- The pairs of shapes that a `BroadcastMode` lets an operation combine. -/
def Accepts : BroadcastMode → List Nat → List Nat → Prop
  | disabled, left, right => left = right
  | legacy axis, left, right => left = right ∨
      ∃ place, LegacyPlace axis left right place ∧ FitsInto right left place
  | multidirectional, left, right => ∀ place, Meet (dimFromEnd left place) (dimFromEnd right place)

/-- A mode brings two shapes to a third one, in which they stand from the two axes on. -/
inductive Aligns : BroadcastMode → List Nat → List Nat → List Nat → Nat → Nat → Prop
  /-- Equal shapes are left as they are. -/
  | same (mode : BroadcastMode) (dims : List Nat) : Aligns mode dims dims dims 0 0
  /-- The right shape is placed in the left one. -/
  | legacy {axis : Option Int64} {left right : List Nat} {place : Nat}
      (hplace : LegacyPlace axis left right place) (hfits : FitsInto right left place) :
      Aligns (.legacy axis) left right left 0 place
  /-- Both shapes are placed at the end of their common shape. -/
  | multidirectional {left right dims : List Nat} (h : Joined left right dims) :
      Aligns .multidirectional left right dims (dims.length - left.length)
        (dims.length - right.length)

variable {mode : BroadcastMode} {left right dims : List Nat} {a b : Nat}

theorem exists_aligns_iff : (∃ dims a b, mode.Aligns left right dims a b) ↔
    mode.Accepts left right := by
  constructor
  · rintro ⟨dims, a, b, h⟩
    cases h with
    | same =>
      cases mode with
      | disabled => rfl
      | legacy axis => exact .inl rfl
      | multidirectional => exact fun place => .inl rfl
    | legacy hplace hfits => exact .inr ⟨b, hplace, hfits⟩
    | multidirectional h => exact exists_joined_iff.1 ⟨dims, h⟩
  · intro h
    cases mode with
    | disabled => cases h; exact ⟨_, _, _, .same _ _⟩
    | legacy axis =>
      rcases h with rfl | ⟨place, hplace, hfits⟩
      · exact ⟨_, _, _, .same _ _⟩
      · exact ⟨_, _, _, .legacy hplace hfits⟩
    | multidirectional =>
      obtain ⟨dims, hjoined⟩ := exists_joined_iff.2 h
      exact ⟨_, _, _, .multidirectional hjoined⟩

theorem Aligns.fitsInto_left (h : mode.Aligns left right dims a b) : FitsInto left dims a := by
  cases h with
  | same => exact .refl _
  | legacy => exact .refl _
  | multidirectional h => exact h.fitsInto

theorem Aligns.fitsInto_right (h : mode.Aligns left right dims a b) : FitsInto right dims b := by
  cases h with
  | same => exact .refl _
  | legacy _ hfits => exact hfits
  | multidirectional h => exact h.symm.fitsInto

end BroadcastMode

namespace Lowering

variable {s t : Workspace} {name : String} {id : NodeId}

/-! ### One operand in another shape -/

/-- A value in the shape `into`: the value itself if it has that shape, or else a broadcast of it
from `axis` on. -/
inductive Fitted (name : String) (source : NodeId) (type : ValueType) (into : List Nat)
    (axis : Nat) : NodeId → Workspace → Workspace → Prop
  | same {s : Workspace} (h : type.dims = into) : Fitted name source type into axis source s s
  | stretched {id : NodeId} {s t : Workspace} (h : type.dims ≠ into)
      (hc : Created (⟨name, .broadcast axis, [source], ·⟩) ⟨type.kind, into⟩ id s t) :
      Fitted name source type into axis id s t

/-- The broadcast by which a value gets the shape `into`, if it does not have that shape. -/
def fittingNodes (name : String) (source : NodeId) (dims into : List Nat) (axis : Nat)
    (ref : TypeRef) : List Node :=
  if dims = into then [] else [⟨name, .broadcast axis, [source], ref⟩]

/-- The handle of a value in another shape, when the next node stands at `place`. -/
def fittedId (source : NodeId) (dims into : List Nat) (place : Nat) : NodeId :=
  if dims = into then source else ⟨place⟩

namespace Fitted

variable {source : NodeId} {type : ValueType} {into : List Nat} {axis : Nat}
  (h : Fitted name source type into axis id s t)
include h

theorem indexed (hg : s.graph.Indexed) : t.graph.Indexed := by
  cases h with
  | same => exact hg
  | stretched _ hc => exact hc.indexed

theorem ext : s.graph.Extends t.graph := by
  cases h with
  | same => exact .refl _
  | stretched _ hc => exact hc.ext

theorem typeOf_id (htype : s.graph.typeOf source = .ok type) :
    t.graph.typeOf id = .ok ⟨type.kind, into⟩ := by
  cases h with
  | same hdims => rw [htype, ← hdims]
  | stretched _ hc => exact hc.typeOf_node

/-- All the nodes that are added, `fittingNodes`, have the type of the value in its new shape. -/
theorem exists_added (hg : s.graph.Indexed) (htype : s.graph.typeOf source = .ok type) :
    ∃ ref, t.graph.resolve ref = .ok ⟨type.kind, into⟩ ∧
      Added (fittingNodes name source type.dims into axis ref) s t ∧
      id = fittedId source type.dims into s.graph.nodes.length := by
  cases h with
  | same hdims =>
    obtain ⟨node, -, hnode⟩ := Graph.typeOf_eq_ok.1 htype
    refine ⟨node.type, by rw [hnode, ← hdims], ?_, (if_pos hdims).symm⟩
    rw [fittingNodes, if_pos hdims]
    exact .nil hg
  | stretched hdims hc =>
    obtain ⟨ref, href, hadded⟩ := hc.exists_ref fun _ => rfl
    refine ⟨ref, href, ?_, hc.id_eq.trans (if_neg hdims).symm⟩
    rw [fittingNodes, if_neg hdims]
    exact hadded

end Fitted

/-- A value that fits into a shape (`FitsInto`) can be brought to it by `broadcastTo`. -/
theorem exists_broadcastTo {source : NodeId} {type : ValueType} {into : List Nat} {axis : Nat}
    (htype : s.graph.typeOf source = .ok type) (hfits : FitsInto type.dims into axis) :
    ∃ id t, broadcastTo name source into axis s = .ok id t := by
  have hdims := Graph.dims_eq_ok.2 ⟨type.kind, htype⟩
  unfold broadcastTo
  simp only [Step.bind_eq_ok, dims_eq_ok, hdims]
  by_cases hsame : type.dims = into
  · exact ⟨source, s, type.dims, s, ⟨rfl, rfl⟩, by rw [if_pos hsame]; rfl⟩
  · obtain ⟨id, t, hid⟩ := exists_create name (Draft.broadcast · name source into axis)
      ((Draft.broadcast_eq_ok hfits.axis_le).2 ⟨type, htype, hfits, rfl⟩)
    exact ⟨id, t, type.dims, s, ⟨rfl, rfl⟩, by rw [if_neg hsame]; exact hid⟩

theorem fitted_of_ok {source : NodeId} {type : ValueType} {into : List Nat} {axis : Nat}
    (haxis : axis ≤ into.length) (hg : s.graph.Indexed)
    (htype : s.graph.typeOf source = .ok type)
    (h : broadcastTo name source into axis s = .ok id t) :
    Fitted name source type into axis id s t ∧
      (type.dims ≠ into → FitsInto type.dims into axis) := by
  unfold broadcastTo at h
  simp only [Step.bind_eq_ok, dims_eq_ok, Graph.dims_eq_ok] at h
  obtain ⟨dims, _, ⟨⟨kind, hdims⟩, rfl⟩, h⟩ := h
  obtain rfl := Graph.eq_of_typeOf htype hdims
  split at h
  · next hsame =>
    obtain ⟨rfl, rfl⟩ := Step.pure_eq_ok.1 h
    exact ⟨.same hsame, fun hne => absurd hsame hne⟩
  · next hne =>
    obtain ⟨hfits, hc⟩ := created_broadcast haxis hg htype h
    exact ⟨.stretched hne hc, fun _ => hfits⟩

/-! ### Two operands in one shape -/

theorem place_of_legacyAxis {axis : Option Int64} {left right : List Nat} {place : Nat}
    (h : legacyAxis axis left right = .ok place) : LegacyPlace axis left right place := by
  cases axis with
  | some axis =>
    simp only [legacyAxis, mapError_eq_ok, axisOf_eq_ok] at h
    exact h
  | none =>
    simp only [legacyAxis, mapError_eq_ok, alignment_eq_ok] at h
    exact h.2.symm

theorem legacyAxis_of_place {axis : Option Int64} {left right : List Nat} {place : Nat}
    (h : LegacyPlace axis left right place) (hfits : FitsInto right left place) :
    legacyAxis axis left right = .ok place := by
  cases axis with
  | some axis =>
    simp only [legacyAxis, mapError_eq_ok, axisOf_eq_ok]
    exact h
  | none =>
    simp only [legacyAxis, mapError_eq_ok, alignment_eq_ok]
    exact ⟨by have hrank := hfits.rank; omega, h.symm⟩

section Operands

variable {lhs rhs lhs' rhs' : NodeId} {op : ArithmeticOp} {mode : BroadcastMode}
  {kind kind' : ElementKind} {left right : List Nat} {v : Workspace}

/-- Operands of different shapes are brought to one shape by `align` as the mode says (`Aligns`). -/
theorem fitted_of_align (hg : s.graph.Indexed) (hl : s.graph.typeOf lhs = .ok ⟨kind, left⟩)
    (hr : s.graph.typeOf rhs = .ok ⟨kind', right⟩) (hne : left ≠ right) (hmode : mode ≠ .disabled)
    (h : align name lhs rhs left right mode s = .ok (lhs', rhs') v) :
    ∃ dims a b u, mode.Aligns left right dims a b ∧
      Fitted s!"{name}.lhs_broadcast" lhs ⟨kind, left⟩ dims a lhs' s u ∧
      Fitted s!"{name}.rhs_broadcast" rhs ⟨kind', right⟩ dims b rhs' u v := by
  cases mode with
  | disabled => exact absurd rfl hmode
  | legacy axis =>
    simp only [align, Step.bind_eq_ok, lift_eq_ok, Step.pure_eq_ok] at h
    obtain ⟨place, _, ⟨hplace, rfl⟩, fitted, u, hfitted, hpair, rfl⟩ := h
    cases hpair
    obtain ⟨hright, hfits⟩ := fitted_of_ok (legacyAxis_le hplace) hg hr hfitted
    exact ⟨left, 0, place, _, .legacy (place_of_legacyAxis hplace) (hfits (Ne.symm hne)), .same rfl,
      hright⟩
  | multidirectional =>
    simp only [align, Step.bind_eq_ok, lift_eq_ok, found_eq_ok, mapError_eq_ok, alignment_eq_ok,
      joinShape?_eq_some, Step.pure_eq_ok] at h
    obtain ⟨dims, _, ⟨hjoined, rfl⟩, a, _, ⟨⟨-, rfl⟩, rfl⟩, fitted, u, hfitted, b, _,
      ⟨⟨-, rfl⟩, rfl⟩, fitted', w, hfitted', hpair, rfl⟩ := h
    cases hpair
    obtain ⟨hleft, -⟩ := fitted_of_ok (Nat.sub_le _ _) hg hl hfitted
    obtain ⟨hright, -⟩ :=
      fitted_of_ok (Nat.sub_le _ _) (hleft.indexed hg) (hleft.ext.typeOf_eq hr) hfitted'
    exact ⟨dims, _, _, _, .multidirectional hjoined, hleft, hright⟩

/-- Operands whose shapes the mode accepts (`Accepts`) can be brought to one shape by `align`. -/
theorem exists_align (hg : s.graph.Indexed) (hl : s.graph.typeOf lhs = .ok ⟨kind, left⟩)
    (hr : s.graph.typeOf rhs = .ok ⟨kind', right⟩) (hne : left ≠ right)
    (hmode : mode.Accepts left right) :
    mode ≠ .disabled ∧
      ∃ lhs' rhs' v, align name lhs rhs left right mode s = .ok (lhs', rhs') v := by
  cases mode with
  | disabled => exact absurd hmode hne
  | legacy axis =>
    obtain ⟨place, hplace, hfits⟩ := hmode.resolve_left hne
    obtain ⟨rhs', v, hrhs⟩ := exists_broadcastTo hr hfits
    refine ⟨by simp, lhs, rhs', v, ?_⟩
    simp only [align, Step.bind_eq_ok, lift_eq_ok, Step.pure_eq_ok]
    exact ⟨place, s, ⟨legacyAxis_of_place hplace hfits, rfl⟩, rhs', v, hrhs, rfl, rfl⟩
  | multidirectional =>
    obtain ⟨dims, hjoined⟩ := exists_joined_iff.2 hmode
    obtain ⟨lhs', u, hlhs⟩ := exists_broadcastTo hl hjoined.fitsInto
    obtain ⟨hleft, -⟩ := fitted_of_ok hjoined.fitsInto.axis_le hg hl hlhs
    obtain ⟨rhs', v, hrhs⟩ := exists_broadcastTo (hleft.ext.typeOf_eq hr) hjoined.symm.fitsInto
    refine ⟨by simp, lhs', rhs', v, ?_⟩
    simp only [align, Step.bind_eq_ok, lift_eq_ok, found_eq_ok, mapError_eq_ok, alignment_eq_ok,
      joinShape?_eq_some, Step.pure_eq_ok]
    have hleftRank := hjoined.fitsInto.rank
    have hrightRank := hjoined.symm.fitsInto.rank
    exact ⟨dims, s, ⟨hjoined, rfl⟩, _, s, ⟨⟨by omega, rfl⟩, rfl⟩, lhs', u, hlhs, _, u,
      ⟨⟨by omega, rfl⟩, rfl⟩, rhs', v, hrhs, rfl, rfl⟩

end Operands

/-! ### The combination of two operands -/

/-- The shapes of two operands, the shape that they are brought to, and the axes from which on they
stand in it. -/
structure Combination where
  kind : ElementKind
  left : List Nat
  right : List Nat
  dims : List Nat
  leftAxis : Nat
  rightAxis : Nat

namespace Combination

variable (c : Combination) (name : String) (op : ArithmeticOp) (lhs rhs id : NodeId)
  (s t : Workspace)

/-- The operands have the shapes of the combination, and the `mode` brings these to one shape
(`Aligns`). -/
structure Reads (mode : BroadcastMode) : Prop where
  typeOf_left : s.graph.typeOf lhs = .ok ⟨c.kind, c.left⟩
  typeOf_right : s.graph.typeOf rhs = .ok ⟨c.kind, c.right⟩
  aligns : mode.Aligns c.left c.right c.dims c.leftAxis c.rightAxis

/-- Both operands are brought to the common shape (`Fitted`), and are then combined. -/
def Made : Prop :=
  ∃ lhs' rhs' u v, Fitted s!"{name}.lhs_broadcast" lhs ⟨c.kind, c.left⟩ c.dims c.leftAxis lhs' s u ∧
    Fitted s!"{name}.rhs_broadcast" rhs ⟨c.kind, c.right⟩ c.dims c.rightAxis rhs' u v ∧
    Created (⟨name, .arithmetic op, [lhs', rhs'], ·⟩) ⟨c.kind, c.dims⟩ id v t

end Combination

section Operands

variable {lhs rhs : NodeId} {op : ArithmeticOp} {mode : BroadcastMode}

/-- Two operands that `elementwise` combines have the shapes of a combination, which is then
made. -/
theorem made_of_ok (hg : s.graph.Indexed) (h : elementwise name op lhs rhs mode s = .ok id t) :
    ∃ c : Combination, c.Reads lhs rhs s mode ∧ c.Made name op lhs rhs id s t := by
  unfold elementwise at h
  simp only [Step.bind_eq_ok, dims_eq_ok, Graph.dims_eq_ok] at h
  obtain ⟨left, _, ⟨⟨kind, hl⟩, rfl⟩, right, r, ⟨⟨kind', hr⟩, rfl⟩, h⟩ := h
  -- operands that are brought to one shape have one type if they agree in kind
  have hcombined : ∀ {dims a b lhs' rhs' u v}, mode.Aligns left right dims a b →
      Fitted s!"{name}.lhs_broadcast" lhs ⟨kind, left⟩ dims a lhs' r u →
      Fitted s!"{name}.rhs_broadcast" rhs ⟨kind', right⟩ dims b rhs' u v →
      (liftM (Build.arithmetic name op lhs' rhs') : Lowering NodeId) v = .ok id t →
      ∃ c : Combination, c.Reads lhs rhs r mode ∧ c.Made name op lhs rhs id r t := by
    intro dims a b lhs' rhs' u v haligns hleft hright hlast
    have hr' := hright.typeOf_id (hleft.ext.typeOf_eq hr)
    obtain ⟨htypes, hc⟩ := created_arithmetic (hright.indexed (hleft.indexed hg))
      (hright.ext.typeOf_eq (hleft.typeOf_id hl)) hr' hlast
    obtain rfl : kind = kind' := congrArg ValueType.kind htypes
    exact ⟨⟨kind, left, right, dims, a, b⟩, ⟨hl, hr, haligns⟩, lhs', rhs', u, v, hleft, hright, hc⟩
  by_cases hsame : left = right
  · rw [if_pos hsame, pure_bind] at h
    subst hsame
    exact hcombined (.same mode left) (.same rfl) (.same rfl) h
  · rw [if_neg hsame, Step.bind_eq_ok] at h
    obtain ⟨⟨lhs', rhs'⟩, v, hpair, hlast⟩ := h
    by_cases hmode : mode = .disabled
    · subst hmode
      obtain ⟨hpair, rfl⟩ := Step.pure_eq_ok.1 hpair
      cases hpair
      obtain ⟨htypes, -⟩ := created_arithmetic hg hl hr hlast
      exact absurd (congrArg ValueType.dims htypes) hsame
    · obtain ⟨dims, a, b, u, haligns, hleft, hright⟩ := fitted_of_align hg hl hr hsame hmode hpair
      exact hcombined haligns hleft hright hlast

/-- Operands of one kind whose shapes the mode accepts (`Accepts`) can be combined by
`elementwise`. -/
theorem exists_elementwise (hg : s.graph.Indexed) {kind : ElementKind} {left right : List Nat}
    (hl : s.graph.typeOf lhs = .ok ⟨kind, left⟩) (hr : s.graph.typeOf rhs = .ok ⟨kind, right⟩)
    (hmode : mode.Accepts left right) : ∃ id t, elementwise name op lhs rhs mode s = .ok id t := by
  -- once both have one type, the operation accepts them
  have hlast : ∀ {v : Workspace} {lhs' rhs' type}, v.graph.Indexed →
      v.graph.typeOf lhs' = .ok type → v.graph.typeOf rhs' = .ok type →
      ∃ id t, (liftM (Build.arithmetic name op lhs' rhs') : Lowering NodeId) v = .ok id t := by
    intro v lhs' rhs' type hv hl' hr'
    obtain ⟨node, -, hnode⟩ := Graph.typeOf_eq_ok.1 hl'
    exact exists_create name (Draft.arithmetic · name op lhs' rhs')
      ((Draft.arithmetic_eq_ok hv hl' hr').2 ⟨rfl, node.type, hnode, rfl⟩)
  have hrest : ∃ id t, (if left = right then pure (lhs, rhs) >>= fun pair =>
        liftM (Build.arithmetic name op pair.1 pair.2)
      else align name lhs rhs left right mode >>= fun pair =>
        liftM (Build.arithmetic name op pair.1 pair.2) : Lowering NodeId) s = .ok id t := by
    by_cases hsame : left = right
    · subst hsame
      rw [if_pos rfl, pure_bind]
      exact hlast hg hl hr
    · obtain ⟨hne, lhs', rhs', v, hpair⟩ := exists_align hg hl hr hsame hmode
      obtain ⟨dims, a, b, u, -, hleft, hright⟩ := fitted_of_align hg hl hr hsame hne hpair
      obtain ⟨id, t, hid⟩ := hlast (hright.indexed (hleft.indexed hg))
        (hright.ext.typeOf_eq (hleft.typeOf_id hl)) (hright.typeOf_id (hleft.ext.typeOf_eq hr))
      exact ⟨id, t, by rw [if_neg hsame]; exact Step.bind_eq_ok.2 ⟨_, v, hpair, hid⟩⟩
  obtain ⟨id, t, hid⟩ := hrest
  refine ⟨id, t, ?_⟩
  simp only [elementwise, Step.bind_eq_ok, dims_eq_ok]
  exact ⟨left, s, ⟨Graph.dims_eq_ok.2 ⟨kind, hl⟩, rfl⟩, right, s,
    ⟨Graph.dims_eq_ok.2 ⟨kind, hr⟩, rfl⟩, hid⟩

/-- **Two operands can be combined** by `elementwise` exactly when they agree in kind and the mode
accepts their shapes (`Accepts`). -/
theorem exists_elementwise_iff (hg : s.graph.Indexed) :
    (∃ id t, elementwise name op lhs rhs mode s = .ok id t) ↔ ∃ kind left right,
      s.graph.typeOf lhs = .ok ⟨kind, left⟩ ∧ s.graph.typeOf rhs = .ok ⟨kind, right⟩ ∧
        mode.Accepts left right := by
  constructor
  · rintro ⟨id, t, h⟩
    obtain ⟨c, hreads, -⟩ := made_of_ok hg h
    exact ⟨c.kind, c.left, c.right, hreads.typeOf_left, hreads.typeOf_right,
      BroadcastMode.exists_aligns_iff.1 ⟨_, _, _, hreads.aligns⟩⟩
  · rintro ⟨kind, left, right, hl, hr, hmode⟩
    exact exists_elementwise hg hl hr hmode

end Operands

end Lowering
end TensorGraph
