import TensorGraph.Proofs.Lowering.Elementwise
import TensorGraph.Proofs.Meaning.Evaluation
import TensorGraph.Proofs.Tensor.Counting

/-! # What element-wise operations compute

A broadcast has, at some coordinates, the element of its operand at these coordinates from the axis
on, except that a dimension of size 1 is always read at 0. An element-wise operation combines the
elements of its operands at the same coordinates. So the combination of two operands has, at every
index of its shape, what the operation makes of the elements that broadcasting pairs up, whatever
the elements are and whatever the operation does. -/

namespace TensorGraph

universe u

variable {R : Type u} {dims into coords : List Nat} {axis : Nat}

/-! ### Broadcast coordinates -/

/-- The coordinates in an operand of the shape `dims` that a broadcast from `axis` on takes an
element from. -/
def stretch (dims : List Nat) (axis : Nat) (coords : List Nat) : List Nat :=
  List.zipWith (fun d c => if d = 1 then 0 else c) dims (coords.drop axis)

theorem stretch_self (h : InShape coords dims) : stretch dims 0 coords = coords := by
  rw [stretch, List.drop_zero]
  induction h with
  | nil => rfl
  | cons hc _ ih =>
    rw [List.zipWith_cons_cons, ih]
    split
    · next hd => rw [hd, Nat.lt_one_iff] at hc; rw [hc]
    · rfl

/-- Coordinates in a shape are taken by `stretch` to coordinates in every shape that fits into
it. -/
theorem inShape_stretch (hfits : FitsInto dims into axis) (h : InShape coords into) :
    InShape (stretch dims axis coords) dims := by
  have hlength : coords.length = into.length := List.Forall₂.length_eq h
  have hrank := hfits.rank
  refine List.forall₂_iff_get.2 ⟨by simp [stretch]; omega, fun i _ hi => ?_⟩
  have hcoord := (List.forall₂_iff_get.1 h).2 (axis + i) (by omega) (by omega)
  have hdim := hfits.dim i dims[i] (List.getElem?_eq_getElem hi)
  simp only [List.get_eq_getElem] at hcoord ⊢
  simp only [stretch, List.getElem_zipWith, List.getElem_drop]
  split
  · omega
  · next hne =>
    obtain ⟨_, heq⟩ := List.getElem?_eq_some_iff.1 (hdim.resolve_left hne)
    rwa [← heq]

/-! ### The meaning of the nodes -/

/-- Broadcasts and element-wise operations, when the operations act on elements as `apply` says. -/
def Meaning.elementwise (apply : ArithmeticOp → R → R → R) (other : Meaning R) : Meaning R
  | .broadcast axis, [dims], [x] => fun coords => x (stretch dims axis coords)
  | .arithmetic op, _, [x, y] => fun coords => apply op (x coords) (y coords)
  | kind, shapes, values => other kind shapes values

namespace Lowering

variable {s t : Workspace} {g : Graph} {name : String} {id : NodeId} {start : Nat}
  {given : NodeId → List Nat → R}

/-- A created node has the value that its `kind` makes of the values of its operands. -/
theorem Created.evaluate_eq {kind : NodeKind} {operands : List NodeId} {type : ValueType}
    (h : Created (⟨name, kind, operands, ·⟩) type id s t) (hg : t.graph.Extends g) (m : Meaning R)
    (hstart : start ≤ s.graph.nodes.length)
    (hoperands : ∀ operand ∈ operands, operand.index < s.graph.nodes.length) :
    m.evaluate g start given id =
      m kind (operands.map g.shape) (operands.map (m.evaluate g start given)) := by
  obtain ⟨ref, hadded⟩ := h.added
  have hnode : g.nodes[id.index]? = some ⟨name, kind, operands, ref⟩ := by
    refine getElem?_of_prefix hg.nodes ?_
    simp [hadded.nodes_eq, h.id_eq]
  obtain rfl := h.id_eq
  exact m.evaluate_eq hnode hstart hoperands

theorem index_lt_of_typeOf {type : ValueType} (h : g.typeOf id = .ok type) :
    id.index < g.nodes.length := by
  obtain ⟨node, hnode, -⟩ := Graph.typeOf_eq_ok.1 h
  rw [Graph.node, found_eq_ok] at hnode
  exact (List.getElem?_eq_some_iff.1 hnode).1

section Elementwise

variable (apply : ArithmeticOp → R → R → R) (other : Meaning R)

/-- A value in another shape has the elements of the value at the coordinates that these are
stretched from (`stretch`). -/
theorem Fitted.evaluate_eq {source : NodeId} {type : ValueType}
    (h : Fitted name source type into axis id s t) (hfits : FitsInto type.dims into axis)
    (htype : s.graph.typeOf source = .ok type) (hg : t.graph.Extends g)
    (hstart : start ≤ s.graph.nodes.length) (hcoords : InShape coords into) :
    (Meaning.elementwise apply other).evaluate g start given id coords =
      (Meaning.elementwise apply other).evaluate g start given source
        (stretch type.dims axis coords) := by
  cases h with
  | same hdims =>
    subst hdims
    have haxis : axis = 0 := by have hrank := hfits.rank; omega
    rw [haxis, stretch_self hcoords]
  | stretched _ hc =>
    have hindex := index_lt_of_typeOf htype
    have hshape := Graph.shape_eq (hg.typeOf_eq (hc.ext.typeOf_eq htype))
    rw [hc.evaluate_eq hg _ hstart (by simpa using hindex), List.map_singleton, hshape]
    rfl

/-- The elements of a combination are those that the operation makes, by `apply`, of the paired
elements. -/
theorem Combination.Made.evaluate_eq {c : Combination} {op : ArithmeticOp} {lhs rhs : NodeId}
    {mode : BroadcastMode} (h : c.Made name op lhs rhs id s t) (hreads : c.Reads lhs rhs s mode)
    (hg : t.graph.Extends g) (hstart : start ≤ s.graph.nodes.length)
    (hcoords : InShape coords c.dims) :
    (Meaning.elementwise apply other).evaluate g start given id coords = apply op
      ((Meaning.elementwise apply other).evaluate g start given lhs
        (stretch c.left c.leftAxis coords))
      ((Meaning.elementwise apply other).evaluate g start given rhs
        (stretch c.right c.rightAxis coords)) := by
  obtain ⟨lhs', rhs', u, v, hleft, hright, hc⟩ := h
  have hr := hleft.ext.typeOf_eq hreads.typeOf_right
  have hv := hc.ext.trans hg
  have hu := hright.ext.trans hv
  have hl' := index_lt_of_typeOf (hright.ext.typeOf_eq (hleft.typeOf_id hreads.typeOf_left))
  have hr' := index_lt_of_typeOf (hright.typeOf_id hr)
  have hsu := hleft.ext.nodes.length_le
  have huv := hright.ext.nodes.length_le
  rw [hc.evaluate_eq hg _ (by omega) (by simp [hl', hr'])]
  show apply op _ _ = _
  rw [hleft.evaluate_eq apply other hreads.aligns.fitsInto_left hreads.typeOf_left hu hstart
      hcoords,
    hright.evaluate_eq apply other hreads.aligns.fitsInto_right hr hv (by omega) hcoords]

end Elementwise

/-! ### The combination of two operands -/

/-- The nodes that a combination adds from `place` on: a broadcast of each operand that has another
shape, and the operation. -/
def Combination.nodes (c : Combination) (name : String) (op : ArithmeticOp) (lhs rhs : NodeId)
    (place : Nat) (ref : TypeRef) : List Node :=
  let left := fittingNodes s!"{name}.lhs_broadcast" lhs c.left c.dims c.leftAxis ref
  let right := fittingNodes s!"{name}.rhs_broadcast" rhs c.right c.dims c.rightAxis ref
  left ++ right ++ [⟨name, .arithmetic op, [fittedId lhs c.left c.dims place,
    fittedId rhs c.right c.dims (place + left.length)], ref⟩]

/-- What is added for a combination: its `nodes`, all of the type of the result, which is the
last. -/
structure Combination.Adds (c : Combination) (name : String) (op : ArithmeticOp)
    (lhs rhs id : NodeId) (s t : Workspace) : Prop where
  table : t.table = s.table
  nodes : ∃ ref, t.graph.resolve ref = .ok ⟨c.kind, c.dims⟩ ∧
    t.graph.nodes = s.graph.nodes ++ c.nodes name op lhs rhs s.graph.nodes.length ref
  index_id : id.index + 1 = t.graph.nodes.length
  typeOf_id : t.graph.typeOf id = .ok ⟨c.kind, c.dims⟩

theorem Combination.Made.adds {c : Combination} {op : ArithmeticOp} {lhs rhs : NodeId}
    {mode : BroadcastMode} (h : c.Made name op lhs rhs id s t) (hreads : c.Reads lhs rhs s mode)
    (hg : s.graph.Indexed) : c.Adds name op lhs rhs id s t := by
  obtain ⟨lhs', rhs', u, v, hleft, hright, hc⟩ := h
  obtain ⟨ref, href, hadded, rfl⟩ := hleft.exists_added hg hreads.typeOf_left
  obtain ⟨ref', href', hadded', rfl⟩ :=
    hright.exists_added hadded.indexed (hleft.ext.typeOf_eq hreads.typeOf_right)
  obtain ⟨ref'', href'', hadded''⟩ := hc.exists_ref fun _ => rfl
  -- one type has one handle
  have hindexed := hadded''.indexed
  obtain rfl := (hindexed.ref_eq_iff href'' (hc.ext.resolve_eq href')).2 rfl
  obtain rfl := (hindexed.ref_eq_iff href''
    (hc.ext.resolve_eq (hright.ext.resolve_eq href))).2 rfl
  have hall := (hadded.trans hadded').trans hadded''
  refine ⟨hall.table, ⟨_, href'', ?_⟩, ?_, hc.typeOf_node⟩
  · rw [hall.nodes_eq, hadded.nodes_eq, List.length_append]
    rfl
  · rw [hc.id_eq, hadded''.nodes_eq, List.length_append]
    rfl

/-- **Broadcasting is exact.** In every graph that can arise, two operands can be combined by
`elementwise` exactly when they agree in kind and the mode accepts their shapes
(`Combination.Reads`). The result has the shape that the mode brings these to; a broadcast is added
for each operand that has another shape, and nothing but that and the operation
(`Combination.Adds`). Every element of the result is what the operation makes of the elements at the
stretched coordinates (`stretch`), which are coordinates in the operands. -/
theorem elementwise_exact (hg : s.graph.Reachable) (name : String) (op : ArithmeticOp)
    (lhs rhs : NodeId) (mode : BroadcastMode) :
    ((∃ id t, elementwise name op lhs rhs mode s = .ok id t) ↔ ∃ kind left right,
      s.graph.typeOf lhs = .ok ⟨kind, left⟩ ∧ s.graph.typeOf rhs = .ok ⟨kind, right⟩ ∧
        mode.Accepts left right) ∧
    ∀ id t, elementwise name op lhs rhs mode s = .ok id t → ∃ c : Combination,
      c.Reads lhs rhs s mode ∧ c.Adds name op lhs rhs id s t ∧
        ∀ {R : Type u} (apply : ArithmeticOp → R → R → R) (other : Meaning R)
          (given : NodeId → List Nat → R) (coords : List Nat), InShape coords c.dims →
            InShape (stretch c.left c.leftAxis coords) c.left ∧
            InShape (stretch c.right c.rightAxis coords) c.right ∧
            (Meaning.elementwise apply other).evaluate t.graph s.graph.nodes.length given id
                coords =
              apply op (given lhs (stretch c.left c.leftAxis coords))
                (given rhs (stretch c.right c.rightAxis coords)) := by
  refine ⟨exists_elementwise_iff hg.indexed, fun id t h => ?_⟩
  obtain ⟨c, hreads, hmade⟩ := made_of_ok hg.indexed h
  refine ⟨c, hreads, hmade.adds hreads hg.indexed, fun apply other given coords hcoords =>
    ⟨inShape_stretch hreads.aligns.fitsInto_left hcoords,
      inShape_stretch hreads.aligns.fitsInto_right hcoords, ?_⟩⟩
  rw [hmade.evaluate_eq apply other hreads (.refl _) (Nat.le_refl _) hcoords]
  -- the operands stand before the nodes that are added
  have hl := index_lt_of_typeOf hreads.typeOf_left
  have hr := index_lt_of_typeOf hreads.typeOf_right
  rw [Meaning.evaluate_of_lt _ hl, Meaning.evaluate_of_lt _ hr]

/-- A graph with a column of two elements and a row of three. -/
def columnAndRow : Graph :=
  (Graph.Operation.create "row" (.parameter (.zero .float [3]))).run
    ((Graph.Operation.create "column" (.parameter (.zero .float [2, 1]))).run (.empty "g"))

/-- Added up, the operands in `columnAndRow` make a matrix of all sums of an element of the column
and one of the row. -/
theorem elementwise_exact_columnAndRow : ∃ id t,
    elementwise "sums" .add ⟨0⟩ ⟨1⟩ .multidirectional { graph := columnAndRow } = .ok id t ∧
      t.graph.typeOf id = .ok ⟨.float, [2, 3]⟩ ∧
      ∀ (given : NodeId → List Nat → Int), ∀ i < 2, ∀ j < 3,
        (Meaning.elementwise (fun _ x y => x + y) fun _ _ _ _ => 0).evaluate t.graph 2 given id
          [i, j] = given ⟨0⟩ [i, 0] + given ⟨1⟩ [j] := by
  have hg : columnAndRow.Reachable := .operate (.operate (.empty "g") _) _
  obtain ⟨hiff, hall⟩ := elementwise_exact (s := { graph := columnAndRow }) hg "sums" .add ⟨0⟩ ⟨1⟩
    .multidirectional
  have hmeet : BroadcastMode.multidirectional.Accepts [2, 1] [3] :=
    exists_joined_iff.1 ⟨[2, 3], joinShape?_eq_some.1 rfl⟩
  obtain ⟨id, t, h⟩ := hiff.2 ⟨.float, [2, 1], [3], rfl, rfl, hmeet⟩
  obtain ⟨⟨kind, left, right, dims, a, b⟩, ⟨hleft, hright, haligns⟩, hadds, hvalue⟩ := hall id t h
  cases hleft
  cases hright
  dsimp only at haligns hadds hvalue
  cases haligns with
  | multidirectional hjoined =>
    cases joinShape?_eq_some.2 hjoined
    refine ⟨id, t, h, hadds.typeOf_id, fun given i hi j hj => ?_⟩
    exact (hvalue (fun _ x y => x + y) (fun _ _ _ _ => 0) given [i, j]
      (.cons hi (.cons hj .nil))).2.2

end Lowering
end TensorGraph
