import TensorGraph.Graph.Build
import Mathlib.Data.List.Infix
import Mathlib.Order.Basic

/-! # Graphs that grow

One graph extends another one when it has the same name, begins with the same nodes and types, and
has, before the old entries of the map of handles, only entries for handles beyond the old types.
Everything that is found in a graph is found in its extensions. An extension rolled back to the
lengths of the graph is the graph again, as long as the handles of the graph were in range. -/

namespace TensorGraph

/-- What a list has at a place, every list that begins with it has there. -/
theorem getElem?_of_prefix {α : Type} {l m : List α} (h : l <+: m) {i : Nat} {a : α}
    (ha : l[i]? = some a) : m[i]? = some a := by
  obtain ⟨r, rfl⟩ := h
  obtain ⟨hi, -⟩ := List.getElem?_eq_some_iff.1 ha
  rw [List.getElem?_append_left hi, ha]

namespace Graph

/-- The graph `h` is `g` with nodes and types added. -/
structure Extends (g h : Graph) : Prop where
  name : h.name = g.name
  nodes : g.nodes <+: h.nodes
  types : g.types <+: h.types
  refs : ∃ added, h.refs.entries = added ++ g.refs.entries ∧
    ∀ e ∈ added, g.types.length ≤ e.2.index

/-- The handles of types in `refs` stand for types that the graph has. -/
def RefsBelow (g : Graph) : Prop := ∀ e ∈ g.refs.entries, e.2.index < g.types.length

namespace Extends

variable {g h k : Graph}

theorem refl (g : Graph) : g.Extends g where
  name := rfl
  nodes := List.prefix_refl _
  types := List.prefix_refl _
  refs := ⟨[], rfl, by simp⟩

theorem trans (hg : g.Extends h) (hh : h.Extends k) : g.Extends k where
  name := hh.name.trans hg.name
  nodes := hg.nodes.trans hh.nodes
  types := hg.types.trans hh.types
  refs := by
    obtain ⟨a, ha, hal⟩ := hg.refs
    obtain ⟨b, hb, hbl⟩ := hh.refs
    have hlen := hg.types.length_le
    refine ⟨b ++ a, by rw [hb, ha, List.append_assoc], fun e he => ?_⟩
    rcases List.mem_append.1 he with he | he
    · exact hlen.trans (hbl e he)
    · exact hal e he

/-- Graphs are ordered by growth (`Graph.Extends`). -/
instance : Preorder Graph where
  le := Extends
  le_refl := refl
  le_trans _ _ _ := trans

/-! ### What is found stays found -/

theorem node_eq (hg : g.Extends h) {id : NodeId} {n : Node} (hn : g.node id = .ok n) :
    h.node id = .ok n := by
  simp only [node, found_eq_ok] at hn ⊢
  exact getElem?_of_prefix hg.nodes hn

theorem resolve_eq (hg : g.Extends h) {ref : TypeRef} {type : ValueType}
    (hr : g.resolve ref = .ok type) : h.resolve ref = .ok type := by
  simp only [resolve, found_eq_ok] at hr ⊢
  exact getElem?_of_prefix hg.types hr

theorem typeOf_eq (hg : g.Extends h) {id : NodeId} {type : ValueType}
    (ht : g.typeOf id = .ok type) : h.typeOf id = .ok type := by
  simp only [typeOf, bind_eq_ok] at ht ⊢
  obtain ⟨node, hn, hr⟩ := ht
  exact ⟨node, hg.node_eq hn, hg.resolve_eq hr⟩

end Extends

/-! ### The ways to grow -/

theorem extends_addType (g : Graph) {type : ValueType} (h : g.refs.get? type = none) :
    g.Extends (g.addType type).2 where
  name := rfl
  nodes := List.prefix_refl _
  types := List.prefix_append _ _
  refs := by
    refine ⟨[(type, ⟨g.types.length⟩)], ?_, by simp⟩
    exact KeyMap.entries_insert_of_get?_eq_none h _

theorem extends_intern (g : Graph) (type : ValueType) : g.Extends (g.intern type).2 := by
  unfold intern
  split
  · exact .refl g
  · next h => exact g.extends_addType h

theorem extends_push (g : Graph) (node : Node) : g.Extends (g.push node).2 where
  name := rfl
  nodes := List.prefix_append _ _
  types := List.prefix_refl _
  refs := ⟨[], rfl, by simp⟩

theorem extends_add (g : Graph) (name : String) (draft : Draft) :
    g.Extends (g.add name draft).2 := by
  unfold add
  split
  · exact (g.extends_intern _).trans (extends_push _ _)
  · exact extends_push _ _

/-! ### Rolling back -/

theorem rollback_nodes_eq {g h : Graph} (hn : g.nodes <+: h.nodes) :
    (h.rollback g.checkpoint).nodes = g.nodes :=
  (List.prefix_iff_eq_take.1 hn).symm

theorem rollback_types_eq {g h : Graph} (ht : g.types <+: h.types) :
    (h.rollback g.checkpoint).types = g.types :=
  (List.prefix_iff_eq_take.1 ht).symm

/-- Rolling back to the lengths of `g` does not see what was added to it: the added entries of
`refs` lie beyond the old types and are dropped. -/
theorem rollback_eq_of_extends {g h : Graph} (hgh : g.Extends h) :
    h.rollback g.checkpoint = g.rollback g.checkpoint := by
  obtain ⟨added, he, hadded⟩ := hgh.refs
  have hnew : added.filter (fun e => e.2.index < g.types.length) = [] := by
    rw [List.filter_eq_nil_iff]
    intro e hmem
    have := hadded e hmem
    simp only [decide_eq_true_eq]
    omega
  have hrefs : (h.rollback g.checkpoint).refs = (g.rollback g.checkpoint).refs := by
    show h.refs.retain (fun ref => ref.index < g.types.length) =
      g.refs.retain fun ref => ref.index < g.types.length
    rw [KeyMap.retain, he, List.filter_append, hnew, List.nil_append, KeyMap.retain]
  have hname : (h.rollback g.checkpoint).name = g.name := hgh.name
  have hnodes := (rollback_nodes_eq hgh.nodes).trans
    (rollback_nodes_eq (List.prefix_refl g.nodes)).symm
  have htypes := (rollback_types_eq hgh.types).trans
    (rollback_types_eq (List.prefix_refl g.types)).symm
  cases hk : h.rollback g.checkpoint with
  | mk name nodes types refs =>
    rw [hk] at hname hnodes htypes hrefs
    subst hname hnodes htypes hrefs
    rfl

/-- A graph whose handles are in range (`RefsBelow`) has nothing that rolling back to its own
lengths drops. -/
theorem rollback_self {g : Graph} (hg : g.RefsBelow) : g.rollback g.checkpoint = g := by
  have hrefs : g.refs.entries.filter (fun e => e.2.index < g.types.length) = g.refs.entries := by
    rw [List.filter_eq_self]
    intro e hmem
    simpa using hg e hmem
  unfold rollback checkpoint KeyMap.retain
  rw [hrefs, List.take_length, List.take_length]

/-- **Rolling back undoes growing**: a graph `h` that extends `g` is rolled back to it. -/
theorem rollback_of_extends {g h : Graph} (hg : g.RefsBelow) (hgh : g.Extends h) :
    h.rollback g.checkpoint = g :=
  (rollback_eq_of_extends hgh).trans (rollback_self hg)

end Graph
end TensorGraph
