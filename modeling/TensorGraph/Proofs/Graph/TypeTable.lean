import TensorGraph.Proofs.Graph.Extension
import Mathlib.Data.List.Nodup

/-! # The types of a graph and their handles

The list of types and the map of handles of a graph are inverse to each other: a type has the
handle `i` exactly when it stands at place `i`. Therefore no type stands at two places, equal types
have equal handles, and the handle that interning gives stands for the interned type. -/

namespace TensorGraph

/-- As every key occurs once (`Distinct`), an entry is what the map gives back for its key. -/
theorem KeyMap.get?_eq_some {κ α : Type} [DecidableEq κ] {m : KeyMap κ α} (h : m.Distinct)
    {key : κ} {value : α} : m.get? key = some value ↔ (key, value) ∈ m.entries := by
  refine ⟨mem_of_get?, fun hmem => ?_⟩
  cases hk : m.get? key with
  | none => exact absurd rfl (get?_eq_none.1 hk _ hmem)
  | some other =>
    have hinj := List.inj_on_of_nodup_map h (mem_of_get? hk) hmem rfl
    rw [(Prod.mk.inj hinj).2]

namespace Graph

/-- The map `refs` sends exactly the types of the graph to their places. -/
structure Indexed (g : Graph) : Prop where
  distinct : g.refs.Distinct
  mem_refs : ∀ type ref, (type, ref) ∈ g.refs.entries ↔ g.types[ref.index]? = some type

namespace Indexed

variable {g : Graph}

theorem get?_refs (hg : g.Indexed) {type : ValueType} {ref : TypeRef} :
    g.refs.get? type = some ref ↔ g.types[ref.index]? = some type := by
  rw [KeyMap.get?_eq_some hg.distinct, hg.mem_refs]

theorem refsBelow (hg : g.Indexed) : g.RefsBelow := by
  rintro ⟨type, ref⟩ he
  exact (List.getElem?_eq_some_iff.1 ((hg.mem_refs type ref).1 he)).1

/-- Places of equal types are equal. -/
theorem index_inj (hg : g.Indexed) {i j : Nat} {type : ValueType} (hi : g.types[i]? = some type)
    (hj : g.types[j]? = some type) : i = j := by
  have hi' : g.refs.get? type = some ⟨i⟩ := hg.get?_refs.2 hi
  have hj' : g.refs.get? type = some ⟨j⟩ := hg.get?_refs.2 hj
  rw [hi'] at hj'
  exact congrArg TypeRef.index (Option.some.inj hj')

/-- Handles that stand for types (`Graph.resolve`) are equal exactly when the types are. -/
theorem ref_eq_iff (hg : g.Indexed) {left right : TypeRef} {s t : ValueType}
    (hs : g.resolve left = .ok s) (ht : g.resolve right = .ok t) : left = right ↔ s = t := by
  constructor
  · rintro rfl
    exact Except.ok.inj (hs.symm.trans ht)
  · rintro rfl
    have hindex := hg.index_inj (found_eq_ok.1 hs) (found_eq_ok.1 ht)
    cases left; cases right
    exact congrArg TypeRef.mk hindex

/-! ### Kept by every way to change a graph -/

theorem empty (name : String) : (Graph.empty name).Indexed where
  distinct := List.nodup_nil
  mem_refs := by simp [Graph.empty]

theorem addType (hg : g.Indexed) {type : ValueType} (h : g.refs.get? type = none) :
    (g.addType type).2.Indexed where
  distinct := KeyMap.distinct_insert hg.distinct _ _
  mem_refs := by
    intro t ref
    have he : (g.addType type).2.refs.entries = (type, ⟨g.types.length⟩) :: g.refs.entries :=
      KeyMap.entries_insert_of_get?_eq_none h _
    rw [he, List.mem_cons, hg.mem_refs]
    show _ ↔ (g.types ++ [type])[ref.index]? = some t
    rcases Nat.lt_trichotomy ref.index g.types.length with hlt | heq | hgt
    · rw [List.getElem?_append_left hlt]
      refine ⟨fun hor => hor.resolve_left fun hp => ?_, Or.inr⟩
      have : ref.index = g.types.length := congrArg TypeRef.index (Prod.mk.inj hp).2
      omega
    · rw [List.getElem?_append_right (by omega), List.getElem?_eq_none (by omega : _ ≤ ref.index)]
      obtain ⟨i⟩ := ref
      subst heq
      simp [eq_comm]
    · rw [List.getElem?_eq_none (by omega : _ ≤ ref.index),
        List.getElem?_eq_none (by simp; omega : _ ≤ ref.index)]
      refine ⟨fun hor => ?_, by simp⟩
      rcases hor with hp | hp
      · have : ref.index = g.types.length := congrArg TypeRef.index (Prod.mk.inj hp).2
        omega
      · cases hp

theorem intern (hg : g.Indexed) (type : ValueType) : (g.intern type).2.Indexed := by
  unfold Graph.intern
  split
  · exact hg
  · next h => exact hg.addType h

theorem push (hg : g.Indexed) (node : Node) : (g.push node).2.Indexed :=
  ⟨hg.distinct, hg.mem_refs⟩

theorem add (hg : g.Indexed) (name : String) (draft : Draft) : (g.add name draft).2.Indexed := by
  unfold Graph.add
  split
  · exact (hg.intern _).push _
  · exact hg.push _

/-- Rolling back keeps the table whatever the checkpoint `c` is. -/
theorem rollback (hg : g.Indexed) (c : Checkpoint) : (g.rollback c).Indexed where
  distinct := KeyMap.distinct_retain hg.distinct _
  mem_refs := by
    intro type ref
    show (type, ref) ∈ g.refs.entries.filter (fun e => e.2.index < c.types) ↔
      (g.types.take c.types)[ref.index]? = some type
    rw [List.mem_filter, hg.mem_refs, List.getElem?_take]
    by_cases h : ref.index < c.types
    · simp [h]
    · simp [h]

end Indexed

/-! ### What interning and adding give -/

/-- The handle that stands for the result of a draft once the draft is added. -/
def refOf (g : Graph) : ResultType → TypeRef
  | .ofType type => (g.intern type).1
  | .ofRef ref => ref

/-- The type that the result of a draft has. -/
def resultType (g : Graph) : ResultType → Except GraphError ValueType
  | .ofType type => .ok type
  | .ofRef ref => g.resolve ref

/-- **The handle that interning gives stands for the interned type**, by `Graph.resolve`. -/
theorem resolve_intern {g : Graph} (hg : g.Indexed) (type : ValueType) :
    (g.intern type).2.resolve (g.intern type).1 = .ok type := by
  unfold resolve intern
  rw [found_eq_ok]
  split
  · next ref h => exact hg.get?_refs.1 h
  · simp [addType]

theorem nodes_intern (g : Graph) (type : ValueType) : (g.intern type).2.nodes = g.nodes := by
  unfold intern addType
  split <;> rfl

theorem add_fst (g : Graph) (name : String) (draft : Draft) :
    (g.add name draft).1 = ⟨g.nodes.length⟩ := by
  unfold add
  split
  · simp [push, nodes_intern]
  · rfl

theorem nodes_add (g : Graph) (name : String) (draft : Draft) :
    (g.add name draft).2.nodes =
      g.nodes ++ [⟨name, draft.kind, draft.operands, g.refOf draft.result⟩] := by
  unfold add
  split
  · next h => simp [push, nodes_intern, refOf, h]
  · next h => simp [push, refOf, h]

/-- The added node, under the handle that `Graph.add` gives. -/
theorem node_add (g : Graph) (name : String) (draft : Draft) :
    (g.add name draft).2.node ⟨g.nodes.length⟩ =
      .ok ⟨name, draft.kind, draft.operands, g.refOf draft.result⟩ := by
  simp [node, found, nodes_add]

theorem resolve_refOf {g : Graph} (hg : g.Indexed) (name : String) (draft : Draft)
    {type : ValueType} (h : g.resultType draft.result = .ok type) :
    (g.add name draft).2.resolve (g.refOf draft.result) = .ok type := by
  unfold add
  cases hr : draft.result with
  | ofType t =>
    rw [hr, resultType, Except.ok.injEq] at h
    subst h
    exact (extends_push _ _).resolve_eq (resolve_intern hg t)
  | ofRef ref =>
    rw [hr] at h
    exact (extends_push _ _).resolve_eq h

/-- The added node has the type of its draft, `g.resultType draft.result`. -/
theorem typeOf_add {g : Graph} (hg : g.Indexed) (name : String) (draft : Draft)
    {type : ValueType} (h : g.resultType draft.result = .ok type) :
    (g.add name draft).2.typeOf ⟨g.nodes.length⟩ = .ok type := by
  rw [typeOf, bind_eq_ok]
  exact ⟨_, node_add g name draft, resolve_refOf hg name draft h⟩

end Graph
end TensorGraph
