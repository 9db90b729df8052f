import TensorGraph.Proofs.Graph.Comparison

/-! # Growing two graphs side by side

Two graphs may hold anything when they begin to grow. As long as the same nodes are added to both,
their added parts look the same: the nodes agree in name, kind and resolved type, and their operands
are added nodes at the same distance from the beginning. What a graph held before shows only in the
places of nodes and types, and no rule looks at places except to compare types. -/

namespace TensorGraph

namespace Graph

/-! ### Corresponding places -/

/-- Places that are equally far behind `m` and `n`, by less than `count`. -/
def Shifted (m n count : Nat) (i j : NodeId) : Prop := ∃ k < count, i = ⟨m + k⟩ ∧ j = ⟨n + k⟩

theorem Shifted.mono {m n count count' : Nat} {i j : NodeId} (hij : Shifted m n count i j)
    (hcount : count ≤ count') : Shifted m n count' i j := by
  obtain ⟨k, hk, hi, hj⟩ := hij
  exact ⟨k, hk.trans_le hcount, hi, hj⟩

/-! ### Graphs with the same nodes added -/

/-- The places of the added nodes of a graph that has grown from `b`, and those of another graph
that has grown from `b'`. -/
def Corresponds (b b' g : Graph) : NodeId → NodeId → Prop :=
  Shifted b.nodes.length b'.nodes.length (g.nodes.length - b.nodes.length)

/-- Two graphs that have grown from `b` and `b'`, with the same nodes added to both. -/
structure Twin (b b' g h : Graph) : Prop where
  left : b.Extends g
  right : b'.Extends h
  indexed_left : g.Indexed
  indexed_right : h.Indexed
  count : g.nodes.length + b'.nodes.length = h.nodes.length + b.nodes.length
  nodes : ∀ k a c, g.nodes[b.nodes.length + k]? = some a → h.nodes[b'.nodes.length + k]? = some c →
    Relocated (Corresponds b b' g) g h a c

theorem Corresponds.mono {b b' g g' : Graph} {i j : NodeId} (hij : Corresponds b b' g i j)
    (hg : g.Extends g') : Corresponds b b' g' i j := by
  have := hg.nodes.length_le
  exact Shifted.mono hij (by omega)

theorem Twin.refl {b b' : Graph} (hb : b.Indexed) (hb' : b'.Indexed) : Twin b b' b b' where
  left := .refl b
  right := .refl b'
  indexed_left := hb
  indexed_right := hb'
  count := Nat.add_comm _ _
  nodes := by
    intro k a c ha _
    rw [List.getElem?_eq_none (by omega)] at ha
    cases ha

namespace Twin

variable {b b' g h : Graph} (hgh : Twin b b' g h)
include hgh

/-- The parts added to `b` and `b'` as two lists, entry by entry. -/
theorem forall₂_added : ∃ added added', g.nodes = b.nodes ++ added ∧ h.nodes = b'.nodes ++ added' ∧
    List.Forall₂ (Relocated (Corresponds b b' g) g h) added added' := by
  obtain ⟨added, hadded⟩ := hgh.left.nodes
  obtain ⟨added', hadded'⟩ := hgh.right.nodes
  have hcount := hgh.count
  rw [← hadded, ← hadded', List.length_append, List.length_append] at hcount
  refine ⟨added, added', hadded.symm, hadded'.symm, ?_⟩
  refine List.forall₂_of_length_eq_of_get (by omega) fun k hk hk' => ?_
  have hnodes := hgh.nodes k (added.get ⟨k, hk⟩) (added'.get ⟨k, hk'⟩)
  rw [← hadded, ← hadded', List.getElem?_append_right (by omega),
    List.getElem?_append_right (by omega)] at hnodes
  simp only [Nat.add_sub_cancel_left] at hnodes
  exact hnodes (List.getElem?_eq_getElem hk) (List.getElem?_eq_getElem hk')

/-! ### Interning and adding -/

theorem intern (type : ValueType) : Twin b b' (g.intern type).2 (h.intern type).2 where
  left := hgh.left.trans (extends_intern g type)
  right := hgh.right.trans (extends_intern h type)
  indexed_left := hgh.indexed_left.intern type
  indexed_right := hgh.indexed_right.intern type
  count := by
    rw [nodes_intern, nodes_intern]
    exact hgh.count
  nodes := by
    intro k a c ha hc
    rw [nodes_intern] at ha hc
    refine (hgh.nodes k a c ha hc).mono (fun i j hij => ?_) (extends_intern g type)
      (extends_intern h type)
    exact hij.mono (extends_intern g type)

/-- The ends of the two graphs correspond to each other (`Corresponds`) once they have grown by a
node. -/
theorem added_end (name : String) (d : Draft) :
    Corresponds b b' (g.add name d).2 ⟨g.nodes.length⟩ ⟨h.nodes.length⟩ := by
  have hb := hgh.left.nodes.length_le
  have hcount := hgh.count
  refine ⟨g.nodes.length - b.nodes.length, ?_, ?_, ?_⟩
  · rw [nodes_add, List.length_append, List.length_singleton]
    omega
  · rw [Nat.add_sub_cancel' hb]
  · rw [NodeId.mk.injEq]
    omega

theorem add {d d' : Draft} (hd : Draft.Relocated (Corresponds b b' g) g h d d') (name : String) :
    Twin b b' (g.add name d).2 (h.add name d').2 where
  left := hgh.left.trans (extends_add g name d)
  right := hgh.right.trans (extends_add h name d')
  indexed_left := hgh.indexed_left.add name d
  indexed_right := hgh.indexed_right.add name d'
  count := by
    have := hgh.count
    simp only [nodes_add, List.length_append, List.length_singleton]
    omega
  nodes := by
    intro k a c ha hc
    have hcount := hgh.count
    have hids : ∀ i j, Corresponds b b' g i j → Corresponds b b' (g.add name d).2 i j :=
      fun i j hij => hij.mono (extends_add g name d)
    rw [nodes_add] at ha hc
    rcases Nat.lt_or_ge (b.nodes.length + k) g.nodes.length with hlt | hge
    · rw [List.getElem?_append_left hlt] at ha
      rw [List.getElem?_append_left (by omega)] at hc
      exact (hgh.nodes k a c ha hc).mono hids (extends_add g name d) (extends_add h name d')
    · rw [List.getElem?_append_right hge, List.getElem?_singleton] at ha
      rw [List.getElem?_append_right (by omega), List.getElem?_singleton] at hc
      split at ha
      · split at hc
        · obtain rfl := Option.some.inj ha
          obtain rfl := Option.some.inj hc
          obtain ⟨type, htype, htype'⟩ := hd.type
          exact ⟨rfl, hd.kind, hd.operands.imp hids, type,
            resolve_refOf hgh.indexed_left name d htype,
            resolve_refOf hgh.indexed_right name d' htype'⟩
        · cases hc
      · cases ha

/-! ### Reading -/

theorem node_of_corresponds {i j : NodeId} (hij : Corresponds b b' g i j) :
    ∃ a c, g.node i = .ok a ∧ h.node j = .ok c ∧ Relocated (Corresponds b b' g) g h a c := by
  have hcount := hgh.count
  obtain ⟨k, hk, rfl, rfl⟩ := hij
  have hi : b.nodes.length + k < g.nodes.length := by omega
  have hj : b'.nodes.length + k < h.nodes.length := by omega
  refine ⟨g.nodes[b.nodes.length + k], h.nodes[b'.nodes.length + k], ?_, ?_, ?_⟩
  · exact found_eq_ok.2 (List.getElem?_eq_getElem hi)
  · exact found_eq_ok.2 (List.getElem?_eq_getElem hj)
  · exact hgh.nodes k _ _ (List.getElem?_eq_getElem hi) (List.getElem?_eq_getElem hj)

theorem comparable : Comparable (Corresponds b b' g) g h where
  indexed_left := hgh.indexed_left
  indexed_right := hgh.indexed_right
  node hij := by
    obtain ⟨a, c, ha, hc, hac⟩ := hgh.node_of_corresponds hij
    exact ⟨a, c, ha, hc, hac.type⟩

end Twin

/-- Graphs that have grown side by side (`Twin`) are linked by the places of the added nodes. -/
theorem linking_twin (b b' : Graph) : Linking (Twin b b') fun g _ => Corresponds b b' g where
  comparable hgh := hgh.comparable
  mono hij hg _ := hij.mono hg
  intern hgh := hgh.intern
  add hgh := hgh.add
  added hgh _ name := hgh.added_end name _

end Graph
end TensorGraph
