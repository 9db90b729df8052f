import TensorGraph.Proofs.Graph.WellShaped

/-! # Unique types and earlier operands

In a built graph the list of types and the map of their handles say the same: every type stands at
one place and has the handle of that place. Nodes therefore have the same type exactly when they
have the same type handle, which is all that arithmetic compares. The operands of a node come before
the node itself, as a sound draft names only nodes that are there when its node is added. -/

namespace TensorGraph.Graph

variable {g : Graph}

/-! ### Unique types -/

namespace Indexed

theorem nodup_types (hg : g.Indexed) : g.types.Nodup := by
  rw [List.nodup_iff_getElem?_ne_getElem?]
  intro i j hij hj heq
  rw [List.getElem?_eq_getElem hj] at heq
  have := hg.index_inj heq (List.getElem?_eq_getElem hj)
  omega

theorem mem_types (hg : g.Indexed) {type : ValueType} :
    type ∈ g.types ↔ ∃ ref, g.refs.get? type = some ref := by
  simp only [hg.get?_refs, List.mem_iff_getElem?]
  constructor
  · rintro ⟨i, hi⟩
    exact ⟨⟨i⟩, hi⟩
  · rintro ⟨ref, href⟩
    exact ⟨ref.index, href⟩

/-- Interning by `Graph.intern` adds a type at the end unless it is there already. -/
theorem types_intern (hg : g.Indexed) (type : ValueType) :
    (g.intern type).2.types = if type ∈ g.types then g.types else g.types ++ [type] := by
  unfold Graph.intern
  cases href : g.refs.get? type with
  | some ref =>
    rw [if_pos (hg.mem_types.2 ⟨ref, href⟩)]
  | none =>
    have hnew : type ∉ g.types := by
      rw [hg.mem_types]
      rintro ⟨ref, href'⟩
      rw [href] at href'
      cases href'
    rw [if_neg hnew]
    rfl

end Indexed

/-- Arithmetic accepts two operands that have types exactly when these are equal, `s = t`. -/
theorem arithmetic_iff (hg : g.Indexed) {name : String} {op : ArithmeticOp} {lhs rhs : NodeId}
    {s t : ValueType} (hs : g.typeOf lhs = .ok s) (ht : g.typeOf rhs = .ok t) :
    (∃ draft, Draft.arithmetic g name op lhs rhs = .ok draft) ↔ s = t := by
  obtain ⟨left, hleft, hs⟩ := typeOf_eq_ok.1 hs
  obtain ⟨right, hright, ht⟩ := typeOf_eq_ok.1 ht
  rw [← hg.ref_eq_iff hs ht]
  simp only [Draft.arithmetic, bind_eq_ok, hleft, hright, Except.ok.injEq, exists_eq_left']
  constructor
  · rintro ⟨draft, hdraft⟩
    split at hdraft
    · next heq => exact heq
    · simp only [hs, ht, bind_eq_ok] at hdraft
      obtain ⟨_, -, _, -, hdraft⟩ := hdraft
      cases hdraft
  · intro heq
    rw [if_pos heq]
    exact ⟨_, rfl⟩

/-! ### Earlier operands -/

/-- The operands of every node come before it. -/
def Ordered (g : Graph) : Prop :=
  ∀ place (node : Node), g.nodes[place]? = some node → ∀ id ∈ node.operands, id.index < place

namespace Ordered

theorem intern (hg : g.Ordered) (type : ValueType) : (g.intern type).2.Ordered := by
  intro place node hnode
  rw [nodes_intern] at hnode
  exact hg place node hnode

/-- The operands of a sound draft (`Draft.Sound`) have types, so they are nodes of the graph. -/
theorem add (hg : g.Ordered) (name : String) {draft : Draft} (hd : draft.Sound g) :
    (g.add name draft).2.Ordered := by
  intro place node hnode
  rw [nodes_add] at hnode
  rcases Nat.lt_or_ge place g.nodes.length with hlt | hge
  · rw [List.getElem?_append_left hlt] at hnode
    exact hg place node hnode
  · rw [List.getElem?_append_right hge, List.getElem?_singleton] at hnode
    split at hnode
    · obtain rfl := Option.some.inj hnode
      intro id hid
      obtain ⟨types, -, htypes, -, -⟩ := hd
      obtain ⟨type, -, htype⟩ := exists_of_forall₂ htypes hid
      obtain ⟨operand, hoperand, -⟩ := typeOf_eq_ok.1 htype
      obtain ⟨hid, -⟩ := List.getElem?_eq_some_iff.1 (found_eq_ok.1 hoperand)
      omega
    · cases hnode

end Ordered

theorem Built.ordered (hg : g.Built) : g.Ordered := by
  induction hg with
  | empty name =>
    intro place node hnode
    cases hnode
  | operate hg op ih =>
    exact hg.valid.run_induction (fun _ type h => h.intern type)
      (fun _ name _ hd h => h.add name hd) ih op
  | rollback _ _ hnodes _ _ ih =>
    intro place node hnode
    rw [rollback_nodes_eq hnodes] at hnode
    exact ih place node hnode

/-! ### Built graphs -/

/-- **Types are unique and operands come first in every built graph.** No type in `types` is listed
twice; the map `refs` sends exactly the listed types to their places; interning (`Build.intern`)
gives a handle of the type and adds the type only if it is absent; nodes share a type handle exactly
when they agree in element kind and shape, and arithmetic accepts operands exactly then; every type
handle of a node stands for a type, and every operand of a node comes before it. -/
theorem uniqued_of_built (hg : g.Built) :
    g.types.Nodup ∧
    (∀ type ref, g.refs.get? type = some ref ↔ g.types[ref.index]? = some type) ∧
    (∀ type, ∃ ref h, Build.intern type g = .ok ref h ∧ h.resolve ref = .ok type ∧
      h.nodes = g.nodes ∧ h.types = if type ∈ g.types then g.types else g.types ++ [type]) ∧
    (∀ a ∈ g.nodes, ∀ b ∈ g.nodes, ∃ s t, g.resolve a.type = .ok s ∧ g.resolve b.type = .ok t ∧
      (a.type = b.type ↔ s.kind = t.kind ∧ s.dims = t.dims)) ∧
    (∀ name op lhs rhs s t, g.typeOf lhs = .ok s → g.typeOf rhs = .ok t →
      ((∃ draft, Draft.arithmetic g name op lhs rhs = .ok draft) ↔
        s.kind = t.kind ∧ s.dims = t.dims)) ∧
    (∀ node ∈ g.nodes, node.type.index < g.types.length) ∧
    (∀ place (node : Node), g.nodes[place]? = some node →
      ∀ id ∈ node.operands, id.index < place) := by
  have hindexed := hg.valid.indexed
  have htyped := hg.valid.wellShaped.typed
  have heq : ∀ {s t : ValueType}, s = t ↔ s.kind = t.kind ∧ s.dims = t.dims := by
    rintro ⟨_, _⟩ ⟨_, _⟩
    exact ValueType.mk.injEq _ _ _ _ ▸ Iff.rfl
  refine ⟨hindexed.nodup_types, fun type ref => hindexed.get?_refs, fun type => ?_,
    fun a ha b hb => ?_, fun name op lhs rhs s t hs ht => ?_, fun node hnode => ?_, hg.ordered⟩
  · exact ⟨_, _, rfl, resolve_intern hindexed type, nodes_intern g type,
      hindexed.types_intern type⟩
  · obtain ⟨s, hs⟩ := htyped a ha
    obtain ⟨t, ht⟩ := htyped b hb
    exact ⟨s, t, hs, ht, (hindexed.ref_eq_iff hs ht).trans heq⟩
  · exact (arithmetic_iff hindexed hs ht).trans heq
  · obtain ⟨type, htype⟩ := htyped node hnode
    exact (List.getElem?_eq_some_iff.1 (found_eq_ok.1 htype)).1

/-! ### A type that is rolled back -/

/-- A graph of one parameter. -/
def held : Graph :=
  (Operation.create "x" (.parameter ⟨[1, 2], .float #[.zero, .zero], rfl⟩)).run (.empty "g")

/-- The parameter and its transposition. -/
def transposed : Graph := (Operation.create "t" (.transpose ⟨0⟩ [1, 0])).run held

/-- The transposition is rolled back and made again, after another type has taken the place of its
type; then the addition of parameter and transposition is tried. -/
def transposedAgain : Graph :=
  (Operation.create "sum" (.arithmetic .add ⟨0⟩ ⟨1⟩)).run
    ((Operation.create "t" (.transpose ⟨0⟩ [1, 0])).run
      ((Operation.intern ⟨.float, [3]⟩).run (transposed.rollback held.checkpoint)))

theorem built_transposedAgain : transposedAgain.Built := by
  have hheld : held.Built := .operate (.empty "g") _
  have hext : held.Extends transposed := extends_run held _
  have hback : (transposed.rollback held.checkpoint).Built :=
    .rollback (.operate hheld _) hheld hext.nodes hext.types
  exact .operate (.operate (.operate hback _) _) _

/-- The type has another place now than in `transposed`, and the addition was refused. -/
theorem uniqued_transposedAgain :
    transposed.types = [⟨.float, [1, 2]⟩, ⟨.float, [2, 1]⟩] ∧
      transposedAgain.types = [⟨.float, [1, 2]⟩, ⟨.float, [3]⟩, ⟨.float, [2, 1]⟩] ∧
      transposedAgain.nodes.length = 2 ∧ transposedAgain.types.Nodup ∧
      transposedAgain.refs.get? ⟨.float, [2, 1]⟩ = some ⟨2⟩ ∧
      (¬ ∃ draft, Draft.arithmetic transposedAgain "sum" .add ⟨0⟩ ⟨1⟩ = .ok draft) ∧
      ∀ place (node : Node), transposedAgain.nodes[place]? = some node →
        ∀ id ∈ node.operands, id.index < place := by
  obtain ⟨hnodup, hrefs, -, -, harithmetic, -, hordered⟩ := uniqued_of_built built_transposedAgain
  have hx : transposedAgain.typeOf ⟨0⟩ = .ok ⟨.float, [1, 2]⟩ := by decide +kernel
  have ht : transposedAgain.typeOf ⟨1⟩ = .ok ⟨.float, [2, 1]⟩ := by decide +kernel
  have htype : transposedAgain.types[2]? = some ⟨.float, [2, 1]⟩ := by decide +kernel
  refine ⟨by decide +kernel, by decide +kernel, by decide +kernel, hnodup, (hrefs _ ⟨2⟩).2 htype,
    fun hdraft => ?_, hordered⟩
  exact absurd ((harithmetic "sum" .add _ _ _ _ hx ht).1 hdraft) (by decide)

end TensorGraph.Graph
