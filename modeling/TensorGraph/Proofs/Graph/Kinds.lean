import TensorGraph.Proofs.Graph.Operation
import TensorGraph.Proofs.Graph.ShapeRule

/-! # The kinds of nodes

Each constructor makes nodes of one kind, which its arguments determine (`kind_of_rule`). Batch
normalization makes parameters and a node of its own kind. So it is known of a step which kinds of
nodes it adds, whatever it reads from the graph and whether it succeeds or fails. -/

namespace TensorGraph

open Step (after MovesBy)

namespace Graph

variable {g h k : Graph} {K : NodeKind → Prop}

/-! ### The kind of a constructor -/

/-- The kind of the node of a constructor. Axes of size 1 are kept in ascending order. -/
def Constructor.kind : Constructor → NodeKind
  | parameter tensor => .parameter tensor
  | transpose _ shuffle => .transpose shuffle
  | convolution _ _ _ _ window group => .convolution window group
  | pool kind _ window => .pool kind window
  | squeeze _ axes => .squeeze (sortAxes axes)
  | expandDims _ axes => .expandDims (sortAxes axes)
  | concat _ axis => .concat axis
  | matMul _ _ => .matMul
  | broadcast _ _ axis => .broadcast axis
  | arithmetic op _ _ => .arithmetic op
  | unary op _ => .unary op
  | softMax _ axis => .softMax axis
  | reshape _ _ => .reshape
  | save _ => .save

/-- **A rule drafts nodes of the kind of its constructor**, `Constructor.kind`. -/
theorem kind_of_rule {name : String} {c : Constructor} {draft : Draft}
    (h : c.rule name g = .ok draft) : draft.kind = c.kind := by
  cases c with
  | parameter tensor =>
    cases h
    rfl
  | transpose input shuffle =>
    obtain ⟨_, rfl⟩ := Draft.eq_of_transpose h
    rfl
  | arithmetic op lhs rhs =>
    simp only [Constructor.rule, Draft.arithmetic, bind_eq_ok] at h
    obtain ⟨left, -, right, -, h⟩ := h
    split at h
    · cases h
      rfl
    · simp only [bind_eq_ok] at h
      obtain ⟨_, -, _, -, h⟩ := h
      cases h
  | squeeze input axes =>
    simp only [Constructor.rule, Draft.squeeze, Draft.axesBelow, bind_eq_ok, pure_eq_ok] at h
    grind [Constructor.kind]
  | expandDims input axes =>
    simp only [Constructor.rule, Draft.expandDims, Draft.axesBelow, bind_eq_ok, pure_eq_ok] at h
    grind [Constructor.kind]
  | _ =>
    simp only [Constructor.rule, Draft.convolution, Draft.pool, Draft.concat, Draft.matMul,
      Draft.broadcast, Draft.unary, Draft.softMax, Draft.reshape, Draft.save, bind_eq_ok,
      pure_eq_ok] at h
    grind [Constructor.kind]

/-! ### Graphs with added nodes -/

/-- The graph `h` is `g` with nodes added, all of kinds in `K`. -/
structure AddsOnly (K : NodeKind → Prop) (g h : Graph) : Prop where
  ext : g.Extends h
  added : ∃ more, h.nodes = g.nodes ++ more ∧ ∀ node ∈ more, K node.kind

namespace AddsOnly

theorem of_nodes_eq (hext : g.Extends h) (hnodes : h.nodes = g.nodes) : AddsOnly K g h :=
  ⟨hext, [], by rw [hnodes, List.append_nil], fun _ hnode => absurd hnode List.not_mem_nil⟩

theorem refl (g : Graph) : AddsOnly K g g := of_nodes_eq (.refl g) rfl

theorem trans (hgk : AddsOnly K g k) (hkh : AddsOnly K k h) : AddsOnly K g h := by
  obtain ⟨first, hfirst, hfirstKinds⟩ := hgk.added
  obtain ⟨second, hsecond, hsecondKinds⟩ := hkh.added
  refine ⟨hgk.ext.trans hkh.ext, first ++ second, ?_, fun node hnode => ?_⟩
  · rw [hsecond, hfirst, List.append_assoc]
  · rcases List.mem_append.1 hnode with hnode | hnode
    · exact hfirstKinds node hnode
    · exact hsecondKinds node hnode

theorem add (g : Graph) (name : String) {draft : Draft} (hkind : K draft.kind) :
    AddsOnly K g (g.add name draft).2 := by
  refine ⟨g.extends_add name draft, _, g.nodes_add name draft, fun node hnode => ?_⟩
  obtain rfl := List.mem_singleton.1 hnode
  exact hkind

theorem intern (g : Graph) (type : ValueType) : AddsOnly K g (g.intern type).2 :=
  of_nodes_eq (g.extends_intern type) (g.nodes_intern type)

end AddsOnly

end Graph

/-! ### Steps that add nodes -/

open TensorGraph.Graph (AddsOnly Constructor)

namespace Build

variable {K : NodeKind → Prop}

theorem addsOnly_create (name : String) {rule : Graph → Except GraphError Draft}
    (hrule : ∀ g draft, rule g = .ok draft → K draft.kind) :
    MovesBy (AddsOnly K) (create name rule) := by
  refine .of_move fun g => ?_
  cases h : rule g with
  | ok draft =>
    rw [Step.after_of_ok (create_of_ok h)]
    exact .inr (.add g name (hrule g draft h))
  | error e => exact .inl (Step.after_of_error (create_of_error h))

/-- A constructor only adds a node of its kind, `Constructor.kind`. -/
theorem addsOnly_constructor (name : String) {c : Constructor} (hc : K c.kind) :
    MovesBy (AddsOnly K) (create name (c.rule name)) :=
  addsOnly_create name fun _ _ hdraft => Graph.kind_of_rule hdraft ▸ hc

theorem addsOnly_intern (type : ValueType) : MovesBy (AddsOnly K) (intern type) :=
  .of_move fun g => .inr (.intern g type)

/-- Batch normalization only adds parameters and a node of its own kind
(`Build.batchNormalization`). -/
theorem addsOnly_batchNormalization (name : String) (input : NodeId) {channel : Nat}
    {epsilon momentum : Binary32} (tensors : BatchParameters)
    (hparameter : ∀ tensor, K (.parameter tensor))
    (hkind : K (.batchNormalization channel epsilon momentum)) :
    MovesBy (AddsOnly K) (batchNormalization name input channel epsilon momentum tensors) := by
  refine (movesBy_read _).bind fun channels => ?_
  refine (MovesBy.mapM fun part _ => ?_).bind fun parameters => addsOnly_create _ ?_
  · refine (movesBy_read _).bind fun tensor => addsOnly_create _ fun g draft hdraft => ?_
    cases hdraft
    exact hparameter tensor
  · intro g draft hdraft
    obtain ⟨node, -, hdraft⟩ := bind_eq_ok.1 hdraft
    cases hdraft
    exact hkind

end Build

end TensorGraph
