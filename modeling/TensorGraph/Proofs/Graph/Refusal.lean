import TensorGraph.Proofs.Graph.History

/-! # Refused nodes

A constructor of one node checks everything before it changes the graph: when it is refused, the
graph is the one before. Batch normalization adds the parameter of a tensor before it looks at the
next tensor. When a tensor does not fit, the parameters of the tensors before it stay. -/

namespace TensorGraph

namespace Graph

/-- The graph with parameters for the tensors `sources` of a batch normalization. -/
def withParameters (g : Graph) (name : String) (sources : List (String × Tensor)) : Graph :=
  sources.foldl (fun g (role, source) => (g.add s!"{name}.{role}" (.parameter source)).2) g

/-- Each tensor becomes one node of `withParameters`. -/
theorem length_nodes_withParameters (g : Graph) (name : String)
    (sources : List (String × Tensor)) :
    (g.withParameters name sources).nodes.length = g.nodes.length + sources.length := by
  induction sources generalizing g with
  | nil => rfl
  | cons source sources ih =>
    show (withParameters _ name sources).nodes.length = _
    rw [ih, nodes_add, List.length_append, List.length_singleton, List.length_cons]
    omega

theorem withParameters_eq_self {g : Graph} {name : String} {sources : List (String × Tensor)} :
    g.withParameters name sources = g ↔ sources = [] := by
  constructor
  · intro h
    have hlength := length_nodes_withParameters g name sources
    rw [h] at hlength
    exact List.length_eq_zero_iff.1 (by omega)
  · rintro rfl
    rfl

end Graph

/-! ### One tensor after the other -/

namespace Build

variable {g h : Graph} {name : String} {channels : Nat} {source : Tensor} {e : GraphError}

theorem channelParameter_eq_ok {id : NodeId} :
    channelParameter name channels source g = .ok id h ↔
      channelTensor channels source = .ok source ∧ id = ⟨g.nodes.length⟩ ∧
        h = (g.add name (.parameter source)).2 := by
  unfold channelParameter
  rw [Step.bind_eq_ok]
  constructor
  · rintro ⟨tensor, r, hread, hcreate⟩
    obtain ⟨htensor, rfl⟩ := read_eq_ok.1 hread
    obtain ⟨draft, hdraft, hid, hh⟩ := create_eq_ok.1 hcreate
    cases hdraft
    obtain rfl := (of_channelTensor htensor).1
    exact ⟨htensor, hid, hh⟩
  · rintro ⟨htensor, rfl, rfl⟩
    exact ⟨source, g, read_eq_ok.2 ⟨htensor, rfl⟩, create_eq_ok.2 ⟨_, rfl, rfl, rfl⟩⟩

theorem channelParameter_eq_error :
    channelParameter name channels source g = .error e h ↔
      channelTensor channels source = .error e ∧ h = g := by
  unfold channelParameter
  rw [Step.bind_eq_error, read_eq_error]
  refine or_iff_left ?_
  rintro ⟨tensor, r, -, hcreate⟩
  obtain ⟨herror, -⟩ := create_eq_error.1 hcreate
  cases herror

/-- **The parameters are refused at the first tensor that does not fit**, by `channelParameter`, and
those before it have been added. -/
theorem channelParameters_eq_error {sources : List (String × Tensor)} :
    (sources.mapM fun ((role, source) : String × Tensor) =>
        channelParameter s!"{name}.{role}" channels source) g = .error e h ↔
      ∃ kept role source rest, sources = kept ++ (role, source) :: rest ∧
        (∀ entry ∈ kept, channelTensor channels entry.2 = .ok entry.2) ∧
        channelTensor channels source = .error e ∧ h = g.withParameters name kept := by
  induction sources generalizing g with
  | nil =>
    constructor
    · intro h; cases h
    · rintro ⟨kept, role, source, rest, hsplit, -⟩
      cases kept <;> cases hsplit
  | cons first sources ih =>
    obtain ⟨role, source⟩ := first
    rw [List.mapM_cons, Step.bind_eq_error, channelParameter_eq_error]
    constructor
    · rintro (⟨herror, rfl⟩ | ⟨id, r, hfirst, hrest⟩)
      · exact ⟨[], role, source, sources, rfl, by simp, herror, rfl⟩
      · obtain ⟨hfits, -, rfl⟩ := channelParameter_eq_ok.1 hfirst
        rw [Step.bind_eq_error] at hrest
        have hrest := hrest.resolve_right (by rintro ⟨_, _, -, hpure⟩; cases hpure)
        obtain ⟨kept, role', source', rest, rfl, hkept, herror, rfl⟩ := ih.1 hrest
        refine ⟨(role, source) :: kept, role', source', rest, rfl, ?_, herror, rfl⟩
        exact List.forall_mem_cons.2 ⟨hfits, hkept⟩
    · rintro ⟨kept, role', source', rest, hsplit, hkept, herror, rfl⟩
      cases kept with
      | nil => cases hsplit; exact .inl ⟨herror, rfl⟩
      | cons entry kept =>
        obtain ⟨rfl, rfl⟩ := List.cons_eq_cons.1 hsplit
        obtain ⟨hfits, hkept⟩ := List.forall_mem_cons.1 hkept
        refine .inr ⟨_, _, channelParameter_eq_ok.2 ⟨hfits, rfl, rfl⟩, ?_⟩
        rw [Step.bind_eq_error]
        exact .inl (ih.2 ⟨kept, role', source', rest, rfl, hkept, herror, rfl⟩)

/-- **A batch normalization is refused** for its `channelCount`, and the graph is as it was, or for
the first tensor that does not fit, and the graph has the parameters of the tensors before it
(`withParameters`). -/
theorem batchNormalization_eq_error {input : NodeId} {channel : Nat} {epsilon momentum : Binary32}
    {tensors : BatchParameters} :
    batchNormalization name input channel epsilon momentum tensors g = .error e h ↔
      (Draft.channelCount g name input channel = .error e ∧ h = g) ∨
      ∃ channels kept role source rest, Draft.channelCount g name input channel = .ok channels ∧
        tensors.named = kept ++ (role, source) :: rest ∧
        (∀ entry ∈ kept, channelTensor channels entry.2 = .ok entry.2) ∧
        channelTensor channels source = .error e ∧ h = g.withParameters name kept := by
  unfold batchNormalization
  rw [Step.bind_eq_error, read_eq_error]
  refine or_congr_right ?_
  constructor
  · rintro ⟨channels, r, hread, hrest⟩
    obtain ⟨hcount, rfl⟩ := read_eq_ok.1 hread
    rcases Step.bind_eq_error.1 hrest with hparameters | ⟨ids, t, hparameters, hcreate⟩
    · obtain ⟨kept, role, source, rest, h⟩ := channelParameters_eq_error.1 hparameters
      exact ⟨channels, kept, role, source, rest, hcount, h⟩
    · -- the operand is there still, so the node itself is not refused
      exfalso
      obtain ⟨type, htype, -⟩ := bind_eq_ok.1 hcount
      obtain ⟨node, hnode, -⟩ := bind_eq_ok.1 htype
      have hgrown : r.Extends t := by
        rw [← Step.after_of_ok hparameters]
        exact extends_of_movesBy (.mapM fun _ _ => movesBy_channelParameter _ _ _) r
      obtain ⟨hrule, -⟩ := create_eq_error.1 hcreate
      rcases bind_eq_error.1 hrule with hmissing | ⟨_, -, hpure⟩
      · rw [hgrown.node_eq hnode] at hmissing
        cases hmissing
      · cases hpure
  · rintro ⟨channels, kept, role, source, rest, hcount, h⟩
    refine ⟨channels, g, read_eq_ok.2 ⟨hcount, rfl⟩, Step.bind_eq_error.2 (.inl ?_)⟩
    exact channelParameters_eq_error.2 ⟨kept, role, source, rest, h⟩

end Build

namespace Graph

/-- **What a refused constructor leaves behind.** A constructor of one node leaves the graph as it
was. A batch normalization leaves the parameters (`withParameters`) of the tensors that come before
the first one that does not fit, each as a node of its own: the graph is as it was exactly when the
channel count or the first tensor is refused. -/
theorem refused_iff (g : Graph) :
    (∀ name (c : Constructor) e h, Build.create name (c.rule name) g = .error e h ↔
      c.rule name g = .error e ∧ h = g) ∧
    (∀ name input channel epsilon momentum tensors e h,
      Build.batchNormalization name input channel epsilon momentum tensors g = .error e h ↔
        (Draft.channelCount g name input channel = .error e ∧ h = g) ∨
        ∃ channels kept role source rest, Draft.channelCount g name input channel = .ok channels ∧
          tensors.named = kept ++ (role, source) :: rest ∧
          (∀ entry ∈ kept, channelTensor channels entry.2 = .ok entry.2) ∧
          channelTensor channels source = .error e ∧ h = g.withParameters name kept) ∧
    (∀ name input channel epsilon momentum tensors,
      (∃ e, Build.batchNormalization name input channel epsilon momentum tensors g = .error e g) ↔
        (∃ e, Draft.channelCount g name input channel = .error e) ∨
        ∃ channels e, Draft.channelCount g name input channel = .ok channels ∧
          channelTensor channels tensors.scale = .error e) ∧
    (∀ name sources, (g.withParameters name sources).nodes.length =
      g.nodes.length + sources.length) := by
  refine ⟨fun _ _ _ _ => Build.create_eq_error,
    fun _ _ _ _ _ _ _ _ => Build.batchNormalization_eq_error,
    fun name input channel epsilon momentum tensors => ?_, length_nodes_withParameters g⟩
  simp only [Build.batchNormalization_eq_error]
  constructor
  · rintro ⟨e, ⟨hcount, -⟩ | ⟨channels, kept, role, source, rest, hcount, hnamed, -, herror, hg⟩⟩
    · exact .inl ⟨e, hcount⟩
    · obtain rfl := withParameters_eq_self.1 hg.symm
      cases hnamed
      exact .inr ⟨channels, e, hcount, herror⟩
  · rintro (⟨e, hcount⟩ | ⟨channels, e, hcount, herror⟩)
    · exact ⟨e, .inl ⟨hcount, trivial⟩⟩
    · exact ⟨e, .inr ⟨channels, [], _, _, _, hcount, rfl, by simp, herror, rfl⟩⟩

/-- A scale for two channels, and a bias for three. -/
def longBias : BatchParameters where
  scale := .zero .float [2]
  bias := .zero .float [3]
  mean := .zero .float [2]
  variance := .zero .float [2]

/-- **A refused batch normalization** of two channels, by `longBias`, that leaves a parameter and a
type. -/
theorem batchNormalization_longBias :
    ∃ e h, Build.batchNormalization "n" ⟨0⟩ 1 .zero .zero longBias held = .error e h ∧
      held.nodes.length = 1 ∧ held.types.length = 1 ∧
      h.nodes.length = 2 ∧ h.types.length = 2 := by
  refine ⟨.tensor (.copyMismatch .float [3] .float [2]),
    held.withParameters "n" [("scale", longBias.scale)], ?_, by decide +kernel⟩
  refine Build.batchNormalization_eq_error.2 (.inr ⟨2, [("scale", longBias.scale)], "bias",
    longBias.bias, _, by decide +kernel, rfl, by decide +kernel, by decide +kernel, rfl⟩)

end Graph
end TensorGraph
