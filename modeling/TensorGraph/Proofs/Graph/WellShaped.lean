import TensorGraph.Proofs.Graph.Operation
import TensorGraph.Proofs.Graph.ShapeRule

/-! # Well-shaped graphs

A graph is well shaped when the rule of its kind holds at every node, for the types that the
handles of the node and of its operands stand for. Growing keeps this, as handles go on to stand
for the same types; adding a sound draft gives a new node for which the rule holds. A graph that is
rolled back to lengths at which it agrees with an earlier graph is that graph again, as far as
nodes and types go. So every graph that is built in this way is well shaped. -/

namespace TensorGraph

open Step (after MovesBy)

/-- `channelTensor` gives its source, which has one float for each channel. -/
theorem of_channelTensor {channels : Nat} {source tensor : Tensor}
    (h : channelTensor channels source = .ok tensor) :
    tensor = source ∧ source.type = ⟨.float, [channels]⟩ := by
  simp only [channelTensor, mapError_eq_ok, bind_eq_ok] at h
  obtain ⟨zeros, hzeros, hcopy⟩ := h
  obtain rfl := Tensor.eq_zero_of_zeros hzeros
  obtain ⟨hkind, hdims, rfl⟩ := Tensor.fitInto_eq_ok.1 hcopy
  rw [Tensor.kind_zero] at hkind
  rw [Tensor.dims_zero] at hdims
  exact ⟨rfl, by rw [Tensor.type, hkind, hdims]⟩

namespace Graph

/-- The `ShapeRule` of its kind holds at a node. -/
def Shaped (g : Graph) (node : Node) : Prop :=
  ∃ types result, List.Forall₂ (fun id type => g.typeOf id = .ok type) node.operands types ∧
    g.resolve node.type = .ok result ∧ ShapeRule node.kind types result

/-- The rule of its kind holds at every node. -/
def WellShaped (g : Graph) : Prop := ∀ node ∈ g.nodes, g.Shaped node

/-- The table of types is exact (`Indexed`), and every node is shaped by its rule (`WellShaped`). -/
structure Valid (g : Graph) : Prop where
  indexed : g.Indexed
  wellShaped : g.WellShaped

variable {g h : Graph}

theorem Shaped.mono {node : Node} (hs : g.Shaped node) (hgh : g.Extends h) : h.Shaped node := by
  obtain ⟨types, result, htypes, hresult, hrule⟩ := hs
  exact ⟨types, result, htypes.imp fun _ _ ht => hgh.typeOf_eq ht, hgh.resolve_eq hresult, hrule⟩

/-- Only `nodes` and `types` matter for the rules. -/
theorem WellShaped.congr (hg : g.WellShaped) (hnodes : h.nodes = g.nodes)
    (htypes : h.types = g.types) : h.WellShaped := by
  simp only [WellShaped, Shaped, typeOf, node, resolve, hnodes, htypes] at hg ⊢
  exact hg

theorem WellShaped.typed (hg : g.WellShaped) : g.Typed := by
  intro node hnode
  obtain ⟨_, result, -, hresult, -⟩ := hg node hnode
  exact ⟨result, hresult⟩

/-! ### Interning and adding -/

namespace Valid

theorem empty (name : String) : (Graph.empty name).Valid where
  indexed := .empty name
  wellShaped := by simp [WellShaped, Graph.empty]

theorem intern (hg : g.Valid) (type : ValueType) : (g.intern type).2.Valid where
  indexed := hg.indexed.intern type
  wellShaped := by
    intro node hnode
    rw [nodes_intern] at hnode
    exact (hg.wellShaped node hnode).mono (extends_intern g type)

/-- **Adding a sound draft** by `Graph.add` keeps the old nodes shaped, and shapes the new one. -/
theorem add (hg : g.Valid) (name : String) {draft : Draft} (hd : draft.Sound g) :
    (g.add name draft).2.Valid where
  indexed := hg.indexed.add name draft
  wellShaped := by
    have hext := extends_add g name draft
    intro node hnode
    rw [nodes_add, List.mem_append, List.mem_singleton] at hnode
    rcases hnode with hold | rfl
    · exact (hg.wellShaped node hold).mono hext
    · obtain ⟨types, result, htypes, hresult, hrule⟩ := hd
      exact ⟨types, result, htypes.imp fun _ _ ht => hext.typeOf_eq ht,
        resolve_refOf hg.indexed name draft hresult, hrule⟩

end Valid

/-! ### Constructing nodes -/

/-- Every `Constructor` of one node makes sound drafts. -/
theorem sound_of_rule (hg : g.Valid) {name : String} {c : Constructor} {draft : Draft}
    (h : c.rule name g = .ok draft) : draft.Sound g := by
  have htyped := hg.wellShaped.typed
  cases c with
  | parameter tensor => cases h; exact Draft.sound_parameter tensor
  | transpose input shuffle => exact Draft.sound_transpose h
  | convolution input filter bias out window group => exact Draft.sound_convolution h
  | pool kind input window => exact Draft.sound_pool h
  | squeeze input axes => exact Draft.sound_squeeze h
  | expandDims input axes => exact Draft.sound_expandDims h
  | concat inputs axis => exact Draft.sound_concat h
  | matMul lhs rhs => exact Draft.sound_matMul h
  | broadcast input dims axis => exact Draft.sound_broadcast h
  | arithmetic op lhs rhs => exact Draft.sound_arithmetic htyped h
  | unary op input => exact Draft.sound_unary htyped h
  | softMax input axis => exact Draft.sound_softMax h
  | reshape input dims => exact Draft.sound_reshape h
  | save input => exact Draft.sound_save htyped h

/-- The graph `h` is `g` with a sound draft added. -/
def AddsSound (g h : Graph) : Prop := ∃ name draft, Draft.Sound g draft ∧ h = (g.add name draft).2

theorem Valid.of_adds (hg : g.Valid) (hgh : Relation.ReflTransGen AddsSound g h) :
    h.Valid ∧ g.Extends h := by
  induction hgh with
  | refl => exact ⟨hg, .refl g⟩
  | tail _ hlast ih =>
    obtain ⟨name, draft, hd, rfl⟩ := hlast
    exact ⟨ih.1.add name hd, ih.2.trans (extends_add _ name draft)⟩

/-- What a constructor of one node adds is the draft that its rule makes, if it makes one. -/
theorem adds_create {name : String} {rule : Graph → Except GraphError Draft}
    (hrule : ∀ draft, rule g = .ok draft → draft.Sound g) :
    Relation.ReflTransGen AddsSound g (after (Build.create name rule) g) := by
  cases h : rule g with
  | ok draft =>
    rw [Step.after_of_ok (Build.create_of_ok h)]
    exact .single ⟨name, draft, hrule draft h, rfl⟩
  | error e =>
    rw [Step.after_of_error (Build.create_of_error h)]

/-! ### Batch normalization -/

section BatchNormalization

theorem movesBy_channelParameter (name : String) (channels : Nat) (source : Tensor) :
    MovesBy AddsSound (Build.channelParameter name channels source) := by
  refine (Build.movesBy_read _).bind fun tensor => .of_move fun g => .inr ?_
  exact ⟨name, .parameter tensor, Draft.sound_parameter tensor,
    Step.after_of_ok (Build.create_of_ok rfl)⟩

/-- The parameters that are added one after the other, also when one of them fails. -/
theorem movesBy_channelParameters (name : String) (channels : Nat)
    (sources : List (String × Tensor)) :
    MovesBy AddsSound (sources.mapM fun ((role, source) : String × Tensor) =>
      Build.channelParameter s!"{name}.{role}" channels source) :=
  .mapM fun _ _ => movesBy_channelParameter _ _ _

variable {name : String} {channels : Nat}

/-- The tensor of a `channelParameter` has the kind and shape that the node expects. -/
theorem typeOf_channelParameter (hg : g.Valid) {source : Tensor} {id : NodeId}
    (h' : Build.channelParameter name channels source g = .ok id h) :
    h.typeOf id = .ok ⟨.float, [channels]⟩ := by
  unfold Build.channelParameter Build.parameter at h'
  rw [Step.bind_eq_ok] at h'
  obtain ⟨tensor, r, hread, hcreate⟩ := h'
  obtain ⟨hfit, rfl⟩ := Build.read_eq_ok.1 hread
  obtain ⟨draft, hd, rfl, rfl⟩ := Build.create_eq_ok.1 hcreate
  cases hd
  obtain ⟨rfl, htype⟩ := of_channelTensor hfit
  exact typeOf_add hg.indexed name _ (congrArg Except.ok htype)

/-- The parameters that are added one after the other all have the expected type in the end. -/
theorem typeOf_channelParameters (sources : List (String × Tensor)) (hg : g.Valid)
    {ids : List NodeId}
    (h' : (sources.mapM fun ((role, source) : String × Tensor) =>
      Build.channelParameter s!"{name}.{role}" channels source) g = .ok ids h) :
    List.Forall₂ (fun id type => h.typeOf id = .ok type) ids
      (List.replicate sources.length ⟨.float, [channels]⟩) := by
  induction sources generalizing g ids with
  | nil =>
    obtain ⟨rfl, -⟩ := Step.pure_eq_ok.1 h'
    exact .nil
  | cons source sources ih =>
    rw [List.mapM_cons, Step.bind_eq_ok] at h'
    obtain ⟨id, r, hid, hrest⟩ := h'
    rw [Step.bind_eq_ok] at hrest
    obtain ⟨rest, t, hrest, hend⟩ := hrest
    obtain ⟨rfl, rfl⟩ := Step.pure_eq_ok.1 hend
    have hr := Step.after_of_ok hid ▸ hg.of_adds (movesBy_channelParameter _ _ _ g)
    have ht := Step.after_of_ok hrest ▸ hr.1.of_adds (movesBy_channelParameters _ _ _ r)
    exact .cons (ht.2.typeOf_eq (typeOf_channelParameter hg hid)) (ih hr.1 hrest)

/-- A batch normalization adds sound drafts only (`AddsSound`), also when it fails on the way. -/
theorem adds_batchNormalization (hg : g.Valid) (name : String) (input : NodeId) (channel : Nat)
    (epsilon momentum : Binary32) (tensors : BatchParameters) :
    Relation.ReflTransGen AddsSound g
      (after (Build.batchNormalization name input channel epsilon momentum tensors) g) := by
  unfold Build.batchNormalization
  -- it may end at the channel count, at one of the parameters or at the node itself
  cases hread : Build.read (Draft.channelCount · name input channel) g with
  | error e r =>
    have hr := Step.after_of_error hread
    rw [Build.after_read] at hr
    rw [Step.after_bind_of_error hread, ← hr]
  | ok channels r =>
    obtain ⟨hcount, rfl⟩ := Build.read_eq_ok.1 hread
    rw [Step.after_bind_of_ok hread]
    have hmoves := movesBy_channelParameters name channels tensors.named r
    cases hparams : (tensors.named.mapM fun ((role, source) : String × Tensor) =>
        Build.channelParameter s!"{name}.{role}" channels source) r with
    | error e t =>
      rw [Step.after_bind_of_error hparams]
      rwa [Step.after_of_error hparams] at hmoves
    | ok ids t =>
      rw [Step.after_bind_of_ok hparams]
      rw [Step.after_of_ok hparams] at hmoves
      simp only [Draft.channelCount, bind_eq_ok, found_eq_ok] at hcount
      obtain ⟨type, ht, hc⟩ := hcount
      refine hmoves.trans (adds_create fun draft hd => ?_)
      exact Draft.sound_batchNormalization ((hg.of_adds hmoves).2.typeOf_eq ht) hc
        (typeOf_channelParameters _ hg hparams) hd

end BatchNormalization

/-! ### Graphs that are built -/

/-- A property `P` that interning and adding a sound draft keep is kept by every operation on a
valid graph. -/
theorem Valid.run_induction {P : Graph → Prop} (hg : g.Valid)
    (hintern : ∀ g type, P g → P (g.intern type).2)
    (hadd : ∀ g name draft, Draft.Sound g draft → P g → P (g.add name draft).2) (hP : P g)
    (op : Operation) : P (op.run g) := by
  have hadds : ∀ h, Relation.ReflTransGen AddsSound g h → P h := by
    intro h hgh
    induction hgh with
    | refl => exact hP
    | tail _ hlast ih =>
      obtain ⟨name, draft, hd, rfl⟩ := hlast
      exact hadd _ name draft hd ih
  cases op with
  | intern type => exact hintern g type hP
  | create name c => exact hadds _ (adds_create fun draft hd => sound_of_rule hg hd)
  | batchNormalization name input channel epsilon momentum tensors =>
    exact hadds _ (adds_batchNormalization hg name input channel epsilon momentum tensors)

theorem Valid.run (hg : g.Valid) (op : Operation) : (op.run g).Valid :=
  hg.run_induction (fun _ type h => h.intern type) (fun _ name _ hd h => h.add name hd) hg op

/-- A graph that is made from an empty one by operations, and by rolling back to the checkpoint of
such a graph `h` where the nodes and types of `h` are still in place. -/
inductive Built : Graph → Prop
  | empty (name : String) : Built (.empty name)
  | operate {g : Graph} (hg : Built g) (op : Operation) : Built (op.run g)
  | rollback {g h : Graph} (hg : Built g) (hh : Built h) (hnodes : h.nodes <+: g.nodes)
      (htypes : h.types <+: g.types) : Built (g.rollback h.checkpoint)

theorem Built.valid (hg : g.Built) : g.Valid := by
  induction hg with
  | empty name => exact .empty name
  | operate _ op ih => exact ih.run op
  | rollback _ _ hnodes htypes ihg ihh =>
    exact ⟨ihg.indexed.rollback _,
      ihh.wellShaped.congr (rollback_nodes_eq hnodes) (rollback_types_eq htypes)⟩

/-- **Every node of a built graph is shaped by the rule of its kind**: its operands and the node
itself have types in the graph, and `ShapeRule` relates these types. In it, products of channels and
groups and sums of extents are reduced modulo `Size.bound`. -/
theorem shaped_of_built (hg : g.Built) : ∀ node ∈ g.nodes, ∃ types result,
    List.Forall₂ (fun id type => g.typeOf id = .ok type) node.operands types ∧
      g.resolve node.type = .ok result ∧ ShapeRule node.kind types result :=
  hg.valid.wellShaped

/-- A transposition that is rolled back, with its type, and followed by another node. -/
theorem shaped_after_rollback :
    let g := (Operation.create "x" (.parameter ⟨[1, 2], .float #[.zero, .zero], rfl⟩)).run
      (.empty "g")
    let h := (Operation.create "t" (.transpose ⟨0⟩ [1, 0])).run g
    let k := (Operation.create "c" (.concat [⟨0⟩, ⟨0⟩] 0)).run (h.rollback g.checkpoint)
    h.types = [⟨.float, [1, 2]⟩, ⟨.float, [2, 1]⟩] ∧
      k.types = [⟨.float, [1, 2]⟩, ⟨.float, [2, 2]⟩] ∧
      k.nodes.length = 2 ∧ ∀ node ∈ k.nodes, k.Shaped node := by
  intro g h k
  have hg : g.Built := .operate (.empty "g") _
  have hgh := extends_run g (.create "t" (.transpose ⟨0⟩ [1, 0]))
  have hk : k.Built := .operate (.rollback (.operate hg _) hg hgh.nodes hgh.types) _
  exact ⟨rfl, rfl, rfl, shaped_of_built hk⟩

end Graph
end TensorGraph
