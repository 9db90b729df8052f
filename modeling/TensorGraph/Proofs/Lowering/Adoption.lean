import TensorGraph.Proofs.Lowering.Coupling
import TensorGraph.Proofs.Lowering.Success

/-! # What a lowering does to the table

Until its output is bound, the lowering of a node only **adopts**: names that the node takes as
values, and that have none yet, get parameters that hold their tensors. Nothing else in the table
changes. The last thing that the lowering does is to bind the first output of the node, at a time
when every name that it takes as a value has one. So whatever the lowering looks up, it looks up in
a workspace that differs from the first one by adoption. -/

namespace TensorGraph

open Onnx (NodeRecord)

/-- The node of the handle `id` is a parameter of the `name` that holds the `tensor`. -/
def Graph.Holds (g : Graph) (id : NodeId) (name : String) (tensor : Tensor) : Prop :=
  ∃ type, g.node id = .ok ⟨name, .parameter tensor, [], type⟩

theorem Graph.Holds.mono {g h : Graph} {id : NodeId} {name : String} {tensor : Tensor}
    (hid : g.Holds id name tensor) (hgh : g.Extends h) : h.Holds id name tensor := by
  obtain ⟨type, hnode⟩ := hid
  exact ⟨type, hgh.node_eq hnode⟩

theorem Graph.holds_add_parameter (g : Graph) (name : String) (tensor : Tensor) :
    (g.add name (.parameter tensor)).2.Holds ⟨g.nodes.length⟩ name tensor :=
  ⟨_, g.node_add name (.parameter tensor)⟩

namespace Lowering

/-- The workspace `t` is `s` with a larger graph, in which some of `names` have been given
parameters for their tensors. -/
structure Adopts (names : List String) (s t : Workspace) : Prop where
  graph : s.graph.Extends t.graph
  tensors : t.table.tensors = s.table.tensors
  kept : ∀ {name id}, s.table.value? name = some id → t.table.value? name = some id
  fresh : ∀ {name id}, t.table.value? name = some id → s.table.value? name = some id ∨
    (name ∈ names ∧ ∃ tensor, s.table.tensor? name = some tensor ∧ t.graph.Holds id name tensor)

namespace Adopts

variable {names : List String} {s t u : Workspace}

theorem of_extends {g : Graph} (h : s.graph.Extends g) : Adopts names s { s with graph := g } where
  graph := h
  tensors := rfl
  kept := id
  fresh := .inl

theorem refl (s : Workspace) : Adopts names s s := of_extends (.refl s.graph)

theorem tensor?_eq (h : Adopts names s t) (name : String) :
    t.table.tensor? name = s.table.tensor? name := by
  rw [Table.tensor?, Table.tensor?, h.tensors]

theorem trans (hst : Adopts names s t) (htu : Adopts names t u) : Adopts names s u where
  graph := hst.graph.trans htu.graph
  tensors := htu.tensors.trans hst.tensors
  kept h := htu.kept (hst.kept h)
  fresh := by
    intro name id h
    rcases htu.fresh h with h | ⟨hname, tensor, htensor, hholds⟩
    · rcases hst.fresh h with h | ⟨hname, tensor, htensor, hholds⟩
      · exact .inl h
      · exact .inr ⟨hname, tensor, htensor, hholds.mono htu.graph⟩
    · rw [hst.tensor?_eq] at htensor
      exact .inr ⟨hname, tensor, htensor, hholds⟩

/-- The tensor of a name that has no graph value (`value?`) becomes a parameter. -/
theorem adopt {name : String} {tensor : Tensor} (hname : name ∈ names)
    (hvalue : s.table.value? name = none) (htensor : s.table.tensor? name = some tensor) :
    Adopts names s {
      graph := (s.graph.add name (.parameter tensor)).2
      table := s.table.bind name ⟨s.graph.nodes.length⟩ } where
  graph := s.graph.extends_add name (.parameter tensor)
  tensors := rfl
  kept := by
    intro other id hother
    have hne : name ≠ other := by
      rintro rfl
      rw [hvalue] at hother
      cases hother
    rwa [Table.value?_bind, if_neg hne]
  fresh := by
    intro other id hother
    rw [Table.value?_bind] at hother
    split at hother
    · next heq =>
      subst heq
      cases hother
      exact .inr ⟨hname, tensor, htensor, s.graph.holds_add_parameter name tensor⟩
    · exact .inl hother

end Adopts

/-- Workspaces, ordered by adoption of some names (`Adopts`). -/
def Adopting (_ : List String) : Type := Workspace

instance (names : List String) : Preorder (Adopting names) where
  le := Adopts names
  le_refl := Adopts.refl
  le_trans _ _ _ := Adopts.trans

/-! ### Looking names up -/

/-- The lowering, run from a workspace on, looks names up only in workspaces of some `kind`. The
table is read by looking a name up, as a value or as a tensor, and in no other way. -/
inductive LooksIn (kind : Workspace → Prop) : {α : Type} → Lowering α → Workspace → Prop
  | ofExcept {α : Type} (result : Except LoadError α) (s : Workspace) :
      LooksIn kind (ofExcept result) s
  | onGraph {α : Type} (step : Build α) (s : Workspace) : LooksIn kind (onGraph step) s
  | bindOutput (node : NodeRecord) (id : NodeId) (s : Workspace) :
      LooksIn kind (bindOutput node id) s
  | value (name : String) {s : Workspace} (hs : kind s) : LooksIn kind (value name) s
  | constant (name : String) {s : Workspace} (hs : kind s) : LooksIn kind (constant name) s
  | constantIndices (role name : String) {s : Workspace} (hs : kind s) :
      LooksIn kind (constantIndices role name) s
  | tensorOf (name : String) {s : Workspace} (hs : kind s) : LooksIn kind (tensorOf name) s
  | bind {α β : Type} {x : Lowering α} {f : α → Lowering β} {s : Workspace} (hx : LooksIn kind x s)
      (hf : ∀ a t, x s = .ok a t → LooksIn kind (f a) t) : LooksIn kind (x >>= f) s

theorem LooksIn.mono {kind kind' : Workspace → Prop} {α : Type} {x : Lowering α} {s : Workspace}
    (h : LooksIn kind x s) (hkind : ∀ r, kind r → kind' r) : LooksIn kind' x s := by
  induction h with
  | ofExcept result s => exact .ofExcept result s
  | onGraph step s => exact .onGraph step s
  | bindOutput node id s => exact .bindOutput node id s
  | value name hs => exact .value name (hkind _ hs)
  | constant name hs => exact .constant name (hkind _ hs)
  | constantIndices role name hs => exact .constantIndices role name (hkind _ hs)
  | tensorOf name hs => exact .tensorOf name (hkind _ hs)
  | bind _ _ ihx ihf => exact .bind ihx ihf

/-! ### Values of names -/

/-- A name has a graph value. -/
def Valued (s : Workspace) (name : String) : Prop := ∃ id, s.table.value? name = some id

theorem Adopts.valued {names : List String} {s t : Workspace} (h : Adopts names s t) {name : String}
    (hname : Valued s name) : Valued t name := by
  obtain ⟨id, hid⟩ := hname
  exact ⟨id, h.kept hid⟩

theorem closed_of_extends {s : Workspace} (hs : s.Closed) {g : Graph} (h : s.graph.Extends g) :
    Workspace.Closed { s with graph := g } :=
  fun name id hid => (hs name id hid).trans_le h.nodes.length_le

theorem closed_bind {s : Workspace} (hs : s.Closed) {id : NodeId}
    (hid : id.index < s.graph.nodes.length) (name : String) :
    Workspace.Closed { s with table := s.table.bind name id } := by
  intro other id' h
  rw [Table.value?_bind] at h
  split at h
  · cases h
    exact hid
  · exact hs other id' h

/-! ### The parts of lowerings -/

section Parts

variable {node : NodeRecord} {op : Operator} {s t : Workspace}

/-- The handle of a new node stands for a node, and so do all the others. -/
theorem adopts_value {name : String} {id : NodeId} (hname : name ∈ node.valueInputs op)
    (hs : s.Closed) (h : value name s = .ok id t) :
    t.Closed ∧ Adopts (node.valueInputs op) s t ∧ id.index < t.graph.nodes.length ∧
      t.table.value? name = some id := by
  rcases value_eq_ok.1 h with ⟨hvalue, rfl⟩ | ⟨hvalue, rfl, tensor, htensor, rfl⟩
  · exact ⟨hs, .refl t, hs name id hvalue, hvalue⟩
  · have hgraph := s.graph.extends_add name (.parameter tensor)
    have hid : s.graph.nodes.length < (s.graph.add name (.parameter tensor)).2.nodes.length := by
      simp [Graph.nodes_add]
    refine ⟨closed_bind (closed_of_extends hs hgraph) hid name, .adopt hname hvalue htensor, hid,
      ?_⟩
    rw [Table.value?_bind, if_pos rfl]

theorem adopts_create {names : List String} {name : String}
    {rule : Graph → Except GraphError Draft} {id : NodeId} (hs : s.Closed)
    (h : onGraph (.create name rule) s = .ok id t) :
    t.Closed ∧ Adopts names s t ∧ id.index < t.graph.nodes.length := by
  obtain ⟨draft, -, rfl, rfl⟩ := create_eq_ok.1 h
  have hgraph := s.graph.extends_add name draft
  refine ⟨closed_of_extends hs hgraph, .of_extends hgraph, ?_⟩
  simp [Graph.nodes_add]

theorem adopts_batchNormalization {names : List String} {name : String} {input : NodeId}
    {channel : Nat} {epsilon momentum : Binary32} {tensors : BatchParameters} {id : NodeId}
    (hs : s.Closed)
    (h : onGraph (.batchNormalization name input channel epsilon momentum tensors) s = .ok id t) :
    t.Closed ∧ Adopts names s t ∧ id.index < t.graph.nodes.length := by
  have hbuild : ∃ g, Build.batchNormalization name input channel epsilon momentum tensors s.graph =
      .ok id g ∧ t = { s with graph := g } := onGraph_eq_ok.1 h
  obtain ⟨g, hg, rfl⟩ := hbuild
  have hgraph : s.graph.Extends g := by
    have hrun := Graph.extends_run s.graph
      (.batchNormalization name input channel epsilon momentum tensors)
    rwa [Graph.Operation.run, Step.after_of_ok hg] at hrun
  refine ⟨closed_of_extends hs hgraph, .of_extends hgraph, ?_⟩
  unfold Build.batchNormalization at hg
  simp only [Step.bind_eq_ok] at hg
  obtain ⟨_, _, -, _, r, -, hg⟩ := hg
  obtain ⟨draft, -, rfl, rfl⟩ := Build.create_eq_ok.1 hg
  simp [Graph.nodes_add]

theorem looksIn_channelLast {kind : Workspace → Prop} (name : String) (input : NodeId)
    (s : Workspace) : LooksIn kind (channelLast name input) s := by
  refine .bind (.onGraph _ s) fun images r _ => .bind (.bind (.onGraph _ r) fun dims r _ => ?_)
    fun image r _ => .ofExcept (.ok (images, image)) r
  exact .ofExcept _ r

end Parts

/-! ### All operators -/

/-- A lowering of a `node` that began in `s` has come to `r`, where its first output is left to be
bound: it has adopted (`Adopts`), every name that is taken as a value has one, and the node `id`
that the output is bound to is there. -/
structure Prepared (node : NodeRecord) (op : Operator) (s r : Workspace) (output : String)
    (id : NodeId) : Prop where
  closed : r.Closed
  adopts : Adopts (node.valueInputs op) s r
  taken : ∀ input ∈ node.valueInputs op, Valued r input
  lt : id.index < r.graph.nodes.length
  output : node.output = .ok output

/-- What a lowering of a node is that ends with the binding of its output by `Table.bind`. -/
def Binds (node : NodeRecord) (op : Operator) (s t : Workspace) : Prop :=
  ∃ r output id, Prepared node op s r output id ∧ t = { r with table := r.table.bind output id }

theorem Binds.of_adopts {node : NodeRecord} {op : Operator} {s r t : Workspace}
    (hsr : Adopts (node.valueInputs op) s r) (h : Binds node op r t) : Binds node op s t := by
  obtain ⟨u, output, id, hprepared, rfl⟩ := h
  exact ⟨u, output, id, { hprepared with adopts := hsr.trans hprepared.adopts }, rfl⟩

/-- Adoption (`Adopts`) as a coupling of a run with itself. -/
def adopting (node : NodeRecord) (op : Operator) :
    Coupling (Adopting (node.valueInputs op)) node op where
  ids w i _ := i.index < w.graph.nodes.length
  refs _ _ _ := True
  seen w name := Valued w name
  ids_mono hw hi := hi.trans_le hw.graph.nodes.length_le
  refs_mono _ _ := trivial
  seen_mono hw hname := hw.valued hname
  Couples w x _ post := w.Closed → LooksIn (Adopts (node.valueInputs op) w) x w ∧
    ∀ a t, x w = .ok a t → t.Closed ∧ Adopts (node.valueInputs op) w t ∧ ∃ b, post t a b
  Ends w x _ := w.Closed → LooksIn (Adopts (node.valueInputs op) w) x w ∧
    ∀ u t, x w = .ok u t → Binds node op w t
  couples_pure := by
    intro _ w a b _ hpost hw
    refine ⟨.ofExcept (.ok a) w, fun c t hc => ?_⟩
    obtain ⟨rfl, rfl⟩ := Step.pure_eq_ok.1 hc
    exact ⟨hw, .refl w, b, hpost⟩
  couples_bind := by
    intro _ _ w x _ f _ _ _ hx hf hw
    obtain ⟨hlooks, hok⟩ := hx hw
    refine ⟨hlooks.bind fun a r ha => ?_, fun c t hc => ?_⟩
    · obtain ⟨hr, hwr, b, hmid⟩ := hok a r ha
      exact (hf r a b hwr hmid hr).1.mono fun _ => hwr.trans
    · obtain ⟨a, r, ha, hc⟩ := Step.bind_eq_ok.1 hc
      obtain ⟨hr, hwr, b, hmid⟩ := hok a r ha
      obtain ⟨ht, hrt, hpost⟩ := (hf r a b hwr hmid hr).2 c t hc
      exact ⟨ht, hwr.trans hrt, hpost⟩
  ends_bind := by
    intro _ w x _ f _ _ hx hf hw
    obtain ⟨hlooks, hok⟩ := hx hw
    refine ⟨hlooks.bind fun a r ha => ?_, fun u t hu => ?_⟩
    · obtain ⟨hr, hwr, b, hmid⟩ := hok a r ha
      exact (hf r a b hwr hmid hr).1.mono fun _ => hwr.trans
    · obtain ⟨a, r, ha, hu⟩ := Step.bind_eq_ok.1 hu
      obtain ⟨hr, hwr, b, hmid⟩ := hok a r ha
      exact ((hf r a b hwr hmid hr).2 u t hu).of_adopts hwr
  couples_ofExcept := by
    intro _ w result _ hw
    refine ⟨.ofExcept result w, fun a t ha => ?_⟩
    obtain ⟨hresult, rfl⟩ := ofExcept_eq_ok.1 ha
    exact ⟨hw, .refl t, a, rfl, rfl, hresult⟩
  couples_value := by
    intro w name hname hw
    refine ⟨.value name (.refl w), fun id t h => ?_⟩
    obtain ⟨ht, hwt, hid, hvalue⟩ := adopts_value hname hw h
    exact ⟨ht, hwt, id, hid, id, hvalue⟩
  couples_constant := by
    intro w name _ hw
    refine ⟨.constant name (.refl w), fun tensor t h => ?_⟩
    obtain ⟨-, rfl⟩ := constant_eq_ok.1 h
    exact ⟨hw, .refl t, tensor, rfl, rfl⟩
  couples_constantIndices := by
    intro w role name _ hw
    refine ⟨.constantIndices role name (.refl w), fun numbers t h => ?_⟩
    obtain ⟨-, rfl⟩ := constantIndices_eq_ok.1 h
    exact ⟨hw, .refl t, numbers, rfl, rfl⟩
  couples_tensorOf := by
    intro w name _ hw
    refine ⟨.tensorOf name (.refl w), fun tensor t h => ?_⟩
    cases h
    exact ⟨hw, .refl _, _, rfl, rfl⟩
  couples_dims := by
    intro w _ _ _ hw
    refine ⟨.onGraph _ w, fun dims t h => ?_⟩
    obtain ⟨-, rfl⟩ := dims_eq_ok.1 h
    exact ⟨hw, .refl t, dims, rfl, rfl⟩
  couples_kind := by
    intro w _ _ _ hw
    refine ⟨.onGraph _ w, fun kind t h => ?_⟩
    obtain ⟨-, rfl⟩ := read_eq_ok.1 h
    exact ⟨hw, .refl t, kind, rfl, rfl⟩
  couples_create := by
    intro w _ _ _ _ _ hw
    refine ⟨.onGraph _ w, fun id t h => ?_⟩
    obtain ⟨ht, hwt, hid⟩ := adopts_create hw h
    exact ⟨ht, hwt, id, hid⟩
  couples_channelLast := by
    intro w i _ name _ hw
    refine ⟨looksIn_channelLast name i w, fun a t h => ?_⟩
    obtain ⟨ht, hwt, hid⟩ := adopts_create hw (create_of_channelLast h)
    exact ⟨ht, hwt, a, hid, rfl⟩
  couples_intern := by
    intro w type hw
    refine ⟨.onGraph _ w, fun ref t h => ?_⟩
    obtain ⟨-, rfl⟩ := intern_eq_ok.1 h
    have hgraph := w.graph.extends_intern type
    exact ⟨closed_of_extends hw hgraph, .of_extends hgraph, ref, trivial⟩
  couples_batchNormalization := by
    intro w _ _ _ _ _ _ _ _ _ hw
    refine ⟨.onGraph _ w, fun id t h => ?_⟩
    obtain ⟨ht, hwt, hid⟩ := adopts_batchNormalization hw h
    exact ⟨ht, hwt, id, hid⟩
  ends_bindOutput := by
    intro w id _ hid hseen hw
    refine ⟨.bindOutput node id w, fun u t h => ?_⟩
    obtain ⟨name, hname, rfl⟩ := bindOutput_eq_ok.1 h
    exact ⟨w, name, id, ⟨hw, .refl w, hseen, hid, hname⟩, rfl⟩

section Steps

variable {opset : Int64} {node : NodeRecord} {op : Operator} {s t : Workspace}

/-- **A lowering adopts and then binds**, as `Binds` says. -/
theorem binds_of_step (hop : op ≠ .constant) (hs : s.Closed)
    (h : step opset node op s = .ok () t) : Binds node op s t :=
  ((adopting node op).ends_step (w := s) hop opset hs).2 () t h

/-- A lowering looks names up only in workspaces that differ by adoption (`Adopts`) from the one in
which it begins, whether it succeeds or fails. -/
theorem looksIn_step (hop : op ≠ .constant) (opset : Int64) (hs : s.Closed) :
    LooksIn (Adopts (node.valueInputs op) s) (step opset node op) s :=
  ((adopting node op).ends_step (w := s) hop opset hs).1

end Steps

end Lowering
end TensorGraph
