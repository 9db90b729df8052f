import TensorGraph.Proofs.Load.Atomic
import TensorGraph.Proofs.Load.Outputs

/-! # Tensors that the caller lends

A name for which the caller lends a tensor stands for the tensor at every place of a load, when it
is looked up as a tensor; stored tensors, declared inputs and constants of the name do not come
between. Looked up as a value, the name stands for a parameter that holds the tensor, until a node
that is not a constant produces the name. From then on it stands for what the last such node was
turned into: the tensor that was lent no longer wins. -/

namespace TensorGraph

open Onnx

/-- The tensor that the caller lends for `name`; of several the last one. -/
def LoadOptions.lent? (options : LoadOptions) (name : String) : Option Tensor :=
  options.lent.reverse.lookup name

namespace Lowering

variable {name : String} {tensor : Tensor} {id : NodeId} {names : List String} {s t : Workspace}

/-! ### What a name stands for -/

/-- Looked up as a tensor in any of the three ways, by `constant`, `tensorOf` or `lookup?`, the
`name` stands for the `tensor`. -/
structure ReadsTensor (name : String) (tensor : Tensor) (s : Workspace) : Prop where
  constant : constant name s = .ok tensor s
  tensorOf : tensorOf name s = .ok (some tensor) s
  lookup : s.table.lookup? name = some (.tensor tensor)

/-- Looked up by `Lowering.value`, the `name` stands for a parameter of the name that holds the
`tensor`. -/
def ReadsParameter (name : String) (tensor : Tensor) (s : Workspace) : Prop :=
  ∃ id t, value name s = .ok id t ∧ t.graph.Holds id name tensor

/-- Looked up by `Lowering.value`, the `name` stands for the node `id`, which is there. -/
def ReadsNode (name : String) (id : NodeId) (s : Workspace) : Prop := value name s = .ok id s

theorem readsTensor_of_tensor? (h : s.table.tensor? name = some tensor) :
    ReadsTensor name tensor s where
  constant := constant_eq_ok.2 ⟨h, rfl⟩
  tensorOf := by
    show EStateM.Result.ok (s.table.tensor? name) s = _
    rw [h]
  lookup := Table.lookup?_eq_tensor.2 h

/-- A value that is there and holds the tensor is found, and otherwise one is made. -/
theorem readsParameter_of_tensor? (h : s.table.tensor? name = some tensor)
    (hvalue : ∀ id, s.table.value? name = some id → s.graph.Holds id name tensor) :
    ReadsParameter name tensor s := by
  cases hname : s.table.value? name with
  | some id => exact ⟨id, s, value_eq_ok.2 (.inl ⟨hname, rfl⟩), hvalue id hname⟩
  | none =>
    refine ⟨⟨s.graph.nodes.length⟩, _, value_eq_ok.2 (.inr ⟨hname, rfl, tensor, h, rfl⟩), ?_⟩
    exact s.graph.holds_add_parameter name tensor

/-! ### Adoption keeps it -/

theorem Adopts.readsTensor (h : Adopts names s t) (htensor : s.table.tensor? name = some tensor) :
    ReadsTensor name tensor t := by
  rw [← h.tensor?_eq] at htensor
  exact readsTensor_of_tensor? htensor

theorem Adopts.readsParameter (h : Adopts names s t)
    (htensor : s.table.tensor? name = some tensor)
    (hvalue : ∀ id, s.table.value? name = some id → s.graph.Holds id name tensor) :
    ReadsParameter name tensor t := by
  refine readsParameter_of_tensor? (by rwa [h.tensor?_eq]) fun id hid => ?_
  rcases h.fresh hid with hid | ⟨-, adopted, hadopted, hholds⟩
  · exact (hvalue id hid).mono h.graph
  · rw [htensor] at hadopted
    cases hadopted
    exact hholds

theorem Adopts.readsNode (h : Adopts names s t) (hid : s.table.value? name = some id) :
    ReadsNode name id t :=
  value_eq_ok.2 (.inl ⟨h.kept hid, rfl⟩)

/-! ### What lowering a node does to a name -/

section Node

variable {opset : Int64} {node : NodeRecord}

/-- A tensor that is lent (`Slot.lent`) stays, whatever the node is. -/
theorem lent_lowerNode (hs : s.Closed) (hok : lowerNode opset node s = .ok () t)
    (h : s.table.tensors.get? name = some (.lent tensor)) :
    t.table.tensors.get? name = some (.lent tensor) := by
  rcases lowerNode_cases hs hok with ⟨-, hfills⟩ |
    ⟨op, -, -, r, output, id, hprepared, rfl⟩
  · exact hfills.lent h
  · show r.table.tensors.get? name = _
    rw [hprepared.adopts.tensors, h]

theorem exists_value_of_produces (hs : s.Closed) (hok : lowerNode opset node s = .ok () t)
    (h : node.Produces name) : ∃ id, t.table.value? name = some id := by
  obtain ⟨op, hop, hc, hname⟩ := h
  rcases lowerNode_cases hs hok with ⟨hconstant, -⟩ |
    ⟨op', -, -, r, output, id, hprepared, rfl⟩
  · rw [hop] at hconstant
    exact absurd (Option.some.inj hconstant) hc
  · obtain rfl := Except.ok.inj (hname.symm.trans hprepared.output)
    exact ⟨id, by rw [Table.value?_bind, if_pos rfl]⟩

/-- A value stays unless the node `Produces` the name. -/
theorem value?_lowerNode (hs : s.Closed) (hok : lowerNode opset node s = .ok () t)
    (hnode : ¬ node.Produces name) (h : s.table.value? name = some id) :
    t.table.value? name = some id := by
  rcases lowerNode_cases hs hok with ⟨-, hfills⟩ |
    ⟨op, hop, hc, r, output, i, hprepared, rfl⟩
  · rwa [Table.value?, hfills.values]
  · have hne : output ≠ name := by
      rintro rfl
      exact hnode ⟨op, hop, hc, hprepared.output⟩
    rw [Table.value?_bind, if_neg hne]
    exact hprepared.adopts.kept h

end Node

end Lowering

/-! ### Through a load -/

/-- Of the nodes before a place, the one at `origin` is the last that produces a name, and it was
turned into the node of a handle. -/
structure ProducedAt (options : LoadOptions) (model : Description) (g : Graph) (place : Nat)
    (name : String) (id : NodeId) (origin : Nat) : Prop where
  lt : origin < place
  last : ∀ k node, origin < k → k < place → model.graph.nodes[k]? = some node →
    ¬ node.Produces name
  run : ∃ node s t, Lowers options model g origin node s t ∧ node.Produces name ∧
    t.table.value? name = some id

/-- From `place` of a load on, the next node looks names up in workspaces of some `kind` only, and
an output of `name`, if no node is left, ends a node as `ends` says. -/
structure Continues (options : LoadOptions) (model : Description) (place : Nat) (s : Workspace)
    (kind : Workspace → Prop) (name : String) (ends : Graph → NodeId → Prop) : Prop where
  operands : ∀ node op, model.graph.nodes[place]? = some node → node.operator? = some op →
    op ≠ .constant → Lowering.LooksIn kind (Lowering.step model.opsetVersion node op) s
  outputs : place = model.graph.nodes.length → ∀ bound t,
    Lowering.finish options model s = .ok bound t → ∀ save, (name, save) ∈ bound →
      ∃ id type, ends t.graph id ∧
        t.graph.node save = .ok ⟨Lowering.resultName name, .save, [id], type⟩

namespace ComesTo

variable {options : LoadOptions} {model : Description} {g : Graph} {place : Nat} {s : Workspace}
  {name : String} {tensor : Tensor}

/-- At every place that a load comes to, the name has the tensor that was lent. -/
theorem tensors_get? (hlent : options.lent? name = some tensor)
    (h : ComesTo options model g place s) : s.table.tensors.get? name = some (.lent tensor) := by
  refine h.induct (P := fun _ s => s.table.tensors.get? name = some (.lent tensor))
    (fun s hseed => ?_) (fun place node s t hs hl hname => ?_)
  · refine (Lowering.fills_of_seed hseed).lent ?_
    show (Table.lendAll {} options.lent).tensors.get? name = _
    rw [Table.get?_lendAll, ← LoadOptions.lent?, hlent]
    rfl
  · exact Lowering.lent_lowerNode hs.closed hl.lowered hname

theorem tensor? (hlent : options.lent? name = some tensor) (h : ComesTo options model g place s) :
    s.table.tensor? name = some tensor := by
  rw [Table.tensor?, h.tensors_get? hlent]
  rfl

/-- A value of the name holds the tensor that was lent, unless a node `Produces` the name. -/
theorem holds (hlent : options.lent? name = some tensor) (h : ComesTo options model g place s)
    (hnone : ∀ node ∈ model.graph.nodes.take place, ¬ node.Produces name) {id : NodeId}
    (hid : s.table.value? name = some id) : s.graph.Holds id name tensor := by
  have hsourced : Lowering.Sourced (fun other tensor' => other = name → tensor' = tensor)
      (model.graph.nodes.take place) s := by
    refine h.sourced fun place s hs other tensor' htensor heq => ?_
    rw [heq, hs.tensor? hlent] at htensor
    exact (Option.some.inj htensor).symm
  rcases hsourced.values name id hid with ⟨node, hmem, hproduces⟩ | ⟨tensor', hsuits, hholds⟩
  · exact absurd hproduces (hnone node hmem)
  · rwa [hsuits rfl] at hholds

/-- A name that has been produced stands for what the last node to do so was turned into
(`ProducedAt`). -/
theorem producedAt (h : ComesTo options model g place s)
    (hsome : ∃ node ∈ model.graph.nodes.take place, node.Produces name) :
    ∃ id origin, ProducedAt options model g place name id origin ∧
      s.table.value? name = some id := by
  refine h.induct (P := fun place s => (∃ node ∈ model.graph.nodes.take place, node.Produces name) →
    ∃ id origin, ProducedAt options model g place name id origin ∧ s.table.value? name = some id)
    (fun s _ hnone => ?_) (fun place node s t hs hl ih hsome => ?_) hsome
  · obtain ⟨node, hmem, -⟩ := hnone
    cases hmem
  · by_cases hproduces : node.Produces name
    · obtain ⟨id, hid⟩ := Lowering.exists_value_of_produces hs.closed hl.lowered hproduces
      refine ⟨id, place, ⟨by omega, fun k _ hk hk' => by omega, ?_⟩, hid⟩
      exact ⟨node, s, t, hl, hproduces, hid⟩
    · rw [List.take_add_one, hl.found, Option.toList_some,
        Lowering.Sourced.exists_mem_append] at hsome
      obtain ⟨id, origin, horigin, hid⟩ := ih (hsome.resolve_right hproduces)
      refine ⟨id, origin, ⟨horigin.lt.trans (by omega), fun k other hk hk' hother => ?_,
        horigin.run⟩, Lowering.value?_lowerNode hs.closed hl.lowered hproduces hid⟩
      obtain hk' | rfl := Nat.lt_succ_iff_lt_or_eq.1 hk'
      · exact horigin.last k other hk hk' hother
      · rw [hl.found] at hother
        cases hother
        exact hproduces

/-- An output is bound to a save node over the value of its name (`BindsOutput`). -/
theorem save_of_finish (h : ComesTo options model g place s)
    (hplace : place = model.graph.nodes.length) {bound : List (String × NodeId)} {t : Workspace}
    (hfinish : Lowering.finish options model s = .ok bound t) {save : NodeId}
    (hsave : (name, save) ∈ bound) :
    ∃ id type, s.table.value? name = some id ∧ s.graph.Extends t.graph ∧
      t.graph.node save = .ok ⟨Lowering.resultName name, .save, [id], type⟩ := by
  subst hplace
  have hgraph : s.graph.Extends t.graph := by
    have hoperated := (Lowering.builds_finish options model).operated s
    rw [Step.after_of_ok hfinish] at hoperated
    exact hoperated.toExtends
  cases hon : options.outputs with
  | false =>
    rw [Lowering.finish, hon, if_neg Bool.false_ne_true] at hfinish
    cases hfinish
    cases hsave
  | true =>
    have hall : LowersAll options model g s := by
      have hrun := h.run
      rwa [List.take_length] at hrun
    obtain ⟨output, -, hname, id, type, hid, hnode, -⟩ :=
      exists_of_forall₂ (hall.bindsOutput hon hfinish).flip hsave
    cases hname
    exact ⟨id, type, hid, hgraph, hnode⟩

end ComesTo

section Load

variable {options : LoadOptions} {model : Description} {g : Graph} {place : Nat} {s : Workspace}
  {name : String} {tensor : Tensor}

/-- **When a lent tensor wins.** At every place of a load, a name for which the caller lends a
tensor stands for this tensor wherever the next node looks names up, if it is looked up as a tensor
(`ReadsTensor`). If no node before, other than a constant, produces the name (`Produces`), then as a
value, too, it stands for a parameter with this tensor (`ReadsParameter`), and an output of the name
ends such a parameter. Otherwise both find what the last node that produces the name was turned
into. -/
theorem lookups_of_lent (hlent : options.lent? name = some tensor)
    (h : ComesTo options model g place s) :
    ((∀ node ∈ model.graph.nodes.take place, ¬ node.Produces name) ∧
      Continues options model place s
        (fun r => Lowering.ReadsTensor name tensor r ∧ Lowering.ReadsParameter name tensor r) name
        (fun g id => g.Holds id name tensor)) ∨
    ∃ id origin, ProducedAt options model g place name id origin ∧
      Continues options model place s
        (fun r => Lowering.ReadsTensor name tensor r ∧ Lowering.ReadsNode name id r) name
        (fun _ i => i = id) := by
  have htensor := h.tensor? hlent
  by_cases hproduced : ∃ node ∈ model.graph.nodes.take place, node.Produces name
  · obtain ⟨id, origin, horigin, hid⟩ := h.producedAt hproduced
    refine .inr ⟨id, origin, horigin, fun node op _ _ hop => ?_,
      fun hplace bound t hfinish save hsave => ?_⟩
    · exact (Lowering.looksIn_step hop _ h.closed).mono fun r hr =>
        ⟨hr.readsTensor htensor, hr.readsNode hid⟩
    · obtain ⟨i, type, hi, -, hnode⟩ := h.save_of_finish hplace hfinish hsave
      rw [hid] at hi
      cases hi
      exact ⟨id, type, rfl, hnode⟩
  · have hnone : ∀ node ∈ model.graph.nodes.take place, ¬ node.Produces name :=
      fun node hmem hproduces => hproduced ⟨node, hmem, hproduces⟩
    have hholds : ∀ id, s.table.value? name = some id → s.graph.Holds id name tensor :=
      fun _ => h.holds hlent hnone
    refine .inl ⟨hnone, fun node op _ _ hop => ?_, fun hplace bound t hfinish save hsave => ?_⟩
    · exact (Lowering.looksIn_step hop _ h.closed).mono fun r hr =>
        ⟨hr.readsTensor htensor, hr.readsParameter htensor hholds⟩
    · obtain ⟨i, type, hi, hgraph, hnode⟩ := h.save_of_finish hplace hfinish hsave
      exact ⟨i, type, (hholds i hi).mono hgraph, hnode⟩

end Load

/-! ### A name that is lent a tensor and has another source -/

/-- A tensor of one number. -/
def lentTensor : Tensor := ⟨[1], .float #[⟨0x40000000⟩], rfl⟩

/-- The tensor is lent for `X`. -/
def lentOptions (outputs : Bool) : LoadOptions := { outputs, lent := [("X", lentTensor)] }

/-- A node that takes `X`. -/
def lentTaker : NodeRecord := { inputs := ["X"], outputs := ["y"], opType := "Relu" }

/-- A model in which `X` is a constant with another tensor. Both names are outputs. -/
def lentConstant : Description where
  irVersion := 8
  opsetVersion := 13
  graph := {
    nodes := [{ constantNode with outputs := ["X"] }, lentTaker]
    outputs := [{ name := "X" }, { name := "y" }] }

theorem not_produces_lentConstant (place : Nat) (node : NodeRecord)
    (hnode : lentConstant.graph.nodes[place]? = some node) : ¬ node.Produces "X" := by
  match place with
  | 0 =>
    cases hnode
    exact fun h => ((NodeRecord.produces_iff (by decide)).1 h).1 rfl
  | 1 =>
    cases hnode
    have hop : lentTaker.operator? = some .relu := by decide
    exact fun h => absurd ((NodeRecord.produces_iff hop).1 h).2 (by decide)
  | place + 2 => cases hnode

/-- The tensor that is lent wins over the constant, for the node that takes `X` and for the output.
-/
theorem lookups_of_lent_constant :
    (lentOptions true).lent? "X" = some lentTensor ∧
    (∃ s, ComesTo (lentOptions true) lentConstant (.empty "g") 1 s ∧
      Lowering.LooksIn (fun r => Lowering.ReadsTensor "X" lentTensor r ∧
        Lowering.ReadsParameter "X" lentTensor r) (Lowering.step 13 lentTaker .relu) s) ∧
    ∃ s bound t save id, ComesTo (lentOptions true) lentConstant (.empty "g") 2 s ∧
      Lowering.finish (lentOptions true) lentConstant s = .ok bound t ∧ ("X", save) ∈ bound ∧
      (∃ type, t.graph.node save = .ok ⟨"save_X", .save, [id], type⟩) ∧
      t.graph.Holds id "X" lentTensor := by
  have hlent : (lentOptions true).lent? "X" = some lentTensor := by decide +kernel
  have hwins : ∀ place s, ComesTo (lentOptions true) lentConstant (.empty "g") place s →
      Continues (lentOptions true) lentConstant place s (fun r =>
        Lowering.ReadsTensor "X" lentTensor r ∧ Lowering.ReadsParameter "X" lentTensor r) "X"
        (fun g id => g.Holds id "X" lentTensor) := by
    intro place s hs
    rcases lookups_of_lent hlent hs with ⟨-, hcontinues⟩ | ⟨id, origin, horigin, -⟩
    · exact hcontinues
    · obtain ⟨node, r, t, hl, hproduces, -⟩ := horigin.run
      exact absurd hproduces (not_produces_lentConstant origin node hl.found)
  obtain ⟨⟨⟩, s, hs⟩ : ∃ u s, (Lowering.seed (lentOptions true) lentConstant >>= fun _ =>
      Lowering.lowerNodes 13 (lentConstant.graph.nodes.take 1)) { graph := .empty "g" } = .ok u s :=
    Step.exists_of_succeeds (by decide +kernel)
  obtain ⟨bound, t, hall⟩ : ∃ bound t, ((Lowering.seed (lentOptions true) lentConstant >>= fun _ =>
      Lowering.lowerNodes 13 lentConstant.graph.nodes) >>= fun _ =>
      Lowering.finish (lentOptions true) lentConstant) { graph := .empty "g" } = .ok bound t :=
    Step.exists_of_succeeds (by decide +kernel)
  obtain ⟨⟨⟩, r, hr, hfinish⟩ := Step.bind_eq_ok.1 hall
  have hlowers : LowersAll (lentOptions true) lentConstant (.empty "g") r := hr
  have hone : ComesTo (lentOptions true) lentConstant (.empty "g") 1 s := ⟨by decide, hs⟩
  have hbound := hlowers.bindsOutput rfl hfinish
  obtain ⟨⟨_, save⟩, hsave, rfl, -⟩ := exists_of_forall₂ hbound List.mem_cons_self
  obtain ⟨id, type, hholds, hnode⟩ :=
    (hwins 2 r hlowers.comesTo).outputs rfl bound t hfinish save hsave
  exact ⟨hlent, ⟨s, hone, (hwins 1 s hone).operands lentTaker .relu rfl (by decide) (by decide)⟩,
    r, bound, t, save, id, hlowers.comesTo, hfinish, hsave, ⟨type, hnode⟩, hholds⟩

/-- A model of two nodes, of which the first one produces `X` and the second one takes it. -/
def lentProduced : Description where
  irVersion := 8
  opsetVersion := 13
  graph := {
    nodes := [{ inputs := ["x"], outputs := ["X"], opType := "Relu" }, lentTaker]
    inputs := [{
      name := "x"
      type := some { tensorType := some {
        elementType := floatCode
        shape := some { dims := [{ size := some (.fixed 1) }] } } } }] }

/-- The second node does not take the tensor that is lent for `X`, but what the first node was
turned into. -/
theorem lentProduced_taken :
    (lentOptions false).lent? "X" = some lentTensor ∧
    lentProduced.graph.nodes[1]? = some lentTaker ∧
    lentTaker.operator? = some .relu ∧ "X" ∈ lentTaker.valueInputs .relu ∧
    (∃ s, ComesTo (lentOptions false) lentProduced (.empty "g") 1 s ∧
      ¬ Lowering.ReadsParameter "X" lentTensor s) ∧
    (load (lentOptions false) lentProduced (.empty "g")).1.isOk = true ∧
    (load (lentOptions false) lentProduced (.empty "g")).2.nodes.map
        (fun n => (n.name, n.kind, n.operands)) =
      [("x", .parameter ⟨[1], .float #[.zero], rfl⟩, []), ("X", .unary .relu, [⟨0⟩]),
        ("y", .unary .relu, [⟨1⟩])] := by
  let run := Lowering.seed (lentOptions false) lentProduced >>= fun _ =>
    Lowering.lowerNodes 13 (lentProduced.graph.nodes.take 1)
  obtain ⟨⟨⟩, s, hs⟩ : ∃ u s, run { graph := .empty "g" } = .ok u s :=
    Step.exists_of_succeeds (by decide +kernel)
  have hend : Step.after run { graph := .empty "g" } = s := Step.after_of_ok hs
  have hvalue : s.table.value? "X" = some ⟨1⟩ := by
    rw [← hend]
    decide +kernel
  have hkind : s.graph.nodes[1]?.map (·.kind) = some (.unary .relu) := by
    rw [← hend]
    decide +kernel
  refine ⟨by decide +kernel, rfl, by decide, by decide, ⟨s, ⟨by decide, hs⟩, ?_⟩,
    by decide +kernel, by decide +kernel⟩
  rintro ⟨id, t, hid, type, hnode⟩
  rcases Lowering.value_eq_ok.1 hid with ⟨h, rfl⟩ | ⟨h, -⟩
  · rw [hvalue] at h
    cases h
    rw [found_eq_ok.1 hnode] at hkind
    cases hkind
  · rw [hvalue] at h
    cases h

end TensorGraph
