import TensorGraph.Proofs.Load.Seeding

/-! # Records behind lent tensors

A tensor that the caller lends for a name stands before everything else that a model has for the
name: stored tensors, declared inputs and constants of the name are not looked at, and neither are
declared inputs of the name of a stored tensor that is loaded. A load of a model is the load of what
is left when all of these are taken away (`load_visible`). -/

namespace TensorGraph

open Onnx

/-- The node is a constant for whose first output the caller lends a tensor. -/
def LoadOptions.hides (options : LoadOptions) (node : NodeRecord) : Bool :=
  match node.operator?, node.output with
  | some .constant, .ok name => (options.lent? name).isSome
  | _, _ => false

/-- What is left of a model without the records that a load does not look at: the stored tensors
that the load materializes, the declared inputs of names for which no tensor is lent or stored, and
the nodes that `hides` does not hide. -/
def Description.visible (model : Description) (options : LoadOptions) : Description :=
  { model with graph := { model.graph with
      nodes := model.graph.nodes.filter fun node => !options.hides node
      initializers := model.storedRecords options
      inputs := model.graph.inputs.filter fun r =>
        (options.lent? r.name).isNone && (model.storedRecords options).all (·.name ≠ r.name) } }

section Shadowing

variable {options : LoadOptions} {model model' : Description} {node : NodeRecord} {g : Graph}
  {opset : Int64} {s t : Workspace}

theorem LoadOptions.hides_iff : options.hides node = true ↔ node.operator? = some .constant ∧
    ∃ name tensor, node.output = .ok name ∧ options.lent? name = some tensor := by
  unfold hides
  split
  · next name hop hname => simp [hop, hname, Option.isSome_iff_exists]
  · next hnot =>
    simp only [Bool.false_eq_true, false_iff]
    rintro ⟨hop, name, tensor, hname, -⟩
    exact hnot name hop hname

/-! ### Seeding -/

namespace Description

theorem storedRecords_visible :
    (model.visible options).storedRecords options = model.storedRecords options := by
  unfold storedRecords
  split
  · next hload =>
    simp only [visible, storedRecords, if_pos hload, List.filter_filter, Bool.and_self]
  · rfl

theorem openInputs_visible :
    (model.visible options).openInputs options = model.openInputs options := by
  unfold openInputs
  rw [storedRecords_visible]
  let keep (name : String) : Bool :=
    (options.lent? name).isNone && (model.storedRecords options).all (·.name ≠ name)
  show (firstDeclarations (model.graph.inputs.filter fun r => keep r.name)).filter
    (fun r => keep r.name) = (firstDeclarations model.graph.inputs).filter fun r => keep r.name
  rw [firstDeclarations_filter, List.filter_filter]
  simp only [Bool.and_self]

end Description

namespace Lowering

theorem seed_visible : seed options (model.visible options) { graph := g } =
    seed options model { graph := g } := by
  rw [seed_eq, seed_eq, Description.storedRecords_visible, Description.openInputs_visible]

/-! ### Nodes -/

/-- No move changes for which names tensors are lent (`Table.isLent`). -/
theorem Move.isLent_eq {op : Operator} (h : Move op node s t) :
    t.table.isLent = s.table.isLent := by
  cases h with
  | operate o => rfl
  | adopt name tensor _ _ _ => rfl
  | bind name id _ => rfl
  | store name record tensor _ _ _ _ => exact funext fun _ => Table.isLent_insert

theorem isLent_lowerNode (h : lowerNode opset node s = .ok () t) :
    t.table.isLent = s.table.isLent := by
  obtain ⟨op, -, hstep⟩ := lowerNode_eq_ok.1 h
  have hsame := (movesBy_step opset node op).lift
    (P := fun s t => t.table.isLent = s.table.isLent) (fun _ => rfl)
    (fun _ _ _ h hmove => hmove.isLent_eq.trans h) s
  rwa [Step.after_of_ok hstep] at hsame

/-- A hidden constant (`hides`) changes nothing. -/
theorem lowerNode_of_hides (hs : ∀ name tensor, options.lent? name = some tensor →
    s.table.isLent name = true) (h : options.hides node = true) :
    lowerNode opset node s = .ok () s := by
  obtain ⟨hop, name, tensor, hname, htensor⟩ := LoadOptions.hides_iff.1 h
  refine lowerNode_eq_ok.2 ⟨.constant, hop, ?_⟩
  show storeConstant node s = .ok () s
  unfold storeConstant
  refine Step.bind_eq_ok.2 ⟨name, s, lift_eq_ok.2 ⟨hname, rfl⟩, ?_⟩
  refine Step.bind_eq_ok.2 ⟨s.table, s, rfl, ?_⟩
  rw [if_pos (hs name tensor htensor)]
  rfl

/-- Hidden constants can be left out of `lowerNodes`. -/
theorem lowerNodes_visible (hs : ∀ name tensor, options.lent? name = some tensor →
    s.table.isLent name = true) (nodes : List NodeRecord) :
    lowerNodes opset (nodes.filter fun node => !options.hides node) s =
      lowerNodes opset nodes s := by
  induction nodes generalizing s with
  | nil => rfl
  | cons node nodes ih =>
    have hrun : lowerNodes opset (node :: nodes) s =
        (lowerNode opset node >>= fun _ => lowerNodes opset nodes) s := rfl
    cases hhides : options.hides node with
    | true =>
      rw [List.filter_cons_of_neg (by simp [hhides]), ih hs, hrun, Step.bind_apply,
        lowerNode_of_hides hs hhides]
    | false =>
      rw [List.filter_cons_of_pos (by simp [hhides]), hrun]
      show (lowerNode opset node >>= fun _ => lowerNodes opset _) s = _
      rw [Step.bind_apply, Step.bind_apply]
      cases hnode : lowerNode opset node s with
      | error e r => rfl
      | ok u r =>
        simp only
        refine ih fun name tensor hname => ?_
        rw [isLent_lowerNode hnode]
        exact hs name tensor hname

theorem isLent_of_seed (h : seed options model { graph := g } = .ok () s) {name : String}
    {tensor : Tensor} (hname : options.lent? name = some tensor) :
    s.table.isLent name = true := by
  have hget : s.table.tensors.get? name = some (.lent tensor) := by
    refine (fills_of_seed h).lent ?_
    show (Table.lendAll {} options.lent).tensors.get? name = _
    rw [Table.get?_lendAll, ← LoadOptions.lent?, hname]
    rfl
  rw [Table.isLent, hget]
  rfl

end Lowering

/-! ### Loads -/

/-- Records that are not looked at can be left out of a load, as `visible` does. -/
theorem load_visible : load options (model.visible options) g = load options model g := by
  have hrun : Lowering.lowerModel options (model.visible options) { graph := g } =
      Lowering.lowerModel options model { graph := g } := by
    unfold Lowering.lowerModel
    rw [Step.bind_apply, Step.bind_apply, Lowering.seed_visible]
    cases hseed : Lowering.seed options model { graph := g } with
    | error e s => rfl
    | ok u s =>
      have hnodes : Lowering.lowerNodes (model.visible options).opsetVersion
          (model.visible options).graph.nodes s =
            Lowering.lowerNodes model.opsetVersion model.graph.nodes s :=
        Lowering.lowerNodes_visible (fun _ _ => Lowering.isLent_of_seed hseed) model.graph.nodes
      simp only [Step.bind_apply, hnodes]
      rfl
  unfold load
  rw [hrun]

/-- **Records behind lent tensors do not matter.** Two models of which the same is `visible`, that
is, that differ only in stored tensors and declared inputs of names for which a tensor is lent, in
declared inputs of the names of stored tensors that are loaded, and in constants for such a name,
whatever these records are, are loaded with the same result and leave the same graph. -/
theorem load_eq_of_visible_eq (h : model.visible options = model'.visible options) (g : Graph) :
    load options model g = load options model' g := by
  rw [← load_visible, h, load_visible]

end Shadowing

/-! ### A model with and without malformed records -/

/-- A model with a stored tensor without elements, a declared input without a type and a constant
without a value, all named `X`. -/
def hiddenRecords : Description where
  irVersion := 8
  opsetVersion := 13
  graph := {
    nodes := [{ outputs := ["X"], opType := "Constant" }, lentTaker]
    initializers := [{ name := "X" }]
    inputs := [{ name := "X" }] }

/-- A model of the node that takes `X` alone. -/
def bareTaker : Description where
  irVersion := 8
  opsetVersion := 13
  graph := { nodes := [lentTaker] }

/-- With a tensor lent for `X`, the malformed records do not matter. -/
theorem load_hiddenRecords :
    let options : LoadOptions := { initializers := true, lent := [("X", lentTensor)] }
    hiddenRecords.visible options = bareTaker.visible options ∧
      load options hiddenRecords (.empty "g") = load options bareTaker (.empty "g") := by
  intro options
  have hsame : hiddenRecords.visible options = bareTaker.visible options := rfl
  exact ⟨hsame, load_eq_of_visible_eq hsame (.empty "g")⟩

end TensorGraph
