import TensorGraph.Proofs.Load.Origins
import TensorGraph.Proofs.Lowering.Adoption

/-! # Which names have graph values

A load fills its table with tensors and then comes from one place of the model to the next, each
time by lowering the node there; what every node keeps holds at every place (`ComesTo.induct`). At a
place a name has a graph value exactly when a node lowered before takes it as a value, or produces
it: it is the first output of the node, and the operator is not the one of constants. A value that
no node produces is a parameter that holds the tensor that the name had when it was first taken. -/

namespace TensorGraph

open Onnx
open Step (after MovesBy)

namespace Onnx.NodeRecord

variable {node : NodeRecord} {op : Operator} {name : String}

/-- The node takes the graph value of `name`. -/
def Takes (node : NodeRecord) (name : String) : Prop :=
  ∃ op, node.operator? = some op ∧ name ∈ node.valueInputs op

/-- The node gives `name` a graph value. Constants only give tensors. -/
def Produces (node : NodeRecord) (name : String) : Prop :=
  ∃ op, node.operator? = some op ∧ op ≠ .constant ∧ node.output = .ok name

theorem takes_iff (hop : node.operator? = some op) :
    node.Takes name ↔ name ∈ node.valueInputs op := by
  simp [Takes, hop]

theorem produces_iff (hop : node.operator? = some op) :
    node.Produces name ↔ op ≠ .constant ∧ node.output = .ok name := by
  simp [Produces, hop]

end Onnx.NodeRecord

namespace Lowering

variable {s t : Workspace}

/-! ### Filling gives no values -/

/-- From the workspace `s` to `t` only tensors that the load makes (`Slot.made`) have come in. -/
structure Fills (s t : Workspace) : Prop where
  graph : t.graph = s.graph
  values : t.table.values = s.table.values
  lent : ∀ {name tensor}, s.table.tensors.get? name = some (.lent tensor) →
    t.table.tensors.get? name = some (.lent tensor)

theorem Fills.refl (s : Workspace) : Fills s s := ⟨rfl, rfl, id⟩

theorem Fills.trans {u : Workspace} (hst : Fills s t) (htu : Fills t u) : Fills s u :=
  ⟨htu.graph.trans hst.graph, htu.values.trans hst.values, fun h => htu.lent (hst.lent h)⟩

theorem fills_insert (s : Workspace) (name : String) (tensor : Tensor) :
    Fills s { s with table := s.table.insert name tensor } :=
  ⟨rfl, Table.values_insert, Table.get?_insert_of_lent⟩

theorem fills_of_updates {α : Type} {update : α → Table → Except LoadError Table}
    (h : ∀ a (t : Table), ∃ name made, t.Puts name made (update a t)) {records : List α}
    (hok : records.forM (fun a => updateTable (update a)) s = .ok () t) : Fills s t := by
  induction records generalizing s with
  | nil =>
    cases hok
    exact .refl _
  | cons record records ih =>
    obtain ⟨r, hr, hrest⟩ := forM_cons_eq_ok.1 hok
    obtain ⟨known, hknown, rfl⟩ := updateTable_eq_ok.1 hr
    refine Fills.trans ?_ (ih hrest)
    obtain ⟨name, made, hputs⟩ := h record s.table
    rcases hputs.cases_of_ok hknown with rfl | ⟨tensor, -, rfl⟩
    · exact .refl _
    · exact fills_insert _ name tensor

/-- Seeding by `seed` lends tensors and then only fills (`Fills`). -/
theorem fills_of_seed {options : LoadOptions} {model : Description}
    (h : seed options model s = .ok () t) :
    Fills { s with table := s.table.lendAll options.lent } t := by
  have hstore : ∀ {s t : Workspace}, storeInitializers model.graph.initializers s = .ok () t →
      Fills s t := fills_of_updates fun record t => ⟨_, _, t.puts_storeInitializer record⟩
  have hdeclare : ∀ {s t : Workspace}, declareInputs options.limit model.graph.inputs s = .ok () t →
      Fills s t := fills_of_updates fun record t => ⟨_, _, t.puts_declareInput options.limit record⟩
  obtain ⟨_, r, hlend, h⟩ := Step.bind_eq_ok.1 h
  obtain ⟨known, hknown, rfl⟩ := updateTable_eq_ok.1 hlend
  cases hknown
  split at h
  · obtain ⟨_, r, hr, h⟩ := Step.bind_eq_ok.1 h
    exact (hstore hr).trans (hdeclare h)
  · exact hdeclare h

/-- A node that is lowered fills (`Fills`), if it is a constant, or else adopts and binds
(`Binds`). -/
theorem lowerNode_cases {opset : Int64} {node : NodeRecord} (hs : s.Closed)
    (hok : lowerNode opset node s = .ok () t) :
    (node.operator? = some .constant ∧ Fills s t) ∨
      ∃ op, node.operator? = some op ∧ op ≠ .constant ∧ Binds node op s t := by
  obtain ⟨op, hop, hstep⟩ := lowerNode_eq_ok.1 hok
  by_cases hc : op = .constant
  · subst hc
    refine .inl ⟨hop, ?_⟩
    obtain ⟨name, -, ⟨-, rfl⟩ | ⟨-, record, tensor, -, -, rfl⟩⟩ := storeConstant_eq_ok hstep
    · exact .refl t
    · exact fills_insert s name tensor
  · exact .inr ⟨op, hop, hc, binds_of_step hc hs hstep⟩

/-! ### Values and where they come from -/

/-- After `nodes` have been lowered, the names with graph values are those that the nodes take or
produce; a value that no node produces is a parameter of its name with a tensor that `suits` it. -/
structure Sourced (suits : String → Tensor → Prop) (nodes : List NodeRecord) (s : Workspace) :
    Prop where
  closed : s.Closed
  valued : ∀ name, Valued s name ↔ ∃ node ∈ nodes, node.Takes name ∨ node.Produces name
  values : ∀ name id, s.table.value? name = some id → (∃ node ∈ nodes, node.Produces name) ∨
    ∃ tensor, suits name tensor ∧ s.graph.Holds id name tensor

namespace Sourced

variable {suits : String → Tensor → Prop} {nodes : List NodeRecord} {node : NodeRecord}
  {opset : Int64}

theorem of_values_eq (h : s.table.values = {}) : Sourced suits [] s := by
  have hnone : ∀ name, s.table.value? name = none := by
    intro name
    rw [Table.value?, h, KeyMap.get?_empty]
  refine ⟨fun name id hid => ?_, fun name => ?_, fun name id hid => ?_⟩
  · rw [hnone] at hid
    cases hid
  · simp [Valued, hnone]
  · rw [hnone] at hid
    cases hid

theorem exists_mem_append {P : NodeRecord → Prop} :
    (∃ n ∈ nodes ++ [node], P n) ↔ (∃ n ∈ nodes, P n) ∨ P node := by
  simp [or_and_right, exists_or]

/-- A constant gives no name a value (`Fills`). -/
theorem lower_constant (h : Sourced suits nodes s) (hop : node.operator? = some .constant)
    (hst : Fills s t) : Sourced suits (nodes ++ [node]) t := by
  have hvalue : ∀ name, t.table.value? name = s.table.value? name := by
    intro name
    rw [Table.value?, Table.value?, hst.values]
  have htakes : ∀ name, ¬ node.Takes name := by
    intro name hname
    rw [NodeRecord.takes_iff hop] at hname
    cases hname
  have hproduces : ∀ name, ¬ node.Produces name :=
    fun name hname => ((NodeRecord.produces_iff hop).1 hname).1 rfl
  refine ⟨fun name id hid => ?_, fun name => ?_, fun name id hid => ?_⟩
  · rw [hvalue] at hid
    rw [hst.graph]
    exact h.closed name id hid
  · simp only [Valued, hvalue, exists_mem_append, htakes, hproduces, or_false]
    exact h.valued name
  · rw [hvalue] at hid
    rw [exists_mem_append, hst.graph]
    rcases h.values name id hid with hproduced | hholds
    · exact .inl (.inl hproduced)
    · exact .inr hholds

/-- A node with any other operator gives values to the names that it takes and to its output
(`Takes`, `Produces`). -/
theorem lower_operator (h : Sourced suits nodes s)
    (hsuits : ∀ name tensor, s.table.tensor? name = some tensor → suits name tensor)
    {op : Operator} (hop : node.operator? = some op) (hc : op ≠ .constant)
    (hbinds : Binds node op s t) : Sourced suits (nodes ++ [node]) t := by
  obtain ⟨r, output, id, hprepared, rfl⟩ := hbinds
  have hadopts := hprepared.adopts
  have hproduces : ∀ name, node.Produces name ↔ output = name := by
    intro name
    rw [NodeRecord.produces_iff hop, hprepared.output, Except.ok.injEq]
    exact ⟨And.right, fun hname => ⟨hc, hname⟩⟩
  have hvalued : ∀ name, Valued r name ↔ Valued s name ∨ node.Takes name := by
    intro name
    rw [NodeRecord.takes_iff hop]
    constructor
    · rintro ⟨i, hi⟩
      rcases hadopts.fresh hi with hi | ⟨hname, -⟩
      · exact .inl ⟨i, hi⟩
      · exact .inr hname
    · rintro (hname | hname)
      · exact hadopts.valued hname
      · exact hprepared.taken name hname
  refine ⟨closed_bind hprepared.closed hprepared.lt output, fun name => ?_, fun name i hi => ?_⟩
  · rw [exists_mem_append, ← h.valued name, ← or_assoc, ← hvalued, hproduces]
    simp only [Valued, Table.value?_bind]
    by_cases hname : output = name
    · simp [hname]
    · simp [hname]
  · rw [exists_mem_append, hproduces]
    rw [Table.value?_bind] at hi
    split at hi
    · next hname => exact .inl (.inr hname)
    · rcases hadopts.fresh hi with hi | ⟨-, tensor, htensor, hholds⟩
      · rcases h.values name i hi with hproduced | ⟨tensor, htensor, hholds⟩
        · exact .inl (.inl hproduced)
        · exact .inr ⟨tensor, htensor, hholds.mono hadopts.graph⟩
      · exact .inr ⟨tensor, hsuits name tensor htensor, hholds⟩

theorem lowerNode (h : Sourced suits nodes s)
    (hsuits : ∀ name tensor, s.table.tensor? name = some tensor → suits name tensor)
    (hok : lowerNode opset node s = .ok () t) : Sourced suits (nodes ++ [node]) t := by
  rcases lowerNode_cases h.closed hok with ⟨hop, hfills⟩ | ⟨op, hop, hc, hbinds⟩
  · exact h.lower_constant hop hfills
  · exact h.lower_operator hsuits hop hc hbinds

end Sourced

theorem lowerNodes_append {opset : Int64} {nodes rest : List NodeRecord} :
    lowerNodes opset (nodes ++ rest) s = .ok () t ↔
      ∃ r, lowerNodes opset nodes s = .ok () r ∧ lowerNodes opset rest r = .ok () t := by
  induction nodes generalizing s with
  | nil =>
    constructor
    · exact fun h => ⟨s, rfl, h⟩
    · rintro ⟨r, hr, h⟩
      cases hr
      exact h
  | cons node nodes ih =>
    constructor
    · intro h
      obtain ⟨u, hu, h⟩ := forM_cons_eq_ok.1 h
      obtain ⟨r, hr, h⟩ := ih.1 h
      exact ⟨r, forM_cons_eq_ok.2 ⟨u, hu, hr⟩, h⟩
    · rintro ⟨r, hr, h⟩
      obtain ⟨u, hu, hr⟩ := forM_cons_eq_ok.1 hr
      exact forM_cons_eq_ok.2 ⟨u, hu, ih.2 ⟨r, hr, h⟩⟩

end Lowering

/-! ### The places of a load -/

/-- The load of a model into a graph comes to the node at `place`, or past the last node, with the
workspace `s`. -/
structure ComesTo (options : LoadOptions) (model : Description) (g : Graph) (place : Nat)
    (s : Workspace) : Prop where
  le : place ≤ model.graph.nodes.length
  run : (Lowering.seed options model >>= fun _ =>
    Lowering.lowerNodes model.opsetVersion (model.graph.nodes.take place)) { graph := g } = .ok () s

namespace ComesTo

variable {options : LoadOptions} {model : Description} {g : Graph} {place : Nat} {s : Workspace}

/-- What holds when `Lowering.seed` has filled the table of a load, and is kept by every node that
it lowers, holds at every place. -/
theorem induct {P : Nat → Workspace → Prop}
    (hseed : ∀ s, Lowering.seed options model { graph := g } = .ok () s → P 0 s)
    (hnode : ∀ place node s t, ComesTo options model g place s →
      Lowers options model g place node s t → P place s → P (place + 1) t)
    (h : ComesTo options model g place s) : P place s := by
  induction place generalizing s with
  | zero =>
    obtain ⟨_, r, hr, hrest⟩ := Step.bind_eq_ok.1 h.run
    cases hrest
    exact hseed s hr
  | succ place ih =>
    have hlt : place < model.graph.nodes.length := h.le
    obtain ⟨_, seeded, hseeded, hrest⟩ := Step.bind_eq_ok.1 h.run
    rw [← List.take_append_getElem hlt, Lowering.lowerNodes_append] at hrest
    obtain ⟨r, hr, hlast⟩ := hrest
    obtain ⟨t, hlast, hnil⟩ := Lowering.forM_cons_eq_ok.1 hlast
    cases hnil
    have hcomes : ComesTo options model g place r :=
      ⟨hlt.le, Step.bind_eq_ok.2 ⟨(), seeded, hseeded, hr⟩⟩
    exact hnode place _ r s hcomes ⟨List.getElem?_eq_getElem hlt, hcomes.run, hlast⟩ (ih hcomes)

/-- What holds of all tensors of a load (`suits`) tells where its values come from (`Sourced`). -/
theorem sourced {suits : String → Tensor → Prop}
    (hsuits : ∀ place s, ComesTo options model g place s → ∀ name tensor,
      s.table.tensor? name = some tensor → suits name tensor)
    (h : ComesTo options model g place s) :
    Lowering.Sourced suits (model.graph.nodes.take place) s := by
  refine h.induct (P := fun place s => Lowering.Sourced suits (model.graph.nodes.take place) s)
    (fun s hseed => ?_) (fun place node s t hs hl hsourced => ?_)
  · have hvalues := (Lowering.fills_of_seed hseed).values
    exact .of_values_eq (hvalues.trans Table.values_lendAll)
  · have hend := hsourced.lowerNode (hsuits place s hs) hl.lowered
    rwa [List.take_add_one, hl.found, Option.toList_some]

theorem closed (h : ComesTo options model g place s) : s.Closed := by
  have hsourced : Lowering.Sourced (fun _ _ => True) _ s := h.sourced fun _ _ _ _ _ _ => trivial
  exact hsourced.closed

end ComesTo

end TensorGraph
