import TensorGraph.Load.Loader
import TensorGraph.Proofs.Graph.Order
import TensorGraph.Proofs.Graph.Relocation
import TensorGraph.Proofs.Load.Table
import TensorGraph.Proofs.Lowering.Lockstep

/-! # The same load into two graphs

Two graphs that are built in any way are loaded into with the same options and the same model. At
every point of the two runs the tables hold the same tensors, their graph values correspond to each
other, and the same nodes have been added to both graphs. The runs therefore fail with the same
error, or both succeed with the same result up to the places of the added nodes. -/

namespace TensorGraph

open Onnx (NodeRecord)
open Step (Agree)
open TensorGraph.Graph (Corresponds Twin linking_twin)

/-! ### Tables that correspond to each other -/

/-- Tables with the same tensors, and with graph values related by `ids` for the same names. -/
structure Table.Paired (ids : NodeId → NodeId → Prop) (t t' : Table) : Prop where
  tensors : t.tensors = t'.tensors
  values : ∀ name, Option.Rel ids (t.value? name) (t'.value? name)

namespace Table.Paired

variable {ids : NodeId → NodeId → Prop} {t t' : Table} (htt' : t.Paired ids t')
include htt'

theorem tensor?_eq (name : String) : t.tensor? name = t'.tensor? name := by
  rw [tensor?, tensor?, htt'.tensors]

theorem isLent_eq (name : String) : t.isLent name = t'.isLent name := by
  rw [isLent, isLent, htt'.tensors]

theorem mono {ids' : NodeId → NodeId → Prop} (h : ∀ i j, ids i j → ids' i j) :
    t.Paired ids' t' where
  tensors := htt'.tensors
  values name := by
    have hvalue := htt'.values name
    revert hvalue
    cases t.value? name <;> cases t'.value? name <;> intro hvalue <;> cases hvalue
    · exact .none
    · next hij => exact .some (h _ _ hij)

theorem sameFor (name : String) : t.SameFor t' name where
  tensor := htt'.tensor?_eq name
  value _ := by
    have hvalue := htt'.values name
    revert hvalue
    cases t.value? name <;> cases t'.value? name <;> intro hvalue <;> cases hvalue <;> rfl

/-! ### Filling both tables -/

theorem bind {i j : NodeId} (hij : ids i j) (name : String) :
    (t.bind name i).Paired ids (t'.bind name j) where
  tensors := htt'.tensors
  values other := by
    rw [value?_bind, value?_bind]
    split
    · exact .some hij
    · exact htt'.values other

theorem insert (name : String) (tensor : Tensor) :
    (t.insert name tensor).Paired ids (t'.insert name tensor) := by
  unfold Table.insert
  rw [htt'.isLent_eq]
  split
  · exact htt'
  · refine ⟨?_, htt'.values⟩
    show t.tensors.insert _ _ = t'.tensors.insert _ _
    rw [htt'.tensors]

theorem lendAll (tensors : List (String × Tensor)) :
    (t.lendAll tensors).Paired ids (t'.lendAll tensors) := by
  induction tensors generalizing t t' with
  | nil => exact htt'
  | cons e tensors ih =>
    have hlend : (t.lend e.1 e.2).Paired ids (t'.lend e.1 e.2) := by
      refine ⟨?_, htt'.values⟩
      show t.tensors.insert _ _ = t'.tensors.insert _ _
      rw [htt'.tensors]
    exact ih hlend

theorem storeInitializer (record : Onnx.TensorRecord) :
    Matches (Table.Paired ids) (t.storeInitializer record) (t'.storeInitializer record) := by
  unfold Table.storeInitializer
  rw [htt'.isLent_eq]
  split
  · exact .ok htt'
  · exact .bind_same fun tensor _ => .ok (htt'.insert record.name tensor)

theorem declareInput (limit : Nat) (record : Onnx.ValueRecord) :
    Matches (Table.Paired ids) (t.declareInput limit record) (t'.declareInput limit record) := by
  unfold Table.declareInput
  rw [htt'.tensors]
  split
  · exact .ok htt'
  · exact .bind_same fun tensor _ => .ok (htt'.insert record.name tensor)

end Table.Paired

/-- Outputs with the same names, and with nodes related by `ids` that end them. -/
def OutputsAlike (ids : NodeId → NodeId → Prop) :
    List (String × NodeId) → List (String × NodeId) → Prop :=
  List.Forall₂ fun output output' => output.1 = output'.1 ∧ ids output.2 output'.2

/-- What loads tell, the same up to nodes related by `ids`. -/
structure Loaded.Alike (ids : NodeId → NodeId → Prop) (l l' : Loaded) : Prop where
  irVersion : l.irVersion = l'.irVersion
  opsetVersion : l.opsetVersion = l'.opsetVersion
  outputs : OutputsAlike ids l.outputs l'.outputs
  values : ∀ name, Option.Rel ids (l.values.get? name) (l'.values.get? name)

/-! ### Two runs -/

namespace Lowering

/-- Two workspaces of runs that began with the graphs `b` and `b'`. -/
structure Paired (b b' : Graph) (s t : Workspace) : Prop where
  twin : Twin b b' s.graph t.graph
  table : s.table.Paired (Corresponds b b' s.graph) t.table

section Tandem

variable {b b' : Graph} {w : Graph × Graph} {α : Type}

theorem carries_paired (b b' : Graph) : Carries (Paired b b') (Twin b b') where
  linked hst := hst.twin
  graph hst htwin hg _ := ⟨htwin, hst.table.mono fun _ _ hij => hij.mono hg⟩

theorem tandem_table : Lockstep (Paired b b') w table table fun w' t t' =>
    w' = w ∧ t.Paired (Corresponds b b' w.1) t' :=
  lockstep_table (fun t t' => t.Paired (Corresponds b b' w.1) t') fun s t hst hw => by
    subst hw
    exact hst.table

theorem tandem_updateTable {update update' : Table → Except LoadError Table}
    (h : ∀ t t', t.Paired (Corresponds b b' w.1) t' →
      Matches (Table.Paired (Corresponds b b' w.1)) (update t) (update' t')) :
    Lockstep (Paired b b') w (updateTable update) (updateTable update') fun _ _ _ => True := by
  refine lockstep_updateTable fun s t hst hw => ?_
  subst hw
  have hend := h s.table t.table hst.table
  revert hend
  cases update s.table <;> cases update' t.table <;> intro hend <;> cases hend
  · exact .error _
  · next hend => exact .ok ⟨hst.twin, hend⟩

/-! ### The parts of lowerings -/

/-- A name has corresponding graph values (`Corresponds`) in both runs, or its tensor is added to
both graphs. -/
theorem tandem_value (name : String) :
    Lockstep (Paired b b') w (value name) (value name) fun w' i j => Corresponds b b' w'.1 i j := by
  rintro s t hst rfl
  have hvalue := hst.table.values name
  unfold value
  rw [hst.table.tensor?_eq]
  revert hvalue
  cases s.table.value? name <;> cases t.table.value? name <;> intro hvalue <;> cases hvalue
  · cases t.table.tensor? name with
    | none => exact .error _ s t
    | some tensor =>
      have hd : Graph.Draft.Relocated (Corresponds b b' s.graph) s.graph t.graph (.parameter tensor)
          (.parameter tensor) := ⟨rfl, .nil, tensor.type, rfl, rfl⟩
      have hgrown := s.graph.extends_add name (.parameter tensor)
      have hend := hst.twin.added_end name (.parameter tensor)
      simp only [Graph.add_fst]
      refine .ok ⟨⟨hst.twin.add hd name, ?_⟩, ⟨hgrown, t.graph.extends_add _ _⟩, hend⟩
      exact (hst.table.mono fun i j hij => hij.mono hgrown).bind hend name
  · next hij => exact .ok ⟨hst, le_refl _, hij⟩

theorem tandem_bindOutput {i j : NodeId} (hij : Corresponds b b' w.1 i j) (node : NodeRecord) :
    Lockstep (Paired b b') w (bindOutput node i) (bindOutput node j) fun _ _ _ => True :=
  lockstep_lift _ fun name _ => tandem_updateTable fun _ _ htt' => .ok (htt'.bind hij name)

end Tandem

/-- The coupling of two runs that began with the graphs `b` and `b'`. -/
def relocation (b b' : Graph) (node : NodeRecord) (op : Operator) :
    Coupling (Graph × Graph) node op :=
  lockstepping (carries_paired b b') (linking_twin b b') (fun _ => tandem_value _)
    (fun _ hst => hst.table.sameFor _) fun hij => tandem_bindOutput hij node

/-! ### The phases of a load -/

section Phases

variable {b b' : Graph} {w : Graph × Graph} {α : Type}

theorem tandem_seed (options : LoadOptions) (model : Description) :
    Lockstep (Paired b b') w (seed options model) (seed options model) fun _ _ _ => True := by
  have hdeclare : ∀ w, Lockstep (Paired b b') w (declareInputs options.limit model.graph.inputs)
      (declareInputs options.limit model.graph.inputs) fun _ _ _ => True :=
    fun w => lockstep_forM fun w record _ =>
      tandem_updateTable fun _ _ htt' => htt'.declareInput options.limit record
  have hstore : ∀ w, Lockstep (Paired b b') w (storeInitializers model.graph.initializers)
      (storeInitializers model.graph.initializers) fun _ _ _ => True :=
    fun w => lockstep_forM fun w record _ =>
      tandem_updateTable fun _ _ htt' => htt'.storeInitializer record
  refine (tandem_updateTable fun _ _ htt' => .ok (htt'.lendAll options.lent)).bind
    fun w₁ _ _ _ _ => ?_
  split
  · exact (hstore w₁).bind fun w₂ _ _ _ _ => hdeclare w₂
  · exact hdeclare w₁

theorem tandem_storeConstant (node : NodeRecord) :
    Lockstep (Paired b b') w (storeConstant node) (storeConstant node) fun _ _ _ => True := by
  refine lockstep_lift _ fun name _ => tandem_table.bind fun w' t t' _ h => ?_
  rw [h.2.isLent_eq]
  split
  · exact lockstep_pure trivial
  · refine lockstep_lift _ fun record _ => lockstep_lift _ fun tensor _ => ?_
    exact tandem_updateTable fun _ _ htt' => .ok (htt'.insert name tensor)

theorem tandem_step (opset : Int64) (node : NodeRecord) (op : Operator) :
    Lockstep (Paired b b') w (step opset node op) (step opset node op) fun _ _ _ => True := by
  by_cases hop : op = .constant
  · subst hop
    exact tandem_storeConstant node
  · exact (relocation b b' node op).ends_step hop opset

theorem tandem_lowerNode (opset : Int64) (node : NodeRecord) :
    Lockstep (Paired b b') w (lowerNode opset node) (lowerNode opset node) fun _ _ _ => True :=
  lockstep_lowerNode fun op _ => tandem_step opset node op

theorem tandem_lowerModel (options : LoadOptions) (model : Description) :
    Lockstep (Paired b b') w (lowerModel options model) (lowerModel options model) fun w' =>
      Loaded.Alike (Corresponds b b' w'.1) := by
  refine (tandem_seed options model).bind fun w₁ _ _ _ _ => ?_
  refine (lockstep_forM fun w node _ => tandem_lowerNode _ node).bind fun w₂ _ _ _ _ => ?_
  have hfinish : Lockstep (Paired b b') w₂ (finish options model) (finish options model) fun w' =>
      OutputsAlike (Corresponds b b' w'.1) :=
    lockstep_finish (fun hw hij => hij.mono hw.1) (fun hst => hst.table.values)
      (fun name hij => lockstep_create (carries_paired b b') (linking_twin b b') (.save hij) name)
      rfl rfl
  refine hfinish.bind fun w₃ outputs outputs' _ houtputs => ?_
  refine tandem_table.bind fun w₄ t t' _ h => ?_
  obtain ⟨rfl, htt'⟩ := h
  exact lockstep_pure ⟨rfl, rfl, houtputs, htt'.values⟩

end Phases

end Lowering

/-! ### Loads -/

/-- What two graphs are after the same load: both have grown by the same nodes, and what the loads
tell is the same up to the places of these nodes. -/
structure LoadedAlike (g g' h h' : Graph) (l l' : Loaded) : Prop where
  left : g.Extends h
  right : g'.Extends h'
  nodes : ∃ added added', h.nodes = g.nodes ++ added ∧ h'.nodes = g'.nodes ++ added' ∧
    List.Forall₂ (Graph.Relocated (Corresponds g g' h) h h') added added'
  told : Loaded.Alike (Corresponds g g' h) l l'

section Load

variable {g g' : Graph}

/-- **A load is relocatable.** Whatever two reachable graphs hold, the same load fails for both with
the same error, or succeeds for both (`LoadedAlike`): it adds nodes that agree one by one in name,
kind and type, whose operands are added nodes at the same distance from the beginning; the outputs
and the values of all names are the same after the same shift; and both graphs keep what they
held. -/
theorem matches_load (hg : g.Reachable) (hg' : g'.Reachable) (options : LoadOptions)
    (model : Description) :
    Matches (LoadedAlike g g' (load options model g).2 (load options model g').2)
      (load options model g).1 (load options model g').1 := by
  have hpaired : Lowering.Paired g g' { graph := g } { graph := g' } :=
    ⟨.refl hg.indexed hg'.indexed, rfl, fun _ => .none⟩
  have hend := Lowering.tandem_lowerModel options model _ _ hpaired rfl
  unfold load
  revert hend
  cases Lowering.lowerModel options model { graph := g } <;>
    cases Lowering.lowerModel options model { graph := g' } <;> intro hend <;> cases hend
  · next hend =>
    have htwin := hend.paired.twin
    exact .ok ⟨htwin.left, htwin.right, htwin.forall₂_added, hend.rel⟩
  · exact .error _

end Load

/-! ### A load into a graph that is in use -/

/-- A model with the output `z = x + relu x`, whose type is also the one of the transposition. -/
def doubled : Description where
  irVersion := 8
  opsetVersion := 13
  graph := {
    nodes := [{ inputs := ["x"], outputs := ["y"], opType := "Relu" },
      { inputs := ["x", "y"], outputs := ["z"], opType := "Add" }]
    inputs := [{
      name := "x"
      type := some { tensorType := some {
        elementType := Onnx.floatCode
        shape := some { dims := [2, 1].map fun size => { size := some (.fixed size) } } } } }]
    outputs := [{ name := "z" }] }

/-- Loaded into an empty graph and into a graph that is in use, the model gives the same nodes: they
have other places, and the type of the result is found among the types there are. -/
theorem matches_load_occupied :
    let free : Graph := .empty "g"
    let occupied : Graph := .transposed
    ∃ l l', (load .standalone doubled free).1 = .ok l ∧
      (load .standalone doubled occupied).1 = .ok l' ∧
      LoadedAlike free occupied (load .standalone doubled free).2
        (load .standalone doubled occupied).2 l l' ∧
      l.outputs = [("z", ⟨3⟩)] ∧ l'.outputs = [("z", ⟨5⟩)] ∧
      (load .standalone doubled free).2.types.length = 1 ∧
      (load .standalone doubled occupied).2.types.length = 2 := by
  intro free occupied
  have hoccupied : occupied.Reachable := .operate (.operate (.empty "g") _) _
  have hmatches := matches_load (.empty "g") hoccupied .standalone doubled
  have hl : (load .standalone doubled free).1.toOption.map Loaded.outputs = some [("z", ⟨3⟩)] := by
    decide +kernel
  have hl' : (load .standalone doubled occupied).1.toOption.map Loaded.outputs =
      some [("z", ⟨5⟩)] := by
    decide +kernel
  have htypes : (load .standalone doubled free).2.types.length = 1 := by decide +kernel
  have htypes' : (load .standalone doubled occupied).2.types.length = 2 := by decide +kernel
  revert hmatches hl hl'
  generalize hr : (load .standalone doubled free).1 = result
  generalize hr' : (load .standalone doubled occupied).1 = result'
  intro hmatches hl hl'
  cases hmatches with
  | @ok l l' halike =>
    exact ⟨l, l', rfl, rfl, halike, Option.some.inj hl, Option.some.inj hl', htypes, htypes'⟩
  | error e => cases hl

end TensorGraph
