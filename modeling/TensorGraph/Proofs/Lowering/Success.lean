import TensorGraph.Lowering.Operator
import TensorGraph.Proofs.Check
import TensorGraph.Proofs.Graph.Operation
import TensorGraph.Proofs.Load.Table

/-! # When lowering steps succeed

For each part that lowering steps are put together from: when it succeeds, with which result, and
in which workspace it then ends. -/

namespace TensorGraph

/-- The names that have a graph value (`value?`) stand for nodes that are there. -/
def Workspace.Closed (s : Workspace) : Prop :=
  ∀ name id, s.table.value? name = some id → id.index < s.graph.nodes.length

namespace Lowering

open Onnx (NodeRecord)

variable {α : Type} {s t : Workspace} {a : α}

theorem ofExcept_eq_ok {result : Except LoadError α} :
    ofExcept result s = .ok a t ↔ result = .ok a ∧ t = s := by
  unfold ofExcept
  cases result with
  | ok b =>
    constructor
    · intro he; cases he; exact ⟨rfl, rfl⟩
    · rintro ⟨he, rfl⟩; cases he; rfl
  | error e => simp

theorem lift_eq_ok {result : Except LoadError α} :
    (liftM result : Lowering α) s = .ok a t ↔ result = .ok a ∧ t = s :=
  ofExcept_eq_ok

theorem liftAttribute_eq_ok {result : Except Onnx.AttributeError α} :
    (liftM result : Lowering α) s = .ok a t ↔ result = .ok a ∧ t = s := by
  show ofExcept (result.mapError .attribute) s = .ok a t ↔ _
  rw [ofExcept_eq_ok, mapError_eq_ok]

theorem table_eq_ok {known : Table} : table s = .ok known t ↔ known = s.table ∧ t = s := by
  unfold table
  constructor
  · intro he; cases he; exact ⟨rfl, rfl⟩
  · rintro ⟨rfl, rfl⟩; rfl

/-- A step on the graph leaves the `table` as it is. -/
theorem onGraph_eq_ok {step : Build α} : (liftM step : Lowering α) s = .ok a t ↔
    ∃ g, step s.graph = .ok a g ∧ t = { s with graph := g } := by
  show onGraph step s = .ok a t ↔ _
  unfold onGraph
  cases step s.graph with
  | ok b g =>
    constructor
    · intro he; cases he; exact ⟨g, rfl, rfl⟩
    · rintro ⟨_, he, rfl⟩; cases he; rfl
  | error e g => simp

theorem read_eq_ok {query : Graph → Except GraphError α} :
    (liftM (Build.read query) : Lowering α) s = .ok a t ↔ query s.graph = .ok a ∧ t = s := by
  rw [onGraph_eq_ok]
  constructor
  · rintro ⟨g, hread, rfl⟩
    obtain ⟨hquery, rfl⟩ := Build.read_eq_ok.1 hread
    exact ⟨hquery, rfl⟩
  · rintro ⟨hquery, rfl⟩
    exact ⟨_, Build.read_eq_ok.2 ⟨hquery, rfl⟩, rfl⟩

theorem dims_eq_ok {id : NodeId} {shape : List Nat} :
    dims id s = .ok shape t ↔ s.graph.dims id = .ok shape ∧ t = s := read_eq_ok

theorem updateTable_eq_ok {update : Table → Except LoadError Table} {u : Unit} :
    updateTable update s = .ok u t ↔ ∃ known, update s.table = .ok known ∧
      t = { s with table := known } := by
  unfold updateTable
  cases update s.table with
  | ok known =>
    constructor
    · intro he; cases he; exact ⟨known, rfl, rfl⟩
    · rintro ⟨_, he, rfl⟩; cases he; rfl
  | error e => simp

theorem bindOutput_eq_ok {node : NodeRecord} {id : NodeId} {u : Unit} :
    bindOutput node id s = .ok u t ↔ ∃ name, node.output = .ok name ∧
      t = { s with table := s.table.bind name id } := by
  unfold bindOutput
  rw [Step.bind_eq_ok]
  simp only [lift_eq_ok, updateTable_eq_ok]
  constructor
  · rintro ⟨name, _, ⟨hname, rfl⟩, _, hend, rfl⟩
    cases hend
    exact ⟨name, hname, rfl⟩
  · rintro ⟨name, hname, rfl⟩
    exact ⟨name, _, ⟨hname, rfl⟩, _, rfl, rfl⟩

/-! ### Nodes and values -/

/-- A node is created when its `rule` drafts it. -/
theorem create_eq_ok {name : String} {rule : Graph → Except GraphError Draft} {id : NodeId} :
    (liftM (Build.create name rule) : Lowering NodeId) s = .ok id t ↔
      ∃ draft, rule s.graph = .ok draft ∧ id = ⟨s.graph.nodes.length⟩ ∧
        t = { s with graph := (s.graph.add name draft).2 } := by
  rw [onGraph_eq_ok]
  constructor
  · rintro ⟨g, hg, rfl⟩
    obtain ⟨draft, hd, rfl, rfl⟩ := Build.create_eq_ok.1 hg
    exact ⟨draft, hd, rfl, rfl⟩
  · rintro ⟨draft, hd, rfl, rfl⟩
    exact ⟨_, Build.create_eq_ok.2 ⟨draft, hd, rfl, rfl⟩, rfl⟩

theorem intern_eq_ok {type : ValueType} {ref : TypeRef} :
    (liftM (Build.intern type) : Lowering TypeRef) s = .ok ref t ↔
      ref = (s.graph.intern type).1 ∧ t = { s with graph := (s.graph.intern type).2 } := by
  rw [onGraph_eq_ok]
  constructor
  · rintro ⟨g, hg, rfl⟩
    cases hg
    exact ⟨rfl, rfl⟩
  · rintro ⟨rfl, rfl⟩
    exact ⟨_, rfl, rfl⟩

/-- A name has a graph value (`value?`) already, or its tensor becomes a parameter. -/
theorem value_eq_ok {name : String} {id : NodeId} :
    value name s = .ok id t ↔ (s.table.value? name = some id ∧ t = s) ∨
      (s.table.value? name = none ∧ id = ⟨s.graph.nodes.length⟩ ∧
        ∃ tensor, s.table.tensor? name = some tensor ∧ t = {
          graph := (s.graph.add name (.parameter tensor)).2
          table := s.table.bind name id }) := by
  unfold value
  cases hv : s.table.value? name with
  | some known =>
    constructor
    · intro h; cases h; exact .inl ⟨rfl, rfl⟩
    · rintro (⟨h, rfl⟩ | ⟨h, -⟩)
      · cases h; rfl
      · cases h
  | none =>
    cases ht : s.table.tensor? name with
    | none =>
      constructor
      · intro h; cases h
      · rintro (⟨h, -⟩ | ⟨-, -, tensor, h, -⟩) <;> cases h
    | some tensor =>
      simp only
      rw [Graph.add_fst, EStateM.Result.ok.injEq]
      constructor
      · rintro ⟨rfl, rfl⟩; exact .inr ⟨trivial, rfl, tensor, rfl, rfl⟩
      · rintro (⟨h, -⟩ | ⟨-, rfl, _, h, rfl⟩)
        · cases h
        · cases h; exact ⟨rfl, rfl⟩

theorem extends_of_value {name : String} {id : NodeId} (h : value name s = .ok id t) :
    s.graph.Extends t.graph := by
  rcases value_eq_ok.1 h with ⟨-, rfl⟩ | ⟨-, -, tensor, -, rfl⟩
  · exact .refl _
  · exact Graph.extends_add _ _ _

theorem input_eq_ok {node : NodeRecord} {position : Nat} {name : String} :
    node.input position = .ok name ↔ node.input? position = some name := by
  rw [NodeRecord.input, found_eq_ok]

theorem inputValue_eq_ok {node : NodeRecord} {position : Nat} {id : NodeId} :
    inputValue node position s = .ok id t ↔
      ∃ name, node.input? position = some name ∧ value name s = .ok id t := by
  unfold inputValue
  simp only [Step.bind_eq_ok, lift_eq_ok, input_eq_ok]
  constructor
  · rintro ⟨name, _, ⟨hname, rfl⟩, h⟩
    exact ⟨name, hname, h⟩
  · rintro ⟨name, hname, h⟩
    exact ⟨name, _, ⟨hname, rfl⟩, h⟩

theorem index_lt_of_inputValue {node : NodeRecord} {position : Nat} {id : NodeId} (hs : s.Closed)
    (h : inputValue node position s = .ok id t) : id.index < t.graph.nodes.length := by
  obtain ⟨name, -, h⟩ := inputValue_eq_ok.1 h
  rcases value_eq_ok.1 h with ⟨hvalue, rfl⟩ | ⟨-, rfl, tensor, -, rfl⟩
  · exact hs name id hvalue
  · simp [Graph.nodes_add]

/-- An input that may be left out is resolved if it is given. -/
theorem mapM_value_eq_ok {given : Option String} {result : Option NodeId} :
    given.mapM value s = .ok result t ↔
      (given = none ∧ result = none ∧ t = s) ∨
        ∃ name id, given = some name ∧ result = some id ∧ value name s = .ok id t := by
  cases given with
  | none =>
    simp only [Option.mapM_none, Step.pure_eq_ok]
    constructor
    · rintro ⟨rfl, rfl⟩
      exact .inl ⟨trivial, rfl, rfl⟩
    · rintro (⟨-, rfl, rfl⟩ | ⟨_, _, h, -⟩)
      · exact ⟨rfl, rfl⟩
      · cases h
  | some name =>
    rw [Option.mapM_some, map_eq_pure_bind]
    simp only [Step.bind_eq_ok, Step.pure_eq_ok]
    constructor
    · rintro ⟨id, _, h, rfl, rfl⟩
      exact .inr ⟨name, id, rfl, rfl, h⟩
    · rintro (⟨h, -⟩ | ⟨_, id, h, rfl, hid⟩)
      · cases h
      · cases h
        exact ⟨id, t, hid, rfl, rfl⟩

/-! ### Constants -/

theorem constant_eq_ok {name : String} {tensor : Tensor} :
    constant name s = .ok tensor t ↔ s.table.tensor? name = some tensor ∧ t = s := by
  unfold constant
  simp only [Step.bind_eq_ok, table_eq_ok, lift_eq_ok, Table.constant_eq_ok]
  constructor
  · rintro ⟨_, _, ⟨rfl, rfl⟩, htensor, rfl⟩
    exact ⟨htensor, rfl⟩
  · rintro ⟨htensor, rfl⟩
    exact ⟨_, _, ⟨rfl, rfl⟩, htensor, rfl⟩

/-- Numbers are read by `constantIndices` from the index tensor of the name only, never from a graph
value. -/
theorem constantIndices_eq_ok {role name : String} {numbers : List Int64} :
    constantIndices role name s = .ok numbers t ↔ (∃ tensor values,
      s.table.tensor? name = some tensor ∧ tensor.indices? = some values ∧
        values.toList = numbers) ∧ t = s := by
  unfold constantIndices
  simp only [Step.bind_eq_ok, table_eq_ok]
  constructor
  · rintro ⟨known, r, ⟨rfl, rfl⟩, hend⟩
    cases hname : r.table.lookup? name with
    | none => rw [hname] at hend; cases hend
    | some operand =>
      rw [hname] at hend
      cases operand with
      | value id => cases hend
      | tensor tensor =>
        simp only [Step.bind_eq_ok, lift_eq_ok, found_eq_ok, Step.pure_eq_ok] at hend
        obtain ⟨values, _, ⟨hvalues, rfl⟩, hnumbers, rfl⟩ := hend
        exact ⟨⟨tensor, values, Table.lookup?_eq_tensor.1 hname, hvalues, hnumbers⟩, rfl⟩
  · rintro ⟨⟨tensor, values, htensor, hvalues, hnumbers⟩, rfl⟩
    refine ⟨_, _, ⟨rfl, rfl⟩, ?_⟩
    simp only [Table.lookup?_eq_tensor.2 htensor, Step.bind_eq_ok, lift_eq_ok, found_eq_ok,
      Step.pure_eq_ok]
    exact ⟨values, _, ⟨hvalues, rfl⟩, hnumbers, rfl⟩

/-! ### Attributes and operators -/

/-- Entries of a list that are looked up one after the other. -/
theorem mapM_liftAttribute_eq_ok {β γ : Type} {f : β → Except Onnx.AttributeError γ} {l : List β}
    {m : List γ} : (l.mapM fun b => (liftM (f b) : Lowering γ)) s = .ok m t ↔
      List.Forall₂ (fun b c => f b = .ok c) l m ∧ t = s := by
  induction l generalizing m with
  | nil =>
    rw [List.mapM_nil, Step.pure_eq_ok, List.forall₂_nil_left_iff]
    exact and_congr eq_comm eq_comm
  | cons b l ih =>
    simp only [List.mapM_cons, Step.bind_eq_ok, liftAttribute_eq_ok, Step.pure_eq_ok]
    constructor
    · rintro ⟨c, _, ⟨hc, rfl⟩, n, _, hn, rfl, rfl⟩
      obtain ⟨hrest, rfl⟩ := ih.1 hn
      exact ⟨.cons hc hrest, rfl⟩
    · rintro ⟨_ | ⟨hc, hrest⟩, rfl⟩
      exact ⟨_, _, ⟨hc, rfl⟩, _, _, ih.2 ⟨hrest, rfl⟩, rfl, rfl⟩

theorem lower_eq_ok_true {opset : Int64} {node : NodeRecord} {op : Operator}
    (hop : node.operator? = some op) :
    lower opset node s = .ok true t ↔ step opset node op s = .ok () t := by
  unfold lower
  rw [hop]
  refine Step.bind_eq_ok.trans ?_
  constructor
  · rintro ⟨u, r, h, hend⟩
    obtain ⟨-, rfl⟩ := Step.pure_eq_ok.1 hend
    exact h
  · intro h
    exact ⟨(), t, h, rfl⟩

end Lowering
end TensorGraph
