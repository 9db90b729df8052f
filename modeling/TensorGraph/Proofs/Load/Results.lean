import TensorGraph.Proofs.Load.Outputs
import TensorGraph.Proofs.Lowering.Kinds

/-! # The ends of a load

No operator saves a value, so the nodes that a load adds while it lowers a model save nothing. The
declared outputs are then ended one by one, and only this adds save nodes: they are the last nodes
of the graph, in the order of the outputs, and no name stands for one of them. -/

namespace TensorGraph

open Onnx

/-! ### Lowering saves nothing -/

/-- Whether nodes of a kind do something else than saving a value. -/
def NodeKind.Unsaved (kind : NodeKind) : Prop := kind ≠ .save

/-- No operator uses the constructor that saves, so what it makes is `Unsaved`. -/
theorem Graph.Constructor.UsedBy.unsaved {op : Operator} {c : Graph.Constructor} (h : c.UsedBy op) :
    c.kind.Unsaved := by
  cases c with
  | save input => exact h.elim
  | _ => nofun

namespace Lowering

/-- Lowering a node by `lowerNode` saves nothing. -/
theorem addsOnly_of_lowerNode {opset : Int64} {node : NodeRecord} {s t : Workspace}
    (h : lowerNode opset node s = .ok () t) : s.graph.AddsOnly NodeKind.Unsaved t.graph := by
  obtain ⟨op, -, hstep⟩ := lowerNode_eq_ok.1 h
  have hadds : Adding NodeKind.Unsaved (step opset node op) :=
    adding_step (fun _ _ _ => nofun) (fun _ hused => hused.unsaved) opset node
  exact hadds.addsOnly_of_ok hstep

end Lowering

theorem ComesTo.addsOnly {options : LoadOptions} {model : Description} {g : Graph} {place : Nat}
    {s : Workspace} (h : ComesTo options model g place s) :
    g.AddsOnly NodeKind.Unsaved s.graph := by
  refine h.induct (P := fun _ s => g.AddsOnly NodeKind.Unsaved s.graph) (fun s hseed => ?_)
    fun place node s t _ hl hgs => hgs.trans (Lowering.addsOnly_of_lowerNode hl.lowered)
  rw [(Lowering.fills_of_seed hseed).graph]
  exact .refl g

/-! ### Save nodes -/

/-- The `node` saves the value that `name` has in `values`, and has its type. -/
def Graph.Saves (g : Graph) (values : NameMap NodeId) (name : String) (node : Node) : Prop :=
  ∃ id value, values.get? name = some id ∧ g.node id = .ok value ∧
    node = .saving name id value.type

/-- The handles in `bound` are those of the nodes of a list that begins at the place `start`, and
each node saves the value of its name. -/
structure Graph.SavesAll (g : Graph) (values : NameMap NodeId) (start : Nat)
    (bound : List (String × NodeId)) (ends : List Node) : Prop where
  places : bound.map (fun entry => entry.2.index) = List.range' start ends.length
  saves : List.Forall₂ (fun entry node => g.Saves values entry.1 node) bound ends

namespace Graph.SavesAll

variable {g : Graph} {values : NameMap NodeId} {start : Nat} {bound : List (String × NodeId)}
  {ends : List Node}

theorem nil : g.SavesAll values start [] [] := ⟨rfl, .nil⟩

theorem cons {name : String} {node : Node} (hnode : g.Saves values name node)
    (h : g.SavesAll values (start + 1) bound ends) :
    g.SavesAll values start ((name, ⟨start⟩) :: bound) (node :: ends) where
  places := by rw [List.map_cons, h.places, List.length_cons, List.range'_succ]
  saves := .cons hnode h.saves

end Graph.SavesAll

namespace Lowering

variable {s t : Workspace}

/-- Outputs are ended by `bindResult` in order, each by a node of its own, and the table stays as it
is. -/
theorem exists_ends_of_bindResult {outputs : List ValueRecord} {bound : List (String × NodeId)}
    (h : outputs.mapM bindResult s = .ok bound t) :
    t.table = s.table ∧ bound.map Prod.fst = outputs.map (·.name) ∧ s.graph.Extends t.graph ∧
      ∃ ends, t.graph.nodes = s.graph.nodes ++ ends ∧
        t.graph.SavesAll s.table.values s.graph.nodes.length bound ends := by
  induction outputs generalizing s bound with
  | nil =>
    cases h
    exact ⟨rfl, rfl, .refl _, [], (List.append_nil _).symm, .nil⟩
  | cons output outputs ih =>
    rw [List.mapM_cons] at h
    obtain ⟨entry, r, hentry, h⟩ := Step.bind_eq_ok.1 h
    obtain ⟨rest, u, hrest, h⟩ := Step.bind_eq_ok.1 h
    obtain ⟨rfl, rfl⟩ := Step.pure_eq_ok.1 h
    obtain ⟨id, value, hid, hvalue, rfl, rfl⟩ := bindResult_eq_ok.1 hentry
    obtain ⟨htable, hnames, hext, ends, hnodes, hsaves⟩ := ih hrest
    -- The value is found in the graph that is grown further, too.
    have hgrown := (s.graph.extends_push (.saving output.name id value.type)).trans hext
    have hfirst : u.graph.Saves s.table.values output.name (.saving output.name id value.type) :=
      ⟨id, value, hid, hgrown.node_eq hvalue, rfl⟩
    refine ⟨htable, congrArg (output.name :: ·) hnames, hgrown,
      .saving output.name id value.type :: ends, ?_, .cons hfirst ?_⟩
    · rw [hnodes, Graph.push, List.append_assoc, List.singleton_append]
    · rwa [Graph.push, List.length_append, List.length_singleton] at hsaves

end Lowering

/-! ### The outputs of a load -/

/-- After a load the graph `h` has the nodes that lowering added, `lowered`, which save nothing, and
last the nodes `ends` that save the declared outputs, in their order. All names stand for earlier
nodes. -/
structure EndsOutputs (model : Description) (g h : Graph) (loaded : Loaded)
    (lowered ends : List Node) : Prop where
  nodes : h.nodes = g.nodes ++ lowered ++ ends
  unsaved : ∀ node ∈ lowered, node.kind ≠ .save
  names : loaded.outputs.map Prod.fst = model.graph.outputs.map (·.name)
  saved : h.SavesAll loaded.values (g.nodes ++ lowered).length loaded.outputs ends
  values_lt : ∀ name id, loaded.values.get? name = some id → id.index < (g.nodes ++ lowered).length

section Load

variable {options : LoadOptions} {model : Description} {g h : Graph} {loaded : Loaded}

/-- **A load ends the declared outputs.** If outputs are bound, it reports them in the order of
their declaration, repeated names included, with the handles of the last nodes of the graph; these
save the values of the names, and no other save nodes are added (`EndsOutputs`). If outputs are not
bound, it reports none and adds no save nodes. -/
theorem load_ends_outputs (hload : load options model g = (.ok loaded, h)) :
    (options.outputs = true → ∃ lowered ends, EndsOutputs model g h loaded lowered ends) ∧
    (options.outputs = false → loaded.outputs = [] ∧
      ∃ lowered, h.nodes = g.nodes ++ lowered ∧ ∀ node ∈ lowered, node.kind ≠ .save) := by
  obtain ⟨s, t, hs, hfinish, hvalues, rfl⟩ := exists_finish_of_load hload
  obtain ⟨lowered, hlowered, hunsaved⟩ := hs.comesTo.addsOnly.added
  constructor
  · intro hon
    have hbinds : model.graph.outputs.mapM Lowering.bindResult s = .ok loaded.outputs t := by
      rw [Lowering.finish, hon, if_pos rfl] at hfinish
      exact (Lowering.bindResults_eq_ok.1 hfinish).2
    obtain ⟨htable, hnames, -, ends, hends, hsaves⟩ := Lowering.exists_ends_of_bindResult hbinds
    refine ⟨lowered, ends, ⟨?_, hunsaved, hnames, ?_, ?_⟩⟩
    · rw [hends, hlowered]
    · rwa [hvalues, htable, ← hlowered]
    · intro name id hid
      rw [hvalues, htable] at hid
      rw [← hlowered]
      exact hs.comesTo.closed name id hid
  · intro hoff
    rw [Lowering.finish, hoff] at hfinish
    obtain ⟨hnone, rfl⟩ := Step.pure_eq_ok.1 hfinish
    exact ⟨hnone.symm, lowered, hlowered, hunsaved⟩

end Load

/-- A graph in which a parameter is saved already. -/
def savedBefore : Graph :=
  Step.after (do
    let x ← Build.parameter "x" ⟨[1], .zeros .float 1, rfl⟩
    Build.save "save_x" x) (.empty "g")

/-- A model with two values, the second of which is declared as an output twice. -/
def outputTwice : Description where
  irVersion := 8
  opsetVersion := 13
  graph := {
    nodes := [constantNode, { inputs := ["y"], outputs := ["z"], opType := "Relu" }]
    outputs := [{ name := "z" }, { name := "y" }, { name := "z" }] }

/-- The first value is saved once and the second one twice. -/
theorem load_ends_outputs_twice : ∃ loaded h lowered ends,
    load .standalone outputTwice savedBefore = (.ok loaded, h) ∧
      LoadOptions.standalone.outputs = true ∧
      EndsOutputs outputTwice savedBefore h loaded lowered ends ∧
      loaded.outputs.map Prod.fst = ["z", "y", "z"] := by
  have hload : load .standalone outputTwice savedBefore = (.ok _, _) := rfl
  obtain ⟨lowered, ends, hends⟩ := (load_ends_outputs hload).1 rfl
  exact ⟨_, _, lowered, ends, hload, rfl, hends, hends.names⟩

end TensorGraph
