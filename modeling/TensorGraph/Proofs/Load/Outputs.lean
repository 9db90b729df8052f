import TensorGraph.Proofs.Load.Values

/-! # Which outputs are bound

When all nodes have been lowered, the declared outputs are ended by save nodes. A name is bound when
it has a graph value: when some node takes it as a value or, not being a constant, produces it. A
constant, a stored tensor or a declared input that no node takes as a value has a tensor but no
graph value, so that binding fails although the name is defined. -/

namespace TensorGraph

open Onnx

/-! ### Binding one output after the other -/

/-- The node that saves `value`, of the type `type`, for a name. -/
def Node.saving (name : String) (value : NodeId) (type : TypeRef) : Node :=
  ⟨"save_" ++ name, .save, [value], type⟩

theorem Draft.save_eq_ok {g : Graph} {id : NodeId} {draft : Draft} :
    Draft.save g id = .ok draft ↔
      ∃ value, g.node id = .ok value ∧ draft = ⟨.save, [id], .ofRef value.type⟩ := by
  simp only [Draft.save, bind_eq_ok, pure_eq_ok, eq_comm (b := draft)]

namespace Lowering

variable {s t : Workspace}

/-- **An output is ended** by `bindResult` with the next node, which saves the value of its name
(`Node.saving`). -/
theorem bindResult_eq_ok {output : ValueRecord} {entry : String × NodeId} :
    bindResult output s = .ok entry t ↔ ∃ id value, s.table.value? output.name = some id ∧
      s.graph.node id = .ok value ∧ entry = (output.name, ⟨s.graph.nodes.length⟩) ∧
      t = { s with graph := (s.graph.push (.saving output.name id value.type)).2 } := by
  unfold bindResult Build.save
  simp only [Step.bind_eq_ok, table_eq_ok, lift_eq_ok, found_eq_ok, create_eq_ok, Step.pure_eq_ok,
    Draft.save_eq_ok]
  constructor
  · rintro ⟨_, _, ⟨rfl, rfl⟩, id, _, ⟨hid, rfl⟩, _, _, ⟨_, ⟨value, hvalue, rfl⟩, rfl, rfl⟩, rfl,
      rfl⟩
    exact ⟨id, value, hid, hvalue, rfl, rfl⟩
  · rintro ⟨id, value, hid, hvalue, rfl, rfl⟩
    let draft : Draft := ⟨.save, [id], .ofRef value.type⟩
    exact ⟨_, _, ⟨rfl, rfl⟩, id, _, ⟨hid, rfl⟩, _, _, ⟨draft, ⟨value, hvalue, rfl⟩, rfl, rfl⟩, rfl,
      rfl⟩

theorem bindResults_eq_ok {outputs : List ValueRecord} {bound : List (String × NodeId)} :
    bindResults outputs s = .ok bound t ↔
      outputs ≠ [] ∧ outputs.mapM bindResult s = .ok bound t := by
  unfold bindResults
  simp only [Step.bind_eq_ok, ofExcept_eq_ok, check_eq_ok]
  constructor
  · rintro ⟨_, _, ⟨hne, rfl⟩, h⟩
    exact ⟨hne, h⟩
  · rintro ⟨hne, h⟩
    exact ⟨(), s, ⟨hne, rfl⟩, h⟩

/-- An output whose name has a graph value is bound to a save node over the value. -/
theorem bindResult_of_value {output : ValueRecord} {id : NodeId} (hs : s.Closed)
    (hid : s.table.value? output.name = some id) :
    ∃ g, bindResult output s = .ok (output.name, ⟨s.graph.nodes.length⟩) { s with graph := g } ∧
      s.graph.Extends g ∧ ∃ type, g.node ⟨s.graph.nodes.length⟩ =
        .ok ⟨resultName output.name, .save, [id], type⟩ := by
  have hlt := hs output.name id hid
  have hvalue : s.graph.node id = .ok s.graph.nodes[id.index] :=
    found_eq_ok.2 (List.getElem?_eq_getElem hlt)
  let saving : Node := .saving output.name id s.graph.nodes[id.index].type
  exact ⟨(s.graph.push saving).2, bindResult_eq_ok.2 ⟨id, _, hid, hvalue, rfl, rfl⟩,
    s.graph.extends_push saving, saving.type, found_eq_ok.2 List.getElem?_concat_length⟩

theorem bindResult_of_not_valued {output : ValueRecord} (h : ¬ Valued s output.name) :
    bindResult output s = .error (.unresolved output.name) s := by
  have hnone : s.table.value? output.name = none := by
    rw [← Option.not_isSome_iff_eq_none, Option.isSome_iff_exists]
    exact h
  have hfound : found (s.table.value? output.name) (LoadError.unresolved output.name) =
      .error (.unresolved output.name) := by
    rw [hnone]
    rfl
  show EStateM.bind (ofExcept (found (s.table.value? output.name) _)) _ s = _
  rw [hfound]
  rfl

/-- Every output with a graph value (`Valued`) is bound to a save node over the value. -/
theorem bindResults_of_valued {outputs : List ValueRecord} (hs : s.Closed)
    (h : ∀ output ∈ outputs, Valued s output.name) :
    ∃ bound g, outputs.mapM bindResult s = .ok bound { s with graph := g } ∧ s.graph.Extends g ∧
      List.Forall₂ (fun output entry => entry.1 = output.name ∧ ∃ id type,
        s.table.value? output.name = some id ∧
          g.node entry.2 = .ok ⟨resultName output.name, .save, [id], type⟩) outputs bound := by
  induction outputs generalizing s with
  | nil => exact ⟨[], s.graph, rfl, .refl s.graph, .nil⟩
  | cons output outputs ih =>
    obtain ⟨id, hid⟩ := h output List.mem_cons_self
    obtain ⟨g, hg, hgraph, type, hsave⟩ := bindResult_of_value hs hid
    obtain ⟨bound, g', hg', hgrown, hbound⟩ := ih (closed_of_extends hs hgraph) fun o ho =>
      h o (List.mem_cons_of_mem _ ho)
    refine ⟨(output.name, ⟨s.graph.nodes.length⟩) :: bound, g', ?_, hgraph.trans hgrown,
      .cons ⟨rfl, id, type, hid, hgrown.node_eq hsave⟩ hbound⟩
    rw [List.mapM_cons]
    exact Step.bind_eq_ok.2 ⟨_, _, hg, Step.bind_eq_ok.2 ⟨bound, _, hg', rfl⟩⟩

/-- The first output without a graph value (`Valued`) is reported. -/
theorem bindResults_of_not_valued {outputs : List ValueRecord} (hs : s.Closed)
    (h : ¬ ∀ output ∈ outputs, Valued s output.name) :
    ∃ output ∈ outputs, ¬ Valued s output.name ∧
      ∃ t, outputs.mapM bindResult s = .error (.unresolved output.name) t := by
  induction outputs generalizing s with
  | nil => exact absurd (fun _ ho => absurd ho List.not_mem_nil) h
  | cons output outputs ih =>
    rw [List.mapM_cons]
    by_cases houtput : Valued s output.name
    · obtain ⟨id, hid⟩ := houtput
      obtain ⟨g, hg, hgraph, -⟩ := bindResult_of_value hs hid
      obtain ⟨o, ho, hnot, t, ht⟩ := ih (closed_of_extends hs hgraph) fun hall =>
        h (List.forall_mem_cons.2 ⟨⟨id, hid⟩, hall⟩)
      refine ⟨o, List.mem_cons_of_mem _ ho, hnot, t, ?_⟩
      rw [Step.bind_apply, hg]
      simp only [Step.bind_apply, ht]
    · refine ⟨output, List.mem_cons_self, houtput, s, ?_⟩
      rw [Step.bind_apply, bindResult_of_not_valued houtput]

end Lowering

/-! ### The outputs of a load -/

/-- The load of a model into a graph has lowered all nodes and has come to the outputs, in the
workspace `s`. -/
def LowersAll (options : LoadOptions) (model : Description) (g : Graph) (s : Workspace) : Prop :=
  (Lowering.seed options model >>= fun _ =>
    Lowering.lowerNodes model.opsetVersion model.graph.nodes) { graph := g } = .ok () s

/-- A load that succeeds lowers all nodes (`LowersAll`) and then ends the outputs that it reports,
with the values that the names have then. -/
theorem exists_finish_of_load {options : LoadOptions} {model : Description} {g h : Graph}
    {loaded : Loaded} (hload : load options model g = (.ok loaded, h)) :
    ∃ s t, LowersAll options model g s ∧ Lowering.finish options model s = .ok loaded.outputs t ∧
      loaded.values = t.table.values ∧ h = t.graph := by
  obtain ⟨t, hrun, rfl⟩ := load_eq_ok.1 hload
  obtain ⟨r, s, outputs, hseed, hnodes, hfinish, rfl⟩ := Lowering.lowerModel_eq_ok.1 hrun
  exact ⟨s, t, Step.bind_eq_ok.2 ⟨(), r, hseed, hnodes⟩, hfinish, rfl, rfl⟩

/-- A tensor that a load has under `name` at some time: it comes from an origin (`Origins.Gives`),
or consists of the zeros of a declared input. -/
def Description.Gives (model : Description) (options : LoadOptions) (name : String)
    (tensor : Tensor) : Prop :=
  (Origins.before options model model.graph.nodes.length).Gives name tensor ∨
    ∃ record ∈ model.graph.inputs, record.name = name ∧
      record.placeholder options.limit = .ok tensor

/-- The `name` has a graph value after all nodes: some node takes or produces one (`Takes`,
`Produces`). -/
def Description.Values (model : Description) (name : String) : Prop :=
  ∃ node ∈ model.graph.nodes, node.Takes name ∨ node.Produces name

/-- The `output` is bound to a save node over the value of its name, which is a parameter of the
name with a tensor of the name unless a node produces it. -/
structure BindsOutput (options : LoadOptions) (model : Description) (s t : Workspace)
    (output : ValueRecord) (entry : String × NodeId) : Prop where
  name : entry.1 = output.name
  save : ∃ id type, s.table.value? output.name = some id ∧
    t.graph.node entry.2 = .ok ⟨Lowering.resultName output.name, .save, [id], type⟩ ∧
      ((∃ node ∈ model.graph.nodes, node.Produces output.name) ∨
        ∃ tensor, model.Gives options output.name tensor ∧ t.graph.Holds id output.name tensor)

section Load

variable {options : LoadOptions} {model : Description} {g : Graph} {s : Workspace}

/-- Every tensor in the table of a load is one that the load has under its name. -/
theorem ComesTo.gives {place : Nat} (h : ComesTo options model g place s) {name : String}
    {tensor : Tensor} (htensor : s.table.tensor? name = some tensor) :
    model.Gives options name tensor := by
  obtain ⟨_, seeded, hseed, hnodes⟩ := Step.bind_eq_ok.1 h.run
  have hfilled := Lowering.filledFrom_lowerNodes (Lowering.filledFrom_seed rfl hseed) hnodes
  rcases hfilled.known htensor with hgives | ⟨-, hplaceholder⟩
  · refine .inl ?_
    cases hgives with
    | lent h => exact .lent h
    | stored record h hname htensor => exact .stored record h hname htensor
    | constant node h hop hname record hrecord htensor =>
      refine .constant node ?_ hop hname record hrecord htensor
      simp only [Origins.before, List.take_zero, List.nil_append, List.take_length] at h ⊢
      exact List.mem_of_mem_take h
  · exact .inr hplaceholder

theorem LowersAll.comesTo (h : LowersAll options model g s) :
    ComesTo options model g model.graph.nodes.length s :=
  ⟨le_rfl, by rwa [List.take_length]⟩

theorem LowersAll.sourced (h : LowersAll options model g s) :
    Lowering.Sourced (model.Gives options) model.graph.nodes s := by
  have hsourced := h.comesTo.sourced fun _ _ hs _ _ => hs.gives
  rwa [List.take_length] at hsourced

/-- Binding ends in one of three ways. -/
theorem LowersAll.finish_cases (h : LowersAll options model g s) (hon : options.outputs = true) :
    (model.graph.outputs = [] ∧ Lowering.finish options model s = .error .noOutputs s) ∨
    (model.graph.outputs ≠ [] ∧ (∀ output ∈ model.graph.outputs, model.Values output.name) ∧
      ∃ bound t, Lowering.finish options model s = .ok bound t ∧
        List.Forall₂ (BindsOutput options model s t) model.graph.outputs bound) ∨
    ∃ output ∈ model.graph.outputs, ¬ model.Values output.name ∧
      ∃ t, Lowering.finish options model s = .error (.unresolved output.name) t := by
  have hsourced := h.sourced
  have hvalued : ∀ name, Lowering.Valued s name ↔ model.Values name := hsourced.valued
  rw [Lowering.finish, hon, if_pos rfl]
  by_cases hempty : model.graph.outputs = []
  · rw [hempty]
    exact .inl ⟨rfl, rfl⟩
  have hcheck : Lowering.bindResults model.graph.outputs s =
      model.graph.outputs.mapM Lowering.bindResult s := by
    rw [Lowering.bindResults, check, if_pos hempty]
    rfl
  rw [hcheck]
  by_cases hall : ∀ output ∈ model.graph.outputs, Lowering.Valued s output.name
  · obtain ⟨bound, g', hbound, hgraph, hentries⟩ :=
      Lowering.bindResults_of_valued hsourced.closed hall
    have hvalues : ∀ output ∈ model.graph.outputs, model.Values output.name :=
      fun output ho => (hvalued _).1 (hall output ho)
    refine .inr (.inl ⟨hempty, hvalues, bound, _, hbound, ?_⟩)
    refine hentries.imp fun output entry hentry => ⟨hentry.1, ?_⟩
    obtain ⟨id, type, hid, hsave⟩ := hentry.2
    refine ⟨id, type, hid, hsave, (hsourced.values _ id hid).imp_right ?_⟩
    rintro ⟨tensor, htensor, hholds⟩
    exact ⟨tensor, htensor, hholds.mono hgraph⟩
  · obtain ⟨output, houtput, hnot, t, hfail⟩ :=
      Lowering.bindResults_of_not_valued hsourced.closed hall
    exact .inr (.inr ⟨output, houtput, fun hv => hnot ((hvalued _).2 hv), t, hfail⟩)

theorem LowersAll.bindsOutput (h : LowersAll options model g s) (hon : options.outputs = true)
    {bound : List (String × NodeId)} {t : Workspace}
    (hfinish : Lowering.finish options model s = .ok bound t) :
    List.Forall₂ (BindsOutput options model s t) model.graph.outputs bound := by
  rcases h.finish_cases hon with ⟨-, hend⟩ | ⟨-, -, bound', t', hend, hbound⟩ | ⟨_, -, -, t', hend⟩
  · rw [hend] at hfinish
    cases hfinish
  · rw [hend] at hfinish
    cases hfinish
    exact hbound
  · rw [hend] at hfinish
    cases hfinish

/-- **Which outputs are bound.** When all nodes have been lowered (`LowersAll`), binding by `finish`
succeeds exactly when there is an output and every output is the name of a value that a node takes
or, not being a constant, produces (`Description.Values`); each output is then bound to a save node,
over a parameter with a tensor of its name unless a node produces it (`BindsOutput`). Otherwise
there is no output, or an output that no node takes or produces is reported as unresolved, whether
or not a tensor is known under its name. -/
theorem finish_iff (h : LowersAll options model g s) (hon : options.outputs = true) :
    ((∃ bound t, Lowering.finish options model s = .ok bound t) ↔
      model.graph.outputs ≠ [] ∧ ∀ output ∈ model.graph.outputs, model.Values output.name) ∧
    (∀ bound t, Lowering.finish options model s = .ok bound t →
      List.Forall₂ (BindsOutput options model s t) model.graph.outputs bound) ∧
    (∀ e t, Lowering.finish options model s = .error e t →
      model.graph.outputs = [] ∧ e = .noOutputs ∨ ∃ output ∈ model.graph.outputs,
        ¬ model.Values output.name ∧ e = .unresolved output.name) := by
  rw [← and_assoc, and_right_comm]
  refine ⟨?_, fun bound t => h.bindsOutput hon⟩
  rcases h.finish_cases hon with ⟨hempty, hend⟩ | ⟨hne, hall, bound, t, hend, -⟩ |
    ⟨output, houtput, hnot, t, hend⟩
  · simp [hend, hempty]
  · refine ⟨⟨fun _ => ⟨hne, hall⟩, fun _ => ⟨bound, t, hend⟩⟩, fun e t' h' => ?_⟩
    rw [hend] at h'
    cases h'
  · refine ⟨⟨?_, fun h' => absurd (h'.2 output houtput) hnot⟩, fun e t' h' => ?_⟩
    · rintro ⟨bound, t', h'⟩
      rw [hend] at h'
      cases h'
    · rw [hend] at h'
      cases h'
      exact .inr ⟨output, houtput, hnot, rfl⟩

end Load

/-! ### The output of a constant -/

/-- A constant with the output `y`. -/
def constantNode : NodeRecord where
  outputs := ["y"]
  opType := "Constant"
  attributes := [{
    name := "value"
    type := 4
    tensor := some { dims := [1], dataType := floatCode, floatData := [⟨0x3f800000⟩] } }]

/-- A model of the constant alone, which is its output. -/
def constantAlone : Description where
  irVersion := 8
  opsetVersion := 13
  graph := { nodes := [constantNode], outputs := [{ name := "y" }] }

/-- A model with the constant and an operator that takes it; both are outputs. -/
def constantTaken : Description where
  irVersion := 8
  opsetVersion := 13
  graph := {
    nodes := [constantNode, { inputs := ["y"], outputs := ["z"], opType := "Relu" }]
    outputs := [{ name := "y" }, { name := "z" }] }

/-- Both outputs are bound when an operator takes the constant: the first one to a save node over a
parameter with the tensor of the constant. -/
theorem finish_iff_taken :
    ∃ s bound t, LowersAll .standalone constantTaken (.empty "g") s ∧
      LoadOptions.standalone.outputs = true ∧
      Lowering.finish .standalone constantTaken s = .ok bound t ∧
      List.Forall₂ (BindsOutput .standalone constantTaken s t) constantTaken.graph.outputs
        bound := by
  obtain ⟨⟨⟩, s, hs⟩ : ∃ u s, (Lowering.seed .standalone constantTaken >>= fun _ =>
      Lowering.lowerNodes 13 constantTaken.graph.nodes) { graph := .empty "g" } = .ok u s :=
    Step.exists_of_succeeds (by decide +kernel)
  have hlowers : LowersAll .standalone constantTaken (.empty "g") s := hs
  obtain ⟨hiff, hbinds, -⟩ := finish_iff hlowers rfl
  have htaken : constantTaken.Values "y" :=
    ⟨_, .tail _ (.head _), .inl ⟨.relu, by decide, by decide⟩⟩
  have hproduced : constantTaken.Values "z" :=
    ⟨_, .tail _ (.head _), .inr ⟨.relu, by decide, by decide, by decide⟩⟩
  obtain ⟨bound, t, hbound⟩ := hiff.2 ⟨List.cons_ne_nil _ _, by
    simpa [constantTaken] using ⟨htaken, hproduced⟩⟩
  exact ⟨s, bound, t, hlowers, rfl, hbound, hbinds bound t hbound⟩

/-- The constant in `constantAlone` is the first output of a node and has been lowered, but it is
reported as not defined. -/
theorem constantAlone_unresolved :
    (∃ s, LowersAll .standalone constantAlone (.empty "g") s) ∧
      (∀ output ∈ constantAlone.graph.outputs, ∃ node ∈ constantAlone.graph.nodes,
        node.operator? = some .constant ∧ node.output = .ok output.name) ∧
      constantAlone.graph.outputs ≠ [] ∧
      (load .standalone constantAlone (.empty "g")).1 = .error (.unresolved "y") := by
  obtain ⟨⟨⟩, s, hs⟩ : ∃ u s, (Lowering.seed .standalone constantAlone >>= fun _ =>
      Lowering.lowerNodes 13 constantAlone.graph.nodes) { graph := .empty "g" } = .ok u s :=
    Step.exists_of_succeeds (by decide +kernel)
  refine ⟨⟨s, hs⟩, fun output houtput => ?_, List.cons_ne_nil _ _, by rfl⟩
  obtain rfl := List.mem_singleton.1 houtput
  exact ⟨constantNode, List.mem_cons_self, by decide, by decide⟩

end TensorGraph
