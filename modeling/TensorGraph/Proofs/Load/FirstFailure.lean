import TensorGraph.Proofs.Load.Outputs

/-! # The first node that fails

No part of the lowering of a node reports a node (`not_reports_of_step`), so that each failure of a
node is reported once, for this node and with its cause. The nodes are lowered in order up to the
first one that is not supported or fails; what comes after it, and the outputs, are not looked
at. -/

namespace TensorGraph

open Onnx

/-! ### Errors and nodes -/

namespace LoadError

/-- An error is of the same category as its `root`, which is what is behind the reports of nodes. -/
theorem category_root (e : LoadError) : e.category = e.root.category := by
  induction e with
  | node opType name cause ih => exact ih
  | _ => rfl

theorem inNode_of_not_reports {e : LoadError} (h : ¬ e.ReportsNode) (opType name : String) :
    e.inNode opType name = .node opType name e := by
  cases e with
  | node innerType innerName cause => exact absurd (.node innerType innerName cause) h
  | unsupportedOperator innerType innerName =>
    exact absurd (.unsupportedOperator innerType innerName) h
  | _ => rfl

end LoadError

namespace Lowering

variable {node : NodeRecord} {op : Operator} {opset : Int64} {s t : Workspace} {e : LoadError}

/-! ### Parts that report no node -/

section Parts

variable {α : Type}

theorem not_reports_ofExcept {result : Except LoadError α}
    (h : Avoids LoadError.ReportsNode result) :
    Step.Avoids LoadError.ReportsNode (ofExcept result) s := by
  intro e t he
  cases result with
  | ok a => cases he
  | error cause =>
    cases he
    exact h e rfl

/-- Errors of the graph do not report a node of the model (`ReportsNode`). -/
theorem not_reports_onGraph (step : Build α) :
    Step.Avoids LoadError.ReportsNode (onGraph step) s := by
  intro e t he
  unfold onGraph at he
  cases hstep : step s.graph with
  | ok a g =>
    rw [hstep] at he
    cases he
  | error cause g =>
    rw [hstep] at he
    cases he
    nofun

theorem not_reports_value (name : String) : Step.Avoids LoadError.ReportsNode (value name) s := by
  intro e t he
  unfold value at he
  cases hvalue : s.table.value? name with
  | some id =>
    rw [hvalue] at he
    cases he
  | none =>
    cases htensor : s.table.tensor? name with
    | some tensor =>
      rw [hvalue, htensor] at he
      cases he
    | none =>
      rw [hvalue, htensor] at he
      cases he
      nofun

theorem not_reports_result {result : Except LoadError α}
    (h : Avoids (LoadError.Foreign False) result) :
    Step.Avoids LoadError.ReportsNode (ofExcept result) s :=
  not_reports_ofExcept (h.mono fun _ => LoadError.ReportsNode.foreign)

theorem not_reports_bindOutput (node : NodeRecord) (id : NodeId) :
    Step.Avoids LoadError.ReportsNode (bindOutput node id) s := by
  refine (not_reports_result (avoids_output node)).bind fun name r _ => ?_
  exact .of_ok rfl

/-- Reporting no node (`ReportsNode`), from any workspace, as a trait. -/
def unreporting (op : Operator) (node : NodeRecord) : Trait node op where
  Has x := ∀ s, Step.Avoids LoadError.ReportsNode x s
  has_pure _ _ := .of_ok rfl
  has_bind hx hf s := (hx s).bind fun a t ha => hf s a t ha t
  has_ofExcept h _ := not_reports_ofExcept h
  has_table _ := .of_ok rfl
  has_value _ _ := not_reports_value _
  has_read _ _ := not_reports_onGraph _
  has_create _ _ _ _ := not_reports_onGraph _
  has_intern _ _ := not_reports_onGraph _
  has_batchNormalization _ _ _ _ _ _ _ := not_reports_onGraph _
  has_bindOutput id _ := not_reports_bindOutput node id

theorem not_reports_storeConstant : Step.Avoids LoadError.ReportsNode (storeConstant node) s := by
  refine (not_reports_result (avoids_output node)).bind fun name s _ => ?_
  refine Step.Avoids.bind (.of_ok rfl) fun known s _ => ?_
  split
  · exact .of_ok rfl
  refine (not_reports_result (avoids_attribute _)).bind fun record s _ => ?_
  refine (not_reports_result (avoids_materialize record)).bind fun tensor s _ => ?_
  exact .of_ok rfl

/-- **Lowering a node by `step` does not itself report a node**, whatever its operator is. -/
theorem not_reports_of_step : Step.Avoids LoadError.ReportsNode (step opset node op) s := by
  by_cases hop : op = .constant
  · subst hop
    exact not_reports_storeConstant
  · exact (unreporting op node).has_step hop opset s

theorem not_reports_lower : Step.Avoids LoadError.ReportsNode (lower opset node) s := by
  unfold lower
  cases node.operator? with
  | none => exact .of_ok rfl
  | some op => exact not_reports_of_step.bind fun u t _ => .of_ok rfl

end Parts

/-! ### Reports -/

/-- What a load reports for a `node` that is not lowered from `s`: that the operator is not
supported, or else a cause that does not report a node itself. -/
def Reports (opset : Int64) (node : NodeRecord) (s : Workspace) (e : LoadError) : Prop :=
  (∃ t, lower opset node s = .ok false t ∧ e = .unsupportedOperator node.opType node.title) ∨
    ∃ cause t, lower opset node s = .error cause t ∧ ¬ cause.ReportsNode ∧
      e = .node node.opType node.title cause

/-- A node that is not lowered is reported by `lowerNode`. -/
theorem lowerNode_error (h : ∀ t, lower opset node s ≠ .ok true t) :
    ∃ e t, lowerNode opset node s = .error e t ∧ Reports opset node s e := by
  unfold lowerNode Reports
  cases hlower : lower opset node s with
  | ok supported t =>
    cases supported with
    | true => exact absurd hlower (h t)
    | false => exact ⟨_, t, rfl, .inl ⟨t, rfl, rfl⟩⟩
  | error cause t =>
    have hcause := not_reports_lower cause t hlower
    refine ⟨.node node.opType node.title cause, t, ?_, .inr ⟨cause, t, rfl, hcause, rfl⟩⟩
    show EStateM.Result.error (cause.inNode node.opType node.title) t = _
    rw [LoadError.inNode_of_not_reports hcause]

theorem lowerNode_of_lower (h : lower opset node s = .ok true t) :
    lowerNode opset node s = .ok () t := by
  rw [lowerNode, h]

/-! ### Nodes in order -/

theorem lowerNodes_cons (nodes : List NodeRecord) : lowerNodes opset (node :: nodes) s =
    (lowerNode opset node >>= fun _ => lowerNodes opset nodes) s := rfl

/-- After a node that fails, no node of `after` is looked at. -/
theorem lowerNodes_of_error {before : List NodeRecord} {r : Workspace}
    (hbefore : lowerNodes opset before r = .ok () s) (h : lowerNode opset node s = .error e t)
    (after : List NodeRecord) : lowerNodes opset (before ++ node :: after) r = .error e t := by
  induction before generalizing r with
  | nil =>
    cases hbefore
    show lowerNodes opset (node :: after) _ = _
    rw [lowerNodes_cons, Step.bind_apply, h]
  | cons first before ih =>
    obtain ⟨u, hu, hrest⟩ := forM_cons_eq_ok.1 hbefore
    show lowerNodes opset (first :: (before ++ node :: after)) r = _
    rw [lowerNodes_cons, Step.bind_apply, hu]
    exact ih hrest

/-- All nodes are lowered by `lowerNodes`, or there is a first one that is not. -/
theorem lowerNodes_cases (opset : Int64) (nodes : List NodeRecord) (s : Workspace) :
    (∃ t, lowerNodes opset nodes s = .ok () t) ∨
      ∃ before node after t, nodes = before ++ node :: after ∧
        lowerNodes opset before s = .ok () t ∧ ∀ u, lower opset node t ≠ .ok true u := by
  induction nodes generalizing s with
  | nil => exact .inl ⟨s, rfl⟩
  | cons node nodes ih =>
    by_cases hnode : ∃ t, lower opset node s = .ok true t
    · obtain ⟨t, ht⟩ := hnode
      have hfirst := lowerNode_of_lower ht
      rcases ih t with ⟨u, hu⟩ | ⟨before, last, after, u, hsplit, hbefore, hlast⟩
      · exact .inl ⟨u, forM_cons_eq_ok.2 ⟨t, hfirst, hu⟩⟩
      · refine .inr ⟨node :: before, last, after, u, ?_, ?_, hlast⟩
        · rw [hsplit, List.cons_append]
        · exact forM_cons_eq_ok.2 ⟨t, hfirst, hbefore⟩
    · exact .inr ⟨[], node, nodes, s, rfl, rfl, fun t ht => hnode ⟨t, ht⟩⟩

end Lowering

/-! ### Loads -/

/-- The model with other `nodes` and `outputs`. -/
def Description.replace (model : Description) (nodes : List NodeRecord)
    (outputs : List ValueRecord) : Description :=
  { model with graph := { model.graph with nodes, outputs } }

section Load

variable {options : LoadOptions} {model : Description} {g : Graph} {s t : Workspace} {e : LoadError}

/-- A failure of `lowerNodes` is the failure of the load. -/
theorem load_of_nodes_error (hseed : Lowering.seed options model { graph := g } = .ok () s)
    (h : Lowering.lowerNodes model.opsetVersion model.graph.nodes s = .error e t) :
    (load options model g).1 = .error e := by
  have hrun : Lowering.lowerModel options model { graph := g } = .error e t := by
    unfold Lowering.lowerModel
    rw [Step.bind_apply, hseed]
    simp only
    rw [Step.bind_apply, h]
  unfold load
  rw [hrun]

/-- The failure of a load whose nodes are all lowered is one of ending the outputs, by `finish`. -/
theorem finish_of_load_error (hseed : Lowering.seed options model { graph := g } = .ok () s)
    (h : Lowering.lowerNodes model.opsetVersion model.graph.nodes s = .ok () t)
    (he : (load options model g).1 = .error e) :
    ∃ r, Lowering.finish options model t = .error e r := by
  unfold load at he
  have hrun : Lowering.lowerModel options model { graph := g } = (do
      let outputs ← Lowering.finish options model
      let t ← Lowering.table
      return {
        irVersion := model.irVersion
        opsetVersion := model.opsetVersion
        outputs
        values := t.values } : Lowering Loaded) t := by
    unfold Lowering.lowerModel
    rw [Step.bind_apply, hseed]
    simp only
    rw [Step.bind_apply, h]
  rw [hrun, Step.bind_apply] at he
  cases hfinish : Lowering.finish options model t with
  | error cause r =>
    rw [hfinish] at he
    cases he
    exact ⟨r, rfl⟩
  | ok outputs r =>
    rw [hfinish] at he
    cases he

/-- When all nodes are lowered, only the outputs can fail, and no node is reported. -/
theorem outputs_of_load_error (hseed : Lowering.seed options model { graph := g } = .ok () s)
    (h : Lowering.lowerNodes model.opsetVersion model.graph.nodes s = .ok () t)
    (he : (load options model g).1 = .error e) :
    options.outputs = true ∧ ¬ e.ReportsNode ∧
      (model.graph.outputs = [] ∧ e = .noOutputs ∨
        ∃ output ∈ model.graph.outputs, e = .unresolved output.name) := by
  obtain ⟨r, hr⟩ := finish_of_load_error hseed h he
  have hlowers : LowersAll options model g t := Step.bind_eq_ok.2 ⟨(), s, hseed, h⟩
  cases hon : options.outputs with
  | false =>
    rw [Lowering.finish, hon] at hr
    cases hr
  | true =>
    rcases hlowers.finish_cases hon with ⟨hempty, hend⟩ | ⟨-, -, bound, r', hend, -⟩ |
      ⟨output, houtput, -, r', hend⟩
    · rw [hend] at hr
      cases hr
      exact ⟨rfl, by rintro ⟨⟩, .inl ⟨hempty, rfl⟩⟩
    · rw [hend] at hr
      cases hr
    · rw [hend] at hr
      cases hr
      exact ⟨rfl, by rintro ⟨⟩, .inr ⟨output, houtput, rfl⟩⟩

/-- **The first failure decides.** When `Lowering.seed` has filled the table of a load, the first
node that is not supported or cannot be lowered is reported, with a cause that reports no node
(`Reports`), and the load fails with this report whatever nodes come after and whatever the outputs
are. If there is no such node, the load fails, if at all, as there is no output or as an output is
unresolved. -/
theorem load_error_of_seeded (hseed : Lowering.seed options model { graph := g } = .ok () s) :
    (∀ before node after t, model.graph.nodes = before ++ node :: after →
      Lowering.lowerNodes model.opsetVersion before s = .ok () t →
      (∀ u, Lowering.lower model.opsetVersion node t ≠ .ok true u) →
      ∃ e, Lowering.Reports model.opsetVersion node t e ∧ e.category = e.root.category ∧
        (load options model g).1 = .error e ∧ ∀ after' outputs,
          (load options (model.replace (before ++ node :: after') outputs) g).1 = .error e) ∧
    ((∃ t, Lowering.lowerNodes model.opsetVersion model.graph.nodes s = .ok () t) ∨
      ∃ before node after t, model.graph.nodes = before ++ node :: after ∧
        Lowering.lowerNodes model.opsetVersion before s = .ok () t ∧
        ∀ u, Lowering.lower model.opsetVersion node t ≠ .ok true u) ∧
    ∀ t, Lowering.lowerNodes model.opsetVersion model.graph.nodes s = .ok () t →
      ∀ e, (load options model g).1 = .error e → options.outputs = true ∧ ¬ e.ReportsNode ∧
        (model.graph.outputs = [] ∧ e = .noOutputs ∨
          ∃ output ∈ model.graph.outputs, e = .unresolved output.name) := by
  refine ⟨fun before node after t hsplit hbefore hnode => ?_,
    Lowering.lowerNodes_cases model.opsetVersion model.graph.nodes s,
    fun t ht e he => outputs_of_load_error hseed ht he⟩
  obtain ⟨e, r, he, hreports⟩ := Lowering.lowerNode_error hnode
  refine ⟨e, hreports, e.category_root, ?_, fun after' outputs => ?_⟩
  · have hnodes := Lowering.lowerNodes_of_error hbefore he after
    rw [← hsplit] at hnodes
    exact load_of_nodes_error hseed hnodes
  · -- The table is filled from what the two models have in common.
    have hsame : Lowering.seed options (model.replace (before ++ node :: after') outputs)
        { graph := g } = .ok () s := hseed
    exact load_of_nodes_error hsame (Lowering.lowerNodes_of_error hbefore he after')

end Load

/-! ### Two nodes that fail -/

/-- A node without inputs whose operator takes one. -/
def bareRelu : NodeRecord := { outputs := ["z"], opType := "Relu" }

/-- A model whose second and third node cannot be lowered. -/
def twoFailures : Description where
  irVersion := 8
  opsetVersion := 13
  graph := { nodes := [constantNode, bareRelu, { outputs := ["w"], opType := "Unknown" }] }

theorem lower_bareRelu (s : Workspace) : Lowering.lower 13 bareRelu s =
    .error (.shape (.missingInput "Relu" 0)) s := rfl

/-- The second node is reported, whatever comes after it and whatever the outputs are. -/
theorem load_twoFailures : ∃ s t,
    Lowering.seed .standalone twoFailures { graph := .empty "g" } = .ok () s ∧
    Lowering.lowerNodes 13 [constantNode] s = .ok () t ∧
    (∀ u, Lowering.lower 13 bareRelu t ≠ .ok true u) ∧
    ∃ e, Lowering.Reports 13 bareRelu t e ∧ ∀ after outputs,
      (load .standalone (twoFailures.replace ([constantNode] ++ bareRelu :: after) outputs)
        (.empty "g")).1 = .error e := by
  obtain ⟨⟨⟩, t, hrun⟩ : ∃ u t, (Lowering.seed .standalone twoFailures >>= fun _ =>
      Lowering.lowerNodes 13 [constantNode]) { graph := .empty "g" } = .ok u t :=
    Step.exists_of_succeeds (by decide +kernel)
  obtain ⟨⟨⟩, s, hseed, hfirst⟩ := Step.bind_eq_ok.1 hrun
  have hfails : ∀ u, Lowering.lower 13 bareRelu t ≠ .ok true u := by
    intro u hu
    rw [lower_bareRelu] at hu
    cases hu
  obtain ⟨e, hreports, -, -, hall⟩ :=
    (load_error_of_seeded hseed).1 [constantNode] bareRelu _ t rfl hfirst hfails
  exact ⟨s, t, hseed, hfirst, hfails, e, hreports, hall⟩

end TensorGraph
