import TensorGraph.Proofs.Load.Lent

/-! # Scopes of names

In a model in single-assignment form every name is given by one source: tensors that are lent,
stored tensors and declared inputs give names before the nodes, and each node gives its first
output. Then the table says at every place of a load what has been defined so far. A name has a
tensor exactly when it has one before the nodes or is given one by a constant before the place; it
has a value only if a node before the place produces it or the value is a parameter that holds this
tensor. A name keeps its tensor and its value to the end of the load, and no node resolves a name
that is only defined at its own place or later. -/

namespace TensorGraph

open Onnx

/-! ### Definitions of names -/

namespace Description

/-- The name has a tensor before any node is lowered: one is lent for it, a stored tensor of the
name is loaded, or an input of the name is declared. -/
inductive Seeds (model : Description) (options : LoadOptions) (name : String) : Prop
  | lent (tensor : Tensor) (h : (name, tensor) ∈ options.lent)
  | stored (hon : options.initializers = true) (record : TensorRecord)
      (h : record ∈ model.graph.initializers) (hname : record.name = name)
  | declared (record : ValueRecord) (h : record ∈ model.graph.inputs) (hname : record.name = name)

/-- The first outputs of the nodes, as far as they have names. -/
def firstOutputs (model : Description) : List String :=
  model.graph.nodes.filterMap (·.output.toOption)

/-- The first outputs are distinct, and differ from the names of the tensors that are lent, of the
stored tensors, loaded or not, and of the declared inputs. -/
structure SingleAssignment (model : Description) (options : LoadOptions) : Prop where
  distinct : model.firstOutputs.Nodup
  fresh : ∀ name ∈ model.firstOutputs, ¬ model.Seeds { options with initializers := true } name

/-- The name has a tensor before any node is lowered (`Seeds`), or is the first output of a node
before `place`. -/
def Defines (model : Description) (options : LoadOptions) (place : Nat) (name : String) : Prop :=
  model.Seeds options name ∨ ∃ node ∈ model.graph.nodes.take place, node.output = .ok name

variable {model : Description} {options : LoadOptions} {place : Nat} {node : NodeRecord}
  {name : String}

/-- No name has a tensor before the nodes (`Seeds`) when there is no source of tensors but the
nodes. -/
theorem not_seeds_of_nil (hlent : options.lent = []) (hstored : model.graph.initializers = [])
    (hdeclared : model.graph.inputs = []) (name : String) : ¬ model.Seeds options name := by
  rintro (⟨_, h⟩ | ⟨_, _, h, _⟩ | ⟨_, h, _⟩)
  · simp [hlent] at h
  · simp [hstored] at h
  · simp [hdeclared] at h

theorem mem_firstOutputs :
    name ∈ model.firstOutputs ↔ ∃ node ∈ model.graph.nodes, node.output = .ok name := by
  simp [firstOutputs, List.mem_filterMap, toOption_eq_some]

namespace SingleAssignment

variable (hsa : model.SingleAssignment options)
include hsa

/-- No loaded source gives the first output of a node a tensor (`Seeds`). -/
theorem not_seeds (hnode : node ∈ model.graph.nodes) (hname : node.output = .ok name) :
    ¬ model.Seeds options name := by
  intro hseeds
  refine hsa.fresh name (mem_firstOutputs.2 ⟨node, hnode, hname⟩) ?_
  cases hseeds with
  | lent tensor h => exact .lent tensor h
  | stored _ record h hname => exact .stored rfl record h hname
  | declared record h hname => exact .declared record h hname

/-- Two nodes with the same first output, at `place` and `place'`, stand at the same place. -/
theorem place_eq {place' : Nat} {node' : NodeRecord} (h : model.graph.nodes[place]? = some node)
    (h' : model.graph.nodes[place']? = some node') (hname : node.output = .ok name)
    (hname' : node'.output = .ok name) : place = place' := by
  have hne : ∀ {i j : Nat} {a b : NodeRecord}, i < j → model.graph.nodes[i]? = some a →
      model.graph.nodes[j]? = some b → a.output = .ok name → b.output ≠ .ok name := by
    intro i j a b hij ha hb hname hname'
    have hpairs := List.pairwise_filterMap.1 hsa.distinct
    obtain ⟨hi, rfl⟩ := List.getElem?_eq_some_iff.1 ha
    obtain ⟨hj, rfl⟩ := List.getElem?_eq_some_iff.1 hb
    exact List.pairwise_iff_getElem.1 hpairs i j hi hj hij name (toOption_eq_some.2 hname) name
      (toOption_eq_some.2 hname') rfl
  rcases Nat.lt_trichotomy place place' with hlt | heq | hlt
  · exact absurd hname' (hne hlt h h' hname)
  · exact heq
  · exact absurd hname (hne hlt h' h hname')

/-- The first output of a node is not defined before it (`Defines`). -/
theorem not_defines (hnode : model.graph.nodes[place]? = some node)
    (hname : node.output = .ok name) : ¬ model.Defines options place name := by
  rintro (hseeds | ⟨node', hmem, hname'⟩)
  · exact hsa.not_seeds (List.mem_of_getElem? hnode) hname hseeds
  · obtain ⟨k, hk⟩ := List.mem_iff_getElem?.1 hmem
    rw [List.getElem?_take] at hk
    split at hk
    · next hlt => exact hlt.ne' (hsa.place_eq hnode hk hname hname')
    · cases hk

end SingleAssignment
end Description

namespace Onnx.NodeRecord

/-- The node resolves the name, to a value or to a tensor. -/
def Resolves (node : NodeRecord) (name : String) : Prop :=
  ∃ op, node.operator? = some op ∧ (name ∈ node.valueInputs op ∨ name ∈ node.constantInputs op)

end Onnx.NodeRecord

/-! ### Tensors stay -/

theorem Table.isSome_insert {t : Table} {name other : String} {tensor : Tensor}
    (h : (t.tensor? other).isSome = true) :
    ((t.insert name tensor).tensor? other).isSome = true := by
  cases hlent : t.isLent name with
  | true => simpa [Table.insert, hlent] using h
  | false =>
    rw [tensor?_insert hlent]
    split
    · rfl
    · exact h

namespace Lowering

variable {s t : Workspace} {name : String}

/-- Every input declared by `declareInputs` ends with a tensor, and no name loses one. -/
theorem isSome_declareInputs {limit : Nat} {records : List ValueRecord}
    (hok : declareInputs limit records s = .ok () t) :
    (∀ name, (s.table.tensor? name).isSome = true → (t.table.tensor? name).isSome = true) ∧
      ∀ record ∈ records, (t.table.tensor? record.name).isSome = true := by
  induction records generalizing s with
  | nil =>
    cases hok
    exact ⟨fun _ h => h, fun _ h => absurd h List.not_mem_nil⟩
  | cons record records ih =>
    obtain ⟨r, hr, hrest⟩ := forM_cons_eq_ok.1 hok
    obtain ⟨known, hknown, rfl⟩ := updateTable_eq_ok.1 hr
    obtain ⟨hkept, hall⟩ := ih hrest
    rcases Table.declareInput_eq_ok.1 hknown with ⟨hsome, rfl⟩ | ⟨hnone, tensor, -, rfl⟩
    · exact ⟨hkept, List.forall_mem_cons.2 ⟨hkept _ hsome, hall⟩⟩
    · have hlent := Table.isLent_of_tensor?_eq_none hnone
      refine ⟨fun name h => hkept name (Table.isSome_insert h),
        List.forall_mem_cons.2 ⟨hkept _ ?_, hall⟩⟩
      simp [Table.tensor?_insert hlent]

theorem isSome_lowerNode {opset : Int64} {node : NodeRecord}
    (hok : lowerNode opset node s = .ok () t) (h : (s.table.tensor? name).isSome = true) :
    (t.table.tensor? name).isSome = true := by
  obtain ⟨op, -, hstep⟩ := lowerNode_eq_ok.1 hok
  by_cases hc : op = .constant
  · subst hc
    obtain ⟨output, -, ⟨-, rfl⟩ | ⟨-, record, tensor, -, -, rfl⟩⟩ := storeConstant_eq_ok hstep
    · exact h
    · exact Table.isSome_insert h
  · rwa [tensor?_of_ok hc (movesBy_step opset node op) hstep]

end Lowering

/-! ### The table at a place -/

/-- What the table says about names at `place` of a load: the tensors are those of the sources
before the nodes and of the constants before the place, and a value is what a node before the place
was turned into, or a parameter that holds the tensor of its name. -/
structure Scoped (options : LoadOptions) (model : Description) (place : Nat) (s : Workspace) :
    Prop where
  tensors : ∀ name, (∃ tensor, s.table.tensor? name = some tensor) ↔
    model.Seeds options name ∨ ∃ node ∈ model.graph.nodes.take place,
      node.operator? = some .constant ∧ node.output = .ok name
  values : ∀ name id, s.table.value? name = some id →
    (s.table.tensor? name = none ∧ ∃ node ∈ model.graph.nodes.take place, node.Produces name) ∨
    ∃ tensor, s.table.tensor? name = some tensor ∧ s.graph.Holds id name tensor

/-- Tensors and values of names stay, and so do nodes. -/
structure Workspace.Keeps (s t : Workspace) : Prop where
  graph : s.graph.Extends t.graph
  tensors : ∀ {name tensor}, s.table.tensor? name = some tensor →
    t.table.tensor? name = some tensor
  values : ∀ {name id}, s.table.value? name = some id → t.table.value? name = some id

namespace Workspace.Keeps

variable {s t u : Workspace}

theorem refl (s : Workspace) : s.Keeps s := ⟨.refl s.graph, id, id⟩

theorem trans (hst : s.Keeps t) (htu : t.Keeps u) : s.Keeps u :=
  ⟨hst.graph.trans htu.graph, fun h => htu.tensors (hst.tensors h),
    fun h => htu.values (hst.values h)⟩

end Workspace.Keeps

theorem Lowering.Adopts.keeps {names : List String} {s t : Workspace} (h : Adopts names s t) :
    s.Keeps t :=
  ⟨h.graph, fun htensor => by rwa [h.tensor?_eq], h.kept⟩

section Places

variable {options : LoadOptions} {model : Description} {g : Graph} {place place' : Nat}
  {s t : Workspace} {node : NodeRecord} {name : String}

theorem ComesTo.filledFrom (h : ComesTo options model g place s) :
    s.table.FilledFrom (.before options model place) options.limit model.graph.inputs := by
  obtain ⟨_, seeded, hseed, hnodes⟩ := Step.bind_eq_ok.1 h.run
  have hend := Lowering.filledFrom_lowerNodes (Lowering.filledFrom_seed rfl hseed) hnodes
  rwa [Origins.before, List.take_zero, List.nil_append] at hend

/-- A load comes to each place (`ComesTo`) with one workspace. -/
theorem ComesTo.unique (hs : ComesTo options model g place s)
    (ht : ComesTo options model g place t) : s = t := by
  have hrun := hs.run
  rw [ht.run] at hrun
  cases hrun
  rfl

theorem ComesTo.succ (hs : ComesTo options model g place s)
    (hl : Lowers options model g place node s t) : ComesTo options model g (place + 1) t := by
  obtain ⟨hlt, rfl⟩ := List.getElem?_eq_some_iff.1 hl.found
  obtain ⟨_, seeded, hseed, hnodes⟩ := Step.bind_eq_ok.1 hs.run
  refine ⟨hlt, Step.bind_eq_ok.2 ⟨(), seeded, hseed, ?_⟩⟩
  rw [← List.take_append_getElem hlt]
  exact Lowering.lowerNodes_append.2
    ⟨s, hnodes, Lowering.forM_cons_eq_ok.2 ⟨t, hl.lowered, rfl⟩⟩

/-- A declared input has a tensor at every place. -/
theorem ComesTo.isSome_declared (h : ComesTo options model g place s) {record : ValueRecord}
    (hrecord : record ∈ model.graph.inputs) :
    (s.table.tensor? record.name).isSome = true := by
  refine h.induct (P := fun _ s => (s.table.tensor? record.name).isSome = true)
    (fun s hseed => ?_) (fun _ _ _ _ _ hl => Lowering.isSome_lowerNode hl.lowered)
  unfold Lowering.seed at hseed
  obtain ⟨_, r, -, hseed⟩ := Step.bind_eq_ok.1 hseed
  split at hseed
  · obtain ⟨_, _, -, hdeclare⟩ := Step.bind_eq_ok.1 hseed
    exact (Lowering.isSome_declareInputs hdeclare).2 record hrecord
  · exact (Lowering.isSome_declareInputs hseed).2 record hrecord

/-- The tensors of a table at a place, whether or not the model is in single-assignment form. -/
theorem ComesTo.exists_tensor_iff (hs : ComesTo options model g place s) (name : String) :
    (∃ tensor, s.table.tensor? name = some tensor) ↔
      model.Seeds options name ∨ ∃ node ∈ model.graph.nodes.take place,
        node.operator? = some .constant ∧ node.output = .ok name := by
  have hfilled := hs.filledFrom
  constructor
  · rintro ⟨tensor, htensor⟩
    rcases hfilled.known htensor with hgives | ⟨-, record, hrecord, hname, -⟩
    · cases hgives with
      | lent h => exact .inl (.lent tensor h)
      | stored record h hname _ =>
        simp only [Origins.before] at h
        split at h
        · next hon => exact .inl (.stored hon record h hname)
        · cases h
      | constant node h hop hname _ _ _ => exact .inr ⟨node, h, hop, hname⟩
    · exact .inl (.declared record hrecord hname)
  · intro hsource
    rw [← Option.isSome_iff_exists]
    rcases hsource with hseeds | ⟨node, hnode, hop, hname⟩
    · cases hseeds with
      | lent tensor h => exact hfilled.named (.lent tensor h)
      | stored hon record h hname =>
        refine hfilled.named (.stored record ?_ hname)
        simpa [Origins.before, hon] using h
      | declared record h hname => exact hname ▸ hs.isSome_declared h
    · exact hfilled.named (.constant node hnode hop hname)

/-- A name with a tensor is defined before the place (`Defines`). -/
theorem ComesTo.defines_of_tensor (hs : ComesTo options model g place s) {tensor : Tensor}
    (h : s.table.tensor? name = some tensor) : model.Defines options place name := by
  rcases (hs.exists_tensor_iff name).1 ⟨tensor, h⟩ with hseeds | ⟨node, hnode, -, hname⟩
  · exact .inl hseeds
  · exact .inr ⟨node, hnode, hname⟩

namespace Scoped

theorem defines_of_value (h : Scoped options model place s) (hs : ComesTo options model g place s)
    {id : NodeId} (hid : s.table.value? name = some id) : model.Defines options place name := by
  rcases h.values name id hid with ⟨-, node, hnode, op, -, -, hname⟩ | ⟨tensor, htensor, -⟩
  · exact .inr ⟨node, hnode, hname⟩
  · exact hs.defines_of_tensor htensor

end Scoped

section Assigned

variable (hsa : model.SingleAssignment options)
include hsa

/-- The first output of the next node has neither a tensor nor a value. -/
theorem Scoped.fresh (h : Scoped options model place s) (hs : ComesTo options model g place s)
    (hnode : model.graph.nodes[place]? = some node) (hname : node.output = .ok name) :
    s.table.tensor? name = none ∧ s.table.value? name = none := by
  have hnot := hsa.not_defines hnode hname
  refine ⟨Option.eq_none_iff_forall_ne_some.2 fun tensor htensor => ?_,
    Option.eq_none_iff_forall_ne_some.2 fun id hid => ?_⟩
  · exact hnot (hs.defines_of_tensor htensor)
  · exact hnot (h.defines_of_value hs hid)

/-- The next node (`Lowers`) keeps the tensors and values that there are. -/
theorem Scoped.keeps (h : Scoped options model place s) (hs : ComesTo options model g place s)
    (hl : Lowers options model g place node s t) : s.Keeps t := by
  have hfresh : ∀ {name}, node.output = .ok name →
      s.table.tensor? name = none ∧ s.table.value? name = none := h.fresh hsa hs hl.found
  obtain ⟨op, hop, hstep⟩ := Lowering.lowerNode_eq_ok.1 hl.lowered
  by_cases hc : op = .constant
  · subst hc
    obtain ⟨output, houtput, ⟨-, rfl⟩ | ⟨hlent, record, tensor, -, -, rfl⟩⟩ :=
      Lowering.storeConstant_eq_ok hstep
    · exact .refl t
    · refine ⟨.refl s.graph, fun {name old} hold => ?_, fun {name id} hid => ?_⟩
      · rw [Table.tensor?_insert hlent, if_neg, hold]
        rintro rfl
        rw [(hfresh houtput).1] at hold
        cases hold
      · rwa [Table.value?, Table.values_insert]
  · obtain ⟨r, output, id, hprepared, rfl⟩ := Lowering.binds_of_step hc hs.closed hstep
    have hadopts := hprepared.adopts.keeps
    refine ⟨hadopts.graph, hadopts.tensors, fun {name old} hold => ?_⟩
    rw [Table.value?_bind, if_neg]
    · exact hadopts.values hold
    · rintro rfl
      rw [(hfresh hprepared.output).2] at hold
      cases hold

/-- What the table says about names (`Scoped`) is kept by the next node. -/
theorem Scoped.succ (h : Scoped options model place s) (hs : ComesTo options model g place s)
    (hl : Lowers options model g place node s t) : Scoped options model (place + 1) t := by
  have ht := hs.succ hl
  have hkeeps := h.keeps hsa hs hl
  have hproduced : ∀ name, (∃ n ∈ model.graph.nodes.take (place + 1), n.Produces name) ↔
      (∃ n ∈ model.graph.nodes.take place, n.Produces name) ∨ node.Produces name := by
    intro name
    rw [List.take_add_one, hl.found, Option.toList_some, Lowering.Sourced.exists_mem_append]
  -- a name that a node produces is given a tensor neither before the nodes nor by a constant
  have hnone : ∀ name, (∃ n ∈ model.graph.nodes.take (place + 1), n.Produces name) →
      t.table.tensor? name = none := by
    rintro name ⟨n, hn, op, hop, hc, hname⟩
    refine Option.eq_none_iff_forall_ne_some.2 fun tensor htensor => ?_
    have hmem := List.mem_of_mem_take hn
    rcases (ht.exists_tensor_iff name).1 ⟨tensor, htensor⟩ with hseeds | ⟨m, hm, hconstant, hname'⟩
    · exact hsa.not_seeds hmem hname hseeds
    · obtain ⟨i, hi⟩ := List.mem_iff_getElem?.1 hmem
      obtain ⟨j, hj⟩ := List.mem_iff_getElem?.1 (List.mem_of_mem_take hm)
      obtain rfl := hsa.place_eq hi hj hname hname'
      obtain rfl := Option.some.inj (hi.symm.trans hj)
      exact hc (Option.some.inj (hop.symm.trans hconstant))
  refine ⟨ht.exists_tensor_iff, fun name id hid => ?_⟩
  by_cases hnode : node.Produces name
  · have hmem := (hproduced name).2 (.inr hnode)
    exact .inl ⟨hnone name hmem, hmem⟩
  have hold : s.table.value? name = some id ∨ ∃ tensor, s.table.tensor? name = some tensor ∧
      t.graph.Holds id name tensor := by
    rcases Lowering.lowerNode_cases hs.closed hl.lowered with ⟨-, hfills⟩ |
      ⟨op, hop, hc, r, output, i, hprepared, rfl⟩
    · rw [Table.value?, hfills.values] at hid
      exact .inl hid
    · rw [Table.value?_bind, if_neg] at hid
      · exact (hprepared.adopts.fresh hid).imp_right And.right
      · rintro rfl
        exact hnode ⟨op, hop, hc, hprepared.output⟩
  rcases hold with hid | ⟨tensor, htensor, hholds⟩
  · rcases h.values name id hid with ⟨-, hmem⟩ | ⟨tensor, htensor, hholds⟩
    · have hmem := (hproduced name).2 (.inl hmem)
      exact .inl ⟨hnone name hmem, hmem⟩
    · exact .inr ⟨tensor, hkeeps.tensors htensor, hholds.mono hkeeps.graph⟩
  · exact .inr ⟨tensor, hkeeps.tensors htensor, hholds⟩

theorem ComesTo.scoped (hs : ComesTo options model g place s) :
    Scoped options model place s := by
  refine hs.induct (P := Scoped options model) (fun s hseed => ?_)
    (fun place node s t hs hl h => h.succ hsa hs hl)
  have hzero : ComesTo options model g 0 s :=
    ⟨Nat.zero_le _, Step.bind_eq_ok.2 ⟨(), s, hseed, rfl⟩⟩
  refine ⟨hzero.exists_tensor_iff, fun name id hid => ?_⟩
  have hvalues := (Lowering.fills_of_seed hseed).values.trans Table.values_lendAll
  rw [Table.value?, hvalues] at hid
  cases hid

/-- From one place of a load to a later one, names keep their tensors and values
(`Workspace.Keeps`). -/
theorem ComesTo.keeps (hs : ComesTo options model g place s) (ht : ComesTo options model g place' t)
    (hle : place ≤ place') : s.Keeps t := by
  have hall := ht.induct (P := fun place' t => ∀ place s, place ≤ place' →
    ComesTo options model g place s → s.Keeps t) ?_ ?_
  · exact hall place s hle hs
  · intro t hseed place s hle hs
    obtain rfl := Nat.le_zero.1 hle
    rw [hs.unique ⟨Nat.zero_le _, Step.bind_eq_ok.2 ⟨(), t, hseed, rfl⟩⟩]
    exact .refl t
  · intro place' node r t hr hl ih place s hle hs
    rcases Nat.le_succ_iff.1 hle with hle | rfl
    · exact (ih place s hle hs).trans ((hr.scoped hsa).keeps hsa hr hl)
    · rw [hs.unique (hr.succ hl)]
      exact .refl t

end Assigned

/-! ### Resolving names -/

/-- What looking a name up gives, in a workspace `r` to which a load comes from `place`: a name that
has a tensor and a value has a value that holds the tensor, a name that has a value stands for that
value and no node is made for it, and a name that is not defined before the place stands for
nothing. -/
structure ResolvesIn (options : LoadOptions) (model : Description) (place : Nat) (r : Workspace) :
    Prop where
  agrees : ∀ {name tensor id}, r.table.tensor? name = some tensor →
    r.table.value? name = some id → r.graph.Holds id name tensor
  once : ∀ {name id}, r.table.value? name = some id → Lowering.value name r = .ok id r
  undefined : ∀ {name}, ¬ model.Defines options place name →
    Lowering.value name r = .error (.unresolved name) r ∧
      Lowering.constant name r = .error (.unresolved name) r

/-- What the lowering of the next node adopts (`Lowering.Adopts`) does not change what names stand
for. -/
theorem Scoped.resolvesIn (h : Scoped options model place s) (hs : ComesTo options model g place s)
    {names : List String} {r : Workspace} (hr : Lowering.Adopts names s r) :
    ResolvesIn options model place r where
  agrees := by
    intro name tensor id htensor hid
    rw [hr.tensor?_eq] at htensor
    rcases hr.fresh hid with hid | ⟨-, tensor', htensor', hholds⟩
    · rcases h.values name id hid with ⟨hnone, -⟩ | ⟨tensor', htensor', hholds⟩
      · rw [hnone] at htensor
        cases htensor
      · rw [htensor] at htensor'
        cases htensor'
        exact hholds.mono hr.graph
    · rw [htensor] at htensor'
      cases htensor'
      exact hholds
  once := fun hid => Lowering.value_eq_ok.2 (.inl ⟨hid, rfl⟩)
  undefined := by
    intro name hnot
    have htensor : r.table.tensor? name = none := by
      rw [hr.tensor?_eq]
      exact Option.eq_none_iff_forall_ne_some.2 fun tensor htensor =>
        hnot (hs.defines_of_tensor htensor)
    have hvalue : r.table.value? name = none := by
      refine Option.eq_none_iff_forall_ne_some.2 fun id hid => ?_
      rcases hr.fresh hid with hid | ⟨-, tensor, htensor, -⟩
      · exact hnot (h.defines_of_value hs hid)
      · exact hnot (hs.defines_of_tensor htensor)
    refine ⟨by simp only [Lowering.value, hvalue, htensor], ?_⟩
    show Lowering.ofExcept (r.table.constant name) r = _
    rw [Table.constant, htensor, hvalue]
    rfl

/-- A node is lowered only if the names that it resolves are defined before (`Defines`). -/
theorem Scoped.defines_of_resolves (h : Scoped options model place s)
    (hs : ComesTo options model g place s) (hl : Lowers options model g place node s t)
    (hname : node.Resolves name) : model.Defines options place name := by
  obtain ⟨op, hop, hname⟩ := hname
  obtain ⟨op', hop', hstep⟩ := Lowering.lowerNode_eq_ok.1 hl.lowered
  obtain rfl := Option.some.inj (hop.symm.trans hop')
  rcases hname with hname | hname
  · by_cases hc : op = .constant
    · subst hc
      cases hname
    · obtain ⟨r, output, i, hprepared, -⟩ := Lowering.binds_of_step hc hs.closed hstep
      obtain ⟨id, hid⟩ := hprepared.taken name hname
      rcases hprepared.adopts.fresh hid with hid | ⟨-, tensor, htensor, -⟩
      · exact h.defines_of_value hs hid
      · exact hs.defines_of_tensor htensor
  · obtain ⟨tensor, htensor⟩ := Lowering.exists_tensor_of_step hstep hname
    exact hs.defines_of_tensor htensor

/-- **Names are scoped.** In a model in single-assignment form, whatever the graph is:

* at every place of a load the table says what has been defined so far (`Scoped`);
* a name keeps its tensor and its value from one place to every later one (`Workspace.Keeps`), so
  that at most one parameter is made for it;
* wherever the next node looks names up, the tensor and the value of a name agree, and a name that
  is not defined before the place stands for nothing (`ResolvesIn`);
* if the load succeeds, every name that a node resolves is defined before the place of the node: a
  load with a node that resolves any other name fails. -/
theorem scoped_of_singleAssignment (hsa : model.SingleAssignment options) (g : Graph) :
    (∀ place s, ComesTo options model g place s → Scoped options model place s) ∧
    (∀ place place' s t, ComesTo options model g place s → ComesTo options model g place' t →
      place ≤ place' → s.Keeps t) ∧
    (∀ place s node op, ComesTo options model g place s → model.graph.nodes[place]? = some node →
      node.operator? = some op → op ≠ .constant →
      Lowering.LooksIn (fun r => s.Keeps r ∧ ResolvesIn options model place r)
        (Lowering.step model.opsetVersion node op) s) ∧
    (∀ loaded, (load options model g).1 = .ok loaded → ∀ place node name,
      model.graph.nodes[place]? = some node → node.Resolves name →
        model.Defines options place name) ∧
    ∀ place node name, model.graph.nodes[place]? = some node → node.Resolves name →
      ¬ model.Defines options place name → ∃ e, (load options model g).1 = .error e := by
  have hdefined : ∀ loaded, (load options model g).1 = .ok loaded → ∀ place node name,
      model.graph.nodes[place]? = some node → node.Resolves name →
        model.Defines options place name := by
    intro loaded hload place node name hnode hname
    have hload' : load options model g = (.ok loaded, (load options model g).2) :=
      Prod.ext hload rfl
    obtain ⟨s, t, hl⟩ := lowers_of_load_ok hload' hnode
    have hplace := (List.getElem?_eq_some_iff.1 hnode).1
    have hs : ComesTo options model g place s := ⟨hplace.le, hl.before⟩
    exact (hs.scoped hsa).defines_of_resolves hs hl hname
  refine ⟨fun place s hs => hs.scoped hsa, fun place place' s t hs ht => hs.keeps hsa ht,
    fun place s node op hs _ _ hop => ?_, hdefined, fun place node name hnode hname hnot => ?_⟩
  · exact (Lowering.looksIn_step hop _ hs.closed).mono fun r hr =>
      ⟨hr.keeps, (hs.scoped hsa).resolvesIn hs hr⟩
  · cases hload : (load options model g).1 with
    | ok loaded => exact absurd (hdefined loaded hload place node name hnode hname) hnot
    | error e => exact ⟨e, rfl⟩

end Places

/-! ### A constant that is taken before it is there -/

/-- The model in which the operator that takes the constant comes first. -/
def constantLate : Description :=
  { constantTaken with
    graph := { constantTaken.graph with nodes := constantTaken.graph.nodes.reverse } }

/-- Both models are in single-assignment form. When the constant comes first, the operator takes a
parameter with the tensor that the constant has; when it comes second, the load fails. -/
theorem scoped_of_constantTaken :
    constantTaken.SingleAssignment .standalone ∧ constantLate.SingleAssignment .standalone ∧
    (∃ s id tensor, ComesTo .standalone constantTaken (.empty "g") 2 s ∧
      s.table.value? "y" = some id ∧ s.table.tensor? "y" = some tensor ∧
        s.graph.Holds id "y" tensor) ∧
    (∃ loaded, (load .standalone constantTaken (.empty "g")).1 = .ok loaded) ∧
    constantTaken.Defines .standalone 1 "y" ∧ ¬ constantLate.Defines .standalone 0 "y" ∧
    ∃ e, (load .standalone constantLate (.empty "g")).1 = .error e := by
  have htaken : constantTaken.SingleAssignment .standalone :=
    ⟨by decide, fun name _ => Description.not_seeds_of_nil rfl rfl rfl name⟩
  have hlate : constantLate.SingleAssignment .standalone :=
    ⟨by decide, fun name _ => Description.not_seeds_of_nil rfl rfl rfl name⟩
  let run := Lowering.seed .standalone constantTaken >>= fun _ =>
    Lowering.lowerNodes 13 constantTaken.graph.nodes
  obtain ⟨⟨⟩, s, hs⟩ : ∃ u s, run { graph := .empty "g" } = .ok u s :=
    Step.exists_of_succeeds (by decide +kernel)
  have hcomes : ComesTo .standalone constantTaken (.empty "g") 2 s := ⟨by decide, hs⟩
  have hvalue : s.table.value? "y" = some ⟨0⟩ := by
    rw [← Step.after_of_ok hs]
    decide +kernel
  obtain ⟨tensor, htensor⟩ := ((hcomes.exists_tensor_iff "y").2
    (.inr ⟨constantNode, .head _, by decide, by decide⟩))
  obtain ⟨hscoped, -, -, hdefined, -⟩ := scoped_of_singleAssignment htaken (.empty "g")
  obtain ⟨-, -, -, -, hfails⟩ := scoped_of_singleAssignment hlate (.empty "g")
  have hholds : s.graph.Holds ⟨0⟩ "y" tensor := by
    rcases (hscoped 2 s hcomes).values "y" ⟨0⟩ hvalue with ⟨hnone, -⟩ | ⟨_, htensor', hholds⟩
    · rw [htensor] at hnone
      cases hnone
    · rw [htensor] at htensor'
      cases htensor'
      exact hholds
  have hok : (load .standalone constantTaken (.empty "g")).1.isOk = true := by decide +kernel
  obtain ⟨loaded, hloaded⟩ : ∃ loaded, (load .standalone constantTaken (.empty "g")).1 =
      .ok loaded := by
    cases hload : (load .standalone constantTaken (.empty "g")).1 with
    | ok loaded => exact ⟨loaded, rfl⟩
    | error e => rw [hload] at hok; cases hok
  have hresolves :
      NodeRecord.Resolves { inputs := ["y"], outputs := ["z"], opType := "Relu" } "y" :=
    ⟨.relu, by decide, .inl (by decide)⟩
  have hnot : ¬ constantLate.Defines .standalone 0 "y" := by
    rintro (hseeds | ⟨_, hmem, -⟩)
    · exact Description.not_seeds_of_nil rfl rfl rfl "y" hseeds
    · cases hmem
  exact ⟨htaken, hlate, ⟨s, ⟨0⟩, tensor, hcomes, hvalue, htensor, hholds⟩, ⟨loaded, hloaded⟩,
    hdefined loaded hloaded 1 _ "y" rfl hresolves, hnot, hfails 0 _ "y" rfl hresolves hnot⟩

end TensorGraph
