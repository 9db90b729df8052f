import TensorGraph.Proofs.Load.Atomic
import TensorGraph.Proofs.Lowering.Convolution
import TensorGraph.Proofs.Lowering.Options

/-! # Safe lowerings

A workspace is sound (`Workspace.Sound`) when its types have their places and every graph value in
its table stands for a node that has a type. A lowering is **safe** from a workspace on (`Safe`)
when each of its parts begins in a sound workspace, hands only handles of such nodes and of types to
the graph, and computes nothing that breaks an assumption. A safe lowering does not fail because of
a broken assumption, and it ends in a sound workspace whether it fails or not.

Lowering a node is safe from every sound workspace on, whatever its operator is. Two operators
allocate memory for zeros; they find it where the zeros of the node take fewer bytes than
`Size.allocatable` (`Affords`). -/

namespace TensorGraph

open Onnx (NodeRecord)
open Step (after)

/-! ### Sound workspaces -/

/-- The types have their places (`Graph.Indexed`), and the graph values of the names stand for nodes
with types. -/
structure Workspace.Sound (s : Workspace) : Prop where
  indexed : s.graph.Indexed
  values : ∀ {name id}, s.table.value? name = some id → s.graph.Has id

namespace Workspace.Sound

variable {s : Workspace} (hs : s.Sound)
include hs

theorem of_graph {g : Graph} (hg : g.Indexed) (hgrown : s.graph.Extends g) :
    Workspace.Sound { s with graph := g } where
  indexed := hg
  values h := (hs.values h).mono hgrown

theorem run (o : Graph.Operation) : Workspace.Sound { s with graph := o.run s.graph } :=
  hs.of_graph (hs.indexed.run o) (s.graph.extends_run o)

theorem of_table {t : Table} (ht : ∀ name id, t.value? name = some id → s.graph.Has id) :
    Workspace.Sound { s with table := t } where
  indexed := hs.indexed
  values h := ht _ _ h

theorem has_bind {id : NodeId} (hid : s.graph.Has id) (name : String) :
    ∀ other id', (s.table.bind name id).value? other = some id' → s.graph.Has id' := by
  intro other id' h
  rw [Table.value?_bind] at h
  split at h
  · cases h
    exact hid
  · exact hs.values h

theorem adopt (name : String) (tensor : Tensor) : Workspace.Sound {
    graph := (s.graph.add name (.parameter tensor)).2
    table := s.table.bind name ⟨s.graph.nodes.length⟩ } := by
  have hgraph := hs.of_graph (hs.indexed.add name (.parameter tensor)) (s.graph.extends_add name _)
  exact hgraph.of_table (hgraph.has_bind (Graph.has_add hs.indexed name rfl) name)

end Workspace.Sound

/-! ### Memory for zeros -/

/-- The type of what `name` stands for: a graph value, or else a tensor. -/
def Workspace.typeOf? (s : Workspace) (name : String) : Option ValueType :=
  match s.table.value? name with
  | some id => (s.graph.typeOf id).toOption
  | none => (s.table.tensor? name).map Tensor.type

namespace Workspace

variable {s : Workspace} {name : String}

theorem typeOf?_of_value {id : NodeId} (h : s.table.value? name = some id) :
    s.typeOf? name = (s.graph.typeOf id).toOption := by
  simp only [typeOf?, h]

theorem typeOf?_of_tensor (h : s.table.value? name = none) :
    s.typeOf? name = (s.table.tensor? name).map Tensor.type := by
  simp only [typeOf?, h]

end Workspace

namespace Lowering

/-- How many floats a node fills with zeros: a convolution one for each of its filters, a batch
normalization one for each channel of its input. -/
def zeroCount (node : NodeRecord) (s : Workspace) : Operator → Nat
  | .conv => (((node.input? 1).bind s.table.tensor?).bind (·.dims[0]?)).getD 0
  | .batchNormalization => (((node.input? 0).bind s.typeOf?).bind (·.dims[1]?)).getD 0
  | _ => 0

/-- Memory can be allocated for the zeros of a node (`zeroCount`), as they are fewer than
`Size.allocatable` bytes. -/
def Affords (node : NodeRecord) (s : Workspace) : Prop :=
  ∀ op, node.operator? = some op →
    zeroCount node s op * ElementKind.float.width < Size.allocatable

/-! ### Safe lowerings -/

/-- From a workspace on, a lowering breaks no assumption, and where there is `room` it finds the
memory that it asks for. Each rule is for one kind of part that loads are put together from. -/
inductive Safe (room : Prop) : {α : Type} → Lowering α → Workspace → Prop
  | ofExcept {α : Type} {result : Except LoadError α} {s : Workspace} (hs : s.Sound)
      (h : Avoids (LoadError.Broken room) result) : Safe room (ofExcept result) s
  | table {s : Workspace} (hs : s.Sound) : Safe room table s
  /-- A new table has graph values of nodes that are there. -/
  | updateTable {update : Table → Except LoadError Table} {s : Workspace} (hs : s.Sound)
      (h : Avoids (LoadError.Broken room) (update s.table))
      (hvalues : ∀ t, update s.table = .ok t →
        ∀ name id, t.value? name = some id → s.graph.Has id) : Safe room (updateTable update) s
  | value (name : String) {s : Workspace} (hs : s.Sound) : Safe room (value name) s
  | dims {id : NodeId} {s : Workspace} (hs : s.Sound) (hid : s.graph.Has id) : Safe room (dims id) s
  | kind {id : NodeId} {s : Workspace} (hs : s.Sound) (hid : s.graph.Has id) :
      Safe room (onGraph (.read (·.kind id))) s
  | intern (type : ValueType) {s : Workspace} (hs : s.Sound) : Safe room (onGraph (.intern type)) s
  /-- A constructor is called with handles of nodes, and of types, that are there. -/
  | create {c : Graph.Constructor} (name : String) {s : Workspace} (hs : s.Sound)
      (hops : ∀ id ∈ c.operands, s.graph.Has id) (hrefs : ∀ ref ∈ c.typeRefs, s.graph.HasType ref)
      (hplaced : c.Placed s.graph) : Safe room (onGraph (.create name (c.rule name))) s
  /-- Where there is room, memory is found for one float for each channel. -/
  | batchNormalization (name : String) {input : NodeId} (channel : Nat)
      (epsilon momentum : Binary32) (tensors : BatchParameters) {s : Workspace} (hs : s.Sound)
      (hinput : s.graph.Has input) (hroom : room → ∀ type channels,
        s.graph.typeOf input = .ok type → type.dims[channel]? = some channels →
          channels * ElementKind.float.width < Size.allocatable) :
      Safe room (onGraph (.batchNormalization name input channel epsilon momentum tensors)) s
  | bind {α β : Type} {x : Lowering α} {f : α → Lowering β} {s : Workspace} (hx : Safe room x s)
      (hf : ∀ a t, x s = .ok a t → Safe room (f a) t) : Safe room (x >>= f) s
  /-- An error is reported for a node. -/
  | lowerNode {opset : Int64} {node : NodeRecord} {s : Workspace}
      (h : Safe room (lower opset node) s) : Safe room (lowerNode opset node) s

variable {room : Prop} {α β : Type} {x : Lowering α} {s t : Workspace} {a : α}

theorem after_ofExcept (result : Except LoadError α) (s : Workspace) :
    after (ofExcept result) s = s := by
  unfold after ofExcept
  cases result <;> rfl

/-- **A safe lowering ends in a sound workspace** (`Workspace.Sound`) and only makes the graph grow,
also when it fails. -/
theorem Safe.after (h : Safe room x s) : (after x s).Sound ∧ s.graph.Extends (after x s).graph := by
  have hoperate : ∀ {α : Type} {s : Workspace} (step : Build α) (o : Graph.Operation), s.Sound →
      Step.after step s.graph = o.run s.graph → (Step.after (onGraph step) s).Sound ∧
        s.graph.Extends (Step.after (onGraph step) s).graph := by
    intro α s step o hs hrun
    rw [after_onGraph, hrun]
    exact ⟨hs.run o, s.graph.extends_run o⟩
  have hstill : ∀ {α : Type} {s : Workspace} {x : Lowering α}, s.Sound → Step.after x s = s →
      (Step.after x s).Sound ∧ s.graph.Extends (Step.after x s).graph := by
    intro α s x hs hx
    rw [hx]
    exact ⟨hs, .refl s.graph⟩
  induction h with
  | ofExcept hs _ => exact hstill hs (after_ofExcept _ _)
  | table hs => exact hstill hs rfl
  | @updateTable update s hs h hvalues =>
    rcases after_updateTable update s with hsame | ⟨t, ht, hnew⟩
    · exact hstill hs hsame
    · rw [hnew]
      exact ⟨hs.of_table (hvalues t ht), .refl s.graph⟩
  | @value name s hs =>
    rcases after_value name s with hsame | ⟨tensor, -, -, hnew⟩
    · exact hstill hs hsame
    · rw [hnew]
      exact ⟨hs.adopt name tensor, s.graph.extends_add name _⟩
  | @dims id s hs _ => exact hstill hs ((after_onGraph _ s).trans (by rw [Build.after_read]))
  | @kind id s hs _ => exact hstill hs ((after_onGraph _ s).trans (by rw [Build.after_read]))
  | intern type hs => exact hoperate _ (.intern type) hs rfl
  | @create c name s hs _ _ _ => exact hoperate _ (.create name c) hs rfl
  | batchNormalization name channel epsilon momentum tensors hs _ _ =>
    exact hoperate _ (.batchNormalization name _ channel epsilon momentum tensors) hs rfl
  | @bind _ _ x f s _ _ ihx ihf =>
    cases hok : x s with
    | ok a t =>
      rw [Step.after_of_ok hok] at ihx
      rw [Step.after_bind_of_ok hok]
      exact ⟨(ihf a t hok).1, ihx.2.trans (ihf a t hok).2⟩
    | error e t =>
      rw [Step.after_of_error hok] at ihx
      rwa [Step.after_bind_of_error hok]
  | lowerNode _ ih => rwa [after_lowerNode]

theorem Safe.of_ok (h : Safe room x s) (hok : x s = .ok a t) :
    t.Sound ∧ s.graph.Extends t.graph := by
  have hafter := h.after
  rwa [Step.after_of_ok hok] at hafter

/-! ### Errors of safe lowerings -/

theorem avoids_onGraph {step : Build α}
    (h : Step.Avoids (GraphError.Broken True room) step s.graph) :
    Step.Avoids (LoadError.Broken room) (onGraph step) s := by
  intro e t he
  unfold onGraph at he
  cases hstep : step s.graph with
  | ok a g => rw [hstep] at he; cases he
  | error cause g =>
    rw [hstep] at he
    cases he
    rintro (hbroken | _)
    exact h cause g hstep hbroken

theorem avoids_inNode {e : LoadError} (opType name : String) (h : ¬ e.Broken room) :
    ¬ (e.inNode opType name).Broken room := by
  cases e with
  | node innerType innerName cause => exact h
  | unsupportedOperator innerType innerName => exact h
  | _ =>
    intro hbroken
    cases hbroken with
    | node _ _ hcause => exact h hcause

/-- **A safe lowering does not fail because of a broken assumption** (`LoadError.Broken`). -/
theorem Safe.avoids (h : Safe room x s) : Step.Avoids (LoadError.Broken room) x s := by
  induction h with
  | @ofExcept α result s hs h =>
    intro e t he
    unfold Lowering.ofExcept at he
    cases result with
    | ok a => cases he
    | error cause => cases he; exact h e rfl
  | table hs => exact .of_ok rfl
  | @updateTable update s hs h _ =>
    intro e t he
    unfold Lowering.updateTable at he
    cases hupdate : update s.table with
    | ok known => rw [hupdate] at he; cases he
    | error cause =>
      rw [hupdate] at he
      cases he
      exact h e hupdate
  | @value name s hs =>
    intro e t he
    unfold Lowering.value at he
    cases hvalue : s.table.value? name with
    | some id => rw [hvalue] at he; cases he
    | none =>
      cases htensor : s.table.tensor? name with
      | some tensor => rw [hvalue, htensor] at he; cases he
      | none =>
        rw [hvalue, htensor] at he
        cases he
        nofun
  | dims hs hid => exact avoids_onGraph (Build.avoids_read hid.reads.avoids_dims)
  | kind hs hid => exact avoids_onGraph (Build.avoids_read hid.reads.avoids_kind)
  | intern type hs => exact .of_ok rfl
  | create name hs hops hrefs hplaced =>
    have hreads : ∀ id ∈ _, Graph.Reads True _ id := fun id hid => (hops id hid).reads
    exact avoids_onGraph
      (Build.avoids_create (Graph.Constructor.avoids_rule hreads hrefs hplaced name))
  | batchNormalization name channel epsilon momentum tensors hs hinput hroom =>
    exact avoids_onGraph (Build.avoids_batchNormalization hs.indexed hinput.reads hroom)
  | bind _ _ ihx ihf => exact ihx.bind ihf
  | @lowerNode opset node s _ ih =>
    intro e t he
    unfold Lowering.lowerNode at he
    cases hlower : lower opset node s with
    | ok supported r =>
      rw [hlower] at he
      cases supported with
      | true => cases he
      | false => cases he; nofun
    | error cause r =>
      rw [hlower] at he
      cases he
      exact avoids_inNode _ _ (ih cause t hlower)

/-! ### The parts of lowerings -/

section Parts

variable (hs : s.Sound)
include hs

/-- What a lowering computes by itself is safe if it avoids the errors that are `Foreign`. -/
theorem safe_result {result : Except LoadError α} (h : Avoids (LoadError.Foreign room) result) :
    Safe room (ofExcept result) s := .ofExcept hs (h.mono fun _ hbroken => hbroken.foreign id)

theorem safe_pure (a : α) : Safe room (pure a : Lowering α) s := .ofExcept hs (.pure a)

/-- What a constructor adds by `c.rule` is there afterwards. -/
theorem has_of_create {c : Graph.Constructor} {name : String} {id : NodeId}
    (hops : ∀ id ∈ c.operands, s.graph.Has id)
    (hok : onGraph (.create name (c.rule name)) s = .ok id t) : t.graph.Has id := by
  obtain ⟨g, hg, rfl⟩ := onGraph_eq_ok.1 hok
  exact (Build.has_of_create hs.indexed hops hg).2.2

theorem safe_throw {e : LoadError} (h : ¬ e.Broken room) : Safe room (throw e : Lowering α) s :=
  .ofExcept hs (.error h)

theorem safe_constant (name : String) : Safe room (constant name) s := by
  refine .bind (.table hs) fun t r hr => ?_
  obtain ⟨rfl, rfl⟩ := table_eq_ok.1 hr
  exact safe_result hs (avoids_constant _ name)

theorem safe_constantIndices (role name : String) : Safe room (constantIndices role name) s := by
  refine .bind (.table hs) fun t r hr => ?_
  obtain ⟨rfl, rfl⟩ := table_eq_ok.1 hr
  split
  · refine .bind (.ofExcept hs (.found nofun)) fun indices r hr => ?_
    obtain ⟨-, rfl⟩ := ofExcept_eq_ok.1 hr
    exact safe_pure hs _
  · exact safe_throw hs (by nofun)
  · exact safe_throw hs (by nofun)

theorem safe_tensorOf (name : String) : Safe room (tensorOf name) s := by
  refine .bind (.table hs) fun t r hr => ?_
  obtain ⟨rfl, rfl⟩ := table_eq_ok.1 hr
  exact safe_pure hs _

theorem safe_bindOutput {id : NodeId} (hid : s.graph.Has id) (node : NodeRecord) :
    Safe room (bindOutput node id) s := by
  refine .bind (safe_result hs (avoids_output node)) fun name r hr => ?_
  obtain ⟨-, rfl⟩ := ofExcept_eq_ok.1 hr
  refine .updateTable hs (.pure _) fun t ht => ?_
  cases ht
  exact hs.has_bind hid name

theorem safe_imageDims {id : NodeId} {type : ValueType} (htype : s.graph.typeOf id = .ok type)
    (hrank : type.dims.length = 4) : Safe room (imageDims id) s := by
  refine .bind (.dims hs ⟨type, htype⟩) fun dims r hr => ?_
  obtain ⟨hdims, rfl⟩ := dims_eq_ok.1 hr
  obtain ⟨kind, hkind⟩ := Graph.dims_eq_ok.1 hdims
  obtain rfl := Except.ok.inj (htype.symm.trans hkind)
  refine .ofExcept hs ?_
  match dims, hrank with
  | [_, _, _, _], _ => exact .pure _

/-- Images in the layout of the graph have the rank 4. -/
theorem safe_channelLast {input : NodeId} (hinput : s.graph.Has input) (name : String) :
    Safe room (channelLast name input) s := by
  have hcreate : Safe room (onGraph (.create name (Draft.transpose · input toChannelLast))) s :=
    .create (c := .transpose input toChannelLast) name hs (by simpa [Graph.Constructor.operands])
      (by simp [Graph.Constructor.typeRefs]) trivial
  refine .bind hcreate fun images r hr => ?_
  have hsound := (hcreate.of_ok hr).1
  obtain ⟨draft, hdraft, rfl, rfl⟩ := create_eq_ok.1 hr
  simp only [Draft.transpose, bind_eq_ok, pure_eq_ok] at hdraft
  obtain ⟨type, -, _, -, dims, hdims, hdrafted⟩ := hdraft
  have hresult : s.graph.resultType draft.result = .ok ⟨type.kind, dims⟩ := by
    rw [← hdrafted]
    rfl
  have himage : Safe room (imageDims _) _ :=
    safe_imageDims hsound (Graph.typeOf_add hs.indexed name draft hresult)
      (mapM_eq_ok.1 hdims).length_eq.symm
  exact .bind himage fun image r hr => safe_pure (himage.of_ok hr).1 _

end Parts

/-! ### Constants -/

/-- Storing a tensor leaves the graph values as they are (`Table.values`). -/
theorem safe_updateTensors {update : Table → Except LoadError Table} (hs : s.Sound)
    (h : Avoids (LoadError.Broken room) (update s.table))
    (hvalues : ∀ t, update s.table = .ok t → t.values = s.table.values) :
    Safe room (updateTable update) s := by
  refine .updateTable hs h fun t ht name id hid => hs.values (?_ : s.table.value? name = some id)
  rwa [Table.value?, ← hvalues t ht]

theorem safe_storeConstant (hs : s.Sound) (node : NodeRecord) :
    Safe room (storeConstant node) s := by
  refine .bind (safe_result hs (avoids_output node)) fun name r hr => ?_
  obtain ⟨-, rfl⟩ := ofExcept_eq_ok.1 hr
  refine .bind (.table hs) fun t r hr => ?_
  obtain ⟨rfl, rfl⟩ := table_eq_ok.1 hr
  split
  · exact safe_pure hs ()
  refine .bind (safe_result hs (avoids_attribute _)) fun record r hr => ?_
  obtain ⟨-, rfl⟩ := ofExcept_eq_ok.1 hr
  refine .bind (safe_result hs (avoids_materialize record)) fun tensor r hr => ?_
  obtain ⟨-, rfl⟩ := ofExcept_eq_ok.1 hr
  refine safe_updateTensors hs (.pure _) fun t ht => ?_
  cases ht
  exact Table.values_insert

/-! ### All operators -/

section Handles

variable {ids : NodeId → NodeId → Prop} {refs : TypeRef → TypeRef → Prop}
  {c c' : Graph.Constructor}

theorem exists_of_operands (h : c.Alike ids refs c') {id : NodeId} (hid : id ∈ c.operands) :
    ∃ id', ids id id' := by
  cases h with
  | parameter tensor => cases hid
  | convolution hi hf hb _ _ _ =>
    simp only [Graph.Constructor.operands, List.mem_cons, List.not_mem_nil, or_false] at hid
    obtain rfl | rfl | rfl := hid
    · exact ⟨_, hi⟩
    · exact ⟨_, hf⟩
    · exact ⟨_, hb⟩
  | concat h _ =>
    obtain ⟨id', -, hids⟩ := exists_of_forall₂ h hid
    exact ⟨id', hids⟩
  | matMul hl hr =>
    simp only [Graph.Constructor.operands, List.mem_cons, List.not_mem_nil, or_false] at hid
    obtain rfl | rfl := hid
    · exact ⟨_, hl⟩
    · exact ⟨_, hr⟩
  | arithmetic _ hl hr =>
    simp only [Graph.Constructor.operands, List.mem_cons, List.not_mem_nil, or_false] at hid
    obtain rfl | rfl := hid
    · exact ⟨_, hl⟩
    · exact ⟨_, hr⟩
  | _ =>
    rw [List.mem_singleton.1 hid]
    exact ⟨_, by assumption⟩

theorem exists_of_typeRefs (h : c.Alike ids refs c') {ref : TypeRef} (href : ref ∈ c.typeRefs) :
    ∃ ref', refs ref ref' := by
  cases h with
  | convolution _ _ _ hout _ _ =>
    rw [List.mem_singleton.1 href]
    exact ⟨_, hout⟩
  | _ => cases href

end Handles

/-- Workspaces, ordered by the growth of their graphs (`Graph.Extends`). -/
def Growing : Type := Workspace

instance : Preorder Growing where
  le s t := s.graph.Extends t.graph
  le_refl s := .refl s.graph
  le_trans _ _ _ := .trans

/-- Safety (`Safe`) as a coupling of a run with itself, for operators that need no memory for
zeros. -/
def safety (room : Prop) (node : NodeRecord) (op : Operator) (hconv : op ≠ .conv)
    (hbatch : op ≠ .batchNormalization) : Coupling Growing node op where
  ids w i _ := w.graph.Has i
  refs w r _ := w.graph.HasType r
  seen _ _ := True
  ids_mono hw hi := hi.mono hw
  refs_mono hw hr := hr.mono hw
  seen_mono _ _ := trivial
  Couples w x _ post := w.Sound → Safe room x w ∧ ∀ a t, x w = .ok a t → ∃ b, post t a b
  Ends w x _ := w.Sound → Safe room x w
  couples_pure := by
    intro _ w a b _ hpost hw
    refine ⟨safe_pure hw a, fun c t hc => ?_⟩
    obtain ⟨rfl, rfl⟩ := Step.pure_eq_ok.1 hc
    exact ⟨b, hpost⟩
  couples_bind := by
    intro _ _ w x _ f _ _ _ hx hf hw
    obtain ⟨hsafe, hok⟩ := hx hw
    refine ⟨hsafe.bind fun a r ha => ?_, fun c t hc => ?_⟩
    · obtain ⟨b, hmid⟩ := hok a r ha
      obtain ⟨hr, hgrown⟩ := hsafe.of_ok ha
      exact (hf r a b hgrown hmid hr).1
    · obtain ⟨a, r, ha, hc⟩ := Step.bind_eq_ok.1 hc
      obtain ⟨b, hmid⟩ := hok a r ha
      obtain ⟨hr, hgrown⟩ := hsafe.of_ok ha
      exact (hf r a b hgrown hmid hr).2 c t hc
  ends_bind := by
    intro _ w x _ f _ _ hx hf hw
    obtain ⟨hsafe, hok⟩ := hx hw
    refine hsafe.bind fun a r ha => ?_
    obtain ⟨b, hmid⟩ := hok a r ha
    obtain ⟨hr, hgrown⟩ := hsafe.of_ok ha
    exact hf r a b hgrown hmid hr
  couples_ofExcept := by
    intro _ w result h hw
    refine ⟨.ofExcept hw (h.mono fun _ hbroken => hbroken.foreign fun _ => hconv), fun a t ha => ?_⟩
    obtain ⟨hresult, rfl⟩ := ofExcept_eq_ok.1 ha
    exact ⟨a, rfl, rfl, hresult⟩
  couples_value := by
    intro w name _ hw
    refine ⟨.value name hw, fun id t h => ⟨id, ?_, trivial⟩⟩
    rcases value_eq_ok.1 h with ⟨hvalue, rfl⟩ | ⟨-, rfl, tensor, -, rfl⟩
    · exact hw.values hvalue
    · exact Graph.has_add hw.indexed name rfl
  couples_constant := by
    intro w name _ hw
    refine ⟨safe_constant hw name, fun tensor t h => ?_⟩
    exact ⟨tensor, (constant_eq_ok.1 h).2, rfl⟩
  couples_constantIndices := by
    intro w role name _ hw
    refine ⟨safe_constantIndices hw role name, fun numbers t h => ?_⟩
    exact ⟨numbers, (constantIndices_eq_ok.1 h).2, rfl⟩
  couples_tensorOf := by
    intro w name _ hw
    refine ⟨safe_tensorOf hw name, fun tensor t h => ?_⟩
    cases h
    exact ⟨_, rfl, rfl⟩
  couples_dims := by
    intro w _ _ hi hw
    exact ⟨.dims hw hi, fun dims t h => ⟨dims, (dims_eq_ok.1 h).2, rfl⟩⟩
  couples_kind := by
    intro w _ _ hi hw
    exact ⟨.kind hw hi, fun kind t h => ⟨kind, (read_eq_ok.1 h).2, rfl⟩⟩
  couples_create := by
    intro w c c' name hc hused hw
    have hops : ∀ id ∈ c.operands, Graph.Has _ id := fun id hid =>
      (exists_of_operands hc hid).elim fun _ h => h
    have hrefs : ∀ ref ∈ c.typeRefs, Graph.HasType _ ref := fun ref href =>
      (exists_of_typeRefs hc href).elim fun _ h => h
    exact ⟨.create name hw hops hrefs hused.placed, fun id t h => ⟨id, has_of_create hw hops h⟩⟩
  couples_channelLast := by
    intro w i _ name hi hw
    refine ⟨safe_channelLast hw hi name, fun a t h => ⟨a, ?_, rfl⟩⟩
    exact has_of_create hw (c := .transpose i toChannelLast) (by simpa [Graph.Constructor.operands])
      (create_of_channelLast h)
  couples_intern := by
    intro w type hw
    refine ⟨.intern type hw, fun ref t h => ⟨ref, ?_⟩⟩
    obtain ⟨rfl, rfl⟩ := intern_eq_ok.1 h
    exact ⟨type, Graph.resolve_intern hw.indexed type⟩
  couples_batchNormalization := by
    intro w i _ name channel epsilon momentum tensors hop
    exact absurd hop hbatch
  ends_bindOutput := by
    intro w i _ hi _ hw
    exact safe_bindOutput hw hi node

/-! ### Operators that need memory for zeros -/

section Zeros

variable {node : NodeRecord} (hs : s.Sound)
include hs

/-- The `value` of a name stands for a node of the type of the name (`typeOf?`). -/
theorem typeOf_of_value {name : String} {id : NodeId} (h : value name s = .ok id t) :
    ∃ type, s.typeOf? name = some type ∧ t.graph.typeOf id = .ok type := by
  rcases value_eq_ok.1 h with ⟨hvalue, rfl⟩ | ⟨hvalue, rfl, tensor, htensor, rfl⟩
  · obtain ⟨type, htype⟩ := hs.values hvalue
    refine ⟨type, ?_, htype⟩
    rw [Workspace.typeOf?_of_value hvalue, htype]
    rfl
  · refine ⟨tensor.type, ?_, Graph.typeOf_add hs.indexed name (.parameter tensor) rfl⟩
    rw [Workspace.typeOf?_of_tensor hvalue, htensor]
    rfl

theorem safe_inputValue (position : Nat) : Safe room (inputValue node position) s := by
  refine .bind (safe_result hs (avoids_input node position)) fun name r hr => ?_
  obtain ⟨-, rfl⟩ := ofExcept_eq_ok.1 hr
  exact .value name hs

theorem safe_constantAt {position : Nat} {f : Tensor → Lowering Unit}
    (hf : ∀ tensor, Safe room (f tensor) s) : Safe room
      ((liftM (node.input position) : Lowering String) >>= fun name => constant name >>= f) s := by
  refine .bind (safe_result hs (avoids_input node position)) fun name r hr => ?_
  obtain ⟨-, rfl⟩ := ofExcept_eq_ok.1 hr
  refine .bind (safe_constant hs name) fun tensor r hr => ?_
  obtain ⟨-, rfl⟩ := constant_eq_ok.1 hr
  exact hf tensor

/-- What goes on, by `f`, with an added node begins in a sound workspace, in which the nodes from
before and the new one are there. -/
theorem safe_create {c : Graph.Constructor} (name : String) {f : NodeId → Lowering α}
    (hops : ∀ id ∈ c.operands, s.graph.Has id) (hrefs : ∀ ref ∈ c.typeRefs, s.graph.HasType ref)
    (hplaced : c.Placed s.graph)
    (hf : ∀ id t, t.Sound → s.graph.Extends t.graph → t.graph.Has id → Safe room (f id) t) :
    Safe room (onGraph (.create name (c.rule name)) >>= f) s := by
  have hcreate : Safe room (onGraph (.create name (c.rule name))) s :=
    .create name hs hops hrefs hplaced
  refine .bind hcreate fun id t ht => ?_
  obtain ⟨hsound, hgrown⟩ := hcreate.of_ok ht
  exact hf id t hsound hgrown (has_of_create hs hops ht)

theorem safe_filterTensor (name : String) : Safe room (filterTensor name) s := by
  refine .bind (safe_constant hs name) fun weight r hr => ?_
  obtain ⟨-, rfl⟩ := constant_eq_ok.1 hr
  exact safe_result hs (avoids_tensor name (avoids_transposed weight _))

theorem safe_biasTensor {depth : Nat}
    (hroom : room → depth * ElementKind.float.width < Size.allocatable) :
    Safe room (biasTensor node depth) s := by
  have hzeros : Avoids (LoadError.Foreign room)
      ((Tensor.zeros .float [depth]).mapError (.tensor (node.part "bias"))) :=
    avoids_zeros _ fun h => by simpa using hroom h
  refine .bind (safe_result hs hzeros) fun zeros r hr => ?_
  obtain ⟨-, rfl⟩ := ofExcept_eq_ok.1 hr
  cases node.input? 2 with
  | some name =>
    refine .bind (safe_constant hs name) fun bias r hr => ?_
    obtain ⟨-, rfl⟩ := constant_eq_ok.1 hr
    exact safe_result hs (avoids_tensor name (avoids_copyFrom zeros bias))
  | none => exact safe_pure hs zeros

theorem safe_addConvolution {input : NodeId} (hinput : s.graph.Has input) (filters biases : Tensor)
    (options : ConvOptions) : Safe room (addConvolution node input filters biases options) s := by
  rw [addConvolution_eq]
  refine safe_create hs (c := .parameter filters) _ (by simp [Graph.Constructor.operands])
    (by simp [Graph.Constructor.typeRefs]) trivial fun filter s₁ h₁ e₁ hfilter => ?_
  refine safe_create h₁ (c := .parameter biases) _ (by simp [Graph.Constructor.operands])
    (by simp [Graph.Constructor.typeRefs]) trivial fun bias s₂ h₂ e₂ hbias => ?_
  have hlast : Safe room (channelLast (node.part "input_nhwc") input) s₂ :=
    safe_channelLast h₂ (hinput.mono (e₁.trans e₂)) _
  refine .bind hlast fun found s₃ hs₃ => ?_
  obtain ⟨images, image⟩ := found
  obtain ⟨h₃, e₃⟩ := hlast.of_ok hs₃
  have himages : s₃.graph.Has images :=
    has_of_create h₂ (c := .transpose input toChannelLast)
      (by simpa [Graph.Constructor.operands] using hinput.mono (e₁.trans e₂))
      (create_of_channelLast hs₃)
  refine .bind (.ofExcept h₃ (.found (by rintro ⟨⟩))) fun size r hr => ?_
  obtain ⟨-, rfl⟩ := ofExcept_eq_ok.1 hr
  refine .bind (.kind h₃ himages) fun elements r hr => ?_
  obtain ⟨-, rfl⟩ := read_eq_ok.1 hr
  have hintern : Safe room
      (onGraph (.intern ⟨elements, [image.count, size.1, size.2, options.depth]⟩)) r := .intern _ h₃
  refine .bind hintern fun out s₄ hs₄ => ?_
  obtain ⟨h₄, e₄⟩ := hintern.of_ok hs₄
  obtain ⟨rfl, rfl⟩ := intern_eq_ok.1 hs₄
  refine safe_create h₄ (c := .convolution images filter bias _ options.window options.group) _
    ?_ ?_ trivial fun result s₅ h₅ e₅ hresult => ?_
  · intro id hid
    simp only [Graph.Constructor.operands, List.mem_cons, List.not_mem_nil, or_false] at hid
    obtain rfl | rfl | rfl := hid
    · exact himages.mono e₄
    · exact hfilter.mono (e₂.trans (e₃.trans e₄))
    · exact hbias.mono (e₃.trans e₄)
  · intro ref href
    rw [List.mem_singleton.1 href]
    exact ⟨_, Graph.resolve_intern h₃.indexed _⟩
  · exact .create (c := .transpose result toChannelFirst) _ h₅
      (by simpa [Graph.Constructor.operands]) (by simp [Graph.Constructor.typeRefs]) trivial

omit hs in
/-- The number of filters, `options.depth`, is the first dimension of the weight. -/
theorem depth_of_read {attrs : Onnx.Attributes} {weight filters : Tensor} {options : ConvOptions}
    (hfilters : weight.transpose toChannelLast = .ok filters)
    (hoptions : ConvOptions.read attrs filters.dims = .ok options) :
    weight.dims[0]? = some options.depth := by
  obtain ⟨hdims, hrank⟩ := dims_of_transpose hfilters
  rw [hdims] at hoptions
  generalize weight.dims = dims at hoptions hrank
  match dims, hrank with
  | [depth, channels, height, width], _ =>
    obtain ⟨-, hdepth, -⟩ := ConvOptions.read_eq_ok.1 hoptions
    exact congrArg some hdepth.symm

theorem safe_convolution
    (hroom : room → zeroCount node s .conv * ElementKind.float.width < Size.allocatable) :
    Safe room (convolution node) s := by
  have hvalue : Safe room (inputValue node 0) s := safe_inputValue hs 0
  refine .bind hvalue fun input t ht => ?_
  obtain ⟨hsound, -⟩ := hvalue.of_ok ht
  obtain ⟨_, hinput, hid⟩ := inputValue_eq_ok.1 ht
  obtain ⟨type, -, htype⟩ := typeOf_of_value hs hid
  refine .bind (safe_result hsound (avoids_input node 1)) fun name r hr => ?_
  obtain ⟨hname, rfl⟩ := ofExcept_eq_ok.1 hr
  refine .bind (safe_filterTensor hsound name) fun filters r hr => ?_
  obtain ⟨⟨weight, hweight, hfilters⟩, rfl⟩ := filterTensor_eq_ok.1 hr
  refine .bind (safe_result hsound (avoids_convOptions node.view filters.dims))
    fun options r hr => ?_
  obtain ⟨hoptions, rfl⟩ := ofExcept_eq_ok.1 hr
  have hcount : zeroCount node s .conv = options.depth := by
    -- resolving the images has left the tensors alone
    have hmoves : Step.MovesBy (Move .conv node) (inputValue node 0) := movesBy_inputValue 0
    have htensor := tensor?_of_ok (by decide) hmoves ht name
    simp only [zeroCount, input_eq_ok.1 hname, Option.bind_some, ← htensor, hweight,
      depth_of_read hfilters hoptions, Option.getD_some]
  refine .bind (safe_biasTensor hsound (hcount ▸ hroom)) fun biases r hr => ?_
  obtain ⟨-, rfl⟩ := biasTensor_eq_ok.1 hr
  have hadd : Safe room (addConvolution node input filters biases options) r :=
    safe_addConvolution hsound ⟨type, htype⟩ filters biases options
  refine .bind hadd fun output r hr => ?_
  obtain ⟨_, _, _, _, _, rfl, hadds⟩ := adds_of_ok hsound.indexed hr weight none
  exact safe_bindOutput (hadd.of_ok hr).1 ⟨_, hadds.typeOf_output⟩ node

theorem safe_batchNormalization
    (hroom : room → zeroCount node s .batchNormalization * ElementKind.float.width <
      Size.allocatable) : Safe room (batchNormalization node) s := by
  have hvalue : Safe room (inputValue node 0) s := safe_inputValue hs 0
  refine .bind hvalue fun input t ht => ?_
  obtain ⟨hsound, -⟩ := hvalue.of_ok ht
  obtain ⟨name, hname, hid⟩ := inputValue_eq_ok.1 ht
  obtain ⟨type, hsome, htype⟩ := typeOf_of_value hs hid
  refine .bind (safe_result hsound (avoids_attribute _)) fun options r hr => ?_
  obtain ⟨-, rfl⟩ := ofExcept_eq_ok.1 hr
  refine safe_constantAt hsound fun scale => safe_constantAt hsound fun bias => ?_
  refine safe_constantAt hsound fun mean => safe_constantAt hsound fun variance => ?_
  have hchannels : room → ∀ type channels, r.graph.typeOf input = .ok type →
      type.dims[1]? = some channels → channels * ElementKind.float.width < Size.allocatable := by
    intro h type' channels htype' hchannels
    obtain rfl := Except.ok.inj (htype.symm.trans htype')
    simpa [zeroCount, hname, hsome, hchannels] using hroom h
  have hbatch := Safe.batchNormalization node.title 1 options.epsilon options.momentum
    ⟨scale, bias, mean, variance⟩ hsound ⟨type, htype⟩ hchannels
  refine .bind hbatch fun output u hu => ?_
  obtain ⟨g, hg, rfl⟩ := onGraph_eq_ok.1 hu
  exact safe_bindOutput (hbatch.of_ok hu).1
    (Build.has_of_batchNormalization hsound.indexed ⟨type, htype⟩ hg).2.2 node

end Zeros

/-- **Lowering a node is safe**, whatever its operator is, from every sound workspace on. Where
there is `room`, there must be memory for its zeros (`zeroCount`). -/
theorem safe_step (hs : s.Sound) (opset : Int64) (node : NodeRecord) (op : Operator)
    (hroom : room → zeroCount node s op * ElementKind.float.width < Size.allocatable) :
    Safe room (step opset node op) s := by
  by_cases hconstant : op = .constant
  · subst hconstant
    exact safe_storeConstant hs node
  by_cases hconv : op = .conv
  · subst hconv
    exact safe_convolution hs hroom
  by_cases hbatch : op = .batchNormalization
  · subst hbatch
    exact safe_batchNormalization hs hroom
  exact (safety room node op hconv hbatch).ends_step (w := s) hconstant opset hs

end Lowering
end TensorGraph
