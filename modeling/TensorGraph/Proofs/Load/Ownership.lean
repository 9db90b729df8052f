import TensorGraph.Proofs.Load.Atomic
import TensorGraph.Proofs.Load.Lent
import TensorGraph.Proofs.Lowering.Lockstep

/-! # Who owns the stored tensors

The stored tensors of a model can be materialized by the load, or by the caller who then lends them.
In the table they are in slots of different kinds; that is seen only where a tensor is to be stored
for a name, and besides the stored tensors themselves only constants are stored for names that may
have a tensor. If no constant is named like a stored tensor, both ways lead to the same load. -/

namespace TensorGraph

open Onnx (NodeRecord TensorRecord ValueRecord)
open Step (Agree)

/-! ### Tables that differ in who owns tensors -/

/-- Tables in which all names stand for the same, and in which the same tensors are lent apart from
those of names that are `exempt`. -/
structure Table.SameBut (exempt : String → Prop) (t t' : Table) : Prop where
  values : t.values = t'.values
  tensors : ∀ name, t.tensor? name = t'.tensor? name
  lent : ∀ name, ¬ exempt name → t.isLent name = t'.isLent name

namespace Table.SameBut

variable {exempt : String → Prop} {t t' : Table} (htt' : t.SameBut exempt t')
include htt'

theorem value?_eq (name : String) : t.value? name = t'.value? name := by
  rw [value?, value?, htt'.values]

theorem sameFor (name : String) : t.SameFor t' name where
  tensor := htt'.tensors name
  value _ := by rw [htt'.value?_eq]

theorem bind (name : String) (id : NodeId) : (t.bind name id).SameBut exempt (t'.bind name id) where
  values := by
    show t.values.insert name id = t'.values.insert name id
    rw [htt'.values]
  tensors := htt'.tensors
  lent := htt'.lent

/-- A tensor is stored in both tables or, as one is lent for its name, in neither. -/
theorem insert {name : String} (h : t.isLent name = t'.isLent name) (tensor : Tensor) :
    (t.insert name tensor).SameBut exempt (t'.insert name tensor) where
  values := by rw [values_insert, values_insert, htt'.values]
  tensors other := by
    cases hlent : t'.isLent name with
    | true =>
      rw [hlent] at h
      rw [Table.insert, if_pos h, Table.insert, if_pos hlent, htt'.tensors]
    | false =>
      rw [hlent] at h
      rw [tensor?_insert h, tensor?_insert hlent, htt'.tensors]
  lent other hother := by rw [isLent_insert, isLent_insert, htt'.lent other hother]

theorem declareInput (limit : Nat) (record : ValueRecord) :
    Matches (Table.SameBut exempt) (t.declareInput limit record)
      (t'.declareInput limit record) := by
  unfold Table.declareInput
  rw [contains_eq_isSome, contains_eq_isSome, htt'.tensors]
  cases hname : t'.tensor? record.name with
  | some tensor => exact .ok htt'
  | none =>
    -- A name without a tensor is lent in neither table.
    have hmade : t.isLent record.name = t'.isLent record.name := by
      rw [isLent_of_tensor?_eq_none hname, isLent_of_tensor?_eq_none (htt'.tensors _ ▸ hname)]
    exact .bind_same fun tensor _ => .ok (htt'.insert hmade tensor)

end Table.SameBut

/-! ### Two runs -/

namespace Lowering

/-- Workspaces with the same graph whose tables differ in who owns tensors (`Table.SameBut`). -/
structure SameBut (exempt : String → Prop) (s t : Workspace) : Prop where
  graph : s.graph = t.graph
  table : s.table.SameBut exempt t.table

section Runs

variable {exempt : String → Prop} {w : Graph × Graph} {α : Type}

theorem carries_sameBut (exempt : String → Prop) : Carries (SameBut exempt) Eq where
  linked hst := hst.graph
  graph hst hgh _ _ := ⟨hgh, hst.table⟩

theorem sameBut_table : Lockstep (SameBut exempt) w table table fun w' t t' =>
    w' = w ∧ t.SameBut exempt t' :=
  lockstep_table (Table.SameBut exempt) fun _ _ hst _ => hst.table

theorem sameBut_updateTable {update : Table → Except LoadError Table}
    (h : ∀ t t', t.SameBut exempt t' → Matches (Table.SameBut exempt) (update t) (update t')) :
    Lockstep (SameBut exempt) w (updateTable update) (updateTable update) fun _ _ _ => True := by
  refine lockstep_updateTable fun s t hst _ => ?_
  have hend := h s.table t.table hst.table
  revert hend
  cases update s.table <;> cases update t.table <;> intro hend <;> cases hend
  · exact .error _
  · next hend => exact .ok ⟨hst.graph, hend⟩

/-! ### The parts of lowerings -/

/-- The same step on the same graph, by `onGraph`, keeps the workspaces so. -/
theorem sameBut_onGraph {x : Build α} (hx : ∀ g : Graph, g.Extends (Step.after x g)) :
    Lockstep (SameBut exempt) w (onGraph x) (onGraph x) fun _ c d => c = d := by
  refine lockstep_onGraph (carries_sameBut exempt) (fun _ _ c d => c = d) fun g g' hgg' _ => ?_
  subst hgg'
  have hgrown := hx g
  unfold Step.after at hgrown
  revert hgrown
  cases x g with
  | ok c h => exact fun hgrown => .ok ⟨rfl, hgrown, hgrown, rfl⟩
  | error e h => exact fun _ => .error e h h

theorem sameBut_read {query : Graph → Except GraphError α} :
    Lockstep (SameBut exempt) w (onGraph (.read query)) (onGraph (.read query)) fun w' c d =>
      w' = w ∧ c = d :=
  lockstep_read (carries_sameBut exempt) (congrArg query)

theorem sameBut_create (name : String) (c : Graph.Constructor) :
    Lockstep (SameBut exempt) w (onGraph (.create name (c.rule name)))
      (onGraph (.create name (c.rule name))) fun _ c d => c = d :=
  sameBut_onGraph fun g => g.extends_run (.create name c)

theorem sameBut_value (name : String) :
    Lockstep (SameBut exempt) w (value name) (value name) fun _ i j => i = j := by
  rintro s t hst rfl
  unfold value
  rw [hst.table.value?_eq, hst.table.tensors, hst.graph]
  cases t.table.value? name with
  | some id => exact .ok ⟨hst, ⟨hst.graph ▸ le_refl _, le_refl _⟩, rfl⟩
  | none =>
    cases t.table.tensor? name with
    | none => exact .error _ s t
    | some tensor =>
      have hgrown := t.graph.extends_add name (.parameter tensor)
      exact .ok ⟨⟨rfl, hst.table.bind name _⟩, ⟨hst.graph ▸ hgrown, hgrown⟩, rfl⟩

theorem sameBut_bindOutput (node : NodeRecord) (id : NodeId) :
    Lockstep (SameBut exempt) w (bindOutput node id) (bindOutput node id) fun _ _ _ => True :=
  lockstep_lift _ fun name _ => sameBut_updateTable fun _ _ htt' => .ok (htt'.bind name id)

end Runs

/-- The coupling of two runs on the same graph that differ in who owns tensors (`SameBut`). -/
def ownership (exempt : String → Prop) (node : NodeRecord) (op : Operator) :
    Coupling (Graph × Graph) node op where
  ids _ := Eq
  refs _ := Eq
  seen _ _ := True
  ids_mono _ hij := hij
  refs_mono _ hr := hr
  seen_mono _ _ := trivial
  Couples w x y post := Lockstep (SameBut exempt) w x y post
  Ends w x y := Lockstep (SameBut exempt) w x y fun _ _ _ => True
  couples_pure := lockstep_pure
  couples_bind := Lockstep.bind
  ends_bind := Lockstep.bind
  couples_ofExcept _ := lockstep_ofExcept _
  couples_value _ := (sameBut_value _).mono fun _ _ _ hij => ⟨hij, trivial⟩
  couples_constant _ := lockstep_constant fun _ _ hst _ => hst.table.sameFor _
  couples_constantIndices role _ _ :=
    lockstep_constantIndices (fun _ _ hst _ => hst.table.sameFor _) role
  couples_tensorOf _ := lockstep_tensorOf fun _ _ hst _ => hst.table.sameFor _
  couples_dims hij := hij ▸ sameBut_read
  couples_kind hij := hij ▸ sameBut_read
  couples_create name hc _ := hc.eq ▸ sameBut_create name _
  couples_channelLast name hij := hij ▸ lockstep_channelLast
    (sameBut_create name (.transpose _ toChannelLast)) fun hij => hij ▸ sameBut_read
  couples_intern type := sameBut_onGraph fun g => g.extends_run (.intern type)
  couples_batchNormalization name channel epsilon momentum tensors _ hij :=
    hij ▸ sameBut_onGraph fun g =>
      g.extends_run (.batchNormalization name _ channel epsilon momentum tensors)
  ends_bindOutput hij _ := hij ▸ sameBut_bindOutput node _

/-! ### The phases of a load -/

section Phases

variable {exempt : String → Prop} {w : Graph × Graph}

theorem sameBut_declareInputs (limit : Nat) (records : List ValueRecord) :
    Lockstep (SameBut exempt) w (declareInputs limit records) (declareInputs limit records)
      fun _ _ _ => True :=
  lockstep_forM fun _ record _ => sameBut_updateTable fun _ _ htt' => htt'.declareInput limit record

/-- A constant whose name is not `exempt` is lent in both tables or in neither. -/
theorem sameBut_storeConstant {node : NodeRecord}
    (h : ∀ name, node.output = .ok name → ¬ exempt name) :
    Lockstep (SameBut exempt) w (storeConstant node) (storeConstant node) fun _ _ _ => True := by
  refine lockstep_lift _ fun name hname => sameBut_table.bind fun w' t t' _ htt' => ?_
  have hlent := htt'.2.lent name (h name hname)
  rw [hlent]
  split
  · exact lockstep_pure trivial
  · refine lockstep_lift _ fun record _ => lockstep_lift _ fun tensor _ => ?_
    refine lockstep_updateTable fun s t hst _ => .ok ⟨hst.graph, ?_⟩
    exact hst.table.insert (hst.table.lent name (h name hname)) tensor

theorem sameBut_lowerNode (opset : Int64) {node : NodeRecord}
    (h : node.operator? = some .constant → ∀ name, node.output = .ok name → ¬ exempt name) :
    Lockstep (SameBut exempt) w (lowerNode opset node) (lowerNode opset node)
      fun _ _ _ => True := by
  refine lockstep_lowerNode fun op hnode => ?_
  by_cases hop : op = .constant
  · subst hop
    exact sameBut_storeConstant (h hnode)
  · exact (ownership exempt node op).ends_step hop opset

theorem sameBut_finish (options options' : LoadOptions) (h : options.outputs = options'.outputs)
    (model : Description) :
    Lockstep (SameBut exempt) w (finish options model) (finish options' model)
      fun _ c d => c = d := by
  refine (lockstep_finish (R := fun _ => Eq) (fun _ hij => hij) (fun hst name => ?_)
    (fun name hij => hij ▸ sameBut_create name (.save _)) h rfl).mono fun _ _ _ houtputs => ?_
  · rw [hst.table.value?_eq]
    cases Table.value? _ name <;> constructor
    rfl
  · rw [← List.forall₂_eq_eq_eq]
    exact houtputs.imp fun c d hcd => Prod.ext hcd.1 hcd.2

/-- What follows the table's being filled, with the same outputs asked for. -/
theorem sameBut_afterSeed (options options' : LoadOptions) (h : options.outputs = options'.outputs)
    (model : Description) (hconstants : ∀ node ∈ model.graph.nodes,
      node.operator? = some .constant → ∀ name, node.output = .ok name → ¬ exempt name) :
    Lockstep (SameBut exempt) w
      (do
        lowerNodes model.opsetVersion model.graph.nodes
        let outputs ← finish options model
        return Loaded.mk model.irVersion model.opsetVersion outputs (← table).values)
      (do
        lowerNodes model.opsetVersion model.graph.nodes
        let outputs ← finish options' model
        return Loaded.mk model.irVersion model.opsetVersion outputs (← table).values)
      fun _ c d => c = d := by
  refine (lockstep_forM fun w node hnode => sameBut_lowerNode _ (hconstants node hnode)).bind
    fun w₁ _ _ _ _ => ?_
  refine (sameBut_finish options options' h model).bind fun w₂ outputs outputs' _ houtputs => ?_
  refine sameBut_table.bind fun w₃ t t' _ htt' => lockstep_pure ?_
  rw [houtputs, htt'.2.values]

end Phases

/-! ### Filling the table -/

/-- The table `t'` is `t` with the tensors `own` made for names that are not lent. -/
structure Stores (own : List (String × Tensor)) (t t' : Table) : Prop where
  values : t'.values = t.values
  lent : ∀ name, t'.isLent name = t.isLent name
  kept : ∀ name, t.isLent name = true → t'.tensor? name = t.tensor? name
  made : ∀ name, t.isLent name = false →
    t'.tensor? name = (own.reverse.lookup name).or (t.tensor? name)

end Lowering

/-- The tensors that are stored for names that are not lent (`isLent`), with these names and in
order. -/
def ownTensors (isLent : String → Bool) (records : List TensorRecord) : List (String × Tensor) :=
  records.filterMap fun record =>
    if isLent record.name then none else record.materialize.toOption.map (record.name, ·)

theorem exists_record_of_mem_ownTensors {isLent : String → Bool} {records : List TensorRecord}
    {name : String} {tensor : Tensor} (h : (name, tensor) ∈ ownTensors isLent records) :
    ∃ record ∈ records, record.name = name := by
  obtain ⟨record, hrecord, hname⟩ := List.mem_filterMap.1 h
  split at hname
  · cases hname
  · obtain ⟨made, -, hmade⟩ := Option.map_eq_some_iff.1 hname
    exact ⟨record, hrecord, (Prod.mk.inj hmade).1⟩

namespace Lowering

theorem Stores.cons {own : List (String × Tensor)} {t t' : Table} {name : String} {tensor : Tensor}
    (hname : t.isLent name = false) (h : Stores own (t.insert name tensor) t') :
    Stores ((name, tensor) :: own) t t' where
  values := h.values.trans Table.values_insert
  lent other := (h.lent other).trans Table.isLent_insert
  kept other hother := by
    rw [h.kept other (by rwa [Table.isLent_insert]), Table.tensor?_insert hname, if_neg]
    rintro rfl
    rw [hname] at hother
    cases hother
  made other hother := by
    rw [h.made other (by rwa [Table.isLent_insert]), Table.tensor?_insert hname, List.reverse_cons,
      List.lookup_append, List.lookup_cons, List.lookup_nil]
    cases own.reverse.lookup other with
    | some known => rfl
    | none =>
      by_cases heq : name = other
      · simp [heq]
      · have hne : (other == name) = false := by simpa using Ne.symm heq
        simp [heq, hne]

/-- If the tensors to be stored can be materialized, they are stored. -/
theorem stores_storeInitializers {records : List TensorRecord} {s : Workspace}
    (h : ∀ record ∈ records, s.table.isLent record.name = false →
      ∃ tensor, record.materialize = .ok tensor) :
    ∃ t, storeInitializers records s = .ok () { s with table := t } ∧
      Stores (ownTensors s.table.isLent records) s.table t := by
  induction records generalizing s with
  | nil => exact ⟨s.table, rfl, rfl, fun _ => rfl, fun _ _ => rfl, fun _ _ => rfl⟩
  | cons record records ih =>
    have hrest := fun r hr => h r (List.mem_cons_of_mem record hr)
    have hrun : storeInitializers (record :: records) s =
        (updateTable (·.storeInitializer record) >>= fun _ => storeInitializers records) s := rfl
    cases hlent : s.table.isLent record.name with
    | true =>
      have hskip : s.table.storeInitializer record = .ok s.table :=
        Table.storeInitializer_eq_ok.2 (.inl ⟨hlent, rfl⟩)
      obtain ⟨t, ht, hstores⟩ := ih hrest
      refine ⟨t, ?_, ?_⟩
      · rw [hrun, Step.bind_apply, updateTable, hskip]
        exact ht
      · rw [ownTensors, List.filterMap_cons_none (by rw [if_pos hlent])]
        exact hstores
    | false =>
      obtain ⟨tensor, htensor⟩ := h record List.mem_cons_self hlent
      have hstore : s.table.storeInitializer record = .ok (s.table.insert record.name tensor) :=
        Table.storeInitializer_eq_ok.2 (.inr ⟨hlent, tensor, htensor, rfl⟩)
      have hsame : (s.table.insert record.name tensor).isLent = s.table.isLent :=
        funext fun _ => Table.isLent_insert
      obtain ⟨t, ht, hstores⟩ := ih (s := { s with table := s.table.insert record.name tensor })
        fun r hr hname => hrest r hr (by rwa [hsame] at hname)
      rw [hsame] at hstores
      refine ⟨t, ?_, ?_⟩
      · rw [hrun, Step.bind_apply, updateTable, hstore]
        exact ht
      · rw [ownTensors, List.filterMap_cons_some (b := (record.name, tensor))
          (by rw [hlent, htensor]; rfl)]
        exact hstores.cons hlent

/-- The tensors `own`, stored after others were lent, and the same tensors lent before these. -/
theorem Stores.sameBut {own lent : List (String × Tensor)} {t : Table}
    (h : Stores own (({} : Table).lendAll lent) t) :
    t.SameBut (fun name => ∃ tensor, (name, tensor) ∈ own)
      (({} : Table).lendAll (own ++ lent)) where
  values := by rw [h.values, Table.values_lendAll, Table.values_lendAll]
  lent name hname := by
    rw [h.lent, Bool.eq_iff_iff, Table.isLent_lendAll, Table.isLent_lendAll]
    refine or_congr_right ⟨fun ⟨tensor, hmem⟩ => ⟨tensor, List.mem_append_right _ hmem⟩, ?_⟩
    rintro ⟨tensor, hmem⟩
    rcases List.mem_append.1 hmem with hmem | hmem
    · exact absurd ⟨tensor, hmem⟩ hname
    · exact ⟨tensor, hmem⟩
  tensors name := by
    have hnone : ({} : Table).tensor? name = none := rfl
    rw [Table.tensor?_lendAll, List.reverse_append, List.lookup_append, hnone, Option.or_none]
    have hlent : (({} : Table).lendAll lent).isLent name = (lent.reverse.lookup name).isSome :=
      Table.isLent_lendAll_empty
    cases hlookup : lent.reverse.lookup name with
    | some tensor =>
      rw [hlookup] at hlent
      rw [h.kept name hlent, Table.tensor?_lendAll, hlookup, Option.some_or, Option.some_or]
    | none =>
      rw [hlookup] at hlent
      rw [h.made name hlent, Table.tensor?_lendAll, hlookup, hnone, Option.none_or, Option.none_or,
        Option.or_none]

end Lowering

/-! ### Loads -/

/-- The stored tensors that the caller does not lend, with their names and in order, as far as they
can be materialized. -/
def Description.ownTensors (model : Description) (options : LoadOptions) :
    List (String × Tensor) :=
  TensorGraph.ownTensors (fun name => (options.lent? name).isSome) model.graph.initializers

/-- The options of a load that materializes the stored tensors. -/
def LoadOptions.storing (options : LoadOptions) : LoadOptions :=
  { options with initializers := true }

/-- The options of a load that leaves the stored tensors of the model alone; the caller lends those
that have no other tensor, before everything else. -/
def LoadOptions.lending (options : LoadOptions) (model : Description) : LoadOptions :=
  { options with initializers := false, lent := model.ownTensors options ++ options.lent }

section Load

variable {options : LoadOptions} {model : Description}
  (hstored : ∀ record ∈ model.graph.initializers, options.lent? record.name = none →
    ∃ tensor, record.materialize = .ok tensor)
  (hconstants : ∀ node ∈ model.graph.nodes, node.operator? = some .constant →
    ∀ name, node.output = .ok name → ∀ record ∈ model.graph.initializers, record.name ≠ name)
include hstored hconstants

/-- Both runs end with the same graph and the same result, or fail with the same error. -/
theorem Lowering.agree_lowerModel (g : Graph) :
    Agree (fun s t loaded loaded' => s.graph = t.graph ∧ loaded = loaded')
      (lowerModel options.storing model { graph := g })
      (lowerModel (options.lending model) model { graph := g }) := by
  have hisLent : (({} : Table).lendAll options.lent).isLent =
      fun name => (options.lent? name).isSome := funext fun _ => Table.isLent_lendAll_empty
  have hgood : ∀ record ∈ model.graph.initializers,
      (({} : Table).lendAll options.lent).isLent record.name = false →
        ∃ tensor, record.materialize = .ok tensor := by
    intro record hrecord hname
    rw [hisLent, Option.isSome_eq_false_iff, Option.isNone_iff_eq_none] at hname
    exact hstored record hrecord hname
  obtain ⟨t, ht, hstores⟩ := stores_storeInitializers
    (s := { graph := g, table := ({} : Table).lendAll options.lent }) hgood
  rw [hisLent] at hstores
  let lent' := ({} : Table).lendAll (model.ownTensors options ++ options.lent)
  have hseed : seed options.storing model { graph := g } =
      declareInputs options.limit model.graph.inputs { graph := g, table := t } := by
    show (storeInitializers model.graph.initializers >>= fun _ => declareInputs options.limit _)
      { graph := g, table := ({} : Table).lendAll options.lent } = _
    rw [Step.bind_apply, ht]
  have hseed' : seed (options.lending model) model { graph := g } =
      declareInputs options.limit model.graph.inputs { graph := g, table := lent' } := rfl
  have hpaired : SameBut _ { graph := g, table := t } { graph := g, table := lent' } :=
    ⟨rfl, hstores.sameBut⟩
  have hfilled := sameBut_declareInputs options.limit model.graph.inputs _ _ hpaired rfl
  rw [← hseed, ← hseed'] at hfilled
  refine hfilled.bind fun s s' _ _ hs => ?_
  have hrest := sameBut_afterSeed options.storing (options.lending model) rfl model
    (fun node hnode hop name hname ⟨tensor, hown⟩ => by
      obtain ⟨record, hrecord, heq⟩ := exists_record_of_mem_ownTensors hown
      exact hconstants node hnode hop name hname record hrecord heq) s s' hs.paired rfl
  exact hrest.mono fun _ _ _ _ hend => ⟨hend.paired.graph, hend.rel⟩

/-- **It makes no difference who owns the stored tensors.** If all stored tensors that the caller
does not lend can be materialized and no constant has the output of a stored tensor's name, then a
load that materializes them (`storing`) and a load into the same graph for which the caller lends
them, before the tensors that are lent anyway (`lending`), have the same outcome: the same error, or
the same result and the same graph. -/
theorem load_storing_eq (g : Graph) :
    load options.storing model g = load (options.lending model) model g := by
  have hagree := Lowering.agree_lowerModel hstored hconstants g
  have hleft := (Lowering.builds_lowerModel options.storing model).operated { graph := g }
  have hright := (Lowering.builds_lowerModel (options.lending model) model).operated { graph := g }
  unfold load
  unfold Step.after at hleft hright
  revert hagree hleft hright
  cases Lowering.lowerModel options.storing model { graph := g } <;>
    cases Lowering.lowerModel (options.lending model) model { graph := g } <;>
    intro hagree hleft hright <;> cases hagree
  · next h =>
    obtain ⟨hgraph, rfl⟩ := h
    exact Prod.ext rfl hgraph
  · have hback := Graph.rollback_eq_of_extends hleft.toExtends
    exact Prod.ext rfl (hback.trans (Graph.rollback_eq_of_extends hright.toExtends).symm)

end Load

/-- A model with a constant and the sum of two stored tensors. The one that is stored as `X` cannot
be materialized. -/
def storedSum : Description where
  irVersion := 8
  opsetVersion := 13
  graph := {
    nodes := [constantNode, { inputs := ["X", "w"], outputs := ["z"], opType := "Add" }]
    initializers := [{ name := "X" },
      { name := "w", dims := [1], dataType := Onnx.floatCode, floatData := [.zero] }]
    outputs := [{ name := "z" }] }

/-- With a tensor lent for `X`, the load that materializes `w` succeeds, and the load for which `w`
is lent, too, is the same. -/
theorem load_storing_eq_storedSum :
    let zero : Tensor := ⟨[1], .float #[.zero], rfl⟩
    ((lentOptions true).lending storedSum).lent = [("w", zero), ("X", lentTensor)] ∧
    (load (lentOptions true).storing storedSum (.empty "g")).1.isOk = true ∧
    load (lentOptions true).storing storedSum (.empty "g") =
      load ((lentOptions true).lending storedSum) storedSum (.empty "g") := by
  refine ⟨by decide +kernel, by decide +kernel, load_storing_eq ?_ ?_ (.empty "g")⟩
  · intro record hrecord hname
    simp only [storedSum, List.mem_cons, List.not_mem_nil, or_false] at hrecord
    obtain rfl | rfl := hrecord
    · exact absurd hname (by decide +kernel)
    · exact ⟨⟨[1], .float #[.zero], rfl⟩, by decide +kernel⟩
  · intro node hnode hop name hname record hrecord
    simp only [storedSum, List.mem_cons, List.not_mem_nil, or_false] at hnode hrecord
    obtain rfl | rfl := hnode
    · cases hname
      obtain rfl | rfl := hrecord
      · decide
      · decide
    · exact absurd hop (by decide)

end TensorGraph
