import TensorGraph.Proofs.Load.Materialize
import TensorGraph.Proofs.Load.Ownership

/-! # The tensors before the nodes

Before a load lowers nodes, it fills its table from three sources. Of the tensors that the caller
lends for a name the last one counts. Of the stored tensors of a name the last one counts, unless a
tensor is lent for the name. Of the declared inputs of a name the first one counts, if the name has
no tensor yet. Records that do not count because of another source or an earlier declaration are not
even looked at: the table is filled as if they were not there (`seed_eq`). All other records are
turned into tensors in order, and the first one that cannot be ends the load. -/

namespace TensorGraph

open Onnx

/-! ### Declared tensors -/

/-- The bytes of a tensor can be counted by `countBytes` exactly when their number and the products
of the first dimensions are sizes. -/
theorem countBytes_eq_ok {kind : ElementKind} {dims : List Nat} {size : Nat} :
    countBytes kind dims = .ok size ↔ size = volume dims * kind.width ∧ size < Size.bound ∧
      ∀ k < dims.length, volume (dims.take (k + 1)) < Size.bound := by
  simp only [countBytes, countElements, bind_eq_ok, found_eq_ok, volume?_eq_some, Size.mul?_eq_some]
  constructor
  · rintro ⟨_, ⟨rfl, hall⟩, hlt, rfl⟩
    exact ⟨rfl, hlt, hall⟩
  · rintro ⟨rfl, hlt, hall⟩
    exact ⟨_, ⟨rfl, hall⟩, hlt, rfl⟩

/-- A shape is fixed when all its dimensions are sizes (`size?`). -/
theorem Onnx.ShapeRecord.fixed_eq_ok {shape : ShapeRecord} {name : String} {dims : List Nat} :
    shape.fixed name = .ok dims ↔ shape.dims.map (·.size?) = dims.map some := by
  rw [fixed, mapM_eq_ok, ← List.forall₂_eq_eq_eq, List.forall₂_map_left_iff,
    List.forall₂_map_right_iff]
  simp only [found_eq_ok]

namespace Onnx.ValueRecord

variable {record : ValueRecord} {limit : Nat} {kind : ElementKind} {dims : List Nat}

/-- The record declares a tensor of a supported `kind` and of the fixed shape `dims`. -/
def Declares (record : ValueRecord) (kind : ElementKind) (dims : List Nat) : Prop :=
  ∃ type shape, record.type.bind (·.tensorType) = some type ∧ type.elementType = kind.code ∧
    type.shape = some shape ∧ shape.dims.map (·.size?) = dims.map some

/-- The record declares a tensor with at most as many bytes as the limit, and fewer than
`Size.allocatable`. While these are counted, no product of the first dimensions leaves the range of
sizes. -/
structure Fits (record : ValueRecord) (limit : Nat) (kind : ElementKind) (dims : List Nat) :
    Prop where
  declares : record.Declares kind dims
  le : volume dims * kind.width ≤ limit
  lt : volume dims * kind.width < Size.allocatable
  counted : ∀ k < dims.length, volume (dims.take (k + 1)) < Size.bound

/-- A declared input is given a tensor of zeros by `placeholder` exactly when the tensor fits
(`Fits`). -/
theorem placeholder_eq_ok {tensor : Tensor} : record.placeholder limit = .ok tensor ↔
    ∃ kind dims, record.Fits limit kind dims ∧ tensor = .zero kind dims := by
  simp only [placeholder, bind_eq_ok, found_eq_ok, mapError_eq_ok, check_eq_ok,
    ElementKind.ofCode_eq_ok, ShapeRecord.fixed_eq_ok, countBytes_eq_ok]
  constructor
  · rintro ⟨type, htype, kind, hcode, shape, hshape, dims, hdims, _, ⟨rfl, -, hcounted⟩, _, hle,
      hzeros⟩
    obtain ⟨-, hlt, rfl⟩ := Tensor.zeros_eq_ok.1 hzeros
    exact ⟨kind, dims, ⟨⟨type, shape, htype, hcode, hshape, hdims⟩, hle, hlt, hcounted⟩, rfl⟩
  · rintro ⟨kind, dims, ⟨⟨type, shape, htype, hcode, hshape, hdims⟩, hle, hlt, hcounted⟩, rfl⟩
    have hbound : volume dims * kind.width < Size.bound := Nat.lt_trans hlt (by decide)
    have hcount : volume (leadingDims dims) < Size.bound :=
      (volume?_eq_some_iff_leadingDims.1 (volume?_eq_some.2 ⟨rfl, hcounted⟩)).2
    exact ⟨type, htype, kind, hcode, shape, hshape, dims, hdims, _, ⟨rfl, hbound, hcounted⟩, (),
      hle, Tensor.zeros_eq_ok.2 ⟨hcount, hlt, rfl⟩⟩

theorem exists_placeholder : (∃ tensor, record.placeholder limit = .ok tensor) ↔
    ∃ kind dims, record.Fits limit kind dims := by
  simp only [placeholder_eq_ok]
  constructor
  · rintro ⟨_, kind, dims, hfits, -⟩
    exact ⟨kind, dims, hfits⟩
  · rintro ⟨kind, dims, hfits⟩
    exact ⟨_, kind, dims, hfits, rfl⟩

end Onnx.ValueRecord

/-! ### The records that count -/

/-- The first declaration of every name. -/
def firstDeclarations : List ValueRecord → List ValueRecord
  | [] => []
  | record :: records =>
    record :: (firstDeclarations records).filter fun r => r.name ≠ record.name

theorem find?_firstDeclarations (records : List ValueRecord) (name : String) :
    (firstDeclarations records).find? (·.name == name) = records.find? (·.name == name) := by
  induction records with
  | nil => rfl
  | cons record records ih =>
    rw [firstDeclarations, List.find?_cons, List.find?_cons]
    cases hname : record.name == name with
    | true => rfl
    | false =>
      have hne : name ≠ record.name := fun h => by simp [h] at hname
      simp only [List.find?_filter, ← ih]
      congr 1
      funext r
      by_cases hr : r.name = name
      · simp [hr, hne]
      · simp [hr]

theorem nodup_firstDeclarations (records : List ValueRecord) :
    ((firstDeclarations records).map (·.name)).Nodup := by
  induction records with
  | nil => exact List.nodup_nil
  | cons record records ih =>
    rw [firstDeclarations, List.map_cons, List.nodup_cons]
    refine ⟨fun hmem => ?_, (List.Sublist.map _ List.filter_sublist).nodup ih⟩
    obtain ⟨r, hr, hname⟩ := List.mem_map.1 hmem
    simpa [hname] using (List.mem_filter.1 hr).2

/-- Leaving out all declarations of some names leaves the `firstDeclarations` of the others. -/
theorem firstDeclarations_filter {keep : String → Bool} (records : List ValueRecord) :
    firstDeclarations (records.filter fun r => keep r.name) =
      (firstDeclarations records).filter fun r => keep r.name := by
  induction records with
  | nil => rfl
  | cons record records ih =>
    rw [firstDeclarations]
    cases hkeep : keep record.name with
    | true =>
      simp only [List.filter_cons, hkeep, if_true, firstDeclarations, ih, List.filter_filter,
        Bool.and_comm]
    | false =>
      simp only [List.filter_cons, hkeep, Bool.false_eq_true, if_false, ih, List.filter_filter]
      refine List.filter_congr fun r _ => ?_
      by_cases hr : r.name = record.name
      · simp [hr, hkeep]
      · simp [hr]

/-- An entry is found by its name if all names differ. -/
theorem find?_of_nodup {records : List ValueRecord} (h : (records.map (·.name)).Nodup)
    {record : ValueRecord} (hrecord : record ∈ records) :
    records.find? (·.name == record.name) = some record := by
  induction records with
  | nil => cases hrecord
  | cons first records ih =>
    rw [List.map_cons, List.nodup_cons] at h
    rcases List.mem_cons.1 hrecord with rfl | hrest
    · rw [List.find?_cons, beq_self_eq_true]
    · have hne : first.name ≠ record.name := fun heq =>
        h.1 (heq ▸ List.mem_map.2 ⟨record, hrest, rfl⟩)
      rw [List.find?_cons, beq_eq_false_iff_ne.2 hne]
      exact ih h.2 hrest

namespace Description

variable (model : Description) (options : LoadOptions)

/-- The stored tensors that a load materializes: none if `initializers` does not ask for them, and
otherwise those for whose names the caller lends no tensor. -/
def storedRecords : List TensorRecord :=
  if options.initializers then
    model.graph.initializers.filter fun r => (options.lent? r.name).isNone
  else []

/-- The declared inputs that a load gives tensors of zeros: the first declarations
(`firstDeclarations`) of the names for which no tensor is lent or stored. -/
def openInputs : List ValueRecord :=
  (firstDeclarations model.graph.inputs).filter fun r =>
    (options.lent? r.name).isNone && (model.storedRecords options).all (·.name ≠ r.name)

/-- The tensors that a load makes of the records that count, `storedRecords` and then `openInputs`,
in order. -/
def attempts : List (Except LoadError Tensor) :=
  (model.storedRecords options).map (·.materialize) ++
    (model.openInputs options).map (·.placeholder options.limit)

/-- The tensor that a name has before the nodes: the last one that is lent for it (`lent?`), or else
the last one that is stored for it, if stored tensors are asked for, or else the zeros of the first
declared input of the name. -/
def seededTensor? (name : String) : Option Tensor :=
  match options.lent? name with
  | some tensor => some tensor
  | none =>
    match if options.initializers then
        model.graph.initializers.reverse.find? (·.name == name) else none with
    | some record => record.materialize.toOption
    | none =>
      (model.graph.inputs.find? (·.name == name)).bind fun record =>
        (record.placeholder options.limit).toOption

end Description

/-! ### Skipping what does not count -/

namespace Lowering

variable {s : Workspace} {limit : Nat}

theorem updateTable_skip {update : Table → Except LoadError Table} (y : Lowering Unit)
    (h : update s.table = .ok s.table) : (updateTable update >>= fun _ => y) s = y s := by
  rw [Step.bind_apply, updateTable, h]

/-- Stored tensors of names for which a tensor is lent (`isLent`) can be left out. -/
theorem storeInitializers_filter (records : List TensorRecord) (s : Workspace) :
    storeInitializers (records.filter fun r => !s.table.isLent r.name) s =
      storeInitializers records s := by
  induction records generalizing s with
  | nil => rfl
  | cons record records ih =>
    cases hlent : s.table.isLent record.name with
    | true =>
      rw [List.filter_cons_of_neg (by simp [hlent]), ih]
      exact (updateTable_skip _ (Table.storeInitializer_eq_ok.2 (.inl ⟨hlent, rfl⟩))).symm
    | false =>
      rw [List.filter_cons_of_pos (by simp [hlent])]
      show (updateTable _ >>= fun _ => storeInitializers _) s =
        (updateTable _ >>= fun _ => storeInitializers records) s
      simp only [Step.bind_apply, updateTable]
      cases hstore : s.table.storeInitializer record with
      | error e => rfl
      | ok known =>
        have hsame : known.isLent = s.table.isLent := by
          rcases Table.storeInitializer_eq_ok.1 hstore with ⟨-, rfl⟩ | ⟨-, tensor, -, rfl⟩
          · rfl
          · exact funext fun _ => Table.isLent_insert
        simp only
        rw [← ih, hsame]

/-- Declared inputs of names that have a tensor can be left out, and so can those that are not the
first ones of their name (`firstDeclarations`). -/
theorem declareInputs_filter (records : List ValueRecord) (s : Workspace) :
    declareInputs limit ((firstDeclarations records).filter fun r =>
      (s.table.tensor? r.name).isNone) s = declareInputs limit records s := by
  induction records generalizing s with
  | nil => rfl
  | cons record records ih =>
    rw [firstDeclarations]
    cases hname : s.table.tensor? record.name with
    | some tensor =>
      rw [List.filter_cons_of_neg (by simp [hname]), List.filter_filter]
      have hrest : ((firstDeclarations records).filter fun r =>
          (s.table.tensor? r.name).isNone && decide (r.name ≠ record.name)) =
            (firstDeclarations records).filter fun r => (s.table.tensor? r.name).isNone := by
        refine List.filter_congr fun r _ => ?_
        by_cases hr : r.name = record.name
        · simp [hr, hname]
        · simp [hr]
      rw [hrest, ih]
      refine (updateTable_skip _ (Table.declareInput_eq_ok.2 (.inl ⟨?_, rfl⟩))).symm
      rw [hname, Option.isSome_some]
    | none =>
      rw [List.filter_cons_of_pos (by simp [hname]), List.filter_filter]
      show (updateTable _ >>= fun _ => declareInputs limit _) s =
        (updateTable _ >>= fun _ => declareInputs limit records) s
      simp only [Step.bind_apply, updateTable]
      cases hdeclare : s.table.declareInput limit record with
      | error e => rfl
      | ok known =>
        rcases Table.declareInput_eq_ok.1 hdeclare with ⟨hsome, -⟩ | ⟨-, tensor, -, rfl⟩
        · rw [hname] at hsome
          cases hsome
        · -- The later declarations of the name are skipped, as the name has a tensor now.
          simp only
          rw [← ih]
          congr 1
          refine List.filter_congr fun r _ => ?_
          rw [Table.tensor?_insert (Table.isLent_of_tensor?_eq_none hname)]
          by_cases hr : r.name = record.name
          · simp [hr]
          · simp [hr, Ne.symm hr]

/-! ### Making tensors of what counts -/

/-- The first stored tensor that cannot be materialized (`firstError?`) ends the storing. -/
theorem storeInitializers_error {records : List TensorRecord} {e : LoadError} {s : Workspace}
    (h : ∀ record ∈ records, s.table.isLent record.name = false)
    (he : firstError? (records.map (·.materialize)) = some e) :
    ∃ t, storeInitializers records s = .error e t := by
  induction records generalizing s with
  | nil => cases he
  | cons record records ih =>
    show ∃ t, (updateTable _ >>= fun _ => storeInitializers records) s = .error e t
    rw [List.map_cons] at he
    simp only [Step.bind_apply, updateTable, Table.storeInitializer,
      h record List.mem_cons_self, Bool.false_eq_true, if_false]
    cases htensor : record.materialize with
    | error e' =>
      rw [htensor] at he
      cases he
      exact ⟨s, rfl⟩
    | ok tensor =>
      rw [htensor] at he
      refine ih (fun r hr => ?_) he
      rw [Table.isLent_insert]
      exact h r (List.mem_cons_of_mem _ hr)

section Declared

variable {records : List ValueRecord} (hnodup : (records.map (·.name)).Nodup)
  (hopen : ∀ record ∈ records, s.table.tensor? record.name = none)
include hnodup hopen

/-- What is left to do after the first declared input. -/
theorem open_of_insert {record : ValueRecord} {rest : List ValueRecord}
    (hrecords : records = record :: rest) (tensor : Tensor) :
    (rest.map (·.name)).Nodup ∧
      ∀ r ∈ rest, (s.table.insert record.name tensor).tensor? r.name = none := by
  subst hrecords
  rw [List.map_cons, List.nodup_cons] at hnodup
  refine ⟨hnodup.2, fun r hr => ?_⟩
  have hlent := Table.isLent_of_tensor?_eq_none (hopen record List.mem_cons_self)
  rw [Table.tensor?_insert hlent, if_neg, hopen r (List.mem_cons_of_mem _ hr)]
  intro hname
  exact hnodup.1 (List.mem_map.2 ⟨r, hr, hname.symm⟩)

/-- The first declared input that cannot be given zeros (`firstError?`) ends the declaring. -/
theorem declareInputs_error {e : LoadError}
    (he : firstError? (records.map (·.placeholder limit)) = some e) :
    ∃ t, declareInputs limit records s = .error e t := by
  induction records generalizing s with
  | nil => cases he
  | cons record records ih =>
    show ∃ t, (updateTable _ >>= fun _ => declareInputs limit records) s = .error e t
    rw [List.map_cons] at he
    simp only [Step.bind_apply, updateTable, Table.declareInput, Table.contains_eq_isSome,
      hopen record List.mem_cons_self, Option.isSome_none, Bool.false_eq_true, if_false]
    cases htensor : record.placeholder limit with
    | error e' =>
      rw [htensor] at he
      cases he
      exact ⟨s, rfl⟩
    | ok tensor =>
      rw [htensor] at he
      obtain ⟨hnodup', hopen'⟩ := open_of_insert hnodup hopen rfl tensor
      exact ih (s := { s with table := s.table.insert record.name tensor }) hnodup' hopen' he

/-- Declared inputs that can be given zeros are given them by `declareInputs`. -/
theorem declareInputs_ok
    (hok : ∀ record ∈ records, ∃ tensor, record.placeholder limit = .ok tensor) :
    ∃ t, declareInputs limit records s = .ok () { s with table := t } ∧ ∀ name,
      t.tensor? name = (s.table.tensor? name).or
        ((records.find? (·.name == name)).bind fun r => (r.placeholder limit).toOption) := by
  induction records generalizing s with
  | nil => exact ⟨s.table, rfl, fun name => by simp⟩
  | cons record records ih =>
    obtain ⟨tensor, htensor⟩ := hok record List.mem_cons_self
    have hnone := hopen record List.mem_cons_self
    have hlent := Table.isLent_of_tensor?_eq_none hnone
    obtain ⟨hnodup', hopen'⟩ := open_of_insert hnodup hopen rfl tensor
    obtain ⟨t, ht, hend⟩ :=
      ih (s := { s with table := s.table.insert record.name tensor }) hnodup' hopen'
        fun r hr => hok r (List.mem_cons_of_mem _ hr)
    refine ⟨t, ?_, fun name => ?_⟩
    · show (updateTable _ >>= fun _ => declareInputs limit records) s = _
      have hdeclare : s.table.declareInput limit record = .ok (s.table.insert record.name tensor) :=
        Table.declareInput_eq_ok.2 (.inr ⟨hnone, tensor, htensor, rfl⟩)
      simp only [Step.bind_apply, updateTable, hdeclare]
      exact ht
    · rw [hend, Table.tensor?_insert hlent, List.find?_cons]
      by_cases hname : record.name = name
      · subst hname
        simp [hnone, htensor, Except.toOption]
      · rw [if_neg hname, beq_eq_false_iff_ne.2 hname]

end Declared

end Lowering

/-- The last of the `ownTensors` of a name is what the last stored tensor of the name stores. -/
theorem lookup_ownTensors {isLent : String → Bool} {records : List TensorRecord} {name : String}
    (hname : isLent name = false)
    (h : ∀ record ∈ records, isLent record.name = false →
      ∃ tensor, record.materialize = .ok tensor) :
    (ownTensors isLent records).reverse.lookup name =
      (records.reverse.find? (·.name == name)).bind (·.materialize.toOption) := by
  rw [ownTensors, ← List.filterMap_reverse]
  have hreverse : ∀ record ∈ records.reverse, isLent record.name = false →
      ∃ tensor, record.materialize = .ok tensor := fun r hr => h r (List.mem_reverse.1 hr)
  generalize records.reverse = back at hreverse
  induction back with
  | nil => rfl
  | cons record back ih =>
    have hback := ih fun r hr => hreverse r (List.mem_cons_of_mem _ hr)
    rw [List.find?_cons]
    cases hlent : isLent record.name with
    | true =>
      have hne : (record.name == name) = false :=
        beq_eq_false_iff_ne.2 fun heq => by simp [heq, hname] at hlent
      rw [List.filterMap_cons_none (by rw [if_pos hlent]), hback, hne]
    | false =>
      obtain ⟨tensor, htensor⟩ := hreverse record List.mem_cons_self hlent
      have hmade : record.materialize.toOption.map (record.name, ·) =
          some (record.name, tensor) := by
        rw [htensor]
        rfl
      simp only [List.filterMap_cons, hlent, Bool.false_eq_true, if_false, hmade]
      rw [List.lookup_cons, hback]
      by_cases heq : record.name = name
      · simp [heq, htensor, Except.toOption]
      · rw [beq_eq_false_iff_ne.2 heq, beq_eq_false_iff_ne.2 (Ne.symm heq)]

/-! ### The phases of seeding -/

section Seed

variable {options : LoadOptions} {model : Description} {g : Graph}

/-- The workspace in which only the caller's tensors are known. -/
def LoadOptions.lentOnly (options : LoadOptions) (g : Graph) : Workspace :=
  { graph := g, table := ({} : Table).lendAll options.lent }

theorem LoadOptions.tensor?_lentOnly (name : String) :
    (options.lentOnly g).table.tensor? name = options.lent? name := by
  rw [lentOnly, Table.tensor?_lendAll]
  exact Option.or_none

theorem LoadOptions.isLent_lentOnly (name : String) :
    (options.lentOnly g).table.isLent name = (options.lent? name).isSome :=
  Table.isLent_lendAll_empty

namespace Description

theorem lent?_of_storedRecords {record : TensorRecord} (h : record ∈ model.storedRecords options) :
    options.lent? record.name = none := by
  unfold storedRecords at h
  split at h
  · simpa using (List.mem_filter.1 h).2
  · cases h

theorem openInputs_spec {record : ValueRecord} (h : record ∈ model.openInputs options) :
    options.lent? record.name = none ∧
      (model.storedRecords options).reverse.find? (·.name == record.name) = none := by
  obtain ⟨hlent, hstored⟩ := Bool.and_eq_true_iff.1 (List.mem_filter.1 h).2
  refine ⟨by simpa using hlent, List.find?_eq_none.2 fun r hr => ?_⟩
  simpa using List.all_eq_true.1 hstored r (List.mem_reverse.1 hr)

/-- Of the `storedRecords`, those of a name without a lent tensor are found as among all. -/
theorem find?_storedRecords {name : String} (hlent : options.lent? name = none) :
    (model.storedRecords options).reverse.find? (·.name == name) =
      if options.initializers then model.graph.initializers.reverse.find? (·.name == name)
      else none := by
  unfold storedRecords
  split
  · rw [← List.filter_reverse, List.find?_filter]
    congr 1
    funext r
    by_cases hr : r.name = name
    · simp [hr, hlent]
    · simp [hr]
  · rfl

theorem find?_openInputs {name : String} (hlent : options.lent? name = none)
    (hstored : (model.storedRecords options).reverse.find? (·.name == name) = none) :
    (model.openInputs options).find? (·.name == name) =
      model.graph.inputs.find? (·.name == name) := by
  rw [openInputs, List.find?_filter, ← find?_firstDeclarations model.graph.inputs]
  congr 1
  funext r
  by_cases hr : r.name = name
  · have hall : ∀ record ∈ model.storedRecords options, record.name ≠ name := by
      intro record hrecord
      simpa using List.find?_eq_none.1 hstored record (List.mem_reverse.2 hrecord)
    simpa [hr, hlent] using hall
  · simp [hr]

/-- Among the records that count, the tensor of a name, `seededTensor?`, is found as among all. -/
theorem seededTensor?_eq (name : String) : model.seededTensor? options name =
    (options.lent? name).or
      ((((model.storedRecords options).reverse.find? (·.name == name)).bind
        (·.materialize.toOption)).or
      (((model.openInputs options).find? (·.name == name)).bind fun r =>
        (r.placeholder options.limit).toOption)) := by
  unfold seededTensor?
  cases hlent : options.lent? name with
  | some tensor => rfl
  | none =>
    rw [← find?_storedRecords hlent, Option.none_or]
    cases hstored : (model.storedRecords options).reverse.find? (·.name == name) with
    | none => rw [find?_openInputs hlent hstored, Option.bind_none, Option.none_or]
    | some record =>
      -- Such a name is not one of those of the open inputs.
      have hopen : (model.openInputs options).find? (·.name == name) = none := by
        refine List.find?_eq_none.2 fun r hr hname => ?_
        have hnone := (openInputs_spec hr).2
        rw [beq_iff_eq.1 hname, hstored] at hnone
        cases hnone
      rw [hopen, Option.bind_none, Option.or_none]
      rfl

theorem materialized
    (h : firstError? ((model.storedRecords options).map (·.materialize)) = none) :
    ∀ record ∈ model.storedRecords options, ∃ tensor, record.materialize = .ok tensor :=
  fun record hrecord => firstError?_eq_none.1 h _ (List.mem_map.2 ⟨record, hrecord, rfl⟩)

theorem nodup_openInputs : ((model.openInputs options).map (·.name)).Nodup :=
  (List.Sublist.map _ List.filter_sublist).nodup (nodup_firstDeclarations model.graph.inputs)

/-- After the stored tensors, no input of `openInputs` has a tensor. -/
theorem open_openInputs {t : Table}
    (ht : ∀ name, t.tensor? name = (options.lent? name).or
      (((model.storedRecords options).reverse.find? (·.name == name)).bind
        (·.materialize.toOption))) :
    ∀ record ∈ model.openInputs options, t.tensor? record.name = none := by
  intro record hrecord
  obtain ⟨hlent, hstored⟩ := openInputs_spec hrecord
  rw [ht, hlent, hstored]
  rfl

end Description

namespace Lowering

theorem storedRecords_error {e : LoadError}
    (h : firstError? ((model.storedRecords options).map (·.materialize)) = some e) :
    ∃ t, storeInitializers (model.storedRecords options) (options.lentOnly g) = .error e t := by
  refine storeInitializers_error (fun record hrecord => ?_) h
  rw [LoadOptions.isLent_lentOnly, Description.lent?_of_storedRecords hrecord, Option.isSome_none]

/-- The table after the stored tensors: a tensor that is lent counts, or else the last one that is
stored. -/
theorem storedRecords_ok
    (h : ∀ record ∈ model.storedRecords options, ∃ tensor, record.materialize = .ok tensor) :
    ∃ t, storeInitializers (model.storedRecords options) (options.lentOnly g) =
        .ok () { graph := g, table := t } ∧ ∀ name, t.tensor? name =
      (options.lent? name).or (((model.storedRecords options).reverse.find?
        (·.name == name)).bind (·.materialize.toOption)) := by
  obtain ⟨t, ht, hstores⟩ := stores_storeInitializers (s := options.lentOnly g)
    fun record hrecord _ => h record hrecord
  refine ⟨t, ht, fun name => ?_⟩
  cases hname : options.lent? name with
  | some tensor =>
    have hlent : (options.lentOnly g).table.isLent name = true := by
      rw [LoadOptions.isLent_lentOnly, hname, Option.isSome_some]
    rw [hstores.kept name hlent, LoadOptions.tensor?_lentOnly, hname, Option.some_or]
  | none =>
    have hlent : (options.lentOnly g).table.isLent name = false := by
      rw [LoadOptions.isLent_lentOnly, hname, Option.isSome_none]
    rw [hstores.made name hlent, LoadOptions.tensor?_lentOnly, hname, Option.none_or,
      Option.or_none, lookup_ownTensors hlent fun record hrecord _ => h record hrecord]

/-- After the stored tensors, the names without a tensor are those of `openInputs`. -/
theorem openInputs_of_stored {t : Table}
    (h : ∀ record ∈ model.storedRecords options, ∃ tensor, record.materialize = .ok tensor)
    (ht : ∀ name, t.tensor? name =
      (options.lent? name).or (((model.storedRecords options).reverse.find?
        (·.name == name)).bind (·.materialize.toOption))) :
    ((firstDeclarations model.graph.inputs).filter fun r => (t.tensor? r.name).isNone) =
      model.openInputs options := by
  refine List.filter_congr fun r _ => ?_
  rw [ht]
  cases options.lent? r.name with
  | some tensor => rfl
  | none =>
    rw [Option.none_or, Option.isNone_none, Bool.true_and]
    cases hstored : (model.storedRecords options).reverse.find? (·.name == r.name) with
    | none =>
      refine (List.all_eq_true.2 fun record hrecord => ?_).symm
      simpa using List.find?_eq_none.1 hstored record (List.mem_reverse.2 hrecord)
    | some record =>
      have hrecord := List.mem_reverse.1 (List.mem_of_find?_eq_some hstored)
      obtain ⟨tensor, htensor⟩ := h record hrecord
      have hname : record.name = r.name := by simpa using List.find?_some hstored
      rw [Option.bind_some, htensor]
      refine (List.all_eq_false.2 ⟨record, hrecord, ?_⟩).symm
      simp [hname]

/-- Seeding by `seed` materializes the stored tensors that count and gives the open inputs zeros. -/
theorem seed_eq : seed options model { graph := g } =
    (storeInitializers (model.storedRecords options) >>= fun _ =>
      declareInputs options.limit (model.openInputs options)) (options.lentOnly g) := by
  have hstored : seed options model { graph := g } =
      (storeInitializers (model.storedRecords options) >>= fun _ =>
        declareInputs options.limit model.graph.inputs) (options.lentOnly g) := by
    have hskip := storeInitializers_filter model.graph.initializers (options.lentOnly g)
    simp only [LoadOptions.isLent_lentOnly, Option.not_isSome] at hskip
    unfold seed Description.storedRecords
    split
    · show (storeInitializers model.graph.initializers >>= fun _ =>
        declareInputs options.limit model.graph.inputs) (options.lentOnly g) = _
      rw [Step.bind_apply, Step.bind_apply, hskip]
    · rfl
  rw [hstored]
  cases hfirst : firstError? ((model.storedRecords options).map (·.materialize)) with
  | some e =>
    obtain ⟨t, ht⟩ := storedRecords_error (g := g) hfirst
    rw [Step.bind_apply, Step.bind_apply, ht]
  | none =>
    have hok := Description.materialized hfirst
    obtain ⟨t, ht, htensor⟩ := storedRecords_ok (g := g) hok
    rw [Step.bind_apply, Step.bind_apply, ht]
    simp only
    rw [← declareInputs_filter, openInputs_of_stored hok htensor]

/-- The first record that cannot be turned into a tensor, among the `attempts`, ends the seeding. -/
theorem seed_error {e : LoadError} (h : firstError? (model.attempts options) = some e) :
    ∃ t, seed options model { graph := g } = .error e t := by
  rw [seed_eq, Step.bind_apply]
  rw [Description.attempts, firstError?_append, Option.or_eq_some_iff] at h
  rcases h with hstored | ⟨hstored, hopen⟩
  · obtain ⟨t, ht⟩ := storedRecords_error (g := g) hstored
    exact ⟨t, by rw [ht]⟩
  · obtain ⟨t, ht, htensor⟩ := storedRecords_ok (g := g) (Description.materialized hstored)
    obtain ⟨t', ht'⟩ := declareInputs_error (s := { graph := g, table := t })
      Description.nodup_openInputs (Description.open_openInputs htensor) hopen
    exact ⟨t', by rw [ht]; exact ht'⟩

/-- If every record can be turned into a tensor, every name has its `seededTensor?`. -/
theorem seed_ok (h : firstError? (model.attempts options) = none) :
    ∃ t, seed options model { graph := g } = .ok () { graph := g, table := t } ∧
      ∀ name, t.tensor? name = model.seededTensor? options name := by
  rw [Description.attempts, firstError?_append, Option.or_eq_none_iff] at h
  obtain ⟨t, ht, htensor⟩ := storedRecords_ok (g := g) (Description.materialized h.1)
  obtain ⟨t', ht', htensor'⟩ := declareInputs_ok (s := { graph := g, table := t })
    Description.nodup_openInputs (Description.open_openInputs htensor) fun record hrecord =>
      firstError?_eq_none.1 h.2 _ (List.mem_map.2 ⟨record, hrecord, rfl⟩)
  refine ⟨t', ?_, fun name => ?_⟩
  · rw [seed_eq, Step.bind_apply, ht]
    exact ht'
  · rw [htensor', htensor, Description.seededTensor?_eq, Option.or_assoc]

theorem seed_cases (options : LoadOptions) (model : Description) (g : Graph) :
    (∃ e t, firstError? (model.attempts options) = some e ∧
      seed options model { graph := g } = .error e t) ∨
    (firstError? (model.attempts options) = none ∧
      ∃ t, seed options model { graph := g } = .ok () { graph := g, table := t } ∧
        ∀ name, t.tensor? name = model.seededTensor? options name) := by
  cases h : firstError? (model.attempts options) with
  | some e =>
    obtain ⟨t, ht⟩ := seed_error (g := g) h
    exact .inl ⟨e, t, rfl, ht⟩
  | none => exact .inr ⟨rfl, seed_ok h⟩

end Lowering

theorem Description.firstError?_attempts : firstError? (model.attempts options) = none ↔
    (∀ record ∈ model.storedRecords options, ∃ tensor, record.materialize = .ok tensor) ∧
      ∀ record ∈ model.openInputs options, ∃ kind dims, record.Fits options.limit kind dims := by
  rw [attempts, firstError?_append, Option.or_eq_none_iff, firstError?_eq_none,
    firstError?_eq_none, List.forall_mem_map, List.forall_mem_map]
  simp only [ValueRecord.exists_placeholder]

/-- An open input that fits (`Fits`) has zeros of the declared kind and shape. -/
theorem Description.seededTensor?_openInput {record : ValueRecord}
    (hrecord : record ∈ model.openInputs options) {kind : ElementKind} {dims : List Nat}
    (hfits : record.Fits options.limit kind dims) : model.seededTensor? options record.name =
      some ⟨dims, .zeros kind (volume dims), Elements.size_zeros kind (volume dims)⟩ := by
  obtain ⟨hlent, hstored⟩ := openInputs_spec hrecord
  have hfind : (model.openInputs options).find? (·.name == record.name) = some record :=
    find?_of_nodup nodup_openInputs hrecord
  rw [seededTensor?_eq, hlent, hstored, hfind, Option.bind_some,
    ValueRecord.placeholder_eq_ok.2 ⟨kind, dims, hfits, rfl⟩]
  rfl

/-- **Every name is seeded with the tensor that counts.** Seeding by `Lowering.seed` ends with the
error of the first record that counts and cannot be turned into a tensor (`attempts`). It succeeds
exactly when the stored tensors that count can be materialized (`storedRecords`) and the open inputs
(`openInputs`) declare tensors that fit, while the products of their first dimensions stay sizes as
well. Then a name has its `seededTensor?`: the last tensor that is lent for it, or else the last one
that is stored for it, or else zeros as its first declaration says, or else none. The records that
do not count can be anything. -/
theorem seed_iff (options : LoadOptions) (model : Description) (g : Graph) :
    (∀ e, (∃ t, Lowering.seed options model { graph := g } = .error e t) ↔
      firstError? (model.attempts options) = some e) ∧
    ((∃ t, Lowering.seed options model { graph := g } = .ok () t) ↔
      (∀ record ∈ model.storedRecords options, ∃ tensor, record.materialize = .ok tensor) ∧
        ∀ record ∈ model.openInputs options, ∃ kind dims, record.Fits options.limit kind dims) ∧
    (∀ t, Lowering.seed options model { graph := g } = .ok () t → t.graph = g ∧
      (∀ name, t.table.tensor? name = model.seededTensor? options name) ∧
      ∀ record ∈ model.openInputs options, ∃ kind dims, record.Declares kind dims ∧
        t.table.tensor? record.name =
          some ⟨dims, .zeros kind (volume dims), Elements.size_zeros kind (volume dims)⟩) ∧
    ∀ model' : Description, model'.storedRecords options = model.storedRecords options →
      model'.openInputs options = model.openInputs options →
        Lowering.seed options model' { graph := g } =
          Lowering.seed options model { graph := g } := by
  have hsame : ∀ model' : Description, model'.storedRecords options = model.storedRecords options →
      model'.openInputs options = model.openInputs options →
        Lowering.seed options model' { graph := g } =
          Lowering.seed options model { graph := g } := by
    intro model' hstored hopen
    rw [Lowering.seed_eq, Lowering.seed_eq, hstored, hopen]
  rw [← Description.firstError?_attempts]
  rcases Lowering.seed_cases options model g with ⟨e, t, hfirst, hseed⟩ | ⟨hfirst, t, hseed, ht⟩
  · rw [hseed] at hsame ⊢
    rw [hfirst]
    refine ⟨fun e' => ⟨?_, ?_⟩, ⟨?_, ?_⟩, fun t' ht' => ?_, hsame⟩
    · rintro ⟨t', ht'⟩
      cases ht'
      rfl
    · intro he
      cases he
      exact ⟨t, rfl⟩
    · rintro ⟨t', ht'⟩
      cases ht'
    · intro hnone
      cases hnone
    · cases ht'
  · rw [hseed] at hsame ⊢
    rw [hfirst]
    refine ⟨fun e' => ⟨?_, ?_⟩, ⟨fun _ => rfl, fun _ => ⟨_, rfl⟩⟩, fun t' ht' => ?_, hsame⟩
    · rintro ⟨t', ht'⟩
      cases ht'
    · intro he
      cases he
    · cases ht'
      refine ⟨rfl, ht, fun record hrecord => ?_⟩
      obtain ⟨kind, dims, hfits⟩ := (Description.firstError?_attempts.1 hfirst).2 record hrecord
      refine ⟨kind, dims, hfits.declares, ?_⟩
      rw [ht]
      exact Description.seededTensor?_openInput hrecord hfits

end Seed

/-! ### A tensor without elements that is too large -/

/-- A model of a declared input whose last dimension is zero. -/
def hugeEmpty : Description where
  irVersion := 8
  opsetVersion := 13
  graph := {
    inputs := [{
      name := "x"
      type := some { tensorType := some {
        elementType := floatCode
        shape := some { dims := [4294967296, 4294967296, 0].map fun n =>
          { size := some (.fixed n) } } } } }] }

/-- The input of `hugeEmpty` declares a tensor of a fixed shape that takes no bytes, but the product
of its first two dimensions is no size, so it is not given its tensor. -/
theorem hugeEmpty_overflows :
    (∃ record, hugeEmpty.openInputs .embedding = [record] ∧
      record.Declares .float [4294967296, 4294967296, 0]) ∧
    volume [4294967296, 4294967296, 0] * ElementKind.float.width ≤
      LoadOptions.embedding.limit ∧
    ∃ t, Lowering.seed .embedding hugeEmpty { graph := .empty "g" } =
      .error (.tensor "x" (.overflow [4294967296, 4294967296, 0])) t := by
  refine ⟨⟨_, rfl, _, _, rfl, rfl, rfl, ?_⟩, by decide, ⟨_, rfl⟩⟩
  decide

end TensorGraph
