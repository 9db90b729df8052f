import TensorGraph.Load.Table

/-! # Filling a table

What a table says about tensors after each way to fill it. A lent tensor stays: nothing that the
load makes takes its place, and binding graph values does not touch the tensors. -/

namespace TensorGraph.Table

variable {t : Table} {name other : String} {tensor : Tensor}

theorem contains_eq_isSome : t.tensors.contains name = (t.tensor? name).isSome := by
  simp [KeyMap.contains, tensor?]

/-- The slot of a name is lent (`isLent`) only when there is a tensor in it. -/
theorem isSome_of_isLent (h : t.isLent name = true) : (t.tensor? name).isSome = true := by
  unfold isLent at h
  unfold tensor?
  cases hs : t.tensors.get? name with
  | none => rw [hs] at h; cases h
  | some slot => rfl

theorem isLent_of_tensor?_eq_none (h : t.tensor? name = none) : t.isLent name = false := by
  cases hlent : t.isLent name with
  | false => rfl
  | true =>
    have hsome := isSome_of_isLent hlent
    rw [h] at hsome
    cases hsome

theorem constant_eq_ok : t.constant name = .ok tensor ↔ t.tensor? name = some tensor := by
  unfold constant
  cases t.tensor? name with
  | some known => simp
  | none =>
    cases t.value? name with
    | some id => simp
    | none => simp

/-- A tensor under a name (`tensor?`) comes before a graph value. -/
theorem lookup?_eq_tensor :
    t.lookup? name = some (.tensor tensor) ↔ t.tensor? name = some tensor := by
  unfold lookup?
  cases t.tensor? name with
  | some known => simp
  | none => simp

theorem isSome_lookup? : (t.lookup? name).isSome =
    ((t.tensor? name).isSome || (t.value? name).isSome) := by
  unfold lookup?
  cases t.tensor? name with
  | some known => rfl
  | none => simp

/-! ### Lending -/

theorem tensor?_lend : (t.lend name tensor).tensor? other =
    if name = other then some tensor else t.tensor? other := by
  simp only [lend, tensor?, KeyMap.get?_insert]
  split <;> rfl

theorem isLent_lend : (t.lend name tensor).isLent other = true ↔
    name = other ∨ t.isLent other = true := by
  simp only [lend, isLent, KeyMap.get?_insert]
  split
  · next h => simp [h, Slot.isLent]
  · next h => simp [h]

/-- Only what is lent by `lendAll` comes in. -/
theorem mem_of_lendAll {tensors : List (String × Tensor)}
    (h : (t.lendAll tensors).tensor? name = some tensor) :
    t.tensor? name = some tensor ∨ (name, tensor) ∈ tensors := by
  induction tensors generalizing t with
  | nil => exact .inl h
  | cons first rest ih =>
    rcases ih h with hin | hin
    · rw [tensor?_lend] at hin
      split at hin
      · next heq =>
        cases hin
        exact .inr (by simp [← heq])
      · exact .inl hin
    · exact .inr (List.mem_cons_of_mem _ hin)

theorem isLent_lendAll {tensors : List (String × Tensor)} :
    (t.lendAll tensors).isLent name = true ↔
      t.isLent name = true ∨ ∃ tensor, (name, tensor) ∈ tensors := by
  induction tensors generalizing t with
  | nil => simp [lendAll]
  | cons first rest ih =>
    show ((t.lend first.1 first.2).lendAll rest).isLent name = true ↔ _
    rw [ih, isLent_lend]
    obtain ⟨key, value⟩ := first
    constructor
    · rintro ((rfl | hlent) | ⟨tensor, hmem⟩)
      · exact .inr ⟨value, by simp⟩
      · exact .inl hlent
      · exact .inr ⟨tensor, List.mem_cons_of_mem _ hmem⟩
    · rintro (hlent | ⟨tensor, hmem⟩)
      · exact .inl (.inr hlent)
      · rcases List.mem_cons.1 hmem with heq | hmem
        · exact .inl (.inl (Prod.mk.inj heq).1.symm)
        · exact .inr ⟨tensor, hmem⟩

/-- Of several `tensors` that are lent for a name, the last one counts. -/
theorem get?_lendAll {tensors : List (String × Tensor)} :
    (t.lendAll tensors).tensors.get? name =
      ((tensors.reverse.lookup name).map .lent).or (t.tensors.get? name) := by
  induction tensors generalizing t with
  | nil => rfl
  | cons first rest ih =>
    obtain ⟨key, value⟩ := first
    have hrest := ih (t := t.lend key value)
    rw [lend, KeyMap.get?_insert] at hrest
    show ((t.lend key value).lendAll rest).tensors.get? name = _
    rw [lend, hrest, List.reverse_cons, List.lookup_append, List.lookup_cons, List.lookup_nil]
    cases rest.reverse.lookup name with
    | some tensor => rfl
    | none =>
      by_cases hkey : key = name
      · simp [hkey]
      · have hne : (name == key) = false := by simpa using Ne.symm hkey
        simp [hkey, hne]

theorem tensor?_lendAll {tensors : List (String × Tensor)} : (t.lendAll tensors).tensor? name =
    (tensors.reverse.lookup name).or (t.tensor? name) := by
  rw [tensor?, get?_lendAll]
  cases tensors.reverse.lookup name <;> rfl

theorem isLent_lendAll_empty {tensors : List (String × Tensor)} :
    (({} : Table).lendAll tensors).isLent name = (tensors.reverse.lookup name).isSome := by
  rw [isLent, get?_lendAll]
  cases tensors.reverse.lookup name <;> rfl

/-! ### Tensors made by the load -/

theorem tensor?_insert (h : t.isLent name = false) : (t.insert name tensor).tensor? other =
    if name = other then some tensor else t.tensor? other := by
  simp only [insert, h, Bool.false_eq_true, if_false, tensor?, KeyMap.get?_insert]
  split <;> rfl

theorem get?_insert_of_lent {lent : Tensor} (h : t.tensors.get? other = some (.lent lent)) :
    (t.insert name tensor).tensors.get? other = some (.lent lent) := by
  unfold insert
  split
  · exact h
  · next hname =>
    rw [KeyMap.get?_insert, if_neg, h]
    rintro rfl
    simp [isLent, h, Slot.isLent] at hname

theorem get?_insert_of_ne (h : name ≠ other) :
    (t.insert name tensor).tensors.get? other = t.tensors.get? other := by
  unfold insert
  split
  · rfl
  · rw [KeyMap.get?_insert, if_neg h]

theorem isLent_insert : (t.insert name tensor).isLent other = t.isLent other := by
  unfold insert
  split
  · rfl
  · next h =>
    simp only [isLent, KeyMap.get?_insert]
    split
    · next heq =>
      subst heq
      simpa [isLent, Slot.isLent] using h
    · rfl

/-! ### Graph values -/

theorem value?_bind {id : NodeId} :
    (t.bind name id).value? other = if name = other then some id else t.value? other :=
  KeyMap.get?_insert t.values name other id

theorem values_lendAll {tensors : List (String × Tensor)} :
    (t.lendAll tensors).values = t.values := by
  induction tensors generalizing t with
  | nil => rfl
  | cons first rest ih => exact ih (t := t.lend first.1 first.2)

theorem values_insert : (t.insert name tensor).values = t.values := by
  unfold insert
  split <;> rfl

/-! ### Records of a model -/

section Records

variable {t' : Table}

/-- A stored tensor is skipped for a name that is lent (`isLent`), and otherwise materialized and
stored. -/
theorem storeInitializer_eq_ok {record : Onnx.TensorRecord} :
    t.storeInitializer record = .ok t' ↔ (t.isLent record.name = true ∧ t' = t) ∨
      (t.isLent record.name = false ∧
        ∃ tensor, record.materialize = .ok tensor ∧ t' = t.insert record.name tensor) := by
  unfold storeInitializer
  split
  · next h => simp [h, eq_comm]
  · next h =>
    rw [bind_eq_ok]
    simp only [Bool.not_eq_true] at h
    constructor
    · rintro ⟨tensor, htensor, hend⟩
      cases hend
      exact .inr ⟨h, tensor, htensor, rfl⟩
    · rintro (⟨hlent, -⟩ | ⟨-, tensor, htensor, rfl⟩)
      · rw [h] at hlent; cases hlent
      · exact ⟨tensor, htensor, rfl⟩

/-- A declared input is skipped for a name that has a tensor, and otherwise given zeros by
`placeholder`. -/
theorem declareInput_eq_ok {limit : Nat} {record : Onnx.ValueRecord} :
    t.declareInput limit record = .ok t' ↔ ((t.tensor? record.name).isSome = true ∧ t' = t) ∨
      (t.tensor? record.name = none ∧
        ∃ tensor, record.placeholder limit = .ok tensor ∧ t' = t.insert record.name tensor) := by
  unfold declareInput
  rw [contains_eq_isSome]
  cases hname : t.tensor? record.name with
  | some tensor => simp [eq_comm]
  | none =>
    rw [Option.isSome_none, if_neg (by simp), bind_eq_ok]
    constructor
    · rintro ⟨tensor, htensor, hend⟩
      cases hend
      exact .inr ⟨rfl, tensor, htensor, rfl⟩
    · rintro (⟨hsome, -⟩ | ⟨-, tensor, htensor, rfl⟩)
      · cases hsome
      · exact ⟨tensor, htensor, rfl⟩

/-- With one more record the table `t` stays as it is, or gets the tensor that the record is turned
into, `made`, under its name. -/
inductive Puts (t : Table) (name : String) (made : Except LoadError Tensor) :
    Except LoadError Table → Prop
  | skip : Puts t name made (.ok t)
  | put : Puts t name made (made >>= fun tensor => pure (t.insert name tensor))

theorem puts_storeInitializer (t : Table) (record : Onnx.TensorRecord) :
    t.Puts record.name record.materialize (t.storeInitializer record) := by
  unfold storeInitializer
  split
  · exact .skip
  · exact .put

theorem puts_declareInput (limit : Nat) (t : Table) (record : Onnx.ValueRecord) :
    t.Puts record.name (record.placeholder limit) (t.declareInput limit record) := by
  unfold declareInput
  split
  · exact .skip
  · exact .put

theorem Puts.cases_of_ok {made : Except LoadError Tensor} {result : Except LoadError Table}
    (h : t.Puts name made result) (hok : result = .ok t') :
    t' = t ∨ ∃ tensor, made = .ok tensor ∧ t' = t.insert name tensor := by
  cases h with
  | skip => exact .inl (Except.ok.inj hok).symm
  | put =>
    obtain ⟨tensor, hmade, hend⟩ := bind_eq_ok.1 hok
    exact .inr ⟨tensor, hmade, (Except.ok.inj hend).symm⟩

end Records

end TensorGraph.Table
