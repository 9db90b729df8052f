import TensorGraph.Load.Loader
import TensorGraph.Proofs.Lowering.Constants

/-! # Where the tensors of a load come from

While a load goes on, a tensor in the table is lent by the caller, is a stored tensor of the model,
is the tensor of a constant lowered before, or consists of the zeros that a declared input is given
for its shape. The last is the case exactly when none of the other origins has the name. A constant
operand is read from the table whatever its origin is, so the zeros of a declared input that is
only known at run time are frozen into the graph. -/

namespace TensorGraph

open Onnx

/-! ### Origins -/

/-- What constants may come from, up to some point of a load: the tensors that are lent, the stored
tensors that are loaded, and the nodes lowered so far. -/
structure Origins where
  lent : List (String × Tensor)
  stored : List TensorRecord := []
  nodes : List NodeRecord := []

namespace Origins

/-- The `tensor` comes from one of the origins under the `name`. -/
inductive Gives (o : Origins) (name : String) (tensor : Tensor) : Prop
  | lent (h : (name, tensor) ∈ o.lent)
  | stored (record : TensorRecord) (h : record ∈ o.stored) (hname : record.name = name)
      (htensor : record.materialize = .ok tensor)
  | constant (node : NodeRecord) (h : node ∈ o.nodes) (hop : node.operator? = some .constant)
      (hname : node.output = .ok name) (record : TensorRecord)
      (hrecord : node.view.tensor "value" = .ok record)
      (htensor : record.materialize = .ok tensor)

/-- One of the origins has the `name`. -/
inductive Names (o : Origins) (name : String) : Prop
  | lent (tensor : Tensor) (h : (name, tensor) ∈ o.lent)
  | stored (record : TensorRecord) (h : record ∈ o.stored) (hname : record.name = name)
  | constant (node : NodeRecord) (h : node ∈ o.nodes) (hop : node.operator? = some .constant)
      (hname : node.output = .ok name)

variable {o : Origins} {name : String} {tensor : Tensor}

theorem Gives.names (h : o.Gives name tensor) : o.Names name := by
  cases h with
  | lent h => exact .lent tensor h
  | stored record h hname _ => exact .stored record h hname
  | constant node h hop hname _ _ _ => exact .constant node h hop hname

/-- The origins after one more stored tensor. -/
def store (o : Origins) (record : TensorRecord) : Origins :=
  { o with stored := o.stored ++ [record] }

/-- The origins after one more node. -/
def lower (o : Origins) (node : NodeRecord) : Origins := { o with nodes := o.nodes ++ [node] }

/-- The origins `o'` are `o` with one more, which has the `name`. -/
structure Adds (o o' : Origins) (name : String) : Prop where
  lent : o'.lent = o.lent
  gives : ∀ {m tensor}, o.Gives m tensor → o'.Gives m tensor
  names : ∀ {m}, o'.Names m → o.Names m ∨ m = name

theorem adds_store (o : Origins) (record : TensorRecord) :
    o.Adds (o.store record) record.name where
  lent := rfl
  gives := by
    intro m tensor h
    cases h with
    | lent h => exact .lent h
    | stored r h hname ht => exact .stored r (List.mem_append_left _ h) hname ht
    | constant node h hop hname r hr ht => exact .constant node h hop hname r hr ht
  names := by
    intro m h
    cases h with
    | lent tensor h => exact .inl (.lent tensor h)
    | stored r h hname =>
      rcases List.mem_append.1 h with h | h
      · exact .inl (.stored r h hname)
      · rw [← hname, List.mem_singleton.1 h]
        exact .inr rfl
    | constant node h hop hname => exact .inl (.constant node h hop hname)

theorem gives_lower (h : o.Gives name tensor) (node : NodeRecord) :
    (o.lower node).Gives name tensor := by
  cases h with
  | lent h => exact .lent h
  | stored r h hname ht => exact .stored r h hname ht
  | constant n h hop hname r hr ht =>
    exact .constant n (List.mem_append_left _ h) hop hname r hr ht

theorem names_lower {node : NodeRecord} (h : (o.lower node).Names name) :
    o.Names name ∨ (node.operator? = some .constant ∧ node.output = .ok name) := by
  cases h with
  | lent tensor h => exact .inl (.lent tensor h)
  | stored r h hname => exact .inl (.stored r h hname)
  | constant n h hop hname =>
    rcases List.mem_append.1 h with h | h
    · exact .inl (.constant n h hop hname)
    · rw [List.mem_singleton.1 h] at hop hname
      exact .inr ⟨hop, hname⟩

theorem adds_lower (o : Origins) {node : NodeRecord} (hname : node.output = .ok name) :
    o.Adds (o.lower node) name where
  lent := rfl
  gives := fun h => gives_lower h node
  names := by
    intro m h
    rcases names_lower h with h | ⟨-, hm⟩
    · exact .inl h
    · rw [hname] at hm
      exact .inr (Except.ok.inj hm).symm

end Origins

/-! ### Tables that are filled from origins -/

/-- Every tensor comes from an origin (`Origins.Gives`), or is what a `declared` input is given when
no origin has its name; the lent tensors are known as such, and every name that an origin has is
known. -/
structure Table.FilledFrom (t : Table) (o : Origins) (limit : Nat) (declared : List ValueRecord) :
    Prop where
  known : ∀ {name tensor}, t.tensor? name = some tensor → o.Gives name tensor ∨
    (¬ o.Names name ∧
      ∃ record ∈ declared, record.name = name ∧ record.placeholder limit = .ok tensor)
  lent : ∀ name, t.isLent name = true ↔ ∃ tensor, (name, tensor) ∈ o.lent
  named : ∀ {name}, o.Names name → (t.tensor? name).isSome = true

namespace Table.FilledFrom

variable {t t' : Table} {o o' : Origins} {limit : Nat} {declared : List ValueRecord}
  {name : String} {tensor : Tensor}

theorem lendAll (lent : List (String × Tensor)) (limit : Nat) :
    (({} : Table).lendAll lent).FilledFrom { lent } limit [] where
  known := by
    intro name tensor h
    rcases mem_of_lendAll h with h | h
    · cases h
    · exact .inl (.lent h)
  lent := by
    intro name
    rw [isLent_lendAll]
    simp [isLent]
  named := by
    intro name h
    cases h with
    | lent tensor h => exact isSome_of_isLent (isLent_lendAll.2 (.inr ⟨tensor, h⟩))
    | stored record h _ => cases h
    | constant node h _ _ => cases h

/-- Only the `tensors` of the table matter. -/
theorem congr (h : t.FilledFrom o limit declared) (htensors : t'.tensors = t.tensors) :
    t'.FilledFrom o limit declared := by
  have htensor : ∀ name, t'.tensor? name = t.tensor? name := by simp [tensor?, htensors]
  have hlent : ∀ name, t'.isLent name = t.isLent name := by simp [isLent, htensors]
  refine ⟨fun h' => ?_, fun name => ?_, fun h' => ?_⟩
  · rw [htensor] at h'; exact h.known h'
  · rw [hlent]; exact h.lent name
  · rw [htensor]; exact h.named h'

theorem names_of_isLent (h : t.FilledFrom o limit declared) (hlent : t.isLent name = true) :
    o.Names name := by
  obtain ⟨tensor, hmem⟩ := (h.lent name).1 hlent
  exact .lent tensor hmem

/-- An origin that comes too late, as a tensor is lent for its name, leaves the table filled. -/
theorem keep (h : t.FilledFrom o limit declared) (hadds : o.Adds o' name)
    (hl : t.isLent name = true) : t.FilledFrom o' limit declared := by
  refine ⟨fun h' => ?_, fun m => by rw [hadds.lent]; exact h.lent m, fun h' => ?_⟩
  · rcases h.known h' with hg | ⟨hn, hd⟩
    · exact .inl (hadds.gives hg)
    · refine .inr ⟨fun hn' => ?_, hd⟩
      rcases hadds.names hn' with hn' | rfl
      · exact hn hn'
      · exact hn (h.names_of_isLent hl)
  · rcases hadds.names h' with h' | rfl
    · exact h.named h'
    · exact isSome_of_isLent hl

/-- An origin whose tensor is put under its name by `Table.insert`. -/
theorem put (h : t.FilledFrom o limit declared) (hadds : o.Adds o' name)
    (hl : t.isLent name = false) (htensor : o'.Gives name tensor) :
    (t.insert name tensor).FilledFrom o' limit declared := by
  refine ⟨fun h' => ?_, fun m => by rw [isLent_insert, hadds.lent]; exact h.lent m, fun h' => ?_⟩
  · rw [tensor?_insert hl] at h'
    split at h'
    · next heq =>
      cases h'
      exact .inl (heq ▸ htensor)
    · next hne =>
      rcases h.known h' with hg | ⟨hn, hd⟩
      · exact .inl (hadds.gives hg)
      · refine .inr ⟨fun hn' => ?_, hd⟩
        rcases hadds.names hn' with hn' | rfl
        · exact hn hn'
        · exact hne rfl
  · rw [tensor?_insert hl]
    split
    · rfl
    · next hne =>
      rcases hadds.names h' with h' | rfl
      · exact h.named h'
      · exact absurd rfl hne

theorem storeInitializer (h : t.FilledFrom o limit declared) {record : TensorRecord}
    (hok : t.storeInitializer record = .ok t') :
    t'.FilledFrom (o.store record) limit declared := by
  rcases storeInitializer_eq_ok.1 hok with ⟨hl, rfl⟩ | ⟨hl, tensor, htensor, rfl⟩
  · exact h.keep (o.adds_store record) hl
  · refine h.put (o.adds_store record) hl ?_
    exact .stored record (by simp [Origins.store]) rfl htensor

/-- The zeros of a declared input are stored only under a name that no origin has. -/
theorem declareInput (h : t.FilledFrom o limit declared) {record : ValueRecord}
    (hok : t.declareInput limit record = .ok t') :
    t'.FilledFrom o limit (declared ++ [record]) := by
  have hdeclared : ∀ {m u},
      (∃ r ∈ declared, r.name = m ∧ r.placeholder limit = .ok u) →
        ∃ r ∈ declared ++ [record], r.name = m ∧ r.placeholder limit = .ok u := by
    rintro m u ⟨r, hr, hrest⟩
    exact ⟨r, List.mem_append_left _ hr, hrest⟩
  rcases declareInput_eq_ok.1 hok with ⟨-, rfl⟩ | ⟨hnone, tensor, htensor, rfl⟩
  · refine ⟨fun h' => ?_, h.lent, h.named⟩
    rcases h.known h' with hg | ⟨hn, hd⟩
    · exact .inl hg
    · exact .inr ⟨hn, hdeclared hd⟩
  · -- every name that an origin has is known, so a free name belongs to none
    have hnew : ¬ o.Names record.name := by
      intro hn
      have := h.named hn
      rw [hnone] at this
      cases this
    have hl : t.isLent record.name = false := by
      rw [← Bool.not_eq_true]
      exact fun hl => hnew (h.names_of_isLent hl)
    refine ⟨fun h' => ?_, fun m => by rw [isLent_insert]; exact h.lent m, fun h' => ?_⟩
    · rw [tensor?_insert hl] at h'
      split at h'
      · next heq =>
        cases h'
        exact .inr ⟨heq ▸ hnew, record, by simp, heq, htensor⟩
      · rcases h.known h' with hg | ⟨hn, hd⟩
        · exact .inl hg
        · exact .inr ⟨hn, hdeclared hd⟩
    · rw [tensor?_insert hl]
      split
      · rfl
      · exact h.named h'

end Table.FilledFrom

/-! ### The phases of a load -/

namespace Lowering

variable {s t : Workspace} {o : Origins} {limit : Nat} {declared : List ValueRecord}

theorem forM_cons_eq_ok {α : Type} {a : α} {l : List α} {f : α → Lowering Unit} :
    (a :: l).forM f s = .ok () t ↔ ∃ r, f a s = .ok () r ∧ l.forM f r = .ok () t := by
  rw [show (a :: l).forM f = f a >>= fun _ => l.forM f from rfl, Step.bind_eq_ok]
  constructor
  · rintro ⟨_, r, ha, hl⟩; exact ⟨r, ha, hl⟩
  · rintro ⟨r, ha, hl⟩; exact ⟨(), r, ha, hl⟩

/-- What one `update` makes of a condition `P` on the records before it, all of them do. -/
theorem table_of_updates {α : Type} {update : α → Table → Except LoadError Table}
    {P : List α → Table → Prop}
    (hstep : ∀ seen record t t', P seen t → update record t = .ok t' → P (seen ++ [record]) t')
    {seen records : List α} (h : P seen s.table)
    (hok : records.forM (fun record => updateTable (update record)) s = .ok () t) :
    P (seen ++ records) t.table := by
  induction records generalizing s seen with
  | nil =>
    cases hok
    simpa using h
  | cons record records ih =>
    obtain ⟨r, hr, hrest⟩ := forM_cons_eq_ok.1 hok
    obtain ⟨known, hknown, rfl⟩ := updateTable_eq_ok.1 hr
    have hend := ih (hstep seen record _ known h hknown) hrest
    rwa [List.append_assoc] at hend

theorem filledFrom_storeInitializers {records : List TensorRecord}
    (h : s.table.FilledFrom o limit declared) (hok : storeInitializers records s = .ok () t) :
    t.table.FilledFrom { o with stored := o.stored ++ records } limit declared :=
  table_of_updates (P := fun stored t => t.FilledFrom { o with stored } limit declared)
    (fun _ _ _ _ h => h.storeInitializer) h hok

theorem filledFrom_declareInputs {records : List ValueRecord}
    (h : s.table.FilledFrom o limit declared) (hok : declareInputs limit records s = .ok () t) :
    t.table.FilledFrom o limit (declared ++ records) :=
  table_of_updates (P := fun declared t => t.FilledFrom o limit declared)
    (fun _ _ _ _ h => h.declareInput) h hok

/-- A node is lowered when its operator is supported and the `step` of the operator succeeds. -/
theorem lowerNode_eq_ok {opset : Int64} {node : NodeRecord} :
    lowerNode opset node s = .ok () t ↔
      ∃ op, node.operator? = some op ∧ step opset node op s = .ok () t := by
  unfold lowerNode lower
  cases hop : node.operator? with
  | none =>
    constructor
    · intro h; cases h
    · rintro ⟨op, h, -⟩; cases h
  | some op =>
    simp only [Step.bind_apply]
    cases hstep : step opset node op s with
    | ok u r =>
      constructor
      · intro h; cases h; exact ⟨op, rfl, hstep⟩
      · rintro ⟨_, h, h'⟩; cases h; rw [hstep] at h'; cases h'; rfl
    | error e r =>
      constructor
      · intro h; cases h
      · rintro ⟨_, h, h'⟩; cases h; rw [hstep] at h'; cases h'

/-- Lowering a node adds its tensor if it is a constant, and otherwise leaves the tensors alone
(`Origins.lower`). -/
theorem filledFrom_lowerNode {opset : Int64} {node : NodeRecord}
    (h : s.table.FilledFrom o limit declared) (hok : lowerNode opset node s = .ok () t) :
    t.table.FilledFrom (o.lower node) limit declared := by
  obtain ⟨op, hop, hstep⟩ := lowerNode_eq_ok.1 hok
  by_cases hc : op = .constant
  · subst hc
    obtain ⟨name, hname, ⟨hl, rfl⟩ | ⟨hl, record, tensor, hrecord, htensor, rfl⟩⟩ :=
      storeConstant_eq_ok hstep
    · exact h.keep (o.adds_lower hname) hl
    · refine h.put (o.adds_lower hname) hl ?_
      exact .constant node (by simp [Origins.lower]) hop hname record hrecord htensor
  · have htensors := tensors_eq_of_movesBy hc (movesBy_step opset node op) s
    rw [Step.after_of_ok hstep] at htensors
    have hnames : ∀ m, (o.lower node).Names m → o.Names m := by
      intro m hm
      rcases Origins.names_lower hm with hm | ⟨hconstant, -⟩
      · exact hm
      · rw [hop] at hconstant
        exact absurd (Option.some.inj hconstant) hc
    refine Table.FilledFrom.congr ⟨fun h' => ?_, h.lent, fun h' => h.named (hnames _ h')⟩ htensors
    rcases h.known h' with hg | ⟨hn, hd⟩
    · exact .inl (Origins.gives_lower hg node)
    · exact .inr ⟨fun hn' => hn (hnames _ hn'), hd⟩

theorem filledFrom_lowerNodes {opset : Int64} {nodes : List NodeRecord}
    (h : s.table.FilledFrom o limit declared) (hok : lowerNodes opset nodes s = .ok () t) :
    t.table.FilledFrom { o with nodes := o.nodes ++ nodes } limit declared := by
  induction nodes generalizing s o with
  | nil =>
    cases hok
    simpa using h
  | cons node nodes ih =>
    obtain ⟨r, hr, hrest⟩ := forM_cons_eq_ok.1 hok
    have hend := ih (filledFrom_lowerNode h hr) hrest
    rwa [Origins.lower, List.append_assoc] at hend

/-- A run over a list goes through every entry, `a` at the place `k`, in the workspace that the
entries before it leave. -/
theorem forM_at {α : Type} {l : List α} {f : α → Lowering Unit} (h : l.forM f s = .ok () t)
    {k : Nat} {a : α} (ha : l[k]? = some a) :
    ∃ r u, (l.take k).forM f s = .ok () r ∧ f a r = .ok () u := by
  induction l generalizing s k with
  | nil => cases ha
  | cons b l ih =>
    obtain ⟨u, hb, hrest⟩ := forM_cons_eq_ok.1 h
    cases k with
    | zero =>
      cases ha
      exact ⟨s, u, rfl, hb⟩
    | succ k =>
      obtain ⟨r, v, htake, hlast⟩ := ih hrest ha
      exact ⟨r, v, forM_cons_eq_ok.2 ⟨u, hb, htake⟩, hlast⟩

end Lowering

/-! ### Constant operands of a load -/

/-- The load of a model into a graph lowers the `node` at `place`, from the workspace `s` to `t`. -/
structure Lowers (options : LoadOptions) (model : Description) (g : Graph) (place : Nat)
    (node : NodeRecord) (s t : Workspace) : Prop where
  found : model.graph.nodes[place]? = some node
  before : (Lowering.seed options model >>= fun _ =>
    Lowering.lowerNodes model.opsetVersion (model.graph.nodes.take place)) { graph := g } = .ok () s
  lowered : Lowering.lowerNode model.opsetVersion node s = .ok () t

/-- The origins of constants when a load comes to the node at `place`. -/
def Origins.before (options : LoadOptions) (model : Description) (place : Nat) : Origins where
  lent := options.lent
  stored := if options.initializers then model.graph.initializers else []
  nodes := model.graph.nodes.take place

/-- Seeding by `seed` fills an empty table from the tensors that are lent and those that are
stored. -/
theorem Lowering.filledFrom_seed {options : LoadOptions} {model : Description} {s t : Workspace}
    (hs : s.table = {}) (hseed : seed options model s = .ok () t) :
    t.table.FilledFrom (.before options model 0) options.limit model.graph.inputs := by
  unfold seed at hseed
  rw [Step.bind_eq_ok] at hseed
  obtain ⟨_, r, hlend, hseed⟩ := hseed
  obtain ⟨known, hknown, rfl⟩ := updateTable_eq_ok.1 hlend
  cases hknown
  have hlent := Table.FilledFrom.lendAll options.lent options.limit
  rw [← hs] at hlent
  unfold Origins.before
  cases hi : options.initializers with
  | false =>
    simp only [hi, Bool.false_eq_true, if_false] at hseed ⊢
    exact filledFrom_declareInputs hlent hseed
  | true =>
    simp only [hi, if_true] at hseed ⊢
    rw [Step.bind_eq_ok] at hseed
    obtain ⟨_, u, hstore, hdeclare⟩ := hseed
    exact filledFrom_declareInputs (filledFrom_storeInitializers hlent hstore) hdeclare

/-- A model is lowered when the table is filled by `seed`, the nodes are lowered by `lowerNodes` and
the outputs are ended by `finish`. -/
theorem Lowering.lowerModel_eq_ok {options : LoadOptions} {model : Description} {s u : Workspace}
    {loaded : Loaded} : lowerModel options model s = .ok loaded u ↔ ∃ r t outputs,
      seed options model s = .ok () r ∧
      lowerNodes model.opsetVersion model.graph.nodes r = .ok () t ∧
      finish options model t = .ok outputs u ∧
      loaded = ⟨model.irVersion, model.opsetVersion, outputs, u.table.values⟩ := by
  unfold lowerModel
  simp only [Step.bind_eq_ok, table_eq_ok, Step.pure_eq_ok]
  constructor
  · rintro ⟨_, r, hseed, _, t, hnodes, outputs, _, hfinish, _, _, ⟨rfl, rfl⟩, rfl, rfl⟩
    exact ⟨r, t, outputs, hseed, hnodes, hfinish, rfl⟩
  · rintro ⟨r, t, outputs, hseed, hnodes, hfinish, rfl⟩
    exact ⟨(), r, hseed, (), t, hnodes, outputs, u, hfinish, _, u, ⟨rfl, rfl⟩, rfl, rfl⟩

section Load

variable {options : LoadOptions} {model : Description} {g h : Graph} {place : Nat}
  {node : NodeRecord} {op : Operator} {s t : Workspace} {name : String}

theorem load_eq_ok {loaded : Loaded} : load options model g = (.ok loaded, h) ↔
    ∃ t, Lowering.lowerModel options model { graph := g } = .ok loaded t ∧ h = t.graph := by
  unfold load
  cases Lowering.lowerModel options model { graph := g } with
  | ok result t =>
    constructor
    · intro h
      cases h
      exact ⟨t, rfl, rfl⟩
    · rintro ⟨_, hrun, rfl⟩
      cases hrun
      rfl
  | error e t => simp

/-- A load that succeeds lowers every node (`Lowers`). -/
theorem lowers_of_load_ok {loaded : Loaded} (hload : load options model g = (.ok loaded, h))
    (hnode : model.graph.nodes[place]? = some node) :
    ∃ s t, Lowers options model g place node s t := by
  obtain ⟨r, hrun, rfl⟩ := load_eq_ok.1 hload
  obtain ⟨seeded, _, _, hseed, hnodes, -⟩ := Lowering.lowerModel_eq_ok.1 hrun
  obtain ⟨s, t, htake, hlast⟩ := Lowering.forM_at hnodes hnode
  exact ⟨s, t, hnode, Step.bind_eq_ok.2 ⟨(), seeded, hseed, htake⟩, hlast⟩

theorem Lowers.filledFrom (hl : Lowers options model g place node s t) :
    s.table.FilledFrom (.before options model place) options.limit model.graph.inputs := by
  have hbefore := hl.before
  rw [Step.bind_eq_ok] at hbefore
  obtain ⟨_, seeded, hseed, hnodes⟩ := hbefore
  have hend := Lowering.filledFrom_lowerNodes (Lowering.filledFrom_seed rfl hseed) hnodes
  rwa [Origins.before, List.take_zero, List.nil_append] at hend

/-- The tensor of a declared input consists of zeros. -/
theorem cleared_of_placeholder {record : ValueRecord} {limit : Nat} {tensor : Tensor}
    (hp : record.placeholder limit = .ok tensor) : tensor.cleared = tensor := by
  simp only [ValueRecord.placeholder, bind_eq_ok, mapError_eq_ok] at hp
  obtain ⟨_, -, kind, -, _, -, dims, -, _, -, _, -, hp⟩ := hp
  rw [Tensor.eq_zero_of_zeros hp, Tensor.cleared, Tensor.kind_zero, Tensor.dims_zero]

/-- **A constant operand is a real constant exactly when an origin has its name** (`Origins.Names`).
Whenever a load lowers a node, each constant operand stands for a tensor; it comes from a tensor
that is lent, a stored tensor that is loaded or a constant lowered before (`Origins.Gives`) if and
only if one of these has the name of the operand. Otherwise the node is lowered all the same, from
the zeros that a declared input of that name was given. -/
theorem origin_of_constant_operand (hl : Lowers options model g place node s t)
    (hop : node.operator? = some op) (hname : name ∈ node.constantInputs op) :
    ∃ tensor, s.table.tensor? name = some tensor ∧
      ((Origins.before options model place).Gives name tensor ↔
        (Origins.before options model place).Names name) ∧
      (¬ (Origins.before options model place).Names name → tensor.cleared = tensor ∧
        ∃ record ∈ model.graph.inputs, record.name = name ∧
          record.placeholder options.limit = .ok tensor) := by
  obtain ⟨op', hop', hstep⟩ := Lowering.lowerNode_eq_ok.1 hl.lowered
  obtain rfl : op = op' := Option.some.inj (hop.symm.trans hop')
  obtain ⟨tensor, htensor⟩ := Lowering.exists_tensor_of_step hstep hname
  refine ⟨tensor, htensor, ?_⟩
  rcases hl.filledFrom.known htensor with hgives | ⟨hnames, record, hmem, hrecord, hzeros⟩
  · exact ⟨⟨Origins.Gives.names, fun _ => hgives⟩, fun hn => absurd hgives.names hn⟩
  · refine ⟨⟨Origins.Gives.names, fun hn => absurd hn hnames⟩, fun _ => ?_⟩
    exact ⟨cleared_of_placeholder hzeros, record, hmem, hrecord, hzeros⟩

end Load

/-! ### A filter that nobody gives -/

/-- A convolution of a declared input by a declared input. -/
def freeFilterNode : NodeRecord := { inputs := ["x", "w"], outputs := ["y"], opType := "Conv" }

/-- A model of this convolution alone. -/
def freeFilter : Description where
  irVersion := 8
  opsetVersion := 13
  graph := {
    nodes := [freeFilterNode]
    inputs := ["x", "w"].map fun name => {
      name
      type := some { tensorType := some {
        elementType := floatCode
        shape := some { dims := List.replicate 4 { size := some (.fixed 1) } } } } } }

/-- A load of `freeFilter` that lends no filters succeeds, although none of its origins has their
name, and zeros are frozen into the graph in their place. -/
theorem freeFilter_frozen :
    ∃ loaded h s t, load .embedding freeFilter (.empty "g") = (.ok loaded, h) ∧
      Lowers .embedding freeFilter (.empty "g") 0 freeFilterNode s t ∧
      freeFilterNode.operator? = some .conv ∧ "w" ∈ freeFilterNode.constantInputs .conv ∧
      (∀ tensor, ¬ (Origins.before .embedding freeFilter 0).Gives "w" tensor) ∧
      (h.nodes.map fun n => (n.name, n.tensor?))[1]? =
        some ("y.filter", some ⟨[1, 1, 1, 1], .float #[.zero], rfl⟩) := by
  have hok : (load .embedding freeFilter (.empty "g")).1.isOk = true := by decide +kernel
  have hfilter : ((load .embedding freeFilter (.empty "g")).2.nodes.map fun n =>
      (n.name, n.tensor?))[1]? = some ("y.filter", some ⟨[1, 1, 1, 1], .float #[.zero], rfl⟩) := by
    decide +kernel
  generalize hload : load .embedding freeFilter (.empty "g") = outcome at hok hfilter
  obtain ⟨result, h⟩ := outcome
  cases result with
  | error e => cases hok
  | ok loaded =>
    have hnode : freeFilter.graph.nodes[0]? = some freeFilterNode := rfl
    obtain ⟨s, t, hl⟩ := lowers_of_load_ok hload hnode
    refine ⟨loaded, h, s, t, rfl, hl, by decide, by decide, fun tensor hgives => ?_, hfilter⟩
    cases hgives with
    | lent h => cases h
    | stored record h _ _ => cases h
    | constant node h _ _ _ _ _ => cases h

/-- When filters are lent, the convolution is lowered from what an origin gives. -/
theorem origin_of_lent_filter :
    let options : LoadOptions := { lent := [("w", ⟨[1, 1, 1, 1], .float #[⟨0x3f800000⟩], rfl⟩)] }
    ∃ s t, Lowers options freeFilter (.empty "g") 0 freeFilterNode s t ∧
      ∃ tensor, s.table.tensor? "w" = some tensor ∧
        (Origins.before options freeFilter 0).Gives "w" tensor := by
  intro options
  have hok : (load options freeFilter (.empty "g")).1.isOk = true := by decide +kernel
  generalize hload : load options freeFilter (.empty "g") = outcome at hok
  obtain ⟨result, h⟩ := outcome
  cases result with
  | error e => cases hok
  | ok loaded =>
    have hnode : freeFilter.graph.nodes[0]? = some freeFilterNode := rfl
    obtain ⟨s, t, hl⟩ := lowers_of_load_ok hload hnode
    have hop : freeFilterNode.operator? = some .conv := by decide
    have hname : "w" ∈ freeFilterNode.constantInputs .conv := by decide
    obtain ⟨tensor, htensor, hiff, -⟩ := origin_of_constant_operand hl hop hname
    exact ⟨s, t, hl, tensor, htensor, hiff.2 (.lent _ (.head _))⟩

end TensorGraph
