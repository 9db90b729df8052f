import TensorGraph.Load.Description
import TensorGraph.Proofs.Check
import TensorGraph.Proofs.Wire.Message

/-! # Models that are read back

A record is **storable** at a number of levels if the records inside it are nested at most so deep
and all texts and strings of bytes in it have lengths of 32 bits. What is storable is recovered by
its codec: for each kind of record the rules restore one part after the other. A model that is
storable at the nesting limit is decoded from what it is encoded as (`decode?_encode`), and the
description that is read from there has its graph and its versions. -/

namespace TensorGraph.Onnx

open Wire

/-! ### Levels -/

/-- The lengths of `texts` and `blobs` are numbers of 32 bits. -/
def Short (texts : List String) (blobs : List Bytes) : Prop :=
  (∀ text ∈ texts, text.utf8ByteSize < 0x100000000) ∧ ∀ bytes ∈ blobs, bytes.length < 0x100000000

instance (texts : List String) (blobs : List Bytes) : Decidable (Short texts blobs) :=
  inferInstanceAs (Decidable (_ ∧ _))

section Levels

variable {σ : Type} {storable : Nat → σ → Prop} {codec : Nat → Codec σ} {levels : Nat}

/-- The record is `storable` at a level less, if a level is left. -/
def Within (storable : Nat → σ → Prop) : Nat → σ → Prop
  | 0, _ => False
  | levels + 1, m => storable levels m

theorem recovers_inside (h : ∀ levels m, storable levels m → (codec levels).Recovers m) (m : σ)
    (hm : Within storable levels m) : (inside codec levels).Recovers m := by
  cases levels with
  | zero => exact hm.elim
  | succ levels => exact h levels m hm

end Levels

/-! ### Stored tensors -/

theorem SegmentRecord.recovers (levels : Nat) (s : SegmentRecord) :
    (segmentCodec levels).Recovers s := by
  have hall : RestoresAll s segmentRules {} _ :=
    .cons (Rule.restores_number Numeric.lossless_int64 {} rfl) <|
    .cons (Rule.restores_number Numeric.lossless_int64 {} rfl) <|
    .nil _
  refine Codec.recovers_ofRules [1, 2] rfl (by decide) hall ?_
  simp [segmentRules]

structure TensorRecord.Storable (levels : Nat) (t : TensorRecord) : Prop where
  short : Short [t.name, t.docString] (t.rawData :: t.stringData)
  segment : ∀ s ∈ t.segment, Within (fun _ _ => True) levels s

theorem TensorRecord.Storable.recovers {levels : Nat} {t : TensorRecord} (h : t.Storable levels) :
    (tensorCodec levels).Recovers t := by
  obtain ⟨⟨htexts, hblobs⟩, hsegment⟩ := h
  simp only [List.forall_mem_cons] at htexts hblobs
  have hsegment' : ∀ s, t.segment = some s → (inside segmentCodec levels).Recovers s :=
    fun s hs => recovers_inside (fun levels s _ => s.recovers levels) s (hsegment s hs)
  have hall : RestoresAll t (tensorRules (inside segmentCodec levels)) {} _ :=
    .cons (Rule.restores_packed Numeric.lossless_int64 {}) <|
    .cons (Rule.restores_number Numeric.lossless_int32 {} rfl) <|
    .cons (Rule.restores_message hsegment' {} rfl) <|
    .cons (Rule.restores_packed Numeric.lossless_float {}) <|
    .cons (Rule.restores_packed Numeric.lossless_int32 {}) <|
    .cons (Rule.restores_many Scalar.lossless_bytes {} hblobs.2) <|
    .cons (Rule.restores_packed Numeric.lossless_int64 {}) <|
    .cons (Rule.restores_text {} rfl htexts.1) <|
    .cons (Rule.restores_bytes {} rfl hblobs.1) <|
    .cons (Rule.restores_packed Numeric.lossless_double {}) <|
    .cons (Rule.restores_packed Numeric.lossless_uint64 {}) <|
    .cons (Rule.restores_text {} rfl htexts.2.1) <|
    .nil _
  refine Codec.recovers_ofRules [1, 2, 3, 4, 5, 6, 7, 8, 9, 10, 11, 12] rfl (by decide) hall ?_
  simp [tensorRules, Rule.gather]

/-! ### Declared values -/

structure DimensionRecord.Storable (d : DimensionRecord) : Prop where
  short : Short (d.meaning :: (d.size.bind (·.symbolic?)).toList) []

/-- The size of a dimension is restored by the rule for its kind of sizes, so `dimensionCodec`
recovers it. -/
theorem DimensionRecord.Storable.recovers (levels : Nat) {d : DimensionRecord} (h : d.Storable) :
    (dimensionCodec levels).Recovers d := by
  have htexts := h.short.1
  simp only [List.forall_mem_cons, Option.mem_toList] at htexts
  have hnumber : ∀ n ∈ d.size.bind (·.fixed?),
      (Numeric.int64.write n).content.length < 0x100000000 := fun n _ => by
    rw [Numeric.lossless_int64.content]
    decide
  have hname : ∀ name ∈ d.size.bind (·.symbolic?),
      (Scalar.string.write name).content.length < 0x100000000 := fun name hname => by
    rw [Scalar.length_string]
    exact htexts.2 name hname
  obtain ⟨size, meaning⟩ := d
  have hall : RestoresAll ⟨size, meaning⟩ dimensionRules {} _ :=
    .cons (Rule.restores_choice Numeric.lossless_int64.scalar hnumber) <|
    .cons (Rule.restores_choice Scalar.lossless_string hname) <|
    .cons (Rule.restores_text {} (by rcases size with _ | _ | _ <;> rfl) htexts.1) <|
    .nil _
  refine Codec.recovers_ofRules [1, 2, 3] rfl (by decide) hall ?_
  rcases size with _ | _ | _ <;> rfl

def ShapeRecord.Storable (levels : Nat) (s : ShapeRecord) : Prop :=
  ∀ d ∈ s.dims, Within (fun _ => DimensionRecord.Storable) levels d

theorem ShapeRecord.Storable.recovers {levels : Nat} {s : ShapeRecord} (h : s.Storable levels) :
    (shapeCodec levels).Recovers s := by
  have hdims : ∀ d ∈ s.dims, (inside dimensionCodec levels).Recovers d :=
    fun d hd => recovers_inside (fun levels _ hd => hd.recovers levels) d (h d hd)
  have hall : RestoresAll s (shapeRules (inside dimensionCodec levels)) {} _ :=
    .cons (Rule.restores_messages hdims {}) <|
    .nil _
  refine Codec.recovers_ofRules [1] rfl (by decide) hall ?_
  simp [shapeRules, Rule.gather]

def TensorTypeRecord.Storable (levels : Nat) (t : TensorTypeRecord) : Prop :=
  ∀ s ∈ t.shape, Within ShapeRecord.Storable levels s

theorem TensorTypeRecord.Storable.recovers {levels : Nat} {t : TensorTypeRecord}
    (h : t.Storable levels) : (tensorTypeCodec levels).Recovers t := by
  have hshape : ∀ s, t.shape = some s → (inside shapeCodec levels).Recovers s :=
    fun s hs => recovers_inside (fun _ _ hs => hs.recovers) s (h s hs)
  have hall : RestoresAll t (tensorTypeRules (inside shapeCodec levels)) {} _ :=
    .cons (Rule.restores_number Numeric.lossless_int32 {} rfl) <|
    .cons (Rule.restores_message hshape {} rfl) <|
    .nil _
  refine Codec.recovers_ofRules [1, 2] rfl (by decide) hall ?_
  simp [tensorTypeRules]

structure TypeRecord.Storable (levels : Nat) (t : TypeRecord) : Prop where
  short : Short [t.meaning] []
  tensorType : ∀ type ∈ t.tensorType, Within TensorTypeRecord.Storable levels type

theorem TypeRecord.Storable.recovers {levels : Nat} {t : TypeRecord} (h : t.Storable levels) :
    (typeCodec levels).Recovers t := by
  have htype : ∀ type, t.tensorType = some type → (inside tensorTypeCodec levels).Recovers type :=
    fun type htype => recovers_inside (fun _ _ h => h.recovers) type (h.tensorType type htype)
  have hall : RestoresAll t (typeRules (inside tensorTypeCodec levels)) {} _ :=
    .cons (Rule.restores_message htype {} rfl) <|
    .cons (Rule.restores_text {} rfl (h.short.1 _ List.mem_cons_self)) <|
    .nil _
  refine Codec.recovers_ofRules [1, 6] rfl (by decide) hall ?_
  simp [typeRules]

structure ValueRecord.Storable (levels : Nat) (v : ValueRecord) : Prop where
  short : Short [v.name, v.docString] []
  type : ∀ type ∈ v.type, Within TypeRecord.Storable levels type

theorem ValueRecord.Storable.recovers {levels : Nat} {v : ValueRecord} (h : v.Storable levels) :
    (valueCodec levels).Recovers v := by
  have htexts := h.short.1
  simp only [List.forall_mem_cons] at htexts
  have htype : ∀ type, v.type = some type → (inside typeCodec levels).Recovers type :=
    fun type htype => recovers_inside (fun _ _ h => h.recovers) type (h.type type htype)
  have hall : RestoresAll v (valueRules (inside typeCodec levels)) {} _ :=
    .cons (Rule.restores_text {} rfl htexts.1) <|
    .cons (Rule.restores_message htype {} rfl) <|
    .cons (Rule.restores_text {} rfl htexts.2.1) <|
    .nil _
  refine Codec.recovers_ofRules [1, 2, 3] rfl (by decide) hall ?_
  simp [valueRules]

/-! ### Nodes and graphs -/

/-- An attribute is storable if the tensors and graphs in it are. -/
structure AttributeRecord.StorableWith (storableTensor : TensorRecord → Prop)
    (storableGraph : GraphRecord → Prop) (a : AttributeRecord) : Prop where
  short : Short [a.name, a.docString, a.refAttrName] (a.string :: a.strings)
  tensor : ∀ t ∈ a.tensor, storableTensor t
  graph : ∀ g ∈ a.graph, storableGraph g
  tensors : ∀ t ∈ a.tensors, storableTensor t
  graphs : ∀ g ∈ a.graphs, storableGraph g

structure NodeRecord.StorableWith (storableAttribute : AttributeRecord → Prop) (n : NodeRecord) :
    Prop where
  short : Short (n.name :: n.opType :: n.docString :: n.domain :: (n.inputs ++ n.outputs)) []
  attributes : ∀ a ∈ n.attributes, storableAttribute a

structure GraphRecord.StorableWith (storableNode : NodeRecord → Prop)
    (storableTensor : TensorRecord → Prop) (storableValue : ValueRecord → Prop)
    (g : GraphRecord) : Prop where
  short : Short [g.name, g.docString] []
  nodes : ∀ n ∈ g.nodes, storableNode n
  initializers : ∀ t ∈ g.initializers, storableTensor t
  inputs : ∀ v ∈ g.inputs, storableValue v
  outputs : ∀ v ∈ g.outputs, storableValue v
  values : ∀ v ∈ g.values, storableValue v

section Nested

variable {storableTensor : TensorRecord → Prop} {storableGraph : GraphRecord → Prop}
  {storableAttribute : AttributeRecord → Prop} {storableNode : NodeRecord → Prop}
  {storableValue : ValueRecord → Prop} {tensor : Codec TensorRecord} {graph : Codec GraphRecord}
  {attr : Codec AttributeRecord} {node : Codec NodeRecord} {value : Codec ValueRecord}
  {levels : Nat}

theorem AttributeRecord.StorableWith.recovers {a : AttributeRecord}
    (h : a.StorableWith storableTensor storableGraph)
    (htensor : ∀ t, storableTensor t → tensor.Recovers t)
    (hgraph : ∀ g, storableGraph g → graph.Recovers g) :
    (Codec.ofRules (attributeRules tensor graph) levels {}).Recovers a := by
  obtain ⟨htexts, hblobs⟩ := h.short
  simp only [List.forall_mem_cons] at htexts hblobs
  have hall : RestoresAll a (attributeRules tensor graph) {} _ :=
    .cons (Rule.restores_text {} rfl htexts.1) <|
    .cons (Rule.restores_number Numeric.lossless_float {} rfl) <|
    .cons (Rule.restores_number Numeric.lossless_int64 {} rfl) <|
    .cons (Rule.restores_bytes {} rfl hblobs.1) <|
    .cons (Rule.restores_message (fun t ht => htensor t (h.tensor t ht)) {} rfl) <|
    .cons (Rule.restores_message (fun g hg => hgraph g (h.graph g hg)) {} rfl) <|
    .cons (Rule.restores_packed Numeric.lossless_float {}) <|
    .cons (Rule.restores_packed Numeric.lossless_int64 {}) <|
    .cons (Rule.restores_many Scalar.lossless_bytes {} hblobs.2) <|
    .cons (Rule.restores_messages (fun t ht => htensor t (h.tensors t ht)) {}) <|
    .cons (Rule.restores_messages (fun g hg => hgraph g (h.graphs g hg)) {}) <|
    .cons (Rule.restores_text {} rfl htexts.2.1) <|
    .cons (Rule.restores_number Numeric.lossless_int32 {} rfl) <|
    .cons (Rule.restores_text {} rfl htexts.2.2.1) <|
    .nil _
  refine Codec.recovers_ofRules [1, 2, 3, 4, 5, 6, 7, 8, 9, 10, 11, 13, 20, 21] rfl (by decide)
    hall ?_
  cases a
  simp [attributeRules, Rule.gather]

theorem NodeRecord.StorableWith.recovers {n : NodeRecord} (h : n.StorableWith storableAttribute)
    (hattribute : ∀ a, storableAttribute a → attr.Recovers a) :
    (Codec.ofRules (nodeRules attr) levels {}).Recovers n := by
  have htexts := h.short.1
  simp only [List.forall_mem_cons, List.forall_mem_append] at htexts
  obtain ⟨hname, hopType, hdocString, hdomain, hinputs, houtputs⟩ := htexts
  have hall : RestoresAll n (nodeRules attr) {} _ :=
    .cons (Rule.restores_texts {} hinputs) <|
    .cons (Rule.restores_texts {} houtputs) <|
    .cons (Rule.restores_text {} rfl hname) <|
    .cons (Rule.restores_text {} rfl hopType) <|
    .cons (Rule.restores_messages (fun a ha => hattribute a (h.attributes a ha)) {}) <|
    .cons (Rule.restores_text {} rfl hdocString) <|
    .cons (Rule.restores_text {} rfl hdomain) <|
    .nil _
  refine Codec.recovers_ofRules [1, 2, 3, 4, 5, 6, 7] rfl (by decide) hall ?_
  cases n
  simp [nodeRules, Rule.gather]

theorem GraphRecord.StorableWith.recovers {g : GraphRecord}
    (h : g.StorableWith storableNode storableTensor storableValue)
    (hnode : ∀ n, storableNode n → node.Recovers n)
    (htensor : ∀ t, storableTensor t → tensor.Recovers t)
    (hvalue : ∀ v, storableValue v → value.Recovers v) :
    (Codec.ofRules (graphRules node tensor value) levels {}).Recovers g := by
  have htexts := h.short.1
  simp only [List.forall_mem_cons] at htexts
  have hall : RestoresAll g (graphRules node tensor value) {} _ :=
    .cons (Rule.restores_messages (fun n hn => hnode n (h.nodes n hn)) {}) <|
    .cons (Rule.restores_text {} rfl htexts.1) <|
    .cons (Rule.restores_messages (fun t ht => htensor t (h.initializers t ht)) {}) <|
    .cons (Rule.restores_text {} rfl htexts.2.1) <|
    .cons (Rule.restores_messages (fun v hv => hvalue v (h.inputs v hv)) {}) <|
    .cons (Rule.restores_messages (fun v hv => hvalue v (h.outputs v hv)) {}) <|
    .cons (Rule.restores_messages (fun v hv => hvalue v (h.values v hv)) {}) <|
    .nil _
  refine Codec.recovers_ofRules [1, 2, 5, 10, 11, 12, 13] rfl (by decide) hall ?_
  cases g
  simp [graphRules, Rule.gather]

end Nested

mutual

/-- Without a level left, nothing is inside the record (`Within`). -/
def AttributeRecord.Storable : Nat → AttributeRecord → Prop
  | 0, a => a.StorableWith (fun _ => False) fun _ => False
  | levels + 1, a => a.StorableWith (TensorRecord.Storable levels) (GraphRecord.Storable levels)

def NodeRecord.Storable : Nat → NodeRecord → Prop
  | 0, n => n.StorableWith fun _ => False
  | levels + 1, n => n.StorableWith (AttributeRecord.Storable levels)

def GraphRecord.Storable : Nat → GraphRecord → Prop
  | 0, g => g.StorableWith (fun _ => False) (fun _ => False) fun _ => False
  | levels + 1, g =>
    g.StorableWith (NodeRecord.Storable levels) (TensorRecord.Storable levels)
      (ValueRecord.Storable levels)

end

/-- Attributes, nodes and graphs that are storable are recovered (`Codec.Recovers`), however they
are nested. -/
theorem recovers_nested (levels : Nat) :
    (∀ a, AttributeRecord.Storable levels a → (attributeCodec levels).Recovers a) ∧
    (∀ n, NodeRecord.Storable levels n → (nodeCodec levels).Recovers n) ∧
    ∀ g, GraphRecord.Storable levels g → (graphCodec levels).Recovers g := by
  induction levels with
  | zero =>
    refine ⟨fun a ha => ?_, fun n hn => ?_, fun g hg => ?_⟩
    · exact AttributeRecord.StorableWith.recovers ha (fun _ => False.elim) fun _ => False.elim
    · exact NodeRecord.StorableWith.recovers hn fun _ => False.elim
    · exact GraphRecord.StorableWith.recovers hg (fun _ => False.elim) (fun _ => False.elim)
        fun _ => False.elim
  | succ levels ih =>
    obtain ⟨hattribute, hnode, hgraph⟩ := ih
    refine ⟨fun a ha => ?_, fun n hn => ?_, fun g hg => ?_⟩
    · exact AttributeRecord.StorableWith.recovers ha (fun _ => TensorRecord.Storable.recovers)
        hgraph
    · exact NodeRecord.StorableWith.recovers hn hattribute
    · exact GraphRecord.StorableWith.recovers hg hnode (fun _ => TensorRecord.Storable.recovers)
        fun _ => ValueRecord.Storable.recovers

/-! ### Models -/

structure OperatorSetRecord.Storable (s : OperatorSetRecord) : Prop where
  short : Short [s.domain] []

theorem OperatorSetRecord.Storable.recovers (levels : Nat) {s : OperatorSetRecord}
    (h : s.Storable) : (operatorSetCodec levels).Recovers s := by
  have hall : RestoresAll s operatorSetRules {} _ :=
    .cons (Rule.restores_text {} rfl (h.short.1 _ List.mem_cons_self)) <|
    .cons (Rule.restores_number Numeric.lossless_int64 {} rfl) <|
    .nil _
  refine Codec.recovers_ofRules [1, 2] rfl (by decide) hall ?_
  simp [operatorSetRules]

structure EntryRecord.Storable (e : EntryRecord) : Prop where
  short : Short [e.key, e.value] []

theorem EntryRecord.Storable.recovers (levels : Nat) {e : EntryRecord} (h : e.Storable) :
    (entryCodec levels).Recovers e := by
  have htexts := h.short.1
  simp only [List.forall_mem_cons] at htexts
  have hall : RestoresAll e entryRules {} _ :=
    .cons (Rule.restores_text {} rfl htexts.1) <|
    .cons (Rule.restores_text {} rfl htexts.2.1) <|
    .nil _
  refine Codec.recovers_ofRules [1, 2] rfl (by decide) hall ?_
  simp [entryRules]

/-- The records of a model are nested at most `levels` deep below it. -/
structure ModelRecord.Storable (levels : Nat) (m : ModelRecord) : Prop where
  short : Short [m.producerName, m.producerVersion, m.domain, m.docString] []
  graph : ∀ g ∈ m.graph, Within GraphRecord.Storable levels g
  operatorSets : ∀ s ∈ m.operatorSets, Within (fun _ => OperatorSetRecord.Storable) levels s
  metadata : ∀ e ∈ m.metadata, Within (fun _ => EntryRecord.Storable) levels e

theorem ModelRecord.Storable.recovers {levels : Nat} {m : ModelRecord} (h : m.Storable levels) :
    (modelCodec levels).Recovers m := by
  have htexts := h.short.1
  simp only [List.forall_mem_cons] at htexts
  have hgraph : ∀ g, m.graph = some g → (inside graphCodec levels).Recovers g :=
    fun g hg => recovers_inside (fun levels => (recovers_nested levels).2.2) g (h.graph g hg)
  have hsets : ∀ s ∈ m.operatorSets, (inside operatorSetCodec levels).Recovers s :=
    fun s hs => recovers_inside (fun levels _ hs => hs.recovers levels) s (h.operatorSets s hs)
  have hentries : ∀ e ∈ m.metadata, (inside entryCodec levels).Recovers e :=
    fun e he => recovers_inside (fun levels _ he => he.recovers levels) e (h.metadata e he)
  have hall : RestoresAll m (modelRules (inside graphCodec levels)
      (inside operatorSetCodec levels) (inside entryCodec levels)) {} _ :=
    .cons (Rule.restores_number Numeric.lossless_int64 {} rfl) <|
    .cons (Rule.restores_text {} rfl htexts.1) <|
    .cons (Rule.restores_text {} rfl htexts.2.1) <|
    .cons (Rule.restores_text {} rfl htexts.2.2.1) <|
    .cons (Rule.restores_number Numeric.lossless_int64 {} rfl) <|
    .cons (Rule.restores_text {} rfl htexts.2.2.2.1) <|
    .cons (Rule.restores_message hgraph {} rfl) <|
    .cons (Rule.restores_messages hsets {}) <|
    .cons (Rule.restores_messages hentries {}) <|
    .nil _
  refine Codec.recovers_ofRules [1, 2, 3, 4, 5, 6, 7, 8, 14] rfl (by decide) hall ?_
  simp [modelRules, Rule.gather]

/-- **What is encoded is decoded.** A model whose records are nested within the limit, whose texts
and strings of bytes have lengths of 32 bits (`Storable`) and whose encoding has a size is decoded
by `decode?` from this encoding. If its versions are acceptable, it is read by `Description.ofBytes`
as a description of its graph and its versions, under every limit of bytes that the encoding keeps
to. -/
theorem decode?_encode {model : ModelRecord} (h : model.Storable nestingLimit)
    (hsize : model.encode.length < Size.bound) :
    ModelRecord.decode? model.encode = some model ∧ ∀ limit set, model.encode.length ≤ limit →
      oldestIrVersion.toInt ≤ model.irVersion.toInt →
      (model.operatorSets.find? fun s => s.domain.isEmpty) = some set → 0 < set.version.toInt →
      Description.ofBytes limit model.encode =
        .ok ⟨model.irVersion, set.version, model.graph.getD {}⟩ := by
  have hdecode : ModelRecord.decode? model.encode = some model := h.recovers hsize _
  refine ⟨hdecode, fun limit set hlimit hold hset hversion => ?_⟩
  have hoperatorSet : defaultOperatorSet model = .ok set.version :=
    bind_eq_ok.2 ⟨set, found_eq_ok.2 hset, bind_eq_ok.2 ⟨(), check_eq_ok.2 hversion, rfl⟩⟩
  have hdescribe : model.describe = .ok ⟨model.irVersion, set.version, model.graph.getD {}⟩ :=
    bind_eq_ok.2 ⟨(), check_eq_ok.2 hold, bind_eq_ok.2 ⟨set.version, hoperatorSet, rfl⟩⟩
  exact bind_eq_ok.2 ⟨(), check_eq_ok.2 hlimit,
    bind_eq_ok.2 ⟨model, found_eq_ok.2 hdecode, hdescribe⟩⟩

/-! ### A graph inside a graph -/

/-- A graph without nodes. -/
def innerGraph : GraphRecord := { name := "inner" }

/-- An attribute that holds `innerGraph`. -/
def graphAttribute : AttributeRecord where
  name := "then_branch"
  graph := some innerGraph
  type := 5

/-- A node with `graphAttribute`. -/
def branchingNode : NodeRecord where
  inputs := ["x"]
  opType := "If"
  attributes := [graphAttribute]

/-- A model of the graph `g`, for one version of the operators. -/
def plainModel (g : GraphRecord) : ModelRecord where
  irVersion := 8
  graph := some g
  operatorSets := [{ version := 13 }]

/-- A model with `branchingNode` in its graph. -/
def nestedModel : ModelRecord := plainModel { nodes := [branchingNode] }

theorem storable_innerGraph : GraphRecord.Storable 96 innerGraph where
  short := by decide +kernel
  nodes := nofun
  initializers := nofun
  inputs := nofun
  outputs := nofun
  values := nofun

theorem storable_graphAttribute : AttributeRecord.Storable 97 graphAttribute where
  short := by decide +kernel
  tensor := nofun
  graph g hg := by
    obtain rfl := Option.some.inj hg
    exact storable_innerGraph
  tensors := nofun
  graphs := nofun

theorem storable_branchingNode : NodeRecord.Storable 98 branchingNode where
  short := by decide +kernel
  attributes := List.forall_mem_singleton.2 storable_graphAttribute

theorem storable_plainModel {g : GraphRecord} (h : GraphRecord.Storable 99 g) :
    (plainModel g).Storable nestingLimit where
  short := by
    show Short ["", "", "", ""] []
    decide +kernel
  graph g' hg' := by
    obtain rfl := Option.some.inj hg'
    exact h
  operatorSets := List.forall_mem_singleton.2 ⟨by decide +kernel⟩
  metadata := nofun

theorem storable_nestedModel : nestedModel.Storable nestingLimit :=
  storable_plainModel {
    short := by decide +kernel
    nodes := List.forall_mem_singleton.2 storable_branchingNode
    initializers := nofun
    inputs := nofun
    outputs := nofun
    values := nofun }

/-- The graph in the attribute of `nestedModel` is read back with the rest. -/
theorem decode?_encode_nestedModel : nestedModel.Storable nestingLimit ∧
    nestedModel.encode.length < Size.bound ∧
    ModelRecord.decode? nestedModel.encode = some nestedModel ∧
    Description.ofBytes 1000 nestedModel.encode = .ok ⟨8, 13, { nodes := [branchingNode] }⟩ := by
  have hsize : nestedModel.encode.length < Size.bound := by decide +kernel
  obtain ⟨hdecode, hread⟩ := decode?_encode storable_nestedModel hsize
  exact ⟨storable_nestedModel, hsize, hdecode,
    hread 1000 { version := 13 } (by decide +kernel) (by decide) rfl (by decide)⟩

end TensorGraph.Onnx
