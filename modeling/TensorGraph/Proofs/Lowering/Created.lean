import TensorGraph.Proofs.Graph.Acceptance
import TensorGraph.Proofs.Lowering.Success

/-! # Nodes that a lowering adds

A lowering that succeeds adds nodes one after the other. Each of them is known by its kind and
operands, by its handle, which is its place, and by its type; the table and what was in the graph
before stay as they are. -/

namespace TensorGraph.Lowering

variable {s t u : Workspace}

/-- The `nodes` were added one after the other, and nothing else was changed. -/
structure Added (nodes : List Node) (s t : Workspace) : Prop where
  table : t.table = s.table
  indexed : t.graph.Indexed
  ext : s.graph.Extends t.graph
  nodes_eq : t.graph.nodes = s.graph.nodes ++ nodes

namespace Added

variable {l m : List Node}

theorem nil (hs : s.graph.Indexed) : Added [] s s where
  table := rfl
  indexed := hs
  ext := .refl s.graph
  nodes_eq := (List.append_nil _).symm

theorem trans (hl : Added l s t) (hm : Added m t u) : Added (l ++ m) s u where
  table := hm.table.trans hl.table
  indexed := hm.indexed
  ext := hl.ext.trans hm.ext
  nodes_eq := by rw [hm.nodes_eq, hl.nodes_eq, List.append_assoc]

end Added

/-- A node of the type `type` was added under the handle `id`. -/
structure Created (node : TypeRef → Node) (type : ValueType) (id : NodeId) (s t : Workspace) :
    Prop where
  id_eq : id = ⟨s.graph.nodes.length⟩
  added : ∃ ref, Added [node ref] s t
  typeOf_node : t.graph.typeOf id = .ok type

namespace Created

variable {node : TypeRef → Node} {type : ValueType} {id : NodeId}

theorem indexed (h : Created node type id s t) : t.graph.Indexed := by
  obtain ⟨_, hadded⟩ := h.added
  exact hadded.indexed

theorem ext (h : Created node type id s t) : s.graph.Extends t.graph := by
  obtain ⟨_, hadded⟩ := h.added
  exact hadded.ext

/-- The handle that the node has for its type stands for this type (`Graph.resolve`). -/
theorem exists_ref (h : Created node type id s t) (hnode : ∀ ref, (node ref).type = ref) :
    ∃ ref, t.graph.resolve ref = .ok type ∧ Added [node ref] s t := by
  obtain ⟨ref, hadded⟩ := h.added
  obtain ⟨found, hfound, htype⟩ := Graph.typeOf_eq_ok.1 h.typeOf_node
  have hlast : t.graph.node id = .ok (node ref) := by
    simp [Graph.node, h.id_eq, hadded.nodes_eq]
  obtain rfl := Except.ok.inj (hlast.symm.trans hfound)
  rw [hnode] at htype
  exact ⟨ref, htype, hadded⟩

/-- A node that is created after the nodes `l` stands behind them. -/
theorem after {r : Workspace} {l : List Node} (h : Created node type id s t) (hl : Added l r s) :
    id = ⟨r.graph.nodes.length + l.length⟩ ∧ ∃ ref, Added (l ++ [node ref]) r t := by
  obtain ⟨ref, hadded⟩ := h.added
  refine ⟨?_, ref, hl.trans hadded⟩
  rw [h.id_eq, hl.nodes_eq, List.length_append]

end Created

/-! ### Single nodes -/

variable {name : String} {id : NodeId}

/-- A node that `rule` drafts can be created. -/
theorem exists_create (name : String) (rule : Graph → Except GraphError Draft) {draft : Draft}
    (h : rule s.graph = .ok draft) :
    ∃ id t, (liftM (Build.create name rule) : Lowering NodeId) s = .ok id t :=
  ⟨_, _, create_eq_ok.2 ⟨draft, h, rfl, rfl⟩⟩

/-- Adding a draft by `Graph.add` creates its node, with the type that the draft gives it. -/
theorem created_add {kind : NodeKind} {operands : List NodeId} {result : ResultType}
    {type : ValueType} (hg : s.graph.Indexed) (hresult : s.graph.resultType result = .ok type) :
    Created (⟨name, kind, operands, ·⟩) type ⟨s.graph.nodes.length⟩ s
      { s with graph := (s.graph.add name ⟨kind, operands, result⟩).2 } where
  id_eq := rfl
  added := ⟨s.graph.refOf result, rfl, hg.add name _, Graph.extends_add _ _ _,
    Graph.nodes_add _ _ _⟩
  typeOf_node := Graph.typeOf_add hg name _ hresult

/-- A node whose draft is sound (`Draft.Sound`) is created with operands and a type that the rule of
its kind relates. -/
theorem created_of_ok {rule : Graph → Except GraphError Draft} (hg : s.graph.Indexed)
    (hrule : ∀ draft, rule s.graph = .ok draft → draft.Sound s.graph)
    (h : (liftM (Build.create name rule) : Lowering NodeId) s = .ok id t) :
    ∃ draft types result, rule s.graph = .ok draft ∧
      Created (⟨name, draft.kind, draft.operands, ·⟩) result id s t ∧
      List.Forall₂ (fun id type => s.graph.typeOf id = .ok type) draft.operands types ∧
      s.graph.resultType draft.result = .ok result ∧ ShapeRule draft.kind types result := by
  obtain ⟨draft, hd, rfl, rfl⟩ := create_eq_ok.1 h
  obtain ⟨types, result, htypes, hresult, hshape⟩ := hrule draft hd
  exact ⟨draft, types, result, hd, created_add hg hresult, htypes, hresult, hshape⟩

theorem created_parameter {tensor : Tensor} (hg : s.graph.Indexed)
    (h : (liftM (Build.parameter name tensor) : Lowering NodeId) s = .ok id t) :
    Created (⟨name, .parameter tensor, [], ·⟩) tensor.type id s t := by
  obtain ⟨draft, hd, rfl, rfl⟩ := create_eq_ok.1 h
  cases hd
  exact created_add hg rfl

theorem created_transpose {input : NodeId} {shuffle : List Nat} (hg : s.graph.Indexed)
    (h : (liftM (Build.transpose name input shuffle) : Lowering NodeId) s = .ok id t) :
    ∃ type, Created (⟨name, .transpose shuffle, [input], ·⟩)
        ⟨type.kind, permuteDims type.dims shuffle⟩ id s t ∧
      s.graph.typeOf input = .ok type ∧ type.dims.length = shuffle.length := by
  obtain ⟨draft, hd, rfl, rfl⟩ := create_eq_ok.1 h
  obtain ⟨type, htype, hperm, rfl⟩ := Draft.transpose_eq_ok.1 hd
  exact ⟨type, created_add hg rfl, htype, (isPermutation_eq_true.1 hperm).1.symm⟩

theorem created_broadcast {input : NodeId} {dims : List Nat} {axis : Nat} {type : ValueType}
    (haxis : axis ≤ dims.length) (hg : s.graph.Indexed) (htype : s.graph.typeOf input = .ok type)
    (h : (liftM (Build.broadcast name input dims axis) : Lowering NodeId) s = .ok id t) :
    FitsInto type.dims dims axis ∧
      Created (⟨name, .broadcast axis, [input], ·⟩) ⟨type.kind, dims⟩ id s t := by
  obtain ⟨draft, hd, rfl, rfl⟩ := create_eq_ok.1 h
  obtain ⟨type', htype', hfits, rfl⟩ := (Draft.broadcast_eq_ok haxis).1 hd
  obtain rfl := Graph.eq_of_typeOf htype htype'
  exact ⟨hfits, created_add hg rfl⟩

theorem created_arithmetic {op : ArithmeticOp} {lhs rhs : NodeId} {left right : ValueType}
    (hg : s.graph.Indexed) (hl : s.graph.typeOf lhs = .ok left)
    (hr : s.graph.typeOf rhs = .ok right)
    (h : (liftM (Build.arithmetic name op lhs rhs) : Lowering NodeId) s = .ok id t) :
    left = right ∧ Created (⟨name, .arithmetic op, [lhs, rhs], ·⟩) left id s t := by
  obtain ⟨draft, hd, rfl, rfl⟩ := create_eq_ok.1 h
  obtain ⟨rfl, ref, href, rfl⟩ := (Draft.arithmetic_eq_ok hg hl hr).1 hd
  exact ⟨rfl, created_add hg href⟩

theorem created_matMul {lhs rhs : NodeId} (hg : s.graph.Indexed)
    (h : (liftM (Build.matMul name lhs rhs) : Lowering NodeId) s = .ok id t) :
    ∃ kind rows inner columns, s.graph.typeOf lhs = .ok ⟨kind, [rows, inner]⟩ ∧
      s.graph.typeOf rhs = .ok ⟨kind, [inner, columns]⟩ ∧
      Created (⟨name, .matMul, [lhs, rhs], ·⟩) ⟨kind, [rows, columns]⟩ id s t := by
  obtain ⟨draft, hd, rfl, rfl⟩ := create_eq_ok.1 h
  obtain ⟨kind, rows, inner, columns, hl, hr, rfl⟩ := Draft.matMul_eq_ok.1 hd
  exact ⟨kind, rows, inner, columns, hl, hr, created_add hg rfl⟩

/-- The convolution has the type that was interned for it, and its operands fit
(`ConvolutionTypes.Fits`). -/
theorem created_convolution {images filter bias : NodeId} {window : Window} {group : Nat}
    {kind : ElementKind} {image : ImageDims} {rows columns depth : Nat} {filterType : ValueType}
    (hg : s.graph.Indexed) (himages : s.graph.typeOf images = .ok ⟨kind, image.toList⟩)
    (hfilter : s.graph.typeOf filter = .ok filterType)
    (h : (liftM (Build.convolution name images filter bias
        (s.graph.intern ⟨kind, [image.count, rows, columns, depth]⟩).1 window group) :
          Lowering NodeId)
      { s with graph := (s.graph.intern ⟨kind, [image.count, rows, columns, depth]⟩).2 } =
        .ok id t) :
    Created (⟨name, .convolution window group, [images, filter, bias], ·⟩)
      ⟨kind, [image.count, rows, columns, depth]⟩ id s t ∧ group ∣ image.channels ∧
      ∃ channels, filterType.dims = [depth, window.kernel, window.kernel, channels] ∧
        channels * group % Size.bound = image.channels := by
  have hext := s.graph.extends_intern ⟨kind, [image.count, rows, columns, depth]⟩
  obtain ⟨draft, types, result, hd, hc, htypes, hresult, hrule⟩ :=
    created_of_ok (hg.intern _) (fun _ => Draft.sound_convolution) h
  obtain rfl := Draft.eq_of_convolution hd
  obtain rfl := Except.ok.inj (hresult.symm.trans (Graph.resolve_intern hg _))
  have hnodes := Graph.nodes_intern s.graph ⟨kind, [image.count, rows, columns, depth]⟩
  cases hrule with
  | convolution _ _ input filterType' biasType _ image' depth' channels rows' columns' hgroup hdvd
      hinput hdims hchannels hbias hout hwindow =>
    obtain ⟨himages', hrest⟩ := List.forall₂_cons.1 htypes
    obtain ⟨hfilter', -⟩ := List.forall₂_cons.1 hrest
    obtain rfl := Graph.eq_of_typeOf himages' (hext.typeOf_eq himages)
    obtain rfl := Graph.eq_of_typeOf hfilter' (hext.typeOf_eq hfilter)
    obtain rfl : image = image' :=
      Option.some.inj ((ImageDims.ofList?_eq_some.2 rfl).symm.trans
        (ImageDims.ofList?_eq_some.2 hinput))
    simp only [List.cons.injEq, and_true] at hout
    obtain ⟨-, -, -, rfl⟩ := hout
    obtain ⟨ref, hadded⟩ := hc.added
    refine ⟨⟨?_, ⟨ref, ?_⟩, hc.typeOf_node⟩, hdvd, channels, hdims, hchannels⟩
    · rw [hc.id_eq, hnodes]
    · refine ⟨hadded.table, hadded.indexed, hext.trans hadded.ext, ?_⟩
      rw [hadded.nodes_eq, hnodes]

end TensorGraph.Lowering
