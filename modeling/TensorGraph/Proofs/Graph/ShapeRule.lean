import TensorGraph.Proofs.Graph.TypeTable
import TensorGraph.Proofs.Shape.Axes
import TensorGraph.Proofs.Shape.Window
import Mathlib.Algebra.GroupWithZero.Nat

/-! # Shape rules

For each kind of node a rule relates the types of the operands to the type of the result. A draft
is sound in a graph when its operands have types there and the rule of its kind relates these to
the type of its result. Every draft that is made is sound. -/

namespace TensorGraph

/-! ### The rules -/

/-- The types of operands and result that each kind of node allows. The product of channels and
groups and the sum of the extents of a concatenation are reduced modulo `Size.bound`, which leaves
them as they are if they are sizes. A broadcast fits if the sum of its axis and the rank of the
operand is a size. -/
inductive ShapeRule : NodeKind → List ValueType → ValueType → Prop
  | parameter (tensor : Tensor) : ShapeRule (.parameter tensor) [] tensor.type
  | transpose (shuffle dims : List Nat) (input : ValueType)
      (hperm : shuffle.Perm (List.range input.rank))
      (hdims : List.Forall₂ (fun axis d => input.dims[axis]? = some d) shuffle dims) :
      ShapeRule (.transpose shuffle) [input] ⟨input.kind, dims⟩
  | convolution (window : Window) (group : Nat) (input filter bias result : ValueType)
      (image : ImageDims) (depth channels rows columns : Nat) (hgroup : 0 < group)
      (hdiv : group ∣ image.channels) (hinput : input.dims = image.toList)
      (hfilter : filter.dims = [depth, window.kernel, window.kernel, channels])
      (hchannels : channels * group % Size.bound = image.channels)
      (hbias : bias.dims = [depth]) (hresult : result.dims = [image.count, rows, columns, depth])
      (hwindow : window.Covers image.height image.width rows columns) :
      ShapeRule (.convolution window group) [input, filter, bias] result
  | pool (kind : PoolKind) (window : Window) (input : ValueType) (image : ImageDims)
      (rows columns : Nat) (hinput : input.dims = image.toList)
      (hwindow : window.Covers image.height image.width rows columns) :
      ShapeRule (.pool kind window) [input]
        ⟨input.kind, [image.count, rows, columns, image.channels]⟩
  | squeeze (axes dims : List Nat) (input : ValueType) (haxes : Squeezed axes input.dims dims) :
      ShapeRule (.squeeze axes) [input] ⟨input.kind, dims⟩
  | expandDims (axes dims : List Nat) (input : ValueType) (haxes : Squeezed axes dims input.dims) :
      ShapeRule (.expandDims axes) [input] ⟨input.kind, dims⟩
  | batchNormalization (channel channels : Nat) (epsilon momentum : Binary32) (input : ValueType)
      (hchannel : input.dims[channel]? = some channels) :
      ShapeRule (.batchNormalization channel epsilon momentum)
        [input, ⟨.float, [channels]⟩, ⟨.float, [channels]⟩, ⟨.float, [channels]⟩,
          ⟨.float, [channels]⟩] input
  | concat (axis : Nat) (inputs : List ValueType) (result : ValueType) (hne : inputs ≠ [])
      (hagree : ∀ input ∈ inputs, input.kind = result.kind ∧ input.rank = result.rank ∧
        ∀ i ≠ axis, input.dims[i]? = result.dims[i]?)
      (haxis : result.dims[axis]? =
        some ((inputs.map fun input => input.dims.getD axis 0).sum % Size.bound)) :
      ShapeRule (.concat axis) inputs result
  | matMul (kind : ElementKind) (rows inner columns : Nat) :
      ShapeRule .matMul [⟨kind, [rows, inner]⟩, ⟨kind, [inner, columns]⟩] ⟨kind, [rows, columns]⟩
  | broadcast (axis : Nat) (dims : List Nat) (input : ValueType)
      (hfits : axis + input.rank < Size.bound → axis + input.rank ≤ dims.length ∧
        ∀ i d, input.dims[i]? = some d → d = 1 ∨ dims[axis + i]? = some d) :
      ShapeRule (.broadcast axis) [input] ⟨input.kind, dims⟩
  | arithmetic (op : ArithmeticOp) (type : ValueType) : ShapeRule (.arithmetic op) [type, type] type
  | unary (op : UnaryOp) (type : ValueType) : ShapeRule (.unary op) [type] type
  | softMax (axis : Nat) (type : ValueType) (haxis : axis < type.rank) :
      ShapeRule (.softMax axis) [type] type
  | reshape (dims : List Nat) (input : ValueType) (hvolume : volume dims = volume input.dims) :
      ShapeRule .reshape [input] ⟨input.kind, dims⟩
  | save (type : ValueType) : ShapeRule .save [type] type

/-! ### Reading types -/

namespace Graph

variable {g : Graph} {id : NodeId}

theorem typeOf_eq_ok {type : ValueType} :
    g.typeOf id = .ok type ↔ ∃ node, g.node id = .ok node ∧ g.resolve node.type = .ok type := by
  rw [Graph.typeOf, bind_eq_ok]

/-- A node has at most one type, `g.typeOf id`. -/
theorem eq_of_typeOf {type type' : ValueType} (h : g.typeOf id = .ok type)
    (h' : g.typeOf id = .ok type') : type = type' :=
  Except.ok.inj (h.symm.trans h')

theorem kind_eq_of_typeOf {kind kind' : ElementKind} {dims dims' : List Nat}
    (h : g.typeOf id = .ok ⟨kind, dims⟩) (h' : g.typeOf id = .ok ⟨kind', dims'⟩) : kind = kind' :=
  congrArg ValueType.kind (eq_of_typeOf h h')

theorem dims_eq_ok {dims : List Nat} :
    g.dims id = .ok dims ↔ ∃ kind, g.typeOf id = .ok ⟨kind, dims⟩ := by
  simp only [Graph.dims, bind_eq_ok, pure_eq_ok]
  constructor
  · rintro ⟨type, ht, rfl⟩; exact ⟨type.kind, ht⟩
  · rintro ⟨kind, ht⟩; exact ⟨_, ht, rfl⟩

theorem kind_eq_ok {kind : ElementKind} :
    g.kind id = .ok kind ↔ ∃ dims, g.typeOf id = .ok ⟨kind, dims⟩ := by
  simp only [Graph.kind, bind_eq_ok, pure_eq_ok]
  constructor
  · rintro ⟨type, ht, rfl⟩; exact ⟨type.dims, ht⟩
  · rintro ⟨dims, ht⟩; exact ⟨_, ht, rfl⟩

theorem imageDims_eq_ok {name : String} {image : ImageDims} :
    g.imageDims name id = .ok image ↔ ∃ kind, g.typeOf id = .ok ⟨kind, image.toList⟩ := by
  simp only [Graph.imageDims, bind_eq_ok, found_eq_ok, ImageDims.ofList?_eq_some]
  constructor
  · rintro ⟨dims, hd, rfl⟩; exact dims_eq_ok.1 hd
  · intro h; exact ⟨_, dims_eq_ok.2 h, rfl⟩

theorem matrixDims_eq_ok {name : String} {rows columns : Nat} :
    g.matrixDims name id = .ok (rows, columns) ↔
      ∃ kind, g.typeOf id = .ok ⟨kind, [rows, columns]⟩ := by
  simp only [Graph.matrixDims, bind_eq_ok, ← dims_eq_ok]
  constructor
  · rintro ⟨dims, hd, h⟩
    split at h
    · cases h; exact hd
    · cases h
  · intro h; exact ⟨_, h, rfl⟩

theorem vectorLength_eq_ok {name : String} {length : Nat} :
    g.vectorLength name id = .ok length ↔ ∃ kind, g.typeOf id = .ok ⟨kind, [length]⟩ := by
  simp only [Graph.vectorLength, bind_eq_ok, ← dims_eq_ok]
  constructor
  · rintro ⟨dims, hd, h⟩
    split at h
    · cases h; exact hd
    · cases h
  · intro h; exact ⟨_, h, rfl⟩

/-- Every node has a type. -/
def Typed (g : Graph) : Prop := ∀ node ∈ g.nodes, ∃ type, g.resolve node.type = .ok type

/-- A node that is found by `g.node` has the type that its handle stands for. -/
theorem Typed.typeOf (hg : g.Typed) {node : Node} (h : g.node id = .ok node) :
    ∃ type, g.resolve node.type = .ok type ∧ g.typeOf id = .ok type := by
  obtain ⟨type, ht⟩ := hg node (List.mem_of_getElem? (found_eq_ok.1 h))
  exact ⟨type, ht, typeOf_eq_ok.2 ⟨node, h, ht⟩⟩

end Graph

/-! ### Sound drafts -/

/-- Adding up sizes with `Size.add` reduces their sum modulo `Size.bound`. -/
theorem Size.foldl_add (sizes : List Nat) (a : Nat) :
    sizes.foldl Size.add (a % bound) = (a + sizes.sum) % bound := by
  induction sizes generalizing a with
  | nil => rw [List.foldl_nil, List.sum_nil, Nat.add_zero]
  | cons d sizes ih =>
    rw [List.foldl_cons, Size.add, Nat.mod_add_mod, ih, List.sum_cons, Nat.add_assoc]

/-- The operands have types in the graph, and the `ShapeRule` of the kind relates them to the type
of the result. -/
def Draft.Sound (g : Graph) (draft : Draft) : Prop :=
  ∃ types result, List.Forall₂ (fun id type => g.typeOf id = .ok type) draft.operands types ∧
    g.resultType draft.result = .ok result ∧ ShapeRule draft.kind types result

namespace Draft

variable {g : Graph} {name : String} {draft : Draft}

theorem sound_parameter (tensor : Tensor) : (parameter tensor).Sound g :=
  ⟨[], tensor.type, .nil, rfl, .parameter tensor⟩

theorem sound_transpose {input : NodeId} {shuffle : List Nat}
    (h : transpose g input shuffle = .ok draft) : draft.Sound g := by
  simp only [transpose, bind_eq_ok, check_eq_ok, mapM_eq_ok, dimAt, found_eq_ok, pure_eq_ok] at h
  obtain ⟨type, ht, _, hperm, dims, hdims, rfl⟩ := h
  exact ⟨[type], _, .cons ht .nil, rfl,
    .transpose shuffle dims type (perm_range_of_isPermutation hperm) hdims⟩

/-- The node of an accepted transposition. -/
theorem eq_of_transpose {input : NodeId} {shuffle : List Nat}
    (h : transpose g input shuffle = .ok draft) :
    ∃ type, draft = ⟨.transpose shuffle, [input], .ofType type⟩ := by
  simp only [transpose, bind_eq_ok, pure_eq_ok] at h
  obtain ⟨type, -, _, -, dims, -, rfl⟩ := h
  exact ⟨_, rfl⟩

/-- The node of an accepted convolution. -/
theorem eq_of_convolution {input filter bias : NodeId} {out : TypeRef} {window : Window}
    {group : Nat} (h : convolution g name input filter bias out window group = .ok draft) :
    draft = ⟨.convolution window group, [input, filter, bias], .ofRef out⟩ := by
  simp only [convolution, bind_eq_ok, found_eq_ok, pure_eq_ok] at h
  obtain ⟨_, -, _, -, _, -, _, -, _, -, _, -, ⟨_, _⟩, -, _, -, _, -, rfl⟩ := h
  rfl

theorem sound_convolution {input filter bias : NodeId} {out : TypeRef} {window : Window}
    {group : Nat} (h : convolution g name input filter bias out window group = .ok draft) :
    draft.Sound g := by
  simp only [convolution, bind_eq_ok, check_eq_ok, found_eq_ok, pure_eq_ok,
    Graph.imageDims_eq_ok, Graph.vectorLength_eq_ok] at h
  obtain ⟨image, ⟨_, hi⟩, filters, ⟨_, hf⟩, length, ⟨_, hb⟩, _, ⟨hgroup, hdiv, hchannels⟩, _,
    ⟨hheight, hwidth⟩, _, rfl, ⟨rows, columns⟩, hsize, result, hr, _, hresult, rfl⟩ := h
  refine ⟨_, result, .cons hi (.cons hf (.cons hb .nil)), hr, ?_⟩
  refine .convolution window group _ _ _ result image filters.count filters.channels rows columns
    (Nat.pos_of_ne_zero hgroup) (Nat.dvd_of_mod_eq_zero hdiv) rfl ?_ hchannels rfl hresult
    (Window.outputSize?_eq_some.1 hsize).1
  simp only [ImageDims.toList, hheight, hwidth]

theorem sound_pool {kind : PoolKind} {input : NodeId} {window : Window}
    (h : pool g name kind input window = .ok draft) : draft.Sound g := by
  simp only [pool, bind_eq_ok, found_eq_ok, pure_eq_ok, Graph.imageDims_eq_ok,
    Graph.kind_eq_ok] at h
  obtain ⟨image, ⟨elements, hi⟩, _, ⟨_, hk⟩, ⟨rows, columns⟩, hsize, rfl⟩ := h
  obtain rfl := Graph.kind_eq_of_typeOf hi hk
  exact ⟨_, _, .cons hi .nil, rfl, .pool kind window ⟨elements, image.toList⟩ image rows columns rfl
    (Window.outputSize?_eq_some.1 hsize).1⟩

/-- Accepted axes are sorted (`sortAxes`) and below `rank`. -/
theorem axesBelow_eq_ok {axes sorted : List Nat} {rank : Nat} :
    axesBelow name axes rank = .ok sorted ↔
      axes.Nodup ∧ (∀ a ∈ axes, a < rank) ∧ sortAxes axes = sorted := by
  simp only [axesBelow, bind_eq_ok, check_eq_ok, pure_eq_ok]
  constructor
  · rintro ⟨_, ⟨hn, hlt⟩, hs⟩; exact ⟨hn, hlt, hs⟩
  · rintro ⟨hn, hlt, hs⟩; exact ⟨(), ⟨hn, hlt⟩, hs⟩

theorem sound_squeeze {input : NodeId} {axes : List Nat}
    (h : squeeze g name input axes = .ok draft) : draft.Sound g := by
  simp only [squeeze, bind_eq_ok, axesBelow_eq_ok, forM_eq_ok, dimAt, found_eq_ok, check_eq_ok,
    pure_eq_ok] at h
  obtain ⟨type, ht, _, ⟨hn, -, rfl⟩, _, hones, rfl⟩ := h
  refine ⟨[type], _, .cons ht .nil, rfl, .squeeze _ _ type ⟨pairwise_sortAxes hn, ?_, rfl⟩⟩
  intro a ha
  obtain ⟨size, hsize, rfl⟩ := hones a ha
  exact hsize

theorem sound_expandDims {input : NodeId} {axes : List Nat}
    (h : expandDims g name input axes = .ok draft) : draft.Sound g := by
  simp only [expandDims, bind_eq_ok, axesBelow_eq_ok, pure_eq_ok] at h
  obtain ⟨type, ht, _, ⟨hn, -, rfl⟩, dims, hdims, rfl⟩ := h
  have haxes : Squeezed (sortAxes axes) dims type.dims :=
    (Squeezed.nil type.dims).insertAxes (pairwise_sortAxes hn) hdims
  exact ⟨[type], _, .cons ht .nil, rfl, .expandDims _ dims type haxes⟩

theorem sound_batchNormalization {input : NodeId} {channel channels : Nat}
    {epsilon momentum : Binary32} {parameters : List NodeId} {type : ValueType}
    (ht : g.typeOf input = .ok type) (hc : type.dims[channel]? = some channels)
    (hp : List.Forall₂ (fun id t => g.typeOf id = .ok t) parameters
      (List.replicate 4 ⟨.float, [channels]⟩))
    (h : batchNormalization g input channel epsilon momentum parameters = .ok draft) :
    draft.Sound g := by
  simp only [batchNormalization, bind_eq_ok, pure_eq_ok] at h
  obtain ⟨node, hn, rfl⟩ := h
  obtain ⟨node', hn', hr⟩ := Graph.typeOf_eq_ok.1 ht
  obtain rfl : node = node' := Except.ok.inj (hn.symm.trans hn')
  exact ⟨_, type, .cons ht hp, hr, .batchNormalization channel channels epsilon momentum type hc⟩

/-- Shapes that become equal when the dimension at `axis` is set to 0 agree off that dimension. -/
theorem agree_of_set_eq {a b : List Nat} {axis : Nat} (h : a.set axis 0 = b.set axis 0) :
    a.length = b.length ∧ ∀ i ≠ axis, a[i]? = b[i]? := by
  refine ⟨by simpa using congrArg List.length h, fun i hi => ?_⟩
  have hi' := congrArg (fun l => l[i]?) h
  simpa [List.getElem?_set_ne (Ne.symm hi)] using hi'

theorem sound_concat {inputs : List NodeId} {axis : Nat}
    (h : concat g name inputs axis = .ok draft) : draft.Sound g := by
  simp only [concat, bind_eq_ok, found_eq_ok, check_eq_ok, mapM_eq_ok, dimAt, pure_eq_ok] at h
  obtain ⟨first, hfirst, firstType, hft, _, haxis, extents, hextents, rfl⟩ := h
  obtain ⟨types, htypes, hext⟩ := forall₂_exists hextents
  have hne : types ≠ [] := by
    rintro rfl
    cases htypes
    cases hfirst
  have hsum : extents = types.map fun type => type.dims.getD axis 0 := by
    clear htypes hne hextents
    induction hext with
    | nil => rfl
    | cons hd _ ih =>
      obtain ⟨_, -, hd⟩ := hd
      rw [List.map_cons, ← ih, List.getD_eq_getElem?_getD, hd, Option.getD_some]
  refine ⟨types, _, htypes, rfl, .concat axis types _ hne ?_ ?_⟩
  · intro type hmem
    obtain ⟨_, -, _, ⟨hkind, hset⟩, -⟩ := exists_of_forall₂ hext hmem
    obtain ⟨hlen, hoff⟩ := agree_of_set_eq hset
    refine ⟨hkind, by simpa [ValueType.rank] using hlen, fun i hi => ?_⟩
    rw [List.getElem?_set_ne (Ne.symm hi)]
    exact hoff i hi
  · have hfold : extents.foldl Size.add 0 = (0 + extents.sum) % Size.bound := Size.foldl_add _ 0
    rw [← hsum, List.getElem?_set_self haxis, hfold, Nat.zero_add]

theorem sound_matMul {lhs rhs : NodeId} (h : matMul g name lhs rhs = .ok draft) :
    draft.Sound g := by
  simp only [matMul, bind_eq_ok, check_eq_ok, pure_eq_ok, Prod.exists, Graph.matrixDims_eq_ok,
    Graph.kind_eq_ok] at h
  obtain ⟨rows, inner, ⟨kind, hl⟩, inner', columns, ⟨kind', hr⟩, elements, ⟨_, hk⟩, actual, ⟨_, ha⟩,
    _, hkinds, _, hinner, rfl⟩ := h
  obtain rfl := Graph.kind_eq_of_typeOf hl hk
  obtain rfl := Graph.kind_eq_of_typeOf hr ha
  subst hkinds hinner
  exact ⟨_, _, .cons hl (.cons hr .nil), rfl, .matMul _ rows inner columns⟩

theorem sound_broadcast {input : NodeId} {dims : List Nat} {axis : Nat}
    (h : broadcast g name input dims axis = .ok draft) : draft.Sound g := by
  simp only [broadcast, bind_eq_ok, check_eq_ok, pure_eq_ok] at h
  obtain ⟨type, ht, fitting, hfits, _, rfl, rfl⟩ := h
  refine ⟨[type], _, .cons ht .nil, rfl, .broadcast axis dims type fun hsize => ?_⟩
  rw [fits, if_pos (.inr hsize), Except.ok.injEq] at hfits
  simp only [fitsAt, Bool.and_eq_true, decide_eq_true_eq, List.all_eq_true, Bool.or_eq_true,
    beq_iff_eq] at hfits
  obtain ⟨hrank, hall⟩ := hfits
  refine ⟨hrank, fun i d hd => ?_⟩
  obtain ⟨hi, rfl⟩ := List.getElem?_eq_some_iff.1 hd
  have hbound : axis + i < dims.length := by
    omega
  have hmem : (type.dims[i], dims[axis + i]) ∈ type.dims.zip (dims.drop axis) := by
    refine List.mem_of_getElem? (i := i) ?_
    simp [List.getElem?_zip_eq_some, hi, hbound]
  rcases hall _ hmem with hone | heq
  · exact .inl hone
  · exact .inr (by rw [List.getElem?_eq_getElem hbound]; exact congrArg some heq.symm)

theorem sound_arithmetic (hg : g.Typed) {op : ArithmeticOp} {lhs rhs : NodeId}
    (h : arithmetic g name op lhs rhs = .ok draft) : draft.Sound g := by
  simp only [arithmetic, bind_eq_ok] at h
  obtain ⟨left, hl, right, hr, h⟩ := h
  split at h
  · next heq =>
    cases h
    obtain ⟨type, ht, hlhs⟩ := hg.typeOf hl
    obtain ⟨type', ht', hrhs⟩ := hg.typeOf hr
    rw [← heq, ht] at ht'
    cases ht'
    exact ⟨[type, type], type, .cons hlhs (.cons hrhs .nil), ht, .arithmetic op type⟩
  · simp only [bind_eq_ok] at h
    obtain ⟨_, _, _, _, h⟩ := h
    cases h

theorem sound_unary (hg : g.Typed) {op : UnaryOp} {input : NodeId}
    (h : unary g op input = .ok draft) : draft.Sound g := by
  simp only [unary, bind_eq_ok, pure_eq_ok] at h
  obtain ⟨node, hn, rfl⟩ := h
  obtain ⟨type, hr, ht⟩ := hg.typeOf hn
  exact ⟨[type], type, .cons ht .nil, hr, .unary op type⟩

theorem sound_softMax {input : NodeId} {axis : Nat}
    (h : softMax g name input axis = .ok draft) : draft.Sound g := by
  simp only [softMax, bind_eq_ok, check_eq_ok, pure_eq_ok] at h
  obtain ⟨node, hn, type, hr, _, haxis, rfl⟩ := h
  exact ⟨[type], type, .cons (Graph.typeOf_eq_ok.2 ⟨node, hn, hr⟩) .nil, hr,
    .softMax axis type haxis⟩

theorem sound_reshape {input : NodeId} {dims : List Nat}
    (h : reshape g name input dims = .ok draft) : draft.Sound g := by
  simp only [reshape, bind_eq_ok, check_eq_ok, pure_eq_ok, mapError_eq_ok] at h
  obtain ⟨type, ht, before, hb, after, ha, _, heq, rfl⟩ := h
  refine ⟨[type], _, .cons ht .nil, rfl, .reshape dims type ?_⟩
  rw [← eq_volume_of_countElements hb, ← eq_volume_of_countElements ha, heq]

theorem sound_save (hg : g.Typed) {input : NodeId} (h : save g input = .ok draft) :
    draft.Sound g := by
  simp only [save, bind_eq_ok, pure_eq_ok] at h
  obtain ⟨node, hn, rfl⟩ := h
  obtain ⟨type, hr, ht⟩ := hg.typeOf hn
  exact ⟨[type], type, .cons ht .nil, hr, .save type⟩

end Draft
end TensorGraph
