import TensorGraph.Proofs.Graph.Grouping
import TensorGraph.Proofs.Load.Typing
import TensorGraph.Proofs.Lowering.Convolution
import TensorGraph.Proofs.Lowering.Options
import TensorGraph.Proofs.Tensor.Counting

/-! # Supported convolutions

Before a convolution is lowered its attributes are checked against the weight, the bias against the
number of filters and the window against the images; the graph checks the shapes once more. All of
these checks together accept exactly the convolutions that are described here
(`SupportedConvolution.Reads`), by what the node and the names of its inputs say. Five nodes are
added for such a convolution (`SupportedConvolution.Made`), besides a parameter for images that are
only a tensor so far. -/

namespace TensorGraph

open Onnx (NodeRecord)

/-- The tensors that names stand for are in memory: they take fewer bytes than
`Size.allocatable`. -/
def Workspace.Sized (s : Workspace) : Prop :=
  ∀ name tensor, s.table.tensor? name = some tensor →
    volume tensor.dims * tensor.kind.width < Size.allocatable

/-- The options fit images and filters with a number of channels: the groups divide the channels of
the images, the filters of all groups have these channels, where the product is taken modulo
`Size.bound`, and the window has these rows and columns of placements in the padded images, which
have sizes. -/
structure ConvOptions.Fits (options : ConvOptions) (image : ImageDims)
    (channels rows columns : Nat) : Prop where
  group_pos : 0 < options.group
  group_dvd : options.group ∣ image.channels
  channels_eq : channels * options.group % Size.bound = image.channels
  covers : options.window.Covers image.height image.width rows columns
  height : image.height + options.window.pads.top + options.window.pads.bottom < Size.bound
  width : image.width + options.window.pads.left + options.window.pads.right < Size.bound

namespace Lowering

/-- The `bias` has a float for each filter: it is the tensor of the third input, or zeros. -/
def BiasOf (node : NodeRecord) (s : Workspace) (depth : Nat) (bias : Tensor) : Prop :=
  match node.input? 2 with
  | some name => s.table.tensor? name = some bias ∧ bias.type = ⟨.float, [depth]⟩
  | none => bias = .zero .float [depth]

/-! ### The convolutions that are supported -/

/-- A convolution: the images and constants that it applies to, and its options. -/
structure SupportedConvolution where
  kind : ElementKind
  /-- The dimensions of the images, which are channel-first. -/
  image : ImageDims
  weight : Tensor
  bias : Tensor
  options : ConvOptions
  /-- The number of channels of a filter. -/
  channels : Nat
  /-- Height and width of the result. -/
  rows : Nat
  columns : Nat

namespace SupportedConvolution

variable (c : SupportedConvolution)

def inputType : ValueType where
  kind := c.kind
  dims := [c.image.count, c.image.channels, c.image.height, c.image.width]

def outputType : ValueType where
  kind := c.kind
  dims := [c.image.count, c.options.depth, c.rows, c.columns]

/-- The node describes the convolution (`ConvolutionAttributes`), and the names of its inputs stand
for what it applies to. -/
structure Reads (node : NodeRecord) (s : Workspace) : Prop where
  images : ∃ name, node.input? 0 = some name ∧ s.typeOf? name = some c.inputType
  weight : ∃ name, node.input? 1 = some name ∧ s.table.tensor? name = some c.weight
  weight_dims : c.weight.dims =
    [c.options.depth, c.channels, c.options.window.kernel, c.options.window.kernel]
  /-- A weight without elements may still have so many filters that there is no memory for a
  bias. -/
  room : 0 ∈ c.weight.dims → c.options.depth * ElementKind.float.width < Size.allocatable
  bias : BiasOf node s c.options.depth c.bias
  attributes : ConvolutionAttributes node.view c.options
  fits : c.options.Fits c.image c.channels c.rows c.columns

end SupportedConvolution

/-- The nodes that `name` adds when it is resolved to a graph value: none if it has one, and else a
parameter for its tensor. -/
inductive Adopted (name : String) (s : Workspace) : NodeId → List Node → Prop
  | known {id : NodeId} (hvalue : s.table.value? name = some id) : Adopted name s id []
  | parameter {tensor : Tensor} {ref : TypeRef} (hvalue : s.table.value? name = none)
      (htensor : s.table.tensor? name = some tensor) :
      Adopted name s ⟨s.graph.nodes.length⟩ [⟨name, .parameter tensor, [], ref⟩]

/-- The handle of a node that is added at `place` behind the nodes `before`. -/
def addedAfter (before : List Node) (s : Workspace) (place : Nat) : NodeId :=
  ⟨s.graph.nodes.length + before.length + place⟩

namespace SupportedConvolution

/-- What is added for a convolution: the nodes `before` for its images, if there are any, and then
exactly five nodes. The output stands for the last one of them. -/
structure Made (c : SupportedConvolution) (node : NodeRecord) (out : String) (images : NodeId)
    (before : List Node) (filters : Tensor) (s t : Workspace) : Prop where
  adopted : ∃ name, node.input? 0 = some name ∧ Adopted name s images before
  transposed : c.weight.transpose toChannelLast = .ok filters
  nodes : ∃ r₀ r₁ r₂ r₃ r₄, t.graph.nodes = s.graph.nodes ++ (before ++ [
    ⟨node.part "filter", .parameter filters, [], r₀⟩,
    ⟨node.part "bias", .parameter c.bias, [], r₁⟩,
    ⟨node.part "input_nhwc", .transpose toChannelLast, [images], r₂⟩,
    ⟨node.title, .convolution c.options.window c.options.group,
      [addedAfter before s 2, addedAfter before s 0, addedAfter before s 1], r₃⟩,
    ⟨node.part "output_nchw", .transpose toChannelFirst, [addedAfter before s 3], r₄⟩])
  value : t.table.value? out = some (addedAfter before s 4)
  type : t.graph.typeOf (addedAfter before s 4) = .ok c.outputType

end SupportedConvolution

variable {s t : Workspace} {node : NodeRecord}

theorem eq_of_channelFirst {a b : ImageDims} (h : [a.count, a.channels, a.height, a.width] =
    [b.count, b.channels, b.height, b.width]) : a = b := by
  obtain ⟨⟩ := a
  obtain ⟨⟩ := b
  cases h
  rfl

theorem BiasOf.unique {depth : Nat} {bias bias' : Tensor} (h : BiasOf node s depth bias)
    (h' : BiasOf node s depth bias') : bias = bias' := by
  unfold BiasOf at h h'
  split at h
  · next hinput =>
    rw [hinput] at h'
    exact Option.some.inj (h.1.symm.trans h'.1)
  · next hinput =>
    rw [hinput] at h'
    exact h.trans h'.symm

/-- A node describes one convolution at most, by `Reads`. -/
theorem SupportedConvolution.Reads.unique {c d : SupportedConvolution} (hc : c.Reads node s)
    (hd : d.Reads node s) : c = d := by
  obtain ⟨kind, image, weight, bias, options, channels, rows, columns⟩ := c
  obtain ⟨kind', image', weight', bias', options', channels', rows', columns'⟩ := d
  obtain ⟨name, hname, htype⟩ := hc.images
  obtain ⟨_, hname', htype'⟩ := hd.images
  cases hname.symm.trans hname'
  obtain ⟨rfl, hdims⟩ := ValueType.mk.inj (Option.some.inj (htype.symm.trans htype'))
  obtain rfl := eq_of_channelFirst hdims
  obtain ⟨name, hname, hweight⟩ := hc.weight
  obtain ⟨_, hname', hweight'⟩ := hd.weight
  cases hname.symm.trans hname'
  obtain rfl : weight = weight' := Option.some.inj (hweight.symm.trans hweight')
  have hdims := hc.weight_dims.symm.trans hd.weight_dims
  simp only [List.cons.injEq, and_true] at hdims
  obtain ⟨hdepth, rfl, hkernel, -⟩ := hdims
  -- with the same filters both options are what the attributes are read into
  have hread : ConvOptions.read node.view [options.depth, options.window.kernel,
      options.window.kernel, channels] = .ok options :=
    ConvOptions.read_eq_ok.2 ⟨hc.attributes, rfl, fun _ => ⟨rfl, rfl⟩⟩
  have hread' : ConvOptions.read node.view [options.depth, options.window.kernel,
      options.window.kernel, channels] = .ok options' :=
    ConvOptions.read_eq_ok.2 ⟨hd.attributes, hdepth.symm, fun _ => ⟨rfl, hkernel⟩⟩
  obtain rfl := Except.ok.inj (hread.symm.trans hread')
  obtain rfl := hc.bias.unique hd.bias
  obtain rfl : rows = rows' := hc.fits.covers.rows.trans hd.fits.covers.rows.symm
  obtain rfl : columns = columns' := hc.fits.covers.columns.trans hd.fits.covers.columns.symm
  rfl

/-! ### The constants -/

/-- A weight of rank 4 can be rearranged by `toChannelLast`, and its filters have its dimensions in
their own order. -/
theorem exists_transpose {weight : Tensor} {depth channels height width : Nat}
    (h : weight.dims = [depth, channels, height, width]) :
    ∃ filters, weight.transpose toChannelLast = .ok filters ∧
      filters.dims = [depth, height, width, channels] := by
  have hperm : isPermutation toChannelLast weight.dims.length = true := by
    rw [h]
    rfl
  refine ⟨_, by rw [Tensor.transpose, dif_pos hperm], ?_⟩
  simp only [h]
  rfl

theorem biasTensor_eq_ok_iff {depth : Nat} {bias : Tensor} : biasTensor node depth s = .ok bias t ↔
    depth * ElementKind.float.width < Size.allocatable ∧ BiasOf node s depth bias ∧ t = s := by
  simp only [biasTensor_eq_ok, Tensor.zeros_singleton_eq_ok, BiasOf]
  cases node.input? 2 with
  | none =>
    constructor
    · rintro ⟨⟨_, ⟨hroom, rfl⟩, hbias⟩, rfl⟩
      exact ⟨hroom, hbias, rfl⟩
    · rintro ⟨hroom, hbias, rfl⟩
      exact ⟨⟨_, ⟨hroom, rfl⟩, hbias⟩, rfl⟩
  | some name =>
    have hfit : (Tensor.zero .float [depth]).copyFrom bias = .ok bias ↔
        bias.type = ⟨.float, [depth]⟩ := by
      simp only [Tensor.copyFrom, Tensor.fitInto_eq_ok, Tensor.type, ValueType.mk.injEq, and_true]
      rfl
    constructor
    · rintro ⟨⟨_, ⟨hroom, rfl⟩, hname, hcopy⟩, rfl⟩
      exact ⟨hroom, ⟨hname, hfit.1 hcopy⟩, rfl⟩
    · rintro ⟨hroom, ⟨hname, htype⟩, rfl⟩
      exact ⟨⟨_, ⟨hroom, rfl⟩, hname, hfit.2 htype⟩, rfl⟩

/-- A weight in memory (`Size.allocatable`) that has elements has fewer filters than there is memory
for. -/
theorem room_of_sized {weight : Tensor} {depth : Nat} {rest : List Nat}
    (hsized : volume weight.dims * weight.kind.width < Size.allocatable)
    (hdims : weight.dims = depth :: rest)
    (hempty : 0 ∈ weight.dims → depth * ElementKind.float.width < Size.allocatable) :
    depth * ElementKind.float.width < Size.allocatable := by
  by_cases hzero : 0 ∈ weight.dims
  · exact hempty hzero
  · rw [hdims] at hzero hsized
    have hrest : 0 < volume rest := volume_pos fun h => hzero (List.mem_cons_of_mem _ h)
    have hwidth : ElementKind.float.width ≤ weight.kind.width := by
      cases weight.kind <;> decide
    calc depth * ElementKind.float.width
      _ ≤ volume (depth :: rest) * weight.kind.width :=
        Nat.mul_le_mul (Nat.le_mul_of_pos_right depth hrest) hwidth
      _ < Size.allocatable := hsized

theorem BiasOf.dims {depth : Nat} {bias : Tensor} (h : BiasOf node s depth bias) :
    bias.dims = [depth] := by
  unfold BiasOf at h
  split at h
  · exact congrArg ValueType.dims h.2
  · rw [h]
    rfl

/-! ### The checks of the graph -/

/-- The graph accepts a convolution of channel-last images, whose type is interned before, exactly
when the options fit (`ConvOptions.Fits`). -/
theorem exists_build_convolution_iff {name : String} {images filter bias : NodeId}
    {kind : ElementKind} {image : ImageDims} {filterType biasType : ValueType}
    {options : ConvOptions} {rows columns : Nat} (hg : s.graph.Indexed)
    (himages : s.graph.typeOf images = .ok ⟨kind, image.toList⟩)
    (hfilter : s.graph.typeOf filter = .ok filterType)
    (hbias : s.graph.typeOf bias = .ok biasType) :
    let type : ValueType := ⟨kind, [image.count, rows, columns, options.depth]⟩
    (∃ id t, (liftM (Build.convolution name images filter bias (s.graph.intern type).1
        options.window options.group) : Lowering NodeId)
          { s with graph := (s.graph.intern type).2 } = .ok id t) ↔
      biasType.dims = [options.depth] ∧ ∃ channels,
        filterType.dims = [options.depth, options.window.kernel, options.window.kernel, channels] ∧
          options.Fits image channels rows columns := by
  intro type
  have hext := s.graph.extends_intern type
  have htypes : ConvolutionTypes.Of ⟨⟨kind, image.toList⟩, filterType, biasType, type⟩
      (s.graph.intern type).2 ⟨name, .convolution options.window options.group,
        [images, filter, bias], (s.graph.intern type).1⟩ := {
    operands := .cons (hext.typeOf_eq himages)
      (.cons (hext.typeOf_eq hfilter) (.cons (hext.typeOf_eq hbias) .nil))
    result := Graph.resolve_intern hg type }
  constructor
  · rintro ⟨id, t, h⟩
    obtain ⟨draft, hd, -⟩ := create_eq_ok.1 h
    obtain ⟨_, image', depth, htypes', hfits, hheight, hwidth⟩ :=
      Draft.exists_convolution_iff.1 ⟨draft, hd⟩
    obtain rfl := htypes.unique htypes'
    obtain rfl : image = image' := Option.some.inj ((ImageDims.ofList?_eq_some.2 rfl).symm.trans
      (ImageDims.ofList?_eq_some.2 hfits.images))
    obtain ⟨channels, hchannels, hgroups⟩ := hfits.filters
    obtain ⟨_, _, hresult, hcovers⟩ := hfits.result
    cases hresult
    exact ⟨hfits.bias, channels, hchannels, hfits.pos, hfits.dvd, hgroups, hcovers, hheight,
      hwidth⟩
  · rintro ⟨hbiasDims, channels, hchannels, hfits⟩
    obtain ⟨draft, hd⟩ := Draft.exists_convolution_iff.2 ⟨_, image, options.depth, htypes,
      ⟨hfits.group_pos, hfits.group_dvd, rfl, ⟨channels, hchannels, hfits.channels_eq⟩, hbiasDims,
        rows, columns, rfl, hfits.covers⟩, hfits.height, hfits.width⟩
    exact exists_create name _ hd

/-- **The nodes of a convolution can be added** by `addConvolution` exactly when its images have
rank 4, filters and biases have the dimensions that the options ask for, and the options fit
(`ConvOptions.Fits`). -/
theorem exists_addConvolution_iff {images : NodeId} {type : ValueType} {filters biases : Tensor}
    {options : ConvOptions} (hg : s.graph.Indexed) (himages : s.graph.typeOf images = .ok type) :
    (∃ output t, addConvolution node images filters biases options s = .ok output t) ↔
      ∃ image : ImageDims, ∃ channels rows columns,
        type.dims = [image.count, image.channels, image.height, image.width] ∧
        biases.dims = [options.depth] ∧
        filters.dims = [options.depth, options.window.kernel, options.window.kernel, channels] ∧
        options.Fits image channels rows columns := by
  unfold addConvolution
  simp only [Step.bind_eq_ok, lift_eq_ok, imageDims_eq_ok, read_eq_ok, Graph.kind_eq_ok,
    intern_eq_ok, found_eq_ok]
  constructor
  · rintro ⟨output, t, filterId, r₁, h₁, biasId, r₂, h₂, channelLast, r₃, h₃, image, _,
      ⟨⟨_, himage⟩, rfl⟩, ⟨rows, columns⟩, _, ⟨-, rfl⟩, kind, _, ⟨⟨_, hkind⟩, rfl⟩, _, _,
      ⟨rfl, rfl⟩, result, r₅, h₅, -⟩
    have c₁ := created_parameter hg h₁
    have c₂ := created_parameter c₁.indexed h₂
    obtain ⟨_, c₃, htype, hrank⟩ := created_transpose c₂.indexed h₃
    obtain rfl := Graph.eq_of_typeOf ((c₁.ext.trans c₂.ext).typeOf_eq himages) htype
    obtain rfl := Graph.kind_eq_of_typeOf himage hkind
    have hlast := congrArg ValueType.dims (Graph.eq_of_typeOf c₃.typeOf_node himage)
    obtain ⟨hbias, channels, hfilter, hfits⟩ := (exists_build_convolution_iff c₃.indexed himage
      ((c₂.ext.trans c₃.ext).typeOf_eq c₁.typeOf_node) (c₃.ext.typeOf_eq c₂.typeOf_node)).1
        ⟨result, r₅, h₅⟩
    exact ⟨image, channels, rows, columns, dims_of_toChannelLast hrank hlast, hbias, hfilter, hfits⟩
  · rintro ⟨image, channels, rows, columns, hdims, hbias, hfilter, hfits⟩
    obtain ⟨kind, _⟩ := type
    obtain rfl := hdims
    obtain ⟨filterId, r₁, h₁⟩ := exists_create (node.part "filter")
      (fun _ => .ok (.parameter filters)) rfl
    have c₁ := created_parameter hg h₁
    obtain ⟨biasId, r₂, h₂⟩ := exists_create (node.part "bias")
      (fun _ => .ok (.parameter biases)) rfl
    have c₂ := created_parameter c₁.indexed h₂
    have himages' := (c₁.ext.trans c₂.ext).typeOf_eq himages
    obtain ⟨channelLast, r₃, h₃⟩ := exists_create (node.part "input_nhwc")
      (Draft.transpose · images toChannelLast) (Draft.transpose_eq_ok.2 ⟨_, himages', rfl, rfl⟩)
    obtain ⟨_, c₃, htype, -⟩ := created_transpose c₂.indexed h₃
    obtain rfl := Graph.eq_of_typeOf himages' htype
    have hlast : r₃.graph.typeOf channelLast = .ok ⟨kind, image.toList⟩ := c₃.typeOf_node
    have hfilterType := (c₂.ext.trans c₃.ext).typeOf_eq c₁.typeOf_node
    obtain ⟨result, r₅, h₅⟩ := (exists_build_convolution_iff c₃.indexed hlast hfilterType
      (c₃.ext.typeOf_eq c₂.typeOf_node)).2 ⟨hbias, channels, hfilter, hfits⟩
    obtain ⟨c₅, -⟩ := created_convolution c₃.indexed hlast hfilterType h₅
    obtain ⟨output, t, h₆⟩ := exists_create (node.part "output_nchw")
      (Draft.transpose · result toChannelFirst)
      (Draft.transpose_eq_ok.2 ⟨_, c₅.typeOf_node, rfl, rfl⟩)
    have hsize : options.window.outputSize? image.height image.width = some (rows, columns) :=
      Window.outputSize?_eq_some.2 ⟨hfits.covers, hfits.height, hfits.width⟩
    exact ⟨output, t, filterId, r₁, h₁, biasId, r₂, h₂, channelLast, r₃, h₃, image, r₃,
      ⟨⟨kind, hlast⟩, rfl⟩, (rows, columns), r₃, ⟨hsize, rfl⟩, kind, r₃, ⟨⟨_, hlast⟩, rfl⟩, _, _,
      ⟨rfl, rfl⟩, result, r₅, h₅, h₆⟩

/-! ### The lowering of a node -/

/-- A supported convolution (`Reads`) can be lowered. -/
theorem exists_convolution_of_reads (hs : s.Sound) (hsizes : s.Sized) {c : SupportedConvolution}
    (hc : c.Reads node s) {out : String} (hout : node.output = .ok out) :
    ∃ t, convolution node s = .ok () t := by
  obtain ⟨name, hname, htype⟩ := hc.images
  obtain ⟨images, u, hvalue, -, himages, hsame⟩ := value_of_typeOf? hs htype
  obtain ⟨filters, hfilters, hfilterDims⟩ := exists_transpose hc.weight_dims
  have hoptions : ConvOptions.read node.view filters.dims = .ok c.options := by
    rw [hfilterDims]
    exact ConvOptions.read_eq_ok.2 ⟨hc.attributes, rfl, fun _ => ⟨rfl, rfl⟩⟩
  have hroom : c.options.depth * ElementKind.float.width < Size.allocatable := by
    obtain ⟨other, -, hweight⟩ := hc.weight
    exact room_of_sized (hsizes other c.weight hweight) hc.weight_dims hc.room
  obtain ⟨output, v, hadd⟩ := (exists_addConvolution_iff hsame.right.indexed himages).2
    ⟨c.image, c.channels, c.rows, c.columns, rfl, hc.bias.dims, hfilterDims, hc.fits⟩
  exact ⟨_, convolution_eq_ok.2 ⟨images, u, c.weight, filters, c.options, c.bias, output, v, out,
    inputValue_eq_ok.2 ⟨name, hname, hvalue⟩, hc.weight, hfilters, hoptions,
    biasTensor_eq_ok_iff.2 ⟨hroom, hc.bias, rfl⟩, hadd, hout, rfl⟩⟩

theorem adopted_of_ok {name : String} {id : NodeId} (h : value name s = .ok id t) :
    ∃ before, Adopted name s id before ∧ t.graph.nodes = s.graph.nodes ++ before := by
  rcases value_eq_ok.1 h with ⟨hvalue, rfl⟩ | ⟨hvalue, rfl, tensor, htensor, rfl⟩
  · exact ⟨[], .known hvalue, (List.append_nil _).symm⟩
  · exact ⟨_, .parameter hvalue htensor, Graph.nodes_add _ _ _⟩

/-- A convolution that is lowered is a supported one (`Reads`), and its nodes are added (`Made`). -/
theorem made_of_convolution (hs : s.Sound) (h : convolution node s = .ok () t) :
    ∃ c : SupportedConvolution, ∃ out images before filters, c.Reads node s ∧
      node.output = .ok out ∧ c.Made node out images before filters s t := by
  obtain ⟨images, u, weight, filters, options, bias, output, v, out, himages, hweight, hfilters,
    hoptions, hbiases, hadd, hout, rfl⟩ := convolution_eq_ok.1 h
  obtain ⟨hroom, hbias, -⟩ := biasTensor_eq_ok_iff.1 hbiases
  obtain ⟨name, hname, hvalue⟩ := inputValue_eq_ok.1 himages
  obtain ⟨type, htype, -, hid, hsame⟩ := typed_of_value hs hvalue
  obtain ⟨image, channels, rows, columns, hdims, -, hfilterDims, hfits⟩ :=
    (exists_addConvolution_iff hsame.right.indexed hid).1 ⟨output, v, hadd⟩
  let c : SupportedConvolution :=
    ⟨type.kind, image, weight, bias, options, channels, rows, columns⟩
  have htypes : type = c.inputType := by
    show type = ⟨type.kind, _⟩
    rw [← hdims]
  have hweightDims : weight.dims =
      [options.depth, channels, options.window.kernel, options.window.kernel] := by
    obtain ⟨hpermuted, hrank⟩ := dims_of_transpose hfilters
    let image : ImageDims :=
      ⟨options.depth, options.window.kernel, options.window.kernel, channels⟩
    have himage : permuteDims weight.dims toChannelLast = image.toList :=
      hpermuted.symm.trans hfilterDims
    exact dims_of_toChannelLast hrank himage
  rw [hfilterDims] at hoptions
  have hreads : c.Reads node s := {
    images := ⟨name, hname, htype.trans (congrArg some htypes)⟩
    weight := hweight
    weight_dims := hweightDims
    room := fun _ => hroom
    bias := hbias
    attributes := (ConvOptions.read_eq_ok.1 hoptions).1
    fits := hfits }
  obtain ⟨before, hbefore, hnodes⟩ := adopted_of_ok hvalue
  have hadded : ∀ place, addedAfter before s place = ⟨u.graph.nodes.length + place⟩ := by
    simp [addedAfter, hnodes]
  obtain ⟨kind', image', channels', rows', columns', rfl, hadds⟩ :=
    adds_of_ok hsame.right.indexed hadd weight (some bias)
  obtain ⟨r₀, r₁, r₂, r₃, r₄, hlist⟩ := hadds.added
  refine ⟨c, out, images, before, filters, hreads, hout, ⟨name, hname, hbefore⟩, hfilters,
    ⟨r₀, r₁, r₂, r₃, r₄, ?_⟩, ?_, ?_⟩
  · simp only [hadded, ← List.append_assoc, ← hnodes]
    exact hlist.nodes_eq
  · rw [Table.value?_bind, if_pos rfl, hadded]
    rfl
  · rw [hadded]
    -- the types of the images tell that both convolutions are of the same ones
    have hsameType := Graph.eq_of_typeOf (hlist.ext.typeOf_eq hid) hadds.typeOf_images
    rw [htypes] at hsameType
    obtain ⟨rfl, hdims'⟩ := ValueType.mk.inj hsameType
    obtain rfl := eq_of_channelFirst hdims'
    obtain rfl : rows' = rows := hadds.covers.rows.trans hfits.covers.rows.symm
    obtain rfl : columns' = columns := hadds.covers.columns.trans hfits.covers.columns.symm
    exact hadds.typeOf_output

/-- **Exactly the supported convolutions can be lowered.** In every sound workspace whose tensors
are in memory (`Sized`), a node is lowered by `convolution` exactly when it describes a supported
convolution (`SupportedConvolution.Reads`) and has an output. Then the nodes of the convolution are
added, its bias among them (`Made`), and the output stands for a value that has a row and a column
for each placement of the window. -/
theorem convolution_exact (node : NodeRecord) (hs : s.Sound) (hsizes : s.Sized) :
    ((∃ t, convolution node s = .ok () t) ↔
      (∃ c : SupportedConvolution, c.Reads node s) ∧ ∃ out, node.output = .ok out) ∧
    ∀ t, convolution node s = .ok () t →
      ∃ c : SupportedConvolution, ∃ out images before filters, c.Reads node s ∧
        node.output = .ok out ∧ c.Made node out images before filters s t := by
  refine ⟨⟨?_, ?_⟩, fun t => made_of_convolution hs⟩
  · rintro ⟨t, h⟩
    obtain ⟨c, out, _, _, _, hreads, hout, -⟩ := made_of_convolution hs h
    exact ⟨⟨c, hreads⟩, out, hout⟩
  · rintro ⟨⟨c, hreads⟩, out, hout⟩
    exact exists_convolution_of_reads hs hsizes hreads hout

/-- The weight and the bias of a convolution with two filters. -/
def stridedConstants : List (String × Tensor) :=
  [("w", .zero .float [2, 1, 2, 2]), ("b", .zero .float [2])]

/-- A graph of its images. -/
def stridedImages : Graph :=
  (Graph.Operation.create "x" (.parameter (.zero .float [1, 1, 2, 4]))).run (.empty "g")

/-- A workspace in which `stridedConstants` are known, and the images are a graph value. -/
def stridedStart : Workspace where
  graph := stridedImages
  table := (Table.lendAll {} stridedConstants).bind "x" ⟨0⟩

/-- The images are padded above, and the window takes every second place. -/
def stridedNode : NodeRecord where
  inputs := ["x", "w", "b"]
  outputs := ["y"]
  opType := "Conv"
  attributes := [
    { name := "strides", type := 7, ints := [2, 2] },
    { name := "pads", type := 7, ints := [1, 0, 0, 0] }]

def stridedConvolution : SupportedConvolution where
  kind := .float
  image := ⟨1, 2, 4, 1⟩
  weight := .zero .float [2, 1, 2, 2]
  bias := .zero .float [2]
  options := ⟨2, ⟨2, 2, ⟨1, 0, 0, 0⟩⟩, 1⟩
  channels := 1
  rows := 1
  columns := 2

theorem sound_stridedStart : stridedStart.Sound := by
  have hg : stridedImages.Reachable := .operate (.empty "g") _
  refine ⟨hg.indexed, fun {name id} h => ?_⟩
  rw [stridedStart, Table.value?_bind] at h
  split at h
  · cases h
    exact ⟨_, rfl⟩
  · cases h

theorem sized_stridedStart : stridedStart.Sized := by
  intro name tensor h
  have hall : ∀ entry ∈ stridedConstants,
      volume entry.2.dims * entry.2.kind.width < Size.allocatable := by decide
  have hlent : (Table.lendAll {} stridedConstants).tensor? name = some tensor := h
  rcases Table.mem_of_lendAll hlent with hnone | hmem
  · cases hnone
  · exact hall _ hmem

theorem stridedConvolution_reads : stridedConvolution.Reads stridedNode stridedStart where
  images := ⟨"x", by decide +kernel, by decide +kernel⟩
  weight := ⟨"w", by decide +kernel, by decide +kernel⟩
  weight_dims := rfl
  room := by decide
  bias := by
    have hinput : stridedNode.input? 2 = some "b" := by decide +kernel
    simp only [BiasOf, hinput]
    decide +kernel
  attributes := by
    have hread : ConvOptions.read stridedNode.view [2, 2, 2, 1] =
        .ok stridedConvolution.options := by decide +kernel
    exact (ConvOptions.read_eq_ok.1 hread).1
  fits := {
    group_pos := by decide
    group_dvd := by decide
    channels_eq := by decide
    covers := ⟨by decide, by decide, by decide, by decide, rfl, rfl⟩
    height := by decide
    width := by decide }

/-- The convolution `stridedNode` is lowered, and each filter gives it a row of two elements. -/
theorem convolution_exact_strided : ∃ t, convolution stridedNode stridedStart = .ok () t ∧
    t.graph.nodes.length = 6 ∧ t.table.value? "y" = some ⟨5⟩ ∧
      t.graph.typeOf ⟨5⟩ = .ok ⟨.float, [1, 2, 1, 2]⟩ := by
  obtain ⟨hiff, hmade⟩ := convolution_exact stridedNode sound_stridedStart sized_stridedStart
  obtain ⟨t, h⟩ := hiff.2 ⟨⟨_, stridedConvolution_reads⟩, "y", rfl⟩
  obtain ⟨c, out, images, before, filters, hreads, hout, hc⟩ := hmade t h
  obtain rfl := hreads.unique stridedConvolution_reads
  cases hout
  obtain ⟨name, hname, hbefore⟩ := hc.adopted
  cases (show stridedNode.input? 0 = some "x" by decide +kernel).symm.trans hname
  cases hbefore with
  | known =>
    obtain ⟨_, _, _, _, _, hnodes⟩ := hc.nodes
    exact ⟨t, h, by rw [hnodes]; rfl, hc.value, hc.type⟩
  | parameter hvalue => cases hvalue

end Lowering
end TensorGraph
