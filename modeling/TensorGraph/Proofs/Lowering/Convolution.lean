import TensorGraph.Proofs.Lowering.Created
import TensorGraph.Proofs.Lowering.Constants

/-! # Lowered convolutions

A convolution that is lowered adds five nodes: its filters and its bias as parameters, the
channel-last images, the convolution of these, and its result laid out channel-first again. The
shapes of all of them are told by the shape of the images and by the options. -/

namespace TensorGraph.Lowering

open Onnx (NodeRecord)
open Step (MovesBy)

/-- What a lowered convolution is made of. -/
structure Convolution where
  /-- The workspace in which the images have a graph value. -/
  start : Workspace
  images : NodeId
  weight : Tensor
  bias : Option Tensor
  options : ConvOptions
  kind : ElementKind
  /-- The dimensions of the images; their value has them in the order count, channels, height,
  width. -/
  image : ImageDims
  /-- The number of channels of each filter. -/
  channels : Nat
  /-- Height and width of the result. -/
  rows : Nat
  columns : Nat

namespace Convolution

variable (c : Convolution) (node : NodeRecord) (s t : Workspace)

/-- The handle of the node that is added at `place`, counted from the first one. -/
def added (place : Nat) : NodeId := ⟨c.start.graph.nodes.length + place⟩

@[simp] theorem index_added_lt {place bound : Nat} :
    (c.added place).index < c.start.graph.nodes.length + bound ↔ place < bound :=
  Nat.add_lt_add_iff_left

/-- The result, laid out channel-first. -/
def output : NodeId := c.added 4

/-- The dimensions of the filters in the layout of the graph, `toChannelLast`. -/
def filterDims : ImageDims :=
  ⟨c.options.depth, c.options.window.kernel, c.options.window.kernel, c.channels⟩

/-- The operands and options are those that the node names, and its first output stands for the
result, whose shape they imply. The filters of all groups have the channels of the images, modulo
`Size.bound`. -/
structure Reads : Prop where
  images : inputValue node 0 s = .ok c.images c.start
  weight : ∃ name, node.input? 1 = some name ∧ s.table.tensor? name = some c.weight
  bias : match node.input? 2 with
    | some name => ∃ tensor, s.table.tensor? name = some tensor ∧ c.bias = some tensor
    | none => c.bias = none
  options : ConvOptions.read node.view (permuteDims c.weight.dims toChannelLast) = .ok c.options
  group_dvd : c.options.group ∣ c.image.channels
  weightDims : c.weight.dims =
    [c.options.depth, c.channels, c.options.window.kernel, c.options.window.kernel]
  channels_mul : c.channels * c.options.group % Size.bound = c.image.channels
  covers : c.options.window.Covers c.image.height c.image.width c.rows c.columns
  output : ∃ name, node.output = .ok name ∧ t.table = c.start.table.bind name c.output
  typeOf_images : t.graph.typeOf c.images =
    .ok ⟨c.kind, [c.image.count, c.image.channels, c.image.height, c.image.width]⟩
  typeOf_output : t.graph.typeOf c.output =
    .ok ⟨c.kind, [c.image.count, c.options.depth, c.rows, c.columns]⟩

/-- The tensors that are frozen into the graph: `filters`, the rearranged weight, and `biases`, the
bias or zeros. -/
structure Freezes (filters biases : Tensor) : Prop where
  weight : c.weight.transpose toChannelLast = .ok filters
  bias : match c.bias with
    | some tensor => biases = tensor
    | none => Tensor.zeros .float [c.options.depth] = .ok biases
  biasType : biases.type = ⟨.float, [c.options.depth]⟩

/-- The five nodes that are added, with what their shapes are known to be. -/
structure Adds (filters biases : Tensor) : Prop where
  group_dvd : c.options.group ∣ c.image.channels
  filterDims : filters.dims = c.filterDims.toList
  channels_mul : c.channels * c.options.group % Size.bound = c.image.channels
  covers : c.options.window.Covers c.image.height c.image.width c.rows c.columns
  added : ∃ r₀ r₁ r₂ r₃ r₄, Added [
    ⟨node.part "filter", .parameter filters, [], r₀⟩,
    ⟨node.part "bias", .parameter biases, [], r₁⟩,
    ⟨node.part "input_nhwc", .transpose toChannelLast, [c.images], r₂⟩,
    ⟨node.title, .convolution c.options.window c.options.group,
      [c.added 2, c.added 0, c.added 1], r₃⟩,
    ⟨node.part "output_nchw", .transpose toChannelFirst, [c.added 3], r₄⟩] c.start t
  typeOf_images : t.graph.typeOf c.images =
    .ok ⟨c.kind, [c.image.count, c.image.channels, c.image.height, c.image.width]⟩
  typeOf_filters : t.graph.typeOf (c.added 0) = .ok filters.type
  typeOf_biases : t.graph.typeOf (c.added 1) = .ok biases.type
  typeOf_channelLast : t.graph.typeOf (c.added 2) = .ok ⟨c.kind, c.image.toList⟩
  typeOf_result : t.graph.typeOf (c.added 3) =
    .ok ⟨c.kind, [c.image.count, c.rows, c.columns, c.options.depth]⟩
  typeOf_output : t.graph.typeOf c.output =
    .ok ⟨c.kind, [c.image.count, c.options.depth, c.rows, c.columns]⟩

/-- Each filter has at least the channels of one group of the images. -/
theorem Adds.div_le_channels {c : Convolution} {node : NodeRecord} {t : Workspace}
    {filters biases : Tensor} (h : c.Adds node t filters biases) :
    c.image.channels / c.options.group ≤ c.channels := by
  refine Nat.div_le_of_le_mul ?_
  calc c.image.channels
    _ = c.channels * c.options.group % Size.bound := h.channels_mul.symm
    _ ≤ c.channels * c.options.group := Nat.mod_le _ _
    _ = c.options.group * c.channels := Nat.mul_comm _ _

end Convolution

/-! ### Shapes before and after a change of layout -/

/-- The dimensions of images whose rearrangement by `toChannelLast` has the given dimensions. -/
theorem dims_of_toChannelLast {dims : List Nat} {image : ImageDims} (hlen : dims.length = 4)
    (h : permuteDims dims toChannelLast = image.toList) :
    dims = [image.count, image.channels, image.height, image.width] := by
  match dims, hlen with
  | [count, channels, height, width], _ =>
    obtain ⟨⟩ := image
    cases h
    rfl

theorem dims_of_transpose {weight filters : Tensor} {shuffle : List Nat}
    (h : weight.transpose shuffle = .ok filters) :
    filters.dims = permuteDims weight.dims shuffle ∧ weight.dims.length = shuffle.length := by
  unfold Tensor.transpose at h
  split at h
  · next hperm =>
    cases h
    exact ⟨rfl, (isPermutation_eq_true.1 hperm).1.symm⟩
  · cases h

/-! ### The lowering -/

variable {s t : Workspace}

theorem imageDims_eq_ok {id : NodeId} {image : ImageDims} : imageDims id s = .ok image t ↔
    (∃ kind, s.graph.typeOf id = .ok ⟨kind, image.toList⟩) ∧ t = s := by
  unfold imageDims
  simp only [Step.bind_eq_ok, dims_eq_ok, lift_eq_ok, found_eq_ok, ImageDims.ofList?_eq_some,
    ← Graph.dims_eq_ok]
  constructor
  · rintro ⟨_, _, ⟨hdims, rfl⟩, rfl, rfl⟩
    exact ⟨hdims, rfl⟩
  · rintro ⟨hdims, rfl⟩
    exact ⟨_, _, ⟨hdims, rfl⟩, rfl, rfl⟩

/-- The nodes that `addConvolution` adds make up a convolution of the images
(`Convolution.Adds`). -/
theorem adds_of_ok {node : NodeRecord} {images output : NodeId} {filters biases : Tensor}
    {options : ConvOptions} (hg : s.graph.Indexed)
    (h : addConvolution node images filters biases options s = .ok output t) (weight : Tensor)
    (bias : Option Tensor) : ∃ kind image channels rows columns,
      let c : Convolution :=
        ⟨s, images, weight, bias, options, kind, image, channels, rows, columns⟩
      output = c.output ∧ c.Adds node t filters biases := by
  unfold addConvolution at h
  simp only [Step.bind_eq_ok, lift_eq_ok, imageDims_eq_ok, read_eq_ok, Graph.kind_eq_ok,
    intern_eq_ok, found_eq_ok] at h
  obtain ⟨filterId, r₁, h₁, biasId, r₂, h₂, channelLast, r₃, h₃, image, _, ⟨⟨_, himage⟩, rfl⟩,
    ⟨rows, columns⟩, _, ⟨hsize, rfl⟩, kind, _, ⟨⟨_, hkind⟩, rfl⟩, _, _, ⟨rfl, rfl⟩, result, r₅, h₅,
    h₆⟩ := h
  have c₁ := created_parameter hg h₁
  have c₂ := created_parameter c₁.indexed h₂
  obtain ⟨type, c₃, htype, hlen⟩ := created_transpose c₂.indexed h₃
  obtain rfl := Graph.kind_eq_of_typeOf c₃.typeOf_node himage
  obtain rfl := Graph.kind_eq_of_typeOf himage hkind
  have hlast := congrArg ValueType.dims (Graph.eq_of_typeOf c₃.typeOf_node himage)
  have hfilterType := (c₂.ext.trans c₃.ext).typeOf_eq c₁.typeOf_node
  obtain ⟨c₅, hdvd, channels, hfilterDims, hchannels⟩ :=
    created_convolution c₃.indexed himage hfilterType h₅
  obtain ⟨_, c₆, hout, -⟩ := created_transpose c₅.indexed h₆
  obtain rfl := Graph.eq_of_typeOf c₅.typeOf_node hout
  obtain ⟨rfl, ref₁, a₁⟩ := c₁.after (.nil hg)
  obtain ⟨rfl, ref₂, a₂⟩ := c₂.after a₁
  obtain ⟨rfl, ref₃, a₃⟩ := c₃.after a₂
  obtain ⟨rfl, ref₅, a₅⟩ := c₅.after a₃
  obtain ⟨rfl, ref₆, a₆⟩ := c₆.after a₅
  have hext := c₅.ext.trans c₆.ext
  obtain ⟨kind, dims⟩ := type
  obtain rfl := dims_of_toChannelLast hlen hlast
  refine ⟨kind, image, channels, rows, columns, rfl, hdvd, hfilterDims, hchannels,
    (Window.outputSize?_eq_some.1 hsize).1, ⟨ref₁, ref₂, ref₃, ref₅, ref₆, a₆⟩, ?_, ?_, ?_, ?_,
    c₆.ext.typeOf_eq c₅.typeOf_node, c₆.typeOf_node⟩
  · exact (c₃.ext.trans hext).typeOf_eq htype
  · exact hext.typeOf_eq hfilterType
  · exact (c₃.ext.trans hext).typeOf_eq c₂.typeOf_node
  · exact hext.typeOf_eq himage

/-- The filters are the rearranged weight (`Freezes`), so the weight has their dimensions in its own
order. -/
theorem Convolution.Freezes.weightDims {c : Convolution} {filters biases : Tensor}
    {node : NodeRecord} (h : c.Freezes filters biases) (hadds : c.Adds node t filters biases) :
    c.weight.dims =
      [c.options.depth, c.channels, c.options.window.kernel, c.options.window.kernel] := by
  obtain ⟨hdims, hlen⟩ := dims_of_transpose h.weight
  exact dims_of_toChannelLast hlen (hdims.symm.trans hadds.filterDims)

/-- The steps by which `convolution` lowers a node. Resolving the images leaves all tensors as they
are, so the constants are those of the workspace before. -/
theorem convolution_eq_ok {node : NodeRecord} : convolution node s = .ok () t ↔
    ∃ images u weight filters options biases output v out,
      inputValue node 0 s = .ok images u ∧
      (∃ name, node.input? 1 = some name ∧ s.table.tensor? name = some weight) ∧
      weight.transpose toChannelLast = .ok filters ∧
      ConvOptions.read node.view filters.dims = .ok options ∧
      biasTensor node options.depth s = .ok biases s ∧
      addConvolution node images filters biases options u = .ok output v ∧
      node.output = .ok out ∧ t = { v with table := v.table.bind out output } := by
  have hmoves : MovesBy (Move .conv node) (inputValue node 0) := movesBy_inputValue 0
  have htensors : ∀ {images u}, inputValue node 0 s = .ok images u → ∀ name,
      u.table.tensor? name = s.table.tensor? name := tensor?_of_ok (by decide) hmoves
  have hbias : ∀ {images u}, inputValue node 0 s = .ok images u → ∀ depth biases,
      biasTensor node depth u = .ok biases u ↔ biasTensor node depth s = .ok biases s := by
    intro images u himages depth biases
    simp only [biasTensor_eq_ok, htensors himages]
  unfold convolution
  simp only [Step.bind_eq_ok, lift_eq_ok, input_eq_ok, filterTensor_eq_ok, bindOutput_eq_ok]
  constructor
  · rintro ⟨images, u, himages, name, _, ⟨hname, rfl⟩, filters, _, ⟨⟨weight, hweight, hfilters⟩,
      rfl⟩, options, _, ⟨hoptions, rfl⟩, biases, r, hbiases, output, v, hadd, out, hout, rfl⟩
    obtain ⟨-, rfl⟩ := biasTensor_eq_ok.1 hbiases
    exact ⟨images, _, weight, filters, options, biases, output, v, out, himages,
      ⟨name, hname, htensors himages name ▸ hweight⟩, hfilters, hoptions,
      (hbias himages _ _).1 hbiases, hadd, hout, rfl⟩
  · rintro ⟨images, u, weight, filters, options, biases, output, v, out, himages,
      ⟨name, hname, hweight⟩, hfilters, hoptions, hbiases, hadd, hout, rfl⟩
    rw [← htensors himages] at hweight
    exact ⟨images, u, himages, name, u, ⟨hname, rfl⟩, filters, u, ⟨⟨weight, hweight, hfilters⟩,
      rfl⟩, options, u, ⟨hoptions, rfl⟩, biases, u, (hbias himages _ _).2 hbiases, output, v, hadd,
      out, hout, rfl⟩

/-- A lowered node determines a convolution (`Convolution.Reads`), and its five nodes are added. -/
theorem exists_convolution {node : NodeRecord} (hg : s.graph.Reachable)
    (h : convolution node s = .ok () t) :
    ∃ c : Convolution, ∃ u filters biases, c.Reads node s t ∧ c.Freezes filters biases ∧
      c.Adds node u filters biases ∧ t.graph = u.graph := by
  obtain ⟨images, r, weight, filters, options, biases, output, u, name, himages, hweight, hfilters,
    hoptions, hbiases, hadd, hname, rfl⟩ := convolution_eq_ok.1 h
  obtain ⟨⟨zeros, hzeros, hbias⟩, -⟩ := biasTensor_eq_ok.1 hbiases
  have hmoves : MovesBy (Move .conv node) (inputValue node 0) := movesBy_inputValue 0
  have hoperated := operated_of_movesBy hmoves s
  rw [Step.after_of_ok himages] at hoperated
  obtain ⟨kind, image, channels, rows, columns, rfl, hadds⟩ := adds_of_ok
    (hoperated.reachable hg).indexed hadd weight ((node.input? 2).map fun _ => biases)
  obtain ⟨_, _, _, _, _, hadded⟩ := hadds.added
  have hfreezes : Convolution.Freezes ⟨r, images, weight, (node.input? 2).map fun _ => biases,
      options, kind, image, channels, rows, columns⟩ filters biases := by
    refine ⟨hfilters, ?_, type_of_biasTensor hbiases⟩
    cases hinput : node.input? 2 with
    | none =>
      rw [hinput] at hbias
      exact hbias ▸ hzeros
    | some name => rfl
  refine ⟨_, u, filters, biases, ?_, hfreezes, hadds, rfl⟩
  refine ⟨himages, hweight, ?_, ?_, hadds.group_dvd, hfreezes.weightDims hadds,
    hadds.channels_mul, hadds.covers, ⟨name, hname, ?_⟩, hadds.typeOf_images, hadds.typeOf_output⟩
  · cases hinput : node.input? 2 with
    | none => rfl
    | some name =>
      rw [hinput] at hbias
      exact ⟨biases, hbias.1, rfl⟩
  · rw [← (dims_of_transpose hfilters).1]
    exact hoptions
  · rw [hadded.table]

end TensorGraph.Lowering
