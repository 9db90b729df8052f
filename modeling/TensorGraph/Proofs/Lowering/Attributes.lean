import TensorGraph.Proofs.Lowering.Forms

/-! # The attributes that count

An operator reads some attributes of its node by their names, and what it reads under a name is the
last attribute of the name. So a lowering depends on the last attributes of a few names only:
attributes of other names, and attributes before others of their name, may hold anything, and where
in the list an attribute of a name comes last does not matter. -/

namespace TensorGraph

open Onnx

namespace Onnx

/-! ### The last attribute of a name -/

/-- The last attribute of the name `name` in a list, if there is one. -/
def lastNamed (name : String) (attributes : List AttributeRecord) : Option AttributeRecord :=
  (attributes.filter fun a => a.name == name).getLast?

namespace Attributes

theorem get?_eq_lastNamed (attrs : Attributes) (name : String) :
    attrs.get? name = lastNamed name attrs.records := by
  rw [get?, lastNamed, List.getLast?_eq_head?_reverse, ← List.filter_reverse, List.head?_filter]

/-! ### Single attributes -/

section Single

variable {attrs other : Attributes} {name : String} (h : other.get? name = attrs.get? name)
include h

theorem contains_congr : other.contains name = attrs.contains name := by
  rw [contains, contains, h]

theorem typed_congr (type : AttributeType) : other.typed name type = attrs.typed name type := by
  rw [typed, typed, h]

theorem int_congr : other.int name = attrs.int name := by
  rw [int, int, typed_congr h]

theorem ints_congr : other.ints name = attrs.ints name := by
  rw [ints, ints, typed_congr h]

theorem string_congr : other.string name = attrs.string name := by
  rw [string, string, typed_congr h]

theorem tensor_congr : other.tensor name = attrs.tensor name := by
  rw [tensor, tensor, typed_congr h]

theorem intOr_congr (default : Int64) : other.intOr name default = attrs.intOr name default := by
  rw [intOr, intOr, contains_congr h, int_congr h]

theorem floatOr_congr (default : Binary32) :
    other.floatOr name default = attrs.floatOr name default := by
  rw [floatOr, floatOr, contains_congr h, float, float, typed_congr h]

theorem ints?_congr : other.ints? name = attrs.ints? name := by
  rw [ints?, ints?, contains_congr h, ints_congr h]

theorem sizeOr_congr (default : Nat) : other.sizeOr name default = attrs.sizeOr name default := by
  rw [sizeOr, sizeOr, contains_congr h, int_congr h]

end Single

/-- Both views have the same last attribute (`Attributes.get?`) of each of `names`, or none. -/
def AgreeOn (names : List String) (attrs other : Attributes) : Prop :=
  ∀ name ∈ names, other.get? name = attrs.get? name

theorem AgreeOn.mono {names more : List String} {attrs other : Attributes}
    (h : AgreeOn more attrs other) (hsub : names ⊆ more) : AgreeOn names attrs other :=
  fun name hname => h name (hsub hname)

end Attributes

end Onnx

/-! ### Options -/

open Onnx.Attributes

section Options

variable {attrs other : Attributes}

theorem padsOf_congr (h : AgreeOn ["pads", "auto_pad"] attrs other) :
    padsOf other = padsOf attrs := by
  have hpads := h "pads" (by decide)
  have hauto := h "auto_pad" (by decide)
  rw [padsOf, padsOf, ints?_congr hpads, contains_congr hauto, string_congr hauto]

theorem kernelOf_congr (h : other.get? "kernel_shape" = attrs.get? "kernel_shape")
    (height width : Nat) : kernelOf other height width = kernelOf attrs height width := by
  rw [kernelOf, kernelOf, ints?_congr h]

theorem strideOf_congr (h : other.get? "strides" = attrs.get? "strides") :
    strideOf other = strideOf attrs := by
  rw [strideOf, strideOf, ints?_congr h]

theorem requiredKernel_congr (h : other.get? "kernel_shape" = attrs.get? "kernel_shape") :
    requiredKernel other = requiredKernel attrs := by
  rw [requiredKernel, requiredKernel, ints?_congr h]

/-- The names that describe a convolution. -/
def convNames : List String :=
  ["kernel_shape", "strides", "dilations", "group", "pads", "auto_pad"]

theorem readConv_congr (h : AgreeOn convNames attrs other) (filter : List Nat) :
    ConvOptions.read other filter = ConvOptions.read attrs filter := by
  unfold ConvOptions.read
  simp only [kernelOf_congr (h "kernel_shape" (by decide)),
    strideOf_congr (h "strides" (by decide)), ints?_congr (h "dilations" (by decide)),
    sizeOr_congr (h "group" (by decide)),
    padsOf_congr (h.mono (by decide))]

/-- The names that describe a pooling. -/
def poolNames : List String :=
  ["global_pooling", "kernel_shape", "strides", "pads", "auto_pad"]

theorem poolWindow_congr (h : AgreeOn poolNames attrs other) :
    poolWindow other = poolWindow attrs := by
  funext dims
  unfold poolWindow
  simp only [intOr_congr (h "global_pooling" (by decide)),
    requiredKernel_congr (h "kernel_shape" (by decide)), strideOf_congr (h "strides" (by decide)),
    padsOf_congr (h.mono (by decide))]

/-- The `names` that are looked at in older operator sets only. -/
def olderNames (opset : Int64) (names : List String) : List String :=
  if broadcastingOpset ≤ opset.toInt then [] else names

theorem agreeOn_of_older {opset : Int64} {names : List String}
    (h : AgreeOn (olderNames opset names) attrs other) (hold : ¬ broadcastingOpset ≤ opset.toInt) :
    AgreeOn names attrs other := by
  rwa [olderNames, if_neg hold] at h

theorem allowsBroadcast_congr {opset : Int64}
    (h : AgreeOn (olderNames opset ["broadcast"]) attrs other) :
    allowsBroadcast other opset = allowsBroadcast attrs opset := by
  unfold allowsBroadcast
  by_cases hnew : broadcastingOpset ≤ opset.toInt
  · simp only [if_pos hnew]
  · rw [intOr_congr (agreeOn_of_older h hnew "broadcast" (by decide))]

theorem readMode_congr {opset : Int64}
    (h : AgreeOn (olderNames opset ["broadcast", "axis"]) attrs other) :
    BroadcastMode.read other opset = BroadcastMode.read attrs opset := by
  unfold BroadcastMode.read allowsBroadcast
  by_cases hnew : broadcastingOpset ≤ opset.toInt
  · simp only [if_pos hnew, pure_bind]
  · have hflag := agreeOn_of_older h hnew "broadcast" (by decide)
    have haxis := agreeOn_of_older h hnew "axis" (by decide)
    rw [intOr_congr hflag, contains_congr haxis, int_congr haxis]

/-- The names that describe a general product. -/
def gemmNames (opset : Int64) : List String :=
  ["alpha", "beta", "transA", "transB"] ++ olderNames opset ["broadcast"]

theorem readGemm_congr {opset : Int64} (h : AgreeOn (gemmNames opset) attrs other) :
    GemmOptions.read other opset = GemmOptions.read attrs opset := by
  have hnumbers : AgreeOn ["alpha", "beta", "transA", "transB"] attrs other :=
    h.mono (List.subset_append_left _ _)
  unfold GemmOptions.read
  rw [floatOr_congr (hnumbers "alpha" (by decide)), floatOr_congr (hnumbers "beta" (by decide)),
    intOr_congr (hnumbers "transA" (by decide)), intOr_congr (hnumbers "transB" (by decide)),
    allowsBroadcast_congr (h.mono (List.subset_append_right _ _))]

theorem readBatch_congr (h : AgreeOn ["epsilon", "momentum"] attrs other) :
    BatchOptions.read other = BatchOptions.read attrs := by
  unfold BatchOptions.read
  rw [floatOr_congr (h "epsilon" (by decide)), floatOr_congr (h "momentum" (by decide))]

end Options

/-! ### Operators -/

/-- The names of the attributes that are read for an operator. -/
def Operator.attributeNames (opset : Int64) : Operator → List String
  | constant => ["value"]
  | conv => convNames
  | maxPool => poolNames
  | averagePool => poolNames
  | squeeze => ["axes"]
  | unsqueeze => ["axes"]
  | batchNormalization => ["epsilon", "momentum"]
  | concat => ["axis"]
  | gemm => gemmNames opset
  | transpose => ["perm"]
  | reshape => ["shape"]
  | flatten => ["axis"]
  | softmax => ["axis"]
  | add => olderNames opset ["broadcast", "axis"]
  | sub => olderNames opset ["broadcast", "axis"]
  | mul => olderNames opset ["broadcast", "axis"]
  | div => olderNames opset ["broadcast", "axis"]
  | globalAveragePool => []
  | dropout => []
  | identity => []
  | matMul => []
  | relu => []
  | sigmoid => []
  | tanh => []
  | sum => []

/-- Two nodes that differ in their `attributes` at most. -/
structure Onnx.NodeRecord.SameBody (node other : NodeRecord) : Prop
    extends SameHead node other where
  inputs : other.inputs = node.inputs

namespace Lowering

section SameBody

variable {node other : NodeRecord} (h : node.SameBody other)
include h

theorem part_congr (suffix : String) : other.part suffix = node.part suffix := by
  rw [NodeRecord.part, NodeRecord.part, h.title_eq]

theorem input?_congr (position : Nat) : other.input? position = node.input? position := by
  rw [NodeRecord.input?, NodeRecord.input?, h.inputs]

theorem input_congr (position : Nat) : other.input position = node.input position := by
  rw [NodeRecord.input, NodeRecord.input, input?_congr h, h.opType]

theorem inputValue_congr (position : Nat) :
    inputValue other position = inputValue node position := by
  rw [inputValue, inputValue, input_congr h]

theorem inputValues_congr : inputValues other = inputValues node := by
  rw [inputValues, inputValues, h.inputs]

theorem identity_congr : identity other = identity node := by
  simp only [identity, inputValue_congr h, bindOutput_congr h.toSameHead]

theorem unary_congr (op : UnaryOp) : unary op other = unary op node := by
  simp only [unary, inputValue_congr h, h.title_eq, bindOutput_congr h.toSameHead]

theorem softMax_congr (hread : AgreeOn ["axis"] node.view other.view) :
    softMax other = softMax node := by
  simp only [softMax, inputValue_congr h, intOr_congr (hread "axis" (by decide)), h.title_eq,
    bindOutput_congr h.toSameHead]

theorem batchNormalization_congr (hread : AgreeOn ["epsilon", "momentum"] node.view other.view) :
    batchNormalization other = batchNormalization node := by
  simp only [batchNormalization, inputValue_congr h, readBatch_congr hread, input_congr h,
    h.title_eq, bindOutput_congr h.toSameHead]

theorem storeConstant_congr (hread : AgreeOn ["value"] node.view other.view) :
    storeConstant other = storeConstant node := by
  simp only [storeConstant, h.output_eq, tensor_congr (hread "value" (by decide))]

theorem biasTensor_congr (depth : Nat) : biasTensor other depth = biasTensor node depth := by
  simp only [biasTensor, part_congr h, input?_congr h]

theorem addConvolution_congr : addConvolution other = addConvolution node := by
  funext input filters biases options
  simp only [addConvolution, part_congr h, h.title_eq]

theorem convolution_congr (hread : AgreeOn convNames node.view other.view) :
    convolution other = convolution node := by
  simp only [convolution, inputValue_congr h, input_congr h, readConv_congr hread,
    biasTensor_congr h, addConvolution_congr h, bindOutput_congr h.toSameHead]

theorem poolWith_congr (kind : PoolKind) (windowOf : List Nat → Except LoadError Window) :
    poolWith other kind windowOf = poolWith node kind windowOf := by
  simp only [poolWith, inputValue_congr h, part_congr h, h.title_eq,
    bindOutput_congr h.toSameHead]

theorem pool_congr (kind : PoolKind) (hread : AgreeOn poolNames node.view other.view) :
    pool kind other = pool kind node := by
  rw [pool, pool, poolWith_congr h, poolWindow_congr hread]

theorem binary_congr (op : ArithmeticOp) {opset : Int64}
    (hread : AgreeOn (olderNames opset ["broadcast", "axis"]) node.view other.view) :
    binary op opset other = binary op opset node := by
  simp only [binary, readMode_congr hread, inputValue_congr h, h.title_eq,
    bindOutput_congr h.toSameHead]

theorem sum_congr (opset : Int64) : sum opset other = sum opset node := by
  simp only [sum, addAll, inputValues_congr h, part_congr h, h.title_eq,
    bindOutput_congr h.toSameHead]

theorem fitAddend_congr : fitAddend other = fitAddend node := by
  funext broadcast product addend
  simp only [fitAddend, part_congr h]

theorem gemm_congr {opset : Int64} (hread : AgreeOn (gemmNames opset) node.view other.view) :
    gemm opset other = gemm opset node := by
  simp only [gemm, readGemm_congr hread, inputValue_congr h, input?_congr h, part_congr h,
    fitAddend_congr h, h.title_eq, bindOutput_congr h.toSameHead]

theorem matMul_congr : matMul other = matMul node := by
  simp only [matMul, inputValue_congr h, h.title_eq, bindOutput_congr h.toSameHead]

theorem reshape_congr (hread : AgreeOn ["shape"] node.view other.view) :
    reshape other = reshape node := by
  simp only [reshape, targetShape, inputValue_congr h, input?_congr h,
    ints?_congr (hread "shape" (by decide)), h.title_eq, bindOutput_congr h.toSameHead]

theorem flatten_congr (hread : AgreeOn ["axis"] node.view other.view) :
    flatten other = flatten node := by
  simp only [flatten, inputValue_congr h, intOr_congr (hread "axis" (by decide)), h.title_eq,
    bindOutput_congr h.toSameHead]

theorem resolvedAxes_congr (hread : AgreeOn ["axes"] node.view other.view) :
    resolvedAxes other = resolvedAxes node := by
  funext rank
  simp only [resolvedAxes, axesOf, ints?_congr (hread "axes" (by decide)), input?_congr h]

theorem squeeze_congr (hread : AgreeOn ["axes"] node.view other.view) :
    squeeze other = squeeze node := by
  simp only [squeeze, inputValue_congr h, resolvedAxes_congr h hread, h.title_eq,
    bindOutput_congr h.toSameHead]

theorem unsqueeze_congr (hread : AgreeOn ["axes"] node.view other.view) :
    unsqueeze other = unsqueeze node := by
  simp only [unsqueeze, inputValue_congr h, axesCount, ints?_congr (hread "axes" (by decide)),
    input?_congr h, resolvedAxes_congr h hread, h.title_eq, bindOutput_congr h.toSameHead]

theorem transpose_congr (hread : AgreeOn ["perm"] node.view other.view) :
    transpose other = transpose node := by
  simp only [transpose, inputValue_congr h, ints_congr (hread "perm" (by decide)), h.title_eq,
    bindOutput_congr h.toSameHead]

theorem concat_congr (hread : AgreeOn ["axis"] node.view other.view) :
    concat other = concat node := by
  simp only [concat, inputValues_congr h, int_congr (hread "axis" (by decide)), h.title_eq,
    bindOutput_congr h.toSameHead]

/-- Every operator does the same for both nodes if they agree on its `attributeNames`. -/
theorem step_congr {opset : Int64} {op : Operator}
    (hread : AgreeOn (op.attributeNames opset) node.view other.view) :
    step opset other op = step opset node op := by
  cases op with
  | constant => exact storeConstant_congr h hread
  | conv => exact convolution_congr h hread
  | maxPool => exact pool_congr h .max hread
  | averagePool => exact pool_congr h .average hread
  | globalAveragePool => exact poolWith_congr h .average globalWindow
  | squeeze => exact squeeze_congr h hread
  | unsqueeze => exact unsqueeze_congr h hread
  | dropout => exact identity_congr h
  | identity => exact identity_congr h
  | batchNormalization => exact batchNormalization_congr h hread
  | concat => exact concat_congr h hread
  | gemm => exact gemm_congr h hread
  | matMul => exact matMul_congr h
  | transpose => exact transpose_congr h hread
  | reshape => exact reshape_congr h hread
  | flatten => exact flatten_congr h hread
  | relu => exact unary_congr h .relu
  | sigmoid => exact unary_congr h .sigmoid
  | tanh => exact unary_congr h .tanh
  | softmax => exact softMax_congr h hread
  | add => exact binary_congr h .add hread
  | sub => exact binary_congr h .sub hread
  | mul => exact binary_congr h .mul hread
  | div => exact binary_congr h .div hread
  | sum => exact sum_congr h opset

end SameBody

/-- **Only the last attribute of a name counts** (`lastNamed`), and only if the operator reads the
name (`attributeNames`). Attributes may be replaced by any others with the same last attribute, or
none, of each of these names: the lowering has the same outcome, with the same graph and table or
the same failure. -/
theorem lower_eq_of_lastNamed (opset : Int64) (s : Workspace) (node : NodeRecord)
    (attributes : List AttributeRecord)
    (hlast : ∀ op, node.operator? = some op → ∀ name ∈ op.attributeNames opset,
      lastNamed name attributes = lastNamed name node.attributes) :
    lower opset { node with attributes } s = lower opset node s := by
  have h : node.SameBody { node with attributes } := ⟨⟨rfl, rfl, rfl, rfl, rfl⟩, rfl⟩
  cases hop : node.operator? with
  | none =>
    have hop' := h.operator?_eq.trans hop
    simp only [lower, hop, hop']
  | some op =>
    have hread : AgreeOn (op.attributeNames opset) node.view
        (NodeRecord.view { node with attributes }) := by
      intro name hname
      rw [get?_eq_lastNamed, get?_eq_lastNamed]
      exact hlast op hop name hname
    exact lower_congr hop (h.operator?_eq.trans hop) (congrFun (step_congr h hread) s)

/-- An image of one channel. -/
def poolingStart : Workspace where
  graph := .empty "g"
  table := Table.lendAll {} [("x", ⟨[1, 1, 4, 4], .zeros .float 16, rfl⟩)]

/-- A pooling with a window and steps. -/
def poolingByWindow : NodeRecord where
  inputs := ["x"]
  outputs := ["y"]
  opType := "MaxPool"
  attributes := [
    { name := "kernel_shape", ints := [2, 2], type := 7 },
    { name := "strides", ints := [2, 2], type := 7 }]

/-- The same window and steps in the other order, each after a malformed one of its name, with an
attribute of no known type that a pooling does not read. -/
def poolingAttributes : List AttributeRecord := [
  { name := "strides", string := [255], type := 3 },
  { name := "kernel_shape", int := -1, type := 2 },
  { name := "ceil_mode", type := 99 },
  { name := "strides", ints := [2, 2], type := 7 },
  { name := "kernel_shape", ints := [2, 2], type := 7 }]

/-- The pooling `poolingByWindow` is lowered alike with `poolingAttributes`, and successfully. -/
theorem lower_eq_of_lastNamed_pooling :
    lower 13 { poolingByWindow with attributes := poolingAttributes } poolingStart =
      lower 13 poolingByWindow poolingStart ∧
    ∃ t, lower 13 { poolingByWindow with attributes := poolingAttributes } poolingStart =
      .ok true t := by
  have hop : poolingByWindow.operator? = some .maxPool := rfl
  have hlast : ∀ name ∈ poolNames, lastNamed name poolingAttributes =
      lastNamed name poolingByWindow.attributes := by
    intro name hname
    simp only [poolNames, List.mem_cons, List.not_mem_nil, or_false] at hname
    obtain rfl | rfl | rfl | rfl | rfl := hname <;> rfl
  have hsame := lower_eq_of_lastNamed 13 poolingStart poolingByWindow poolingAttributes
    fun op hop' => by
      obtain rfl : Operator.maxPool = op := Option.some.inj (hop.symm.trans hop')
      exact hlast
  have hruns : lower 13 poolingByWindow poolingStart =
      .ok true (Step.after (lower 13 poolingByWindow) poolingStart) := rfl
  exact ⟨hsame, _, hsame.trans hruns⟩

end Lowering

end TensorGraph
