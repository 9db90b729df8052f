import TensorGraph.Lowering.Basic
import TensorGraph.Lowering.Options
import TensorGraph.Tensor.Transpose

/-! # Convolution and pooling

Models lay images out channel-first, graphs channel-last. A spatial operator becomes a node between
two transpositions, one into the layout of the graph and one back; constant filters are transposed
once, when the node is lowered. -/

namespace TensorGraph

/-- The permutation of the axes from channel-first to channel-last. -/
def toChannelLast : List Nat := [0, 2, 3, 1]

/-- The permutation of the axes from channel-last to channel-first. -/
def toChannelFirst : List Nat := [0, 3, 1, 2]

namespace Lowering

open Onnx (NodeRecord)

/-- The filters of a convolution in the layout of the graph, transposed by `toChannelLast`. -/
def filterTensor (name : String) : Lowering Tensor := do
  let weight ← constant name
  ofExcept ((weight.transpose toChannelLast).mapError (.tensor name))

/-- The bias of a convolution: the tensor of the third input, copied into zeros, or else `depth`
zeros. -/
def biasTensor (node : NodeRecord) (depth : Nat) : Lowering Tensor := do
  let zeros ← ofExcept ((Tensor.zeros .float [depth]).mapError (.tensor (node.part "bias")))
  match node.input? 2 with
  | some name =>
    let bias ← constant name
    ofExcept ((zeros.copyFrom bias).mapError (.tensor name))
  | none => return zeros

/-- The image dimensions of a value that has rank 4. -/
def imageDims (id : NodeId) : Lowering ImageDims := do
  let dims ← dims id
  found (ImageDims.ofList? dims) (LoadError.graph (.outOfRange 4 dims.length))

/-- Adds the nodes of a convolution of channel-first images: filters and bias as parameters, and the
convolution between the transpositions `toChannelLast` and `toChannelFirst`. -/
def addConvolution (node : NodeRecord) (input : NodeId) (filters biases : Tensor)
    (options : ConvOptions) : Lowering NodeId := do
  let filter ← Build.parameter (node.part "filter") filters
  let bias ← Build.parameter (node.part "bias") biases
  let images ← Build.transpose (node.part "input_nhwc") input toChannelLast
  let image ← imageDims images
  let (height, width) ← found (options.window.outputSize? image.height image.width)
    (LoadError.shape (.window options.window image.toList))
  let elements ← Build.read (·.kind images)
  let out ← Build.intern ⟨elements, [image.count, height, width, options.depth]⟩
  let result ← Build.convolution node.title images filter bias out options.window options.group
  Build.transpose (node.part "output_nchw") result toChannelFirst

/-- A convolution with constant filters and bias. -/
def convolution (node : NodeRecord) : Lowering Unit := do
  let input ← inputValue node 0
  let filters ← filterTensor (← node.input 1)
  let options ← ConvOptions.read node.view filters.dims
  let biases ← biasTensor node options.depth
  let output ← addConvolution node input filters biases options
  bindOutput node output

/-- A pooling whose window, `windowOf`, depends on the shape of the images. -/
def poolWith (node : NodeRecord) (kind : PoolKind)
    (windowOf : List Nat → Except LoadError Window) : Lowering Unit := do
  let input ← inputValue node 0
  let images ← Build.transpose (node.part "input_nhwc") input toChannelLast
  let window ← windowOf (← dims images)
  let result ← Build.pool node.title kind images window
  let output ← Build.transpose (node.part "output_nchw") result toChannelFirst
  bindOutput node output

/-- A pooling with the window that the attributes describe, by `poolWith`. -/
def pool (kind : PoolKind) (node : NodeRecord) : Lowering Unit :=
  poolWith node kind (poolWindow node.view)

/-- The average over the whole image, by `poolWith` the `globalWindow`. -/
def globalAveragePool (node : NodeRecord) : Lowering Unit :=
  poolWith node .average globalWindow

end Lowering
end TensorGraph
