import TensorGraph.Lowering.Spatial
import TensorGraph.Lowering.Arithmetic
import TensorGraph.Lowering.Reshaping
import TensorGraph.Lowering.Pointwise

/-! # Operators

The operators of the default domain that can be lowered, and the step that lowers a node of each. -/

namespace TensorGraph

/-- The supported operators. -/
inductive Operator
  | constant
  | conv
  | maxPool
  | averagePool
  | globalAveragePool
  | squeeze
  | unsqueeze
  | dropout
  | identity
  | batchNormalization
  | concat
  | gemm
  | matMul
  | transpose
  | reshape
  | flatten
  | relu
  | sigmoid
  | tanh
  | softmax
  | add
  | sub
  | mul
  | div
  | sum
  deriving DecidableEq

namespace Operator

def text : Operator → String
  | constant => "Constant"
  | conv => "Conv"
  | maxPool => "MaxPool"
  | averagePool => "AveragePool"
  | globalAveragePool => "GlobalAveragePool"
  | squeeze => "Squeeze"
  | unsqueeze => "Unsqueeze"
  | dropout => "Dropout"
  | identity => "Identity"
  | batchNormalization => "BatchNormalization"
  | concat => "Concat"
  | gemm => "Gemm"
  | matMul => "MatMul"
  | transpose => "Transpose"
  | reshape => "Reshape"
  | flatten => "Flatten"
  | relu => "Relu"
  | sigmoid => "Sigmoid"
  | tanh => "Tanh"
  | softmax => "Softmax"
  | add => "Add"
  | sub => "Sub"
  | mul => "Mul"
  | div => "Div"
  | sum => "Sum"

def all : List Operator :=
  [constant, conv, maxPool, averagePool, globalAveragePool, squeeze, unsqueeze, dropout, identity,
    batchNormalization, concat, gemm, matMul, transpose, reshape, flatten, relu, sigmoid, tanh,
    softmax, add, sub, mul, div, sum]

/-- The operator of a name, as `Operator.text` writes it. -/
def ofText? (name : String) : Option Operator := all.find? fun op => op.text == name

end Operator

/-- The operator of a node, if its domain is the default one. -/
def Onnx.NodeRecord.operator? (node : Onnx.NodeRecord) : Option Operator :=
  if node.domain = "" ∨ node.domain = "ai.onnx" then Operator.ofText? node.opType else none

namespace Lowering

/-- Lowers a node of a supported operator. -/
def step (opset : Int64) (node : Onnx.NodeRecord) : Operator → Lowering Unit
  | .constant => storeConstant node
  | .conv => convolution node
  | .maxPool => pool .max node
  | .averagePool => pool .average node
  | .globalAveragePool => globalAveragePool node
  | .squeeze => squeeze node
  | .unsqueeze => unsqueeze node
  | .dropout => identity node
  | .identity => identity node
  | .batchNormalization => batchNormalization node
  | .concat => concat node
  | .gemm => gemm opset node
  | .matMul => matMul node
  | .transpose => transpose node
  | .reshape => reshape node
  | .flatten => flatten node
  | .relu => unary .relu node
  | .sigmoid => unary .sigmoid node
  | .tanh => unary .tanh node
  | .softmax => softMax node
  | .add => binary .add opset node
  | .sub => binary .sub opset node
  | .mul => binary .mul opset node
  | .div => binary .div opset node
  | .sum => sum opset node

/-- Lowers a node by `step`; the answer is whether its operator is supported. -/
def lower (opset : Int64) (node : Onnx.NodeRecord) : Lowering Bool :=
  match node.operator? with
  | none => pure false
  | some op => do
    step opset node op
    return true

end Lowering
end TensorGraph
