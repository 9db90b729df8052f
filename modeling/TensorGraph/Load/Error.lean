import TensorGraph.Graph.Error
import TensorGraph.Onnx.Attributes

/-! # Load errors

A load fails when the file cannot be read, when the model has an unsuitable version or element
type, when an operator or attribute is not supported, or when shapes and values do not line up. An
error that arises at a node carries the operator and the name of the node. Each error belongs to
one of six categories. -/

namespace TensorGraph

open Text

/-- How shapes, operands and parameters of an operator fail to line up. -/
inductive ShapeError
  | missingInput (opType : String) (position : Nat)
  | missingOutput (opType : String)
  | noInputs (opType : String)
  | notSquare (name : String) (sizes : List Nat)
  | filterRank (dims : List Nat)
  | filterNotSquare (height width : Nat)
  | window (window : Window) (dims : List Nat)
  | notSquareImage (dims : List Nat)
  | broadcastTo (dims into : List Nat)
  | broadcastWith (lhs rhs : List Nat)
  | broadcastAddend (dims product : List Nat)
  | copiedDim (target : List Int64) (rank : Nat)
  | invalidTarget (target : List Int64)
  | reshape (dims : List Nat) (target : List Int64)
  | notIntegers (role name : String)
  deriving DecidableEq

def ShapeError.message : ShapeError → String
  | missingInput opType position => s!"{opType} expects an input at position {position}"
  | missingOutput opType => s!"{opType} declares no output"
  | noInputs opType => s!"{opType} expects at least one input"
  | notSquare name given => s!"only square {name} are supported, got {sizes given}"
  | filterRank dims => s!"expected a 4-D filter, got {sizes dims}"
  | filterNotSquare height width =>
    s!"only square kernels are supported, filter is {height}x{width}"
  | window w dims => s!"window {w.text} does not fit input {sizes dims}"
  | notSquareImage dims =>
    s!"global pooling needs a square spatial input, got {sizes dims}"
  | broadcastTo dims into => s!"cannot broadcast {sizes dims} to {sizes into}"
  | broadcastWith lhs rhs => s!"cannot broadcast {sizes lhs} with {sizes rhs}"
  | broadcastAddend dims product =>
    s!"cannot broadcast C {sizes dims} to the product shape {sizes product}"
  | copiedDim target rank =>
    s!"shape {integers target} copies a dimension past rank {rank}"
  | invalidTarget target => s!"invalid target shape {integers target}"
  | reshape dims target => s!"cannot reshape {sizes dims} into {integers target}"
  | notIntegers role name => s!"{role} input {name} must hold integers"

/-- The categories of load errors. -/
inductive Category
  | format
  | version
  | unsupportedTensorKind
  | unsupportedAttribute
  | unsupportedOperator
  | shapeInvariant
  deriving DecidableEq

def Category.text : Category → String
  | format => "Format"
  | version => "Version"
  | unsupportedTensorKind => "UnsupportedTensorKind"
  | unsupportedAttribute => "UnsupportedAttribute"
  | unsupportedOperator => "UnsupportedOperator"
  | shapeInvariant => "ShapeInvariant"

/-- The oldest version of the format that a `Description` may have. -/
def oldestIrVersion : Int64 := 3

/-- Why a load fails. -/
inductive LoadError
  | openFailed (path : String)
  | readFailed
  | malformed
  | tooLarge (size limit : Nat)
  | irVersion (version : Int64)
  | missingOperatorSet
  | operatorSetVersion (version : Int64)
  /-- The element type of a tensor, by its code, is not supported; a value without a code is no
  tensor. -/
  | elementType (name : String) (code : Option Int32)
  | emptyTensor (name : String)
  | tensor (name : String) (cause : TensorError)
  | inputTooLarge (name : String) (size limit : Nat)
  | symbolicDim (name : String)
  | attribute (cause : Onnx.AttributeError)
  | unsupportedOperator (opType name : String)
  | shape (cause : ShapeError)
  | graph (cause : GraphError)
  | unresolved (name : String)
  | notConstant (name : String)
  | noOutputs
  /-- The failure of a node. -/
  | node (opType name : String) (cause : LoadError)
  deriving DecidableEq

namespace LoadError

/-- The name of an element type. -/
def elementTypeText (code : Option Int32) : String :=
  match code with
  | none => "non-tensor value"
  | some code =>
    match if 0 ≤ code.toInt then Onnx.elementTypeNames[code.toInt.toNat]? else none with
    | some name => name
    | none => s!"unknown ({code.toInt})"

/-- The text of a load error. -/
def message : LoadError → String
  | openFailed path => s!"cannot open model file {path}"
  | readFailed => "failed to read model stream"
  | malformed => "malformed model"
  | tooLarge size limit =>
    s!"model of at least {size} bytes exceeds the decode limit of {limit} bytes"
  | irVersion version =>
    s!"IR version {version.toInt} is too old, at least {oldestIrVersion.toInt} is required"
  | missingOperatorSet => "model does not import the default operator set"
  | operatorSetVersion version =>
    s!"unsupported default operator set version {version.toInt}"
  | elementType name code =>
    s!"tensor {name}: unsupported element type {elementTypeText code}"
  | emptyTensor name => s!"tensor {name} has no payload"
  | tensor name cause => s!"tensor {name}: {cause.message}"
  | inputTooLarge name size limit =>
    s!"input {name} needs {size} bytes, more than the limit of {limit} bytes"
  | symbolicDim name => s!"input {name} has a dimension without a fixed size"
  | .attribute cause => cause.message
  | unsupportedOperator opType name => s!"unsupported operator {opType} (node {name})"
  | shape cause => cause.message
  | graph cause => cause.message
  | unresolved name =>
    s!"value {name} is not defined by any input, initializer or prior node"
  | notConstant name => s!"value {name} must be a constant tensor"
  | noOutputs => "graph declares no outputs"
  | node opType name cause => s!"failed to lower {opType} node {name}: {cause.message}"

/-- The category of a load error; a failure of a node (`inNode`) has that of its cause. -/
def category : LoadError → Category
  | openFailed _ => .format
  | readFailed => .format
  | malformed => .format
  | tooLarge _ _ => .format
  | inputTooLarge _ _ _ => .format
  | tensor _ (.overflow _) => .format
  | tensor _ .capacity => .format
  | irVersion _ => .version
  | missingOperatorSet => .version
  | operatorSetVersion _ => .version
  | tensor _ (.copyMismatch _ _ _ _) => .shapeInvariant
  | tensor _ (.permutation _ _) => .shapeInvariant
  | tensor _ (.elementCount _ _ _) => .unsupportedTensorKind
  | tensor _ (.byteCount _ _) => .unsupportedTensorKind
  | elementType _ _ => .unsupportedTensorKind
  | emptyTensor _ => .unsupportedTensorKind
  | symbolicDim _ => .unsupportedTensorKind
  | .attribute _ => .unsupportedAttribute
  | unsupportedOperator _ _ => .unsupportedOperator
  | shape _ => .shapeInvariant
  | graph _ => .shapeInvariant
  | unresolved _ => .shapeInvariant
  | notConstant _ => .shapeInvariant
  | noOutputs => .shapeInvariant
  | node _ _ cause => cause.category

/-- The error without the nodes at which it arose, as if `inNode` had never been applied. -/
def root : LoadError → LoadError
  | node _ _ cause => cause.root
  | error => error

/-- Whether a failure ends the program and is not reported to the caller: a `GraphError.isFault` or
a `TensorError.isFault`. -/
def isFault : LoadError → Bool
  | tensor _ cause => cause.isFault
  | graph cause => cause.isFault
  | node _ _ cause => cause.isFault
  | _ => false

/-- The error as it is reported for a node: it carries that node unless it carries one already. -/
def inNode (opType name : String) : LoadError → LoadError
  | node innerType innerName cause => node innerType innerName cause
  | unsupportedOperator innerType innerName => unsupportedOperator innerType innerName
  | cause => node opType name cause

end LoadError

/-- The access to an attribute may fail inside a load. -/
instance : MonadLift (Except Onnx.AttributeError) (Except LoadError) :=
  ⟨Except.mapError LoadError.attribute⟩

end TensorGraph
