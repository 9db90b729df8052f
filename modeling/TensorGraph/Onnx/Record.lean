import TensorGraph.Tensor.Bytes

/-! # Records of a serialized model

A serialized model is a tree of records: the model has a graph, a graph has nodes, stored tensors
and declared values, a node has attributes, and an attribute may hold tensors and graphs again.
What a record leaves out has the value given here. -/

namespace TensorGraph.Onnx

/-! ### Stored tensors -/

/-- The part of a large tensor that is stored. -/
structure SegmentRecord where
  start : Int64 := 0
  stop : Int64 := 0
  deriving DecidableEq, Inhabited

/-- A stored tensor. Its elements are in one of the lists or in `rawData`. -/
structure TensorRecord where
  dims : List Int64 := []
  dataType : Int32 := 0
  segment : Option SegmentRecord := none
  floatData : List Binary32 := []
  int32Data : List Int32 := []
  stringData : List Bytes := []
  int64Data : List Int64 := []
  name : String := ""
  rawData : Bytes := []
  doubleData : List UInt64 := []
  uint64Data : List UInt64 := []
  docString : String := ""
  deriving DecidableEq, Inhabited

/-- The element types of stored tensors, in the order of their codes, such as `floatCode`. -/
def elementTypeNames : List String :=
  ["UNDEFINED", "FLOAT", "UINT8", "INT8", "UINT16", "INT16", "INT32", "INT64", "STRING", "BOOL",
    "FLOAT16", "DOUBLE", "UINT32", "UINT64", "COMPLEX64", "COMPLEX128", "BFLOAT16"]

/-- The code of binary32 elements. -/
def floatCode : Int32 := 1

/-- The code of signed 64-bit elements. -/
def int64Code : Int32 := 7

/-! ### Declared values -/

/-- The size of a dimension: a number, or a name for a size that is not fixed. -/
inductive DimensionSize
  | fixed (size : Int64)
  | symbolic (name : String)
  deriving DecidableEq

namespace DimensionSize

def fixed? : DimensionSize → Option Int64
  | fixed size => some size
  | symbolic _ => none

def symbolic? : DimensionSize → Option String
  | fixed _ => none
  | symbolic name => some name

end DimensionSize

/-- A dimension of a declared shape, whose size may be left out. -/
structure DimensionRecord where
  size : Option DimensionSize := none
  meaning : String := ""
  deriving DecidableEq, Inhabited

/-- The shape of a declared value. -/
structure ShapeRecord where
  dims : List DimensionRecord := []
  deriving DecidableEq, Inhabited

/-- The element type and shape of a declared tensor. -/
structure TensorTypeRecord where
  elementType : Int32 := 0
  shape : Option ShapeRecord := none
  deriving DecidableEq, Inhabited

/-- The type of a declared value; only tensor types are told apart. -/
structure TypeRecord where
  tensorType : Option TensorTypeRecord := none
  meaning : String := ""
  deriving DecidableEq, Inhabited

/-- The declaration of a value. -/
structure ValueRecord where
  name : String := ""
  type : Option TypeRecord := none
  docString : String := ""
  deriving DecidableEq, Inhabited

/-! ### Nodes and graphs -/

mutual

/-- An attribute of a node. Its type code tells which of the values is in use
(`AttributeType.ofCode?`). -/
structure AttributeRecord where
  name : String := ""
  float : Binary32 := .zero
  int : Int64 := 0
  string : Bytes := []
  tensor : Option TensorRecord := none
  graph : Option GraphRecord := none
  floats : List Binary32 := []
  ints : List Int64 := []
  strings : List Bytes := []
  tensors : List TensorRecord := []
  graphs : List GraphRecord := []
  docString : String := ""
  type : Int32 := 0
  refAttrName : String := ""

/-- A node: an operator with the names of its inputs and outputs. -/
structure NodeRecord where
  inputs : List String := []
  outputs : List String := []
  name : String := ""
  opType : String := ""
  attributes : List AttributeRecord := []
  docString : String := ""
  domain : String := ""

/-- A graph: nodes in order, stored tensors, and declared inputs, outputs and other values. -/
structure GraphRecord where
  nodes : List NodeRecord := []
  name : String := ""
  initializers : List TensorRecord := []
  docString : String := ""
  inputs : List ValueRecord := []
  outputs : List ValueRecord := []
  values : List ValueRecord := []

end

instance : Inhabited AttributeRecord := ⟨{}⟩
instance : Inhabited NodeRecord := ⟨{}⟩
instance : Inhabited GraphRecord := ⟨{}⟩

/-! ### Models -/

/-- The import of an operator set. -/
structure OperatorSetRecord where
  domain : String := ""
  version : Int64 := 0
  deriving DecidableEq, Inhabited

/-- A piece of metadata. -/
structure EntryRecord where
  key : String := ""
  value : String := ""
  deriving DecidableEq, Inhabited

/-- A serialized model. -/
structure ModelRecord where
  irVersion : Int64 := 0
  producerName : String := ""
  producerVersion : String := ""
  domain : String := ""
  modelVersion : Int64 := 0
  docString : String := ""
  graph : Option GraphRecord := none
  operatorSets : List OperatorSetRecord := []
  metadata : List EntryRecord := []
  deriving Inhabited

end TensorGraph.Onnx
