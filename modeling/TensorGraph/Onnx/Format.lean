import TensorGraph.Onnx.Record
import TensorGraph.Wire.Message

/-! # The format of serialized models

Each record has a list of rules in the order of field numbers, and a codec for each number of
levels that may still be nested below it. Messages may be nested `nestingLimit` deep. -/

namespace TensorGraph.Onnx

open Wire

/-! ### Rules -/

def segmentRules : List (Rule SegmentRecord) := [
  .single 1 Numeric.int64.toScalar ⟨(·.start), fun v s => { s with start := v }⟩,
  .single 2 Numeric.int64.toScalar ⟨(·.stop), fun v s => { s with stop := v }⟩]

def tensorRules (segment : Codec SegmentRecord) : List (Rule TensorRecord) := [
  .packed 1 .int64 ⟨(·.dims), fun v s => { s with dims := v }⟩,
  .single 2 Numeric.int32.toScalar ⟨(·.dataType), fun v s => { s with dataType := v }⟩,
  .message 3 segment ⟨(·.segment), fun v s => { s with segment := v }⟩,
  .packed 4 .float ⟨(·.floatData), fun v s => { s with floatData := v }⟩,
  .packed 5 .int32 ⟨(·.int32Data), fun v s => { s with int32Data := v }⟩,
  .many 6 .bytes ⟨(·.stringData), fun v s => { s with stringData := v }⟩,
  .packed 7 .int64 ⟨(·.int64Data), fun v s => { s with int64Data := v }⟩,
  .single 8 .string ⟨(·.name), fun v s => { s with name := v }⟩,
  .single 9 .bytes ⟨(·.rawData), fun v s => { s with rawData := v }⟩,
  .packed 10 .double ⟨(·.doubleData), fun v s => { s with doubleData := v }⟩,
  .packed 11 .uint64 ⟨(·.uint64Data), fun v s => { s with uint64Data := v }⟩,
  .single 12 .string ⟨(·.docString), fun v s => { s with docString := v }⟩]

def dimensionRules : List (Rule DimensionRecord) := [
  .choice 1 Numeric.int64.toScalar .fixed DimensionSize.fixed?
    ⟨(·.size), fun v s => { s with size := v }⟩,
  .choice 2 .string .symbolic DimensionSize.symbolic?
    ⟨(·.size), fun v s => { s with size := v }⟩,
  .single 3 .string ⟨(·.meaning), fun v s => { s with meaning := v }⟩]

def shapeRules (dimension : Codec DimensionRecord) : List (Rule ShapeRecord) := [
  .messages 1 dimension ⟨(·.dims), fun v s => { s with dims := v }⟩]

def tensorTypeRules (shape : Codec ShapeRecord) : List (Rule TensorTypeRecord) := [
  .single 1 Numeric.int32.toScalar ⟨(·.elementType), fun v s => { s with elementType := v }⟩,
  .message 2 shape ⟨(·.shape), fun v s => { s with shape := v }⟩]

def typeRules (tensorType : Codec TensorTypeRecord) : List (Rule TypeRecord) := [
  .message 1 tensorType ⟨(·.tensorType), fun v s => { s with tensorType := v }⟩,
  .single 6 .string ⟨(·.meaning), fun v s => { s with meaning := v }⟩]

def valueRules (type : Codec TypeRecord) : List (Rule ValueRecord) := [
  .single 1 .string ⟨(·.name), fun v s => { s with name := v }⟩,
  .message 2 type ⟨(·.type), fun v s => { s with type := v }⟩,
  .single 3 .string ⟨(·.docString), fun v s => { s with docString := v }⟩]

def attributeRules (tensor : Codec TensorRecord) (graph : Codec GraphRecord) :
    List (Rule AttributeRecord) := [
  .single 1 .string ⟨(·.name), fun v s => { s with name := v }⟩,
  .single 2 Numeric.float.toScalar ⟨(·.float), fun v s => { s with float := v }⟩,
  .single 3 Numeric.int64.toScalar ⟨(·.int), fun v s => { s with int := v }⟩,
  .single 4 .bytes ⟨(·.string), fun v s => { s with string := v }⟩,
  .message 5 tensor ⟨(·.tensor), fun v s => { s with tensor := v }⟩,
  .message 6 graph ⟨(·.graph), fun v s => { s with graph := v }⟩,
  .packed 7 .float ⟨(·.floats), fun v s => { s with floats := v }⟩,
  .packed 8 .int64 ⟨(·.ints), fun v s => { s with ints := v }⟩,
  .many 9 .bytes ⟨(·.strings), fun v s => { s with strings := v }⟩,
  .messages 10 tensor ⟨(·.tensors), fun v s => { s with tensors := v }⟩,
  .messages 11 graph ⟨(·.graphs), fun v s => { s with graphs := v }⟩,
  .single 13 .string ⟨(·.docString), fun v s => { s with docString := v }⟩,
  .single 20 Numeric.int32.toScalar ⟨(·.type), fun v s => { s with type := v }⟩,
  .single 21 .string ⟨(·.refAttrName), fun v s => { s with refAttrName := v }⟩]

def nodeRules (attr : Codec AttributeRecord) : List (Rule NodeRecord) := [
  .many 1 .string ⟨(·.inputs), fun v s => { s with inputs := v }⟩,
  .many 2 .string ⟨(·.outputs), fun v s => { s with outputs := v }⟩,
  .single 3 .string ⟨(·.name), fun v s => { s with name := v }⟩,
  .single 4 .string ⟨(·.opType), fun v s => { s with opType := v }⟩,
  .messages 5 attr ⟨(·.attributes), fun v s => { s with attributes := v }⟩,
  .single 6 .string ⟨(·.docString), fun v s => { s with docString := v }⟩,
  .single 7 .string ⟨(·.domain), fun v s => { s with domain := v }⟩]

def graphRules (node : Codec NodeRecord) (tensor : Codec TensorRecord)
    (value : Codec ValueRecord) : List (Rule GraphRecord) := [
  .messages 1 node ⟨(·.nodes), fun v s => { s with nodes := v }⟩,
  .single 2 .string ⟨(·.name), fun v s => { s with name := v }⟩,
  .messages 5 tensor ⟨(·.initializers), fun v s => { s with initializers := v }⟩,
  .single 10 .string ⟨(·.docString), fun v s => { s with docString := v }⟩,
  .messages 11 value ⟨(·.inputs), fun v s => { s with inputs := v }⟩,
  .messages 12 value ⟨(·.outputs), fun v s => { s with outputs := v }⟩,
  .messages 13 value ⟨(·.values), fun v s => { s with values := v }⟩]

def operatorSetRules : List (Rule OperatorSetRecord) := [
  .single 1 .string ⟨(·.domain), fun v s => { s with domain := v }⟩,
  .single 2 Numeric.int64.toScalar ⟨(·.version), fun v s => { s with version := v }⟩]

def entryRules : List (Rule EntryRecord) := [
  .single 1 .string ⟨(·.key), fun v s => { s with key := v }⟩,
  .single 2 .string ⟨(·.value), fun v s => { s with value := v }⟩]

def modelRules (graph : Codec GraphRecord) (operatorSet : Codec OperatorSetRecord)
    (entry : Codec EntryRecord) : List (Rule ModelRecord) := [
  .single 1 Numeric.int64.toScalar ⟨(·.irVersion), fun v s => { s with irVersion := v }⟩,
  .single 2 .string ⟨(·.producerName), fun v s => { s with producerName := v }⟩,
  .single 3 .string ⟨(·.producerVersion), fun v s => { s with producerVersion := v }⟩,
  .single 4 .string ⟨(·.domain), fun v s => { s with domain := v }⟩,
  .single 5 Numeric.int64.toScalar ⟨(·.modelVersion), fun v s => { s with modelVersion := v }⟩,
  .single 6 .string ⟨(·.docString), fun v s => { s with docString := v }⟩,
  .message 7 graph ⟨(·.graph), fun v s => { s with graph := v }⟩,
  .messages 8 operatorSet ⟨(·.operatorSets), fun v s => { s with operatorSets := v }⟩,
  .messages 14 entry ⟨(·.metadata), fun v s => { s with metadata := v }⟩]

/-! ### Codecs by levels -/

/-- The codec of a submessage: `codec` with a level less, if a level is left, and otherwise
`Codec.refuse`. -/
def inside {σ : Type} (codec : Nat → Codec σ) : Nat → Codec σ
  | 0 => .refuse
  | levels + 1 => codec levels

def segmentCodec (levels : Nat) : Codec SegmentRecord := .ofRules segmentRules levels {}

def tensorCodec (levels : Nat) : Codec TensorRecord :=
  .ofRules (tensorRules (inside segmentCodec levels)) levels {}

def dimensionCodec (levels : Nat) : Codec DimensionRecord := .ofRules dimensionRules levels {}

def shapeCodec (levels : Nat) : Codec ShapeRecord :=
  .ofRules (shapeRules (inside dimensionCodec levels)) levels {}

def tensorTypeCodec (levels : Nat) : Codec TensorTypeRecord :=
  .ofRules (tensorTypeRules (inside shapeCodec levels)) levels {}

def typeCodec (levels : Nat) : Codec TypeRecord :=
  .ofRules (typeRules (inside tensorTypeCodec levels)) levels {}

def valueCodec (levels : Nat) : Codec ValueRecord :=
  .ofRules (valueRules (inside typeCodec levels)) levels {}

mutual

def attributeCodec : Nat → Codec AttributeRecord
  | 0 => .ofRules (attributeRules .refuse .refuse) 0 {}
  | levels + 1 => .ofRules (attributeRules (tensorCodec levels) (graphCodec levels)) (levels + 1) {}

def nodeCodec : Nat → Codec NodeRecord
  | 0 => .ofRules (nodeRules .refuse) 0 {}
  | levels + 1 => .ofRules (nodeRules (attributeCodec levels)) (levels + 1) {}

def graphCodec : Nat → Codec GraphRecord
  | 0 => .ofRules (graphRules .refuse .refuse .refuse) 0 {}
  | levels + 1 =>
    .ofRules (graphRules (nodeCodec levels) (tensorCodec levels) (valueCodec levels))
      (levels + 1) {}

end

def operatorSetCodec (levels : Nat) : Codec OperatorSetRecord := .ofRules operatorSetRules levels {}

def entryCodec (levels : Nat) : Codec EntryRecord := .ofRules entryRules levels {}

def modelCodec (levels : Nat) : Codec ModelRecord :=
  .ofRules (modelRules (inside graphCodec levels) (inside operatorSetCodec levels)
    (inside entryCodec levels)) levels {}

/-! ### Whole messages -/

/-- How deep messages may be nested below the outermost one. -/
def nestingLimit : Nat := 100

def TensorRecord.decode? (bytes : Bytes) : Option TensorRecord :=
  (tensorCodec nestingLimit).decode? bytes

def ShapeRecord.decode? (bytes : Bytes) : Option ShapeRecord :=
  (shapeCodec nestingLimit).decode? bytes

def ValueRecord.decode? (bytes : Bytes) : Option ValueRecord :=
  (valueCodec nestingLimit).decode? bytes

def NodeRecord.decode? (bytes : Bytes) : Option NodeRecord :=
  (nodeCodec nestingLimit).decode? bytes

/-- The model that a string of bytes stores, read with `nestingLimit` levels. -/
def ModelRecord.decode? (bytes : Bytes) : Option ModelRecord :=
  (modelCodec nestingLimit).decode? bytes

/-- The bytes that store a model, as `decode?` reads them. -/
def ModelRecord.encode (model : ModelRecord) : Bytes :=
  (modelCodec nestingLimit).write model

end TensorGraph.Onnx
