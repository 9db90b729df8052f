import TensorGraph.Load.Error
import TensorGraph.Tensor.Bytes

/-! # Tensors of records

A stored tensor is materialized from its elements: from the list for its element type if that list
has entries, and otherwise from its raw bytes. A declared input is given a tensor of zeros of the
declared kind and shape, which must be fixed and small enough. -/

namespace TensorGraph

/-- The element kind of an element type. -/
def ElementKind.ofCode (name : String) (code : Int32) : Except LoadError ElementKind :=
  if code = Onnx.floatCode then .ok .float
  else if code = Onnx.int64Code then .ok .index
  else .error (.elementType name (some code))

/-- A list of signed numbers as dimensions. -/
def fixedDims (name : String) (dims : List Int64) : Except LoadError (List Nat) :=
  dims.mapM fun d => found (Size.ofInt? d) (.symbolicDim name)

namespace Onnx

/-- The tensor that a record stores: of the kind `ElementKind.ofCode` and the shape `fixedDims` that
it gives, from the list for this kind or else from `rawData`. -/
def TensorRecord.materialize (record : TensorRecord) : Except LoadError Tensor := do
  let kind ← ElementKind.ofCode record.name record.dataType
  let dims ← fixedDims record.name record.dims
  if kind = .float ∧ record.floatData ≠ [] then
    (Tensor.ofElements (.float record.floatData.toArray) dims).mapError (.tensor record.name)
  else if kind = .index ∧ record.int64Data ≠ [] then
    (Tensor.ofElements (.index record.int64Data.toArray) dims).mapError (.tensor record.name)
  else if record.rawData ≠ [] then
    (Tensor.ofBytes kind dims record.rawData).mapError (.tensor record.name)
  else .error (.emptyTensor record.name)

/-- The size of a dimension, if it is fixed and not negative (`Size.ofInt?`). -/
def DimensionRecord.size? (record : DimensionRecord) : Option Nat :=
  match record.size with
  | some (.fixed size) => Size.ofInt? size
  | _ => none

/-- The dimensions of a shape without symbolic dimensions. -/
def ShapeRecord.fixed (name : String) (record : ShapeRecord) : Except LoadError (List Nat) :=
  record.dims.mapM fun d => found d.size? (.symbolicDim name)

/-- The tensor of zeros for a declared input, of at most `limit` bytes. -/
def ValueRecord.placeholder (record : ValueRecord) (limit : Nat) : Except LoadError Tensor := do
  let tensorType ← found (record.type.bind (·.tensorType)) (.elementType record.name none)
  let kind ← ElementKind.ofCode record.name tensorType.elementType
  let shape ← found tensorType.shape (.symbolicDim record.name)
  let dims ← shape.fixed record.name
  let size ← (countBytes kind dims).mapError (.tensor record.name)
  check (size ≤ limit) (.inputTooLarge record.name size limit)
  (Tensor.zeros kind dims).mapError (.tensor record.name)

end Onnx
end TensorGraph
