import TensorGraph.Proofs.Onnx.Format
import TensorGraph.Proofs.Wire.Rewriting

/-! # The schema of serialized models

There are thirteen kinds of records. The schema gives the fields of each kind with their numbers,
what they hold and the choices that they belong to. The rules of every kind conform to the schema,
as each of them keeps to its own part of the record, so that models are decoded alike however they
are written (`decode?_eq_of_rewrites`). -/

namespace TensorGraph.Onnx

open Wire

/-- The kinds of records. -/
inductive Kind
  | attr
  | value
  | node
  | model
  | entry
  | graph
  | tensor
  | segment
  | shape
  | dimension
  | type
  | tensorType
  | operatorSet

namespace Kind

def Record : Kind → Type
  | attr => AttributeRecord
  | value => ValueRecord
  | node => NodeRecord
  | model => ModelRecord
  | entry => EntryRecord
  | graph => GraphRecord
  | tensor => TensorRecord
  | segment => SegmentRecord
  | shape => ShapeRecord
  | dimension => DimensionRecord
  | type => TypeRecord
  | tensorType => TensorTypeRecord
  | operatorSet => OperatorSetRecord

def codec : (k : Kind) → Nat → Codec k.Record
  | attr => attributeCodec
  | value => valueCodec
  | node => nodeCodec
  | model => modelCodec
  | entry => entryCodec
  | graph => graphCodec
  | tensor => tensorCodec
  | segment => segmentCodec
  | shape => shapeCodec
  | dimension => dimensionCodec
  | type => typeCodec
  | tensorType => tensorTypeCodec
  | operatorSet => operatorSetCodec

/-- The fields of a kind of records. Texts and strings of bytes have a length; numbers that are not
repeated and enumerations are of variable length, binary32 numbers have 32 bits, and binary64
numbers have 64 bits. -/
def fields : Kind → List (FieldSpec Kind)
  | attr => [⟨1, .value .bytes, none⟩, ⟨2, .value .fixed32, none⟩, ⟨3, .value .varint, none⟩,
      ⟨4, .value .bytes, none⟩, ⟨5, .message tensor, none⟩, ⟨6, .message graph, none⟩,
      ⟨7, .numbers .fixed32, none⟩, ⟨8, .numbers .varint, none⟩, ⟨9, .value .bytes, none⟩,
      ⟨10, .message tensor, none⟩, ⟨11, .message graph, none⟩, ⟨13, .value .bytes, none⟩,
      ⟨20, .value .varint, none⟩, ⟨21, .value .bytes, none⟩]
  | value => [⟨1, .value .bytes, none⟩, ⟨2, .message type, none⟩, ⟨3, .value .bytes, none⟩]
  | node => [⟨1, .value .bytes, none⟩, ⟨2, .value .bytes, none⟩, ⟨3, .value .bytes, none⟩,
      ⟨4, .value .bytes, none⟩, ⟨5, .message attr, none⟩, ⟨6, .value .bytes, none⟩,
      ⟨7, .value .bytes, none⟩]
  | model => [⟨1, .value .varint, none⟩, ⟨2, .value .bytes, none⟩, ⟨3, .value .bytes, none⟩,
      ⟨4, .value .bytes, none⟩, ⟨5, .value .varint, none⟩, ⟨6, .value .bytes, none⟩,
      ⟨7, .message graph, none⟩, ⟨8, .message operatorSet, none⟩, ⟨14, .message entry, none⟩]
  | entry => [⟨1, .value .bytes, none⟩, ⟨2, .value .bytes, none⟩]
  | graph => [⟨1, .message node, none⟩, ⟨2, .value .bytes, none⟩, ⟨5, .message tensor, none⟩,
      ⟨10, .value .bytes, none⟩, ⟨11, .message value, none⟩, ⟨12, .message value, none⟩,
      ⟨13, .message value, none⟩]
  | tensor => [⟨1, .numbers .varint, none⟩, ⟨2, .value .varint, none⟩, ⟨3, .message segment, none⟩,
      ⟨4, .numbers .fixed32, none⟩, ⟨5, .numbers .varint, none⟩, ⟨6, .value .bytes, none⟩,
      ⟨7, .numbers .varint, none⟩, ⟨8, .value .bytes, none⟩, ⟨9, .value .bytes, none⟩,
      ⟨10, .numbers .fixed64, none⟩, ⟨11, .numbers .varint, none⟩, ⟨12, .value .bytes, none⟩]
  | segment => [⟨1, .value .varint, none⟩, ⟨2, .value .varint, none⟩]
  | shape => [⟨1, .message dimension, none⟩]
  | dimension => [⟨1, .value .varint, some "value"⟩, ⟨2, .value .bytes, some "value"⟩,
      ⟨3, .value .bytes, none⟩]
  | type => [⟨1, .message tensorType, some "value"⟩, ⟨6, .value .bytes, none⟩]
  | tensorType => [⟨1, .value .varint, none⟩, ⟨2, .message shape, none⟩]
  | operatorSet => [⟨1, .value .bytes, none⟩, ⟨2, .value .varint, none⟩]

/-- The rules of a kind of records, with `codecs` for the records inside them. -/
def rules : (k : Kind) → ((k : Kind) → Codec k.Record) → List (Rule k.Record)
  | attr, codecs => attributeRules (codecs tensor) (codecs graph)
  | value, codecs => valueRules (codecs type)
  | node, codecs => nodeRules (codecs attr)
  | model, codecs => modelRules (codecs graph) (codecs operatorSet) (codecs entry)
  | entry, _ => entryRules
  | graph, codecs => graphRules (codecs node) (codecs tensor) (codecs value)
  | tensor, codecs => tensorRules (codecs segment)
  | segment, _ => segmentRules
  | shape, codecs => shapeRules (codecs dimension)
  | dimension, _ => dimensionRules
  | type, codecs => typeRules (codecs tensorType)
  | tensorType, codecs => tensorTypeRules (codecs shape)
  | operatorSet, _ => operatorSetRules

/-- A record that leaves out everything. -/
def empty : (k : Kind) → k.Record
  | attr => ({} : AttributeRecord)
  | value => ({} : ValueRecord)
  | node => ({} : NodeRecord)
  | model => ({} : ModelRecord)
  | entry => ({} : EntryRecord)
  | graph => ({} : GraphRecord)
  | tensor => ({} : TensorRecord)
  | segment => ({} : SegmentRecord)
  | shape => ({} : ShapeRecord)
  | dimension => ({} : DimensionRecord)
  | type => ({} : TypeRecord)
  | tensorType => ({} : TensorTypeRecord)
  | operatorSet => ({} : OperatorSetRecord)

theorem numbered (k : Kind) : Numbered (k.fields.map (·.number)) := by
  cases k <;> decide

end Kind

end TensorGraph.Onnx
