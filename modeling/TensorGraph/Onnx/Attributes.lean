import TensorGraph.Check
import TensorGraph.Shape.Basic
import TensorGraph.Onnx.Record

/-! # Attributes by name

The attributes of a node are looked up by name; of several with one name the last counts. Each kind
of value has an access that fails when the attribute is missing or has another type, and some have
one with a default for a missing attribute. -/

namespace TensorGraph.Onnx

open Text

/-! ### Types of attributes -/

/-- The types of attributes. -/
inductive AttributeType
  | undefined
  | float
  | int
  | string
  | tensor
  | graph
  | floats
  | ints
  | strings
  | tensors
  | graphs
  | sparseTensor
  | sparseTensors
  | typeProto
  | typeProtos
  deriving DecidableEq

namespace AttributeType

/-- All types, in the order of their codes. -/
def all : List AttributeType :=
  [undefined, float, int, string, tensor, graph, floats, ints, strings, tensors, graphs,
    sparseTensor, sparseTensors, typeProto, typeProtos]

def text : AttributeType → String
  | undefined => "UNDEFINED"
  | float => "FLOAT"
  | int => "INT"
  | string => "STRING"
  | tensor => "TENSOR"
  | graph => "GRAPH"
  | floats => "FLOATS"
  | ints => "INTS"
  | strings => "STRINGS"
  | tensors => "TENSORS"
  | graphs => "GRAPHS"
  | sparseTensor => "SPARSE_TENSOR"
  | sparseTensors => "SPARSE_TENSORS"
  | typeProto => "TYPE_PROTO"
  | typeProtos => "TYPE_PROTOS"

/-- The type that a code stands for, its place in `all`. -/
def ofCode? (code : Int32) : Option AttributeType :=
  if 0 ≤ code.toInt then all[code.toInt.toNat]? else none

end AttributeType

/-! ### Errors -/

/-- What is wrong with the value of an attribute. -/
inductive InvalidValue
  | count (expected : Nat) (values : List Nat)
  | empty
  | negative (value : Int64)
  | someNegative (values : List Int64)
  | axisRange (axis : Int64) (rank : Nat)
  /-- A position between two axes, already resolved against the rank. -/
  | splitRange (position : Int) (rank : Nat)
  deriving DecidableEq

def InvalidValue.message : InvalidValue → String
  | count expected values => s!"expected {expected} values, got {sizes values}"
  | empty => "list is empty"
  | negative value => s!"{value.toInt} is negative"
  | someNegative values => s!"{integers values} contains a negative value"
  | axisRange axis rank => s!"axis {axis.toInt} is out of range for rank {rank}"
  | splitRange position rank => s!"{position} is out of range for rank {rank}"

/-- Why the access to an attribute fails. -/
inductive AttributeError
  | missing (name : String)
  /-- The attribute has another type than expected; its code may be unknown. -/
  | typeMismatch (name : String) (expected : AttributeType) (actual : Int32)
  | invalidUtf8 (name : String)
  | unsupported (name value : String)
  | invalid (name : String) (value : InvalidValue)
  deriving DecidableEq

/-- The text of an attribute error. -/
def AttributeError.message : AttributeError → String
  | missing name => s!"required attribute {name} is missing"
  | typeMismatch name expected actual =>
    let held := match AttributeType.ofCode? actual with
      | some type => type.text
      | none => s!"unknown type {actual.toInt}"
    s!"attribute {name} holds {held}, expected {expected.text}"
  | invalidUtf8 name => s!"attribute {name} is not valid UTF-8"
  | unsupported name value => s!"attribute {name}: unsupported value {value}"
  | invalid name value => s!"attribute {name}: {value.message}"

/-! ### Access -/

/-- The attributes of a node, looked up by name. -/
structure Attributes where
  records : List AttributeRecord

/-- The attributes of a node, looked up by `Attributes.get?` and the functions that follow it. -/
def NodeRecord.view (node : NodeRecord) : Attributes := ⟨node.attributes⟩

namespace Attributes

variable (attrs : Attributes) (name : String)

/-- The last attribute of a name, if there is one. -/
def get? : Option AttributeRecord :=
  attrs.records.reverse.find? fun a => a.name == name

/-- Whether an attribute of the name is there. -/
def contains : Bool := (attrs.get? name).isSome

/-- The different names. -/
def names : List String := (attrs.records.map (·.name)).eraseDups

/-- The attribute of a name, which must have the given `type`. -/
def typed (type : AttributeType) : Except AttributeError AttributeRecord := do
  let record ← found (attrs.get? name) (.missing name)
  check (AttributeType.ofCode? record.type = some type) (.typeMismatch name type record.type)
  return record

/-- A signed number. -/
def int : Except AttributeError Int64 := do
  return (← attrs.typed name .int).int

/-- A binary32 number. -/
def float : Except AttributeError Binary32 := do
  return (← attrs.typed name .float).float

/-- A text, which must be valid UTF-8. -/
def string : Except AttributeError String := do
  let record ← attrs.typed name .string
  found (String.fromUTF8? record.string.toByteArray) (.invalidUtf8 name)

/-- A list of signed numbers. -/
def ints : Except AttributeError (List Int64) := do
  return (← attrs.typed name .ints).ints

/-- A tensor; an attribute of this type without a tensor counts as missing. -/
def tensor : Except AttributeError TensorRecord := do
  let record ← attrs.typed name .tensor
  found record.tensor (.missing name)

/-- A signed number (`int`), or the default if the attribute is missing. -/
def intOr (default : Int64) : Except AttributeError Int64 :=
  if attrs.contains name then attrs.int name else .ok default

/-- A binary32 number (`float`), or the default if the attribute is missing. -/
def floatOr (default : Binary32) : Except AttributeError Binary32 :=
  if attrs.contains name then attrs.float name else .ok default

/-- A list of numbers (`ints`), if the attribute is there. -/
def ints? : Except AttributeError (Option (List Int64)) :=
  if attrs.contains name then some <$> attrs.ints name else .ok none

/-- A number that must not be negative. -/
def sizeOr (default : Nat) : Except AttributeError Nat := do
  if attrs.contains name then
    let value ← attrs.int name
    found (Size.ofInt? value) (.invalid name (.negative value))
  else return default

end Attributes

/-! ### Sizes and axes -/

/-- A list of numbers none of which may be negative. -/
def sizesOf (name : String) (values : List Int64) : Except AttributeError (List Nat) :=
  values.mapM fun v => found (Size.ofInt? v) (.invalid name (.someNegative values))

/-- The axis that a number stands for among `rank` axes; negative numbers count from the end. -/
def axisOf (name : String) (axis : Int64) (rank : Nat) : Except AttributeError Nat :=
  let resolved := if axis.toInt < 0 then axis.toInt + rank else axis.toInt
  if 0 ≤ resolved ∧ resolved < rank then .ok resolved.toNat
  else .error (.invalid name (.axisRange axis rank))

end TensorGraph.Onnx
