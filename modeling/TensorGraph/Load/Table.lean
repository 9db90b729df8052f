import TensorGraph.KeyMap
import TensorGraph.Load.Materialize

/-! # Names during a load

A table says what the value names of a model stand for: tensors that are known before any node is
added, and graph values. A tensor is lent by the caller or belongs to the load; a name for which
the caller lends a tensor keeps it. -/

namespace TensorGraph

/-- A tensor under a name. -/
inductive Slot
  /-- Lent by the caller. -/
  | lent (tensor : Tensor)
  /-- Made by the load. -/
  | made (tensor : Tensor)
  deriving DecidableEq

namespace Slot

def tensor : Slot → Tensor
  | lent tensor => tensor
  | made tensor => tensor

def isLent : Slot → Bool
  | lent _ => true
  | made _ => false

end Slot

/-- What a name stands for: a known `Tensor` or a graph value. -/
inductive Operand
  | tensor (tensor : Tensor)
  | value (id : NodeId)
  deriving DecidableEq

/-- A map from names. -/
abbrev NameMap := KeyMap String

/-- The names known during a load. -/
structure Table where
  tensors : NameMap Slot := {}
  values : NameMap NodeId := {}
  deriving DecidableEq

namespace Table

/-! ### Looking up -/

section Look

variable (t : Table) (name : String)

def tensor? : Option Tensor := (t.tensors.get? name).map Slot.tensor

/-- Whether the caller lent a tensor for a name, so that its slot is `Slot.lent`. -/
def isLent : Bool := (t.tensors.get? name).any Slot.isLent

def value? : Option NodeId := t.values.get? name

/-- What a name stands for; a tensor (`tensor?`) comes before a graph value (`value?`). -/
def lookup? : Option Operand :=
  match t.tensor? name with
  | some tensor => some (.tensor tensor)
  | none => (t.value? name).map .value

/-- The tensor of a name that must stand for one: `tensor?`, or an error. -/
def constant : Except LoadError Tensor :=
  match t.tensor? name with
  | some tensor => .ok tensor
  | none =>
    match t.value? name with
    | some _ => .error (.notConstant name)
    | none => .error (.unresolved name)

end Look

/-! ### Filling -/

/-- Lends a tensor for a name. -/
def lend (t : Table) (name : String) (tensor : Tensor) : Table :=
  { t with tensors := t.tensors.insert name (.lent tensor) }

/-- Lends tensors for names by `lend`, the later ones last. -/
def lendAll (t : Table) (tensors : List (String × Tensor)) : Table :=
  tensors.foldl (fun t (name, tensor) => t.lend name tensor) t

/-- Stores a tensor made by the load, unless the caller lent one for the name. -/
def insert (t : Table) (name : String) (tensor : Tensor) : Table :=
  if t.isLent name then t else { t with tensors := t.tensors.insert name (.made tensor) }

/-- Makes a name stand for a graph value. -/
def bind (t : Table) (name : String) (value : NodeId) : Table :=
  { t with values := t.values.insert name value }

/-- The table with one more stored tensor of a model. A name that has a lent tensor (`isLent`) keeps
it, and the record is not even looked at. -/
def storeInitializer (t : Table) (record : Onnx.TensorRecord) : Except LoadError Table :=
  if t.isLent record.name then .ok t
  else do
    let tensor ← record.materialize
    return t.insert record.name tensor

/-- The table with one more declared input of a model, a tensor of zeros of at most `limit` bytes.
Names that have a tensor keep it. -/
def declareInput (limit : Nat) (t : Table) (record : Onnx.ValueRecord) : Except LoadError Table :=
  if t.tensors.contains record.name then .ok t
  else do
    let tensor ← record.placeholder limit
    return t.insert record.name tensor

end Table
end TensorGraph
