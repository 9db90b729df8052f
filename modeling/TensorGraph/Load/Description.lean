import TensorGraph.Load.Error
import TensorGraph.Onnx.Format

/-! # Reading models

A model is read from bytes, from a stream or from a file, up to a limit of bytes. Its format
version and the version of its default operator set must be suitable; the first operator set with
an empty domain is the default one. -/

namespace TensorGraph

/-- A model that was read: its versions and its graph. -/
structure Description where
  irVersion : Int64
  opsetVersion : Int64
  graph : Onnx.GraphRecord

/-- The limit of bytes if none is given. -/
def defaultLimit : Nat := 0x7fffffff

/-- The version of the default operator set. -/
def defaultOperatorSet (model : Onnx.ModelRecord) : Except LoadError Int64 := do
  let set ← found (model.operatorSets.find? fun s => s.domain.isEmpty) .missingOperatorSet
  check (0 < set.version.toInt) (.operatorSetVersion set.version)
  return set.version

/-- The description of a model of suitable versions: an `oldestIrVersion` at least, and a
`defaultOperatorSet`. -/
def Onnx.ModelRecord.describe (model : Onnx.ModelRecord) : Except LoadError Description := do
  check (oldestIrVersion.toInt ≤ model.irVersion.toInt) (.irVersion model.irVersion)
  let opsetVersion ← defaultOperatorSet model
  return { irVersion := model.irVersion, opsetVersion, graph := model.graph.getD {} }

/-- Reads a model of at most `limit` bytes. -/
def Description.ofBytes (limit : Nat) (bytes : Bytes) : Except LoadError Description := do
  check (bytes.length ≤ limit) (.tooLarge bytes.length limit)
  let model ← found (Onnx.ModelRecord.decode? bytes) .malformed
  model.describe

/-! ### Streams and files -/

/-- What one read from a stream gives. -/
inductive Delivery
  /-- Some bytes. If there are none, the stream has ended. -/
  | piece (bytes : Bytes)
  /-- Nothing, because the read was interrupted and is to be tried again. -/
  | interrupted
  | failure
  deriving DecidableEq

/-- A stream is what its reads give until it ends: a list of `Delivery`. -/
abbrev Stream := List Delivery

/-- The first `count` bytes of a stream, or all if there are fewer. What comes after them is not
read, nor is what comes after a read that gives no bytes. -/
def Stream.take (count : Nat) : Stream → Except LoadError Bytes
  | [] => .ok []
  | .interrupted :: stream => Stream.take count stream
  | .failure :: _ => if count = 0 then .ok [] else .error .readFailed
  | .piece bytes :: stream => do
    if count = 0 ∨ bytes = [] then .ok []
    else
      let rest ← Stream.take (count - bytes.length) stream
      return bytes.take count ++ rest

/-- How many bytes are read from a stream to notice that it exceeds `limit`. -/
def readAhead (limit : Nat) : Nat := min (limit + 1) (Size.bound - 1)

/-- Reads a model of at most `limit` bytes from a stream. -/
def Description.ofStream (limit : Nat) (stream : Stream) : Except LoadError Description := do
  let bytes ← stream.take (readAhead limit)
  Description.ofBytes limit bytes

/-- What the attempt to open a file gives. -/
inductive File
  | absent
  | opened (stream : Stream)
  deriving DecidableEq

/-- Reads a model of at most `limit` bytes from the file at a path. -/
def Description.ofFile (limit : Nat) (path : String) (file : File) : Except LoadError Description :=
  match file with
  | .absent => .error (.openFailed path)
  | .opened stream => Description.ofStream limit stream

end TensorGraph
