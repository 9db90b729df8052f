import TensorGraph.Wire.Field

/-! # Message formats

A message format is a list of rules, one for each field number. A rule says how the payloads of its
field change a message and which payloads a message is written with. Reading starts from the empty
message and applies the rules of the fields in the order in which they occur; fields without a rule
leave the message as it is. Lists are gathered from the front, so the last step turns them round.
Writing follows the order of the rules.

* `Codec`: reading and writing of one kind of message.
* `Scalar`, `Numeric`: the kinds of single values and of numbers that can be packed.
* `Rule`: what a field does, by its multiplicity. -/

namespace TensorGraph.Wire

/-! ### Values -/

/-- What a payload says to a field that expects a value of one kind, such as a `Scalar`. -/
inductive Finding (α : Type)
  | value (a : α)
  /-- A payload of a wire type that is not expected. -/
  | other
  | malformed

/-- A kind of single values. -/
structure Scalar (α : Type) where
  read : Payload → Finding α
  write : α → Payload
  /-- Whether a value is left out when it is written alone. -/
  omits : α → Bool

/-- A kind of numbers of which many can be packed into one `Payload`. -/
structure Numeric (α : Type) extends Scalar α where
  unpack : Bytes → Option (List α)
  pack : List α → Bytes

/-- The signed number of 32 bits that a 64-bit varint stands for, if there is one. -/
def int32OfVarint? (value : UInt64) : Option Int32 :=
  let n := value.toInt64.toInt
  if -0x80000000 ≤ n ∧ n < 0x80000000 then some (Int32.ofInt n) else none

/-- The words of a string of whole words of `width` bytes. -/
def unpackWords (width : Nat) (bytes : Bytes) : Option (List Nat) :=
  if bytes.length % width = 0 then some (Word.split width (bytes.length / width) bytes) else none

namespace Scalar

/-- Text, which must be valid UTF-8. -/
def string : Scalar String where
  read
    | .bytes content _ =>
      match String.fromUTF8? content.toByteArray with
      | some s => .value s
      | none => .malformed
    | _ => .other
  write s := .bytes s.toByteArray.toList 0
  omits s := s.isEmpty

/-- Arbitrary bytes. -/
def bytes : Scalar Bytes where
  read
    | .bytes content _ => .value content
    | _ => .other
  write content := .bytes content 0
  omits content := content.isEmpty

end Scalar

namespace Numeric

/-- Unsigned numbers of 64 bits. -/
def uint64 : Numeric UInt64 where
  read
    | .varint value => .value value
    | _ => .other
  write n := .varint n
  omits n := n = 0
  unpack bytes := (Varint.readAll bytes).map (List.map UInt64.ofNat)
  pack values := values.flatMap fun n => Varint.write64 n.toNat

/-- Signed numbers of 64 bits, in two's complement. -/
def int64 : Numeric Int64 where
  read
    | .varint value => .value value.toInt64
    | _ => .other
  write n := .varint n.toUInt64
  omits n := n = 0
  unpack bytes := (Varint.readAll bytes).map (List.map fun n => (UInt64.ofNat n).toInt64)
  pack values := values.flatMap fun n => Varint.write64 n.toUInt64.toNat

/-- Signed numbers of 32 bits, in two's complement of 64 bits; others are malformed. -/
def int32 : Numeric Int32 where
  read
    | .varint value =>
      match int32OfVarint? value with
      | some n => .value n
      | none => .malformed
    | _ => .other
  write n := .varint n.toInt64.toUInt64
  omits n := n = 0
  unpack bytes :=
    (Varint.readAll bytes).bind fun values =>
      values.mapM fun n => int32OfVarint? (.ofNat n)
  pack values := values.flatMap fun n => Varint.write64 n.toInt64.toUInt64.toNat

/-- Binary32 numbers. Only the number with no bit set is left out. -/
def float : Numeric Binary32 where
  read
    | .fixed32 bits => .value ⟨bits⟩
    | _ => .other
  write x := .fixed32 x.bits
  omits x := x.bits = 0
  unpack bytes := (unpackWords 4 bytes).map (List.map Binary32.ofWord)
  pack values := values.flatMap Binary32.toBytes

/-- Binary64 numbers, given by their bits. -/
def double : Numeric UInt64 where
  read
    | .fixed64 bits => .value bits
    | _ => .other
  write bits := .fixed64 bits
  omits bits := bits = 0
  unpack bytes := (unpackWords 8 bytes).map (List.map UInt64.ofNat)
  pack values := values.flatMap fun bits => Word.toBytes 8 bits.toNat

end Numeric

/-! ### Formats -/

/-- Reading and writing of one kind of message. -/
structure Codec (σ : Type) where
  /-- Reads a message that lacks a number of bytes at its end. -/
  read : Nat → Bytes → Option σ
  write : σ → Bytes

/-- The codec of messages that may not occur. -/
def Codec.refuse {σ : Type} : Codec σ where
  read _ _ := none
  write _ := []

/-- Reads a message that is not inside another one. It has no length, but no position in it may
exceed the range of sizes. -/
def Codec.decode? {σ : Type} (codec : Codec σ) (bytes : Bytes) : Option σ :=
  codec.read (Size.bound - 1 - bytes.length) bytes

/-- A part of a message: how it is seen (`get`) and how it is replaced (`set`). -/
structure Part (σ α : Type) where
  get : σ → α
  set : α → σ → σ

/-- What the field of one number does in a message. -/
structure Rule (σ : Type) where
  number : Nat
  /-- Whether the field is a frame. -/
  framed : Bool
  /-- The message after a payload of this field was met. -/
  read : Payload → σ → Option σ
  /-- What is left to do when all fields were met. -/
  finish : σ → σ
  /-- The payloads that a message is written with. -/
  write : σ → List Payload

namespace Rule

variable {σ α β : Type}

/-- The message with a value put in by `put`, if the payload holds one. -/
def take (finding : Finding α) (put : α → σ → σ) (s : σ) : Option σ :=
  match finding with
  | .value a => some (put a s)
  | .other => some s
  | .malformed => none

/-- The message with more `values` in a list that is gathered from the front. -/
def gather (part : Part σ (List α)) (values : List α) (s : σ) : σ :=
  part.set (values.reverse ++ part.get s) s

/-- The message with a list that was gathered from the front by `gather` turned round. -/
def turn (part : Part σ (List α)) (s : σ) : σ :=
  part.set (part.get s).reverse s

/-- A field with one value, the last of those that occur. -/
def single (number : Nat) (kind : Scalar α) (part : Part σ α) : Rule σ where
  number
  framed := false
  read payload s := take (kind.read payload) part.set s
  finish := id
  write s := if kind.omits (part.get s) then [] else [kind.write (part.get s)]

/-- A field with any number of values. -/
def many (number : Nat) (kind : Scalar α) (part : Part σ (List α)) : Rule σ where
  number
  framed := false
  read payload s := take (kind.read payload) (fun a => gather part [a]) s
  finish := turn part
  write s := (part.get s).map kind.write

/-- A field with any number of numbers, read one by one or packed (`Numeric`), and written
packed. -/
def packed (number : Nat) (kind : Numeric α) (part : Part σ (List α)) : Rule σ where
  number
  framed := true
  read payload s :=
    match payload with
    | .bytes content _ => (kind.unpack content).map fun values => gather part values s
    | payload => take (kind.read payload) (fun a => gather part [a]) s
  finish := turn part
  write s := if (part.get s).isEmpty then [] else [.bytes (kind.pack (part.get s)) 0]

/-- A choice between fields; `put` makes the choice that this field stands for. -/
def choice (number : Nat) (kind : Scalar α) (put : α → β) (seen : β → Option α)
    (part : Part σ (Option β)) : Rule σ where
  number
  framed := false
  read payload s := take (kind.read payload) (fun a => part.set (some (put a))) s
  finish := id
  write s := ((part.get s).bind seen).toList.map kind.write

/-- A field with a message, the last of those that occur. -/
def message (number : Nat) (codec : Codec α) (part : Part σ (Option α)) : Rule σ where
  number
  framed := true
  read payload s :=
    match payload with
    | .bytes content lacking => (codec.read lacking content).map fun m => part.set (some m) s
    | _ => some s
  finish := id
  write s := (part.get s).toList.map fun m => .bytes (codec.write m) 0

/-- A field with any number of messages. -/
def messages (number : Nat) (codec : Codec α) (part : Part σ (List α)) : Rule σ where
  number
  framed := true
  read payload s :=
    match payload with
    | .bytes content lacking => (codec.read lacking content).map fun m => gather part [m] s
    | _ => some s
  finish := turn part
  write s := (part.get s).map fun m => .bytes (codec.write m) 0

end Rule

section Format

variable {σ : Type} (rules : List (Rule σ))

/-- The rule of a field number. -/
def ruleOf? (number : Nat) : Option (Rule σ) :=
  rules.find? fun r => r.number == number

/-- Whether a field is a frame. -/
def isFramed (number : Nat) : Bool :=
  match ruleOf? rules number with
  | some r => r.framed
  | none => false

/-- The message after a `field` was met, as its `ruleOf?` says. -/
def applyField (s : σ) (field : Field) : Option σ :=
  match ruleOf? rules field.number with
  | some r => r.read field.payload s
  | none => some s

/-- The message after all fields were met. -/
def finishAll (s : σ) : σ :=
  rules.foldl (fun s r => r.finish s) s

/-- The fields that a message is written with, those of each `Rule` in order. -/
def fieldsOf (s : σ) : List Field :=
  rules.flatMap fun r => (r.write s).map fun payload => ⟨r.number, payload⟩

/-- The codec of messages that follow the rules, below which messages and groups may be nested
`levels` deep. -/
def Codec.ofRules (levels : Nat) (empty : σ) : Codec σ where
  read lacking bytes :=
    (readFields (isFramed rules) levels lacking bytes).bind fun fields =>
      (fields.foldlM (applyField rules) empty).map (finishAll rules)
  write s := (fieldsOf rules s).flatMap Field.write

end Format
end TensorGraph.Wire
