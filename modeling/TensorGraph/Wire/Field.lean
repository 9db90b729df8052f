import TensorGraph.Wire.Varint

/-! # Fields

A message is a string of fields. A field starts with a tag, which tells its number and the wire
type of its payload; the payload can be told from the bytes after it without knowing what the field
means. Fields of unknown number and fields of another wire type than expected are skipped.

A group is a payload between a start tag and the next end tag of its nesting level; what it holds
is skipped.

Some fields are frames: what they hold is read in place, as a message or a run of numbers. The
length of a frame is a limit. It must stay within that of the enclosing frame, but where the input
ends between two items, all frames end that are still open, and the rest of them is lacking. -/

namespace TensorGraph.Wire

/-- How a payload is delimited. -/
inductive WireType
  | varint
  | fixed64
  | bytes
  | startGroup
  | endGroup
  | fixed32
  deriving DecidableEq

namespace WireType

def code : WireType → Nat
  | varint => 0
  | fixed64 => 1
  | bytes => 2
  | startGroup => 3
  | endGroup => 4
  | fixed32 => 5

def ofCode? : Nat → Option WireType
  | 0 => some varint
  | 1 => some fixed64
  | 2 => some bytes
  | 3 => some startGroup
  | 4 => some endGroup
  | 5 => some fixed32
  | _ => none

end WireType

/-- What a field holds. -/
inductive Payload
  | varint (value : UInt64)
  | fixed64 (bits : UInt64)
  /-- The content that is there, and how many announced bytes after it are lacking. -/
  | bytes (content : Bytes) (lacking : Nat)
  | group
  | fixed32 (bits : UInt32)
  deriving DecidableEq

/-- A field of a message: a number and a `Payload`. -/
structure Field where
  number : Nat
  payload : Payload
  deriving DecidableEq

/-! ### Tags and plain payloads -/

/-- Field number and `WireType`. -/
structure Tag where
  number : Nat
  type : WireType
  deriving DecidableEq

/-- The `Tag` at the start of a string. There is no field 0. -/
def readTag (bytes : Bytes) : Option (Tag × Bytes) := do
  let (code, rest) ← Varint.read32 bytes
  let type ← WireType.ofCode? (code % 8)
  if code / 8 = 0 then none else some (⟨code / 8, type⟩, rest)

/-- The first `count` bytes and those after them. If there are fewer, at most `lacking` may be
missing at the end. -/
def takeBytes (lacking count : Nat) (bytes : Bytes) : Option (Bytes × Bytes) :=
  let taken := bytes.take count
  if count ≤ taken.length + lacking then some (taken, bytes.drop count) else none

/-- A length: a number of 64 bits for a frame (`framed`), else of 32 bits. -/
def readLength (framed : Bool) (bytes : Bytes) : Option (Nat × Bytes) :=
  if framed then Varint.read64 bytes else Varint.read32 bytes

/-- A length and the content that it announces, of which only a frame (`framed`) may lack a part. -/
def readDelimited (framed : Bool) (lacking : Nat) (bytes : Bytes) : Option (Payload × Bytes) := do
  let (count, rest) ← readLength framed bytes
  let (content, after) ← takeBytes (if framed then lacking else 0) count rest
  some (.bytes content (count - content.length), after)

/-- A payload that is no group. -/
def readPlain (framed : Bool) (lacking : Nat) (type : WireType) (bytes : Bytes) :
    Option (Payload × Bytes) :=
  match type with
  | .varint => (Varint.read64 bytes).map fun (n, rest) => (.varint (.ofNat n), rest)
  | .fixed64 =>
    (takeBytes 0 8 bytes).map fun (word, rest) => (.fixed64 (.ofNat (Word.ofBytes word)), rest)
  | .bytes => readDelimited framed lacking bytes
  | .fixed32 =>
    (takeBytes 0 4 bytes).map fun (word, rest) => (.fixed32 (.ofNat (Word.ofBytes word)), rest)
  | .startGroup => none
  | .endGroup => none

/-! ### What is left is shorter -/

theorem length_lt_of_readTag {bytes rest : Bytes} {tag : Tag}
    (h : readTag bytes = some (tag, rest)) : rest.length < bytes.length := by
  simp only [readTag, Option.bind_eq_bind, Option.bind_eq_some_iff] at h
  obtain ⟨⟨code, rest'⟩, hr, type, -, h⟩ := h
  split at h
  · cases h
  · cases h; exact Varint.length_lt_of_read hr

theorem length_le_of_takeBytes {lacking count : Nat} {bytes taken rest : Bytes}
    (h : takeBytes lacking count bytes = some (taken, rest)) : rest.length ≤ bytes.length := by
  unfold takeBytes at h
  simp only at h
  split at h
  · cases h; simp
  · cases h

theorem length_lt_of_readLength {framed : Bool} {bytes rest : Bytes} {count : Nat}
    (h : readLength framed bytes = some (count, rest)) : rest.length < bytes.length := by
  unfold readLength at h
  split at h <;> exact Varint.length_lt_of_read h

theorem length_le_of_readDelimited {framed : Bool} {lacking : Nat} {bytes rest : Bytes}
    {payload : Payload} (h : readDelimited framed lacking bytes = some (payload, rest)) :
    rest.length ≤ bytes.length := by
  simp only [readDelimited, Option.bind_eq_bind, Option.bind_eq_some_iff] at h
  obtain ⟨⟨count, rest'⟩, hr, ⟨content, after⟩, ht, h⟩ := h
  cases h
  exact Nat.le_trans (length_le_of_takeBytes ht) (Nat.le_of_lt (length_lt_of_readLength hr))

theorem length_le_of_readPlain {framed : Bool} {lacking : Nat} {type : WireType}
    {bytes rest : Bytes} {payload : Payload}
    (h : readPlain framed lacking type bytes = some (payload, rest)) :
    rest.length ≤ bytes.length := by
  unfold readPlain at h
  split at h
  · simp only [Option.map_eq_some_iff] at h
    obtain ⟨⟨n, rest'⟩, hr, h⟩ := h
    cases h; exact Nat.le_of_lt (Varint.length_lt_of_read hr)
  · simp only [Option.map_eq_some_iff] at h
    obtain ⟨⟨word, rest'⟩, hr, h⟩ := h
    cases h; exact length_le_of_takeBytes hr
  · exact length_le_of_readDelimited h
  · simp only [Option.map_eq_some_iff] at h
    obtain ⟨⟨word, rest'⟩, hr, h⟩ := h
    cases h; exact length_le_of_takeBytes hr
  · cases h
  · cases h

/-! ### Groups -/

/-- The bytes after a group whose start tag was read. Of the groups inside it, `opened` are open,
and at most `levels` may be at a time. -/
def skipGroup (levels opened : Nat) (bytes : Bytes) : Option Bytes :=
  match hTag : readTag bytes with
  | none => none
  | some (tag, rest) =>
    have _hRest := length_lt_of_readTag hTag
    match tag.type with
    | .endGroup =>
      match opened with
      | 0 => some rest
      | opened + 1 => skipGroup levels opened rest
    | .startGroup => if opened < levels then skipGroup levels (opened + 1) rest else none
    | type =>
      match hPlain : readPlain false 0 type rest with
      | none => none
      | some (_, after) =>
        have := length_le_of_readPlain hPlain
        skipGroup levels opened after
termination_by bytes.length

theorem length_lt_of_skipGroup {levels opened : Nat} {bytes rest : Bytes}
    (h : skipGroup levels opened bytes = some rest) : rest.length < bytes.length := by
  fun_induction skipGroup levels opened bytes with
  | case1 => cases h
  | case2 bytes tag after hTag hRest _ => cases h; exact hRest
  | case3 bytes tag after hTag hRest _ opened ih => have := ih h; omega
  | case4 opened bytes tag after hTag hRest _ _ ih => have := ih h; omega
  | case5 => cases h
  | case6 => cases h
  | case7 opened bytes tag after hTag hRest payload last _ _ hPlain hLe ih =>
    have := ih h; omega

/-! ### Fields of a message -/

/-- The field at the start of a string. The fields that `framed` tells are frames, `levels` bounds
the nesting of groups inside a group, and `lacking` is what the message around the field lacks. -/
def readField (framed : Nat → Bool) (levels lacking : Nat) (bytes : Bytes) :
    Option (Field × Bytes) := do
  let (tag, rest) ← readTag bytes
  match tag.type with
  | .startGroup =>
    let after ← skipGroup levels 0 rest
    some (⟨tag.number, .group⟩, after)
  | type =>
    let (payload, after) ← readPlain (framed tag.number) lacking type rest
    some (⟨tag.number, payload⟩, after)

theorem length_lt_of_readField {framed : Nat → Bool} {levels lacking : Nat} {bytes rest : Bytes}
    {field : Field} (h : readField framed levels lacking bytes = some (field, rest)) :
    rest.length < bytes.length := by
  simp only [readField, Option.bind_eq_bind, Option.bind_eq_some_iff] at h
  obtain ⟨⟨tag, after⟩, hTag, h⟩ := h
  have hRest := length_lt_of_readTag hTag
  split at h
  · simp only [Option.bind_eq_some_iff] at h
    obtain ⟨last, hs, h⟩ := h
    cases h
    have := length_lt_of_skipGroup hs
    omega
  · simp only [Option.bind_eq_some_iff] at h
    obtain ⟨⟨payload, last⟩, hp, h⟩ := h
    cases h
    exact Nat.lt_of_le_of_lt (length_le_of_readPlain hp) hRest

/-- The fields that fill a string, of a message that lacks `lacking` bytes after it. -/
def readFields (framed : Nat → Bool) (levels lacking : Nat) (bytes : Bytes) :
    Option (List Field) :=
  match bytes with
  | [] => some []
  | b :: bytes =>
    match h : readField framed levels lacking (b :: bytes) with
    | some (field, rest) =>
      have _hLt := length_lt_of_readField h
      (readFields framed levels lacking rest).map (field :: ·)
    | none => none
termination_by bytes.length
decreasing_by exact _hLt

/-! ### Writing -/

def writeTag (number : Nat) (type : WireType) : Bytes :=
  Varint.write64 (number * 8 + type.code)

/-- A length and the content that it announces, without the last `lacking` bytes. -/
def writeDelimited (content : Bytes) (lacking : Nat) : Bytes :=
  Varint.write64 (content.length + lacking) ++ content

/-- The bytes of a field: its `Tag` and its payload. A group is written without content. -/
def Field.write (field : Field) : Bytes :=
  match field.payload with
  | .varint value => writeTag field.number .varint ++ Varint.write64 value.toNat
  | .fixed64 bits => writeTag field.number .fixed64 ++ Word.toBytes 8 bits.toNat
  | .bytes content lacking => writeTag field.number .bytes ++ writeDelimited content lacking
  | .group => writeTag field.number .startGroup ++ writeTag field.number .endGroup
  | .fixed32 bits => writeTag field.number .fixed32 ++ Word.toBytes 4 bits.toNat

end TensorGraph.Wire
