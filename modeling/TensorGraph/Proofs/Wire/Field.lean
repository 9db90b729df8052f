import TensorGraph.Proofs.Tensor.Bytes
import TensorGraph.Proofs.Wire.Varint
import TensorGraph.Wire.Field

/-! # Fields that are read back

A field is read back as it was written if its number is one of a field, nothing is lacking from it,
and the length of its content is one that the reader takes: a frame may be longer than other fields.
A string of such fields is read back as the fields (`readFields_flatMap`). -/

namespace TensorGraph

namespace Wire

namespace Payload

/-- The content of a payload with a length, empty for the others. -/
def content : Payload → Bytes
  | bytes content _ => content
  | _ => []

/-- The payload is no group and lacks nothing. -/
def Whole : Payload → Prop
  | bytes _ lacking => lacking = 0
  | group => False
  | _ => True

end Payload

/-- The number of the field is one of a field, nothing is lacking (`Whole`), and the length of the
content is one that the reader takes. -/
structure Field.Readable (framed : Nat → Bool) (field : Field) : Prop where
  pos : 0 < field.number
  lt : field.number < 0x20000000
  whole : field.payload.Whole
  length : field.payload.content.length < if framed field.number then Size.bound else 0x100000000

variable {framed : Nat → Bool} {levels lacking number : Nat} {rest : Bytes}

/-! ### One field -/

theorem ofCode?_code (type : WireType) : WireType.ofCode? type.code = some type := by
  cases type <;> rfl

theorem readTag_writeTag (hpos : 0 < number) (hlt : number < 0x20000000) (type : WireType) :
    readTag (writeTag number type ++ rest) = some (⟨number, type⟩, rest) := by
  have hcode : type.code < 8 := by cases type <;> decide
  have hread := Varint.read32_write64 (n := number * 8 + type.code) (by omega) rest
  have htype : (number * 8 + type.code) % 8 = type.code := by omega
  have hnumber : (number * 8 + type.code) / 8 = number := by omega
  simp only [readTag, writeTag, hread, Option.bind_eq_bind, Option.bind_some, htype, hnumber,
    ofCode?_code]
  rw [if_neg (by omega)]

theorem takeBytes_append (lacking : Nat) {count : Nat} {content : Bytes}
    (h : content.length = count) :
    takeBytes lacking count (content ++ rest) = some (content, rest) := by
  unfold takeBytes
  simp only [List.take_left' h, List.drop_left' h]
  rw [if_pos (by omega)]

theorem readLength_write64 {isFrame : Bool} {count : Nat}
    (h : count < if isFrame then Size.bound else 0x100000000) :
    readLength isFrame (Varint.write64 count ++ rest) = some (count, rest) := by
  unfold readLength
  cases isFrame with
  | true => exact Varint.read64_write64 h rest
  | false => exact Varint.read32_write64 h rest

theorem readDelimited_writeDelimited {isFrame : Bool} {content : Bytes}
    (h : content.length < if isFrame then Size.bound else 0x100000000) :
    readDelimited isFrame lacking (writeDelimited content 0 ++ rest) =
      some (.bytes content 0, rest) := by
  simp only [readDelimited, writeDelimited, Nat.add_zero, List.append_assoc,
    readLength_write64 h, Option.bind_eq_bind, Option.bind_some, takeBytes_append _ rfl,
    Nat.sub_self]

/-- A field is read back by `readField` after `write`, whatever comes after it. -/
theorem readField_write {field : Field} (h : field.Readable framed) (levels lacking : Nat)
    (rest : Bytes) :
    readField framed levels lacking (field.write ++ rest) = some (field, rest) := by
  obtain ⟨number, payload⟩ := field
  obtain ⟨hpos, hlt, hwhole, hlength⟩ := h
  have htag : ∀ type after, readTag (writeTag number type ++ after) =
      some (⟨number, type⟩, after) := fun type _ => readTag_writeTag hpos hlt type
  unfold readField Field.write
  cases payload with
  | varint value =>
    simp only [List.append_assoc, htag, Option.bind_eq_bind, Option.bind_some, readPlain]
    rw [Varint.read64_write64 value.toNat_lt]
    simp
  | fixed64 bits =>
    have hword : Word.ofBytes (Word.toBytes 8 bits.toNat) = bits.toNat :=
      Word.ofBytes_toBytes bits.toNat_lt
    simp only [List.append_assoc, htag, Option.bind_eq_bind, Option.bind_some, readPlain]
    rw [takeBytes_append 0 (Word.length_toBytes 8 _)]
    simp [hword]
  | bytes content lack =>
    obtain rfl : lack = 0 := hwhole
    have hcontent : content.length < if framed number then Size.bound else 0x100000000 := hlength
    simp only [List.append_assoc, htag, Option.bind_eq_bind, Option.bind_some, readPlain]
    rw [readDelimited_writeDelimited hcontent]
    rfl
  | group => exact absurd hwhole id
  | fixed32 bits =>
    have hword : Word.ofBytes (Word.toBytes 4 bits.toNat) = bits.toNat :=
      Word.ofBytes_toBytes bits.toNat_lt
    simp only [List.append_assoc, htag, Option.bind_eq_bind, Option.bind_some, readPlain]
    rw [takeBytes_append 0 (Word.length_toBytes 4 _)]
    simp [hword]

/-! ### Many fields -/

/-- Fields that are written one after the other are all read back by `readFields`. -/
theorem readFields_flatMap {fields : List Field} (h : ∀ field ∈ fields, field.Readable framed) :
    readFields framed levels lacking (fields.flatMap Field.write) = some fields := by
  induction fields with
  | nil => rw [List.flatMap_nil, readFields]
  | cons field fields ih =>
    rw [List.flatMap_cons]
    have hread := readField_write (h field List.mem_cons_self) levels lacking
      (fields.flatMap Field.write)
    generalize field.write ++ fields.flatMap Field.write = bytes at hread
    cases bytes with
    | nil => cases hread
    | cons b bytes =>
      rw [readFields]
      split
      · next first after hfirst =>
        rw [hread] at hfirst
        cases hfirst
        rw [ih fun f hf => h f (List.mem_cons_of_mem _ hf)]
        rfl
      · next hnone =>
        rw [hread] at hnone
        cases hnone

end Wire
end TensorGraph
