import TensorGraph.Proofs.Wire.Field

/-! # Strings of fields

What a field looks like can be said without a reader: a tag and a payload, or a group between its
tags, in which there are fields and groups again. The reader takes exactly such a field from the
front of a string, whatever comes after it (`readField_append`), so that it meets the next field at
its beginning. A **row** is a string of complete fields; reading goes on behind it
(`readFields_append`). -/

namespace TensorGraph.Wire

/-! ### The form of fields -/

/-- A tag, in any of its forms. -/
def IsTag (number : Nat) (type : WireType) (bytes : Bytes) : Prop :=
  readTag bytes = some (⟨number, type⟩, [])

/-- A payload that is no group and lacks nothing. -/
inductive IsPlain (framed : Bool) : Payload → WireType → Bytes → Prop
  | varint {n : Nat} {bytes : Bytes} (h : Varint.read64 bytes = some (n, [])) :
    IsPlain framed (.varint (.ofNat n)) .varint bytes
  | fixed64 {bytes : Bytes} (h : bytes.length = 8) :
    IsPlain framed (.fixed64 (.ofNat (Word.ofBytes bytes))) .fixed64 bytes
  | bytes {length content : Bytes} (h : readLength framed length = some (content.length, [])) :
    IsPlain framed (.bytes content 0) .bytes (length ++ content)
  | fixed32 {bytes : Bytes} (h : bytes.length = 4) :
    IsPlain framed (.fixed32 (.ofNat (Word.ofBytes bytes))) .fixed32 bytes

/-- What a group holds: fields, and groups that are nested at most `depth` deep. The end of a group
may have any number. -/
inductive InGroup : Nat → Bytes → Prop
  | nil (depth : Nat) : InGroup depth []
  | plain {depth number : Nat} {type : WireType} {payload : Payload} {tag bytes rest : Bytes}
      (htag : IsTag number type tag) (hpayload : IsPlain false payload type bytes)
      (hrest : InGroup depth rest) : InGroup depth (tag ++ (bytes ++ rest))
  | group {depth number last : Nat} {start content stop rest : Bytes}
      (hstart : IsTag number .startGroup start) (hcontent : InGroup depth content)
      (hstop : IsTag last .endGroup stop) (hrest : InGroup (depth + 1) rest) :
      InGroup (depth + 1) (start ++ (content ++ (stop ++ rest)))

/-- A complete field of a message. The fields that `framed` tells have lengths of 64 bits, and
groups inside a group are nested at most `levels` deep. -/
inductive IsField (framed : Nat → Bool) (levels : Nat) : Field → Bytes → Prop
  | plain {number : Nat} {type : WireType} {payload : Payload} {tag bytes : Bytes}
      (htag : IsTag number type tag) (hpayload : IsPlain (framed number) payload type bytes) :
      IsField framed levels ⟨number, payload⟩ (tag ++ bytes)
  | group {number last : Nat} {start content stop : Bytes} (hstart : IsTag number .startGroup start)
      (hcontent : InGroup levels content) (hstop : IsTag last .endGroup stop) :
      IsField framed levels ⟨number, .group⟩ (start ++ (content ++ stop))

/-- A string of complete fields. -/
inductive IsRow (framed : Nat → Bool) (levels : Nat) : List Field → Bytes → Prop
  | nil : IsRow framed levels [] []
  | cons {field : Field} {fields : List Field} {bytes rest : Bytes}
      (hfield : IsField framed levels field bytes) (hrest : IsRow framed levels fields rest) :
      IsRow framed levels (field :: fields) (bytes ++ rest)

/-- The beginning of a frame: a tag (`IsTag`), and the length of a content of which a part may be
lacking. -/
structure IsHeader (number : Nat) (content : Bytes) (lack : Nat) (tag length : Bytes) : Prop where
  tag : IsTag number .bytes tag
  length : readLength true length = some (content.length + lack, [])

/-- A frame that is cut off at the end of a string, and lacks no more than `lacking` says. -/
inductive IsCut (framed : Nat → Bool) (lacking : Nat) : Field → Bytes → Prop
  | mk {number lack : Nat} {tag length content : Bytes} (hframed : framed number = true)
      (hheader : IsHeader number content lack tag length) (hpos : 0 < lack) (hle : lack ≤ lacking) :
      IsCut framed lacking ⟨number, .bytes content lack⟩ (tag ++ (length ++ content))

/-! ### Readers take what is there -/

variable {framed : Nat → Bool} {isFrame : Bool} {levels lacking opened number count : Nat}
  {type : WireType} {payload : Payload} {field : Field} {fields : List Field}
  {bytes rest more : Bytes}

theorem Varint.read_append {top : UInt8} {extra n : Nat} (h : read top extra bytes = some (n, rest))
    (more : Bytes) : read top extra (bytes ++ more) = some (n, rest ++ more) := by
  fun_induction read top extra bytes generalizing n with
  | case1 => cases h
  | case2 b bytes hle => cases h; simp [read, hle]
  | case3 => cases h
  | case4 extra b bytes hlt => cases h; simp [read, hlt]
  | case5 extra b bytes hge m after hread ih =>
    cases h
    rw [List.cons_append, read, if_neg hge, ih hread]
  | case6 => cases h

theorem readTag_append {tag : Tag} (h : readTag bytes = some (tag, rest)) (more : Bytes) :
    readTag (bytes ++ more) = some (tag, rest ++ more) := by
  simp only [readTag, Option.bind_eq_bind, Option.bind_eq_some_iff] at h ⊢
  obtain ⟨⟨code, after⟩, hcode, type, htype, h⟩ := h
  refine ⟨_, Varint.read_append hcode more, type, htype, ?_⟩
  split at h
  · cases h
  · next hne => cases h; rw [if_neg hne]

theorem readLength_append (h : readLength isFrame bytes = some (count, rest)) (more : Bytes) :
    readLength isFrame (bytes ++ more) = some (count, rest ++ more) := by
  cases isFrame with
  | true => exact Varint.read_append h more
  | false => exact Varint.read_append h more

/-- **A payload is read** by `readPlain` from the front of a string. -/
theorem readPlain_append (h : IsPlain isFrame payload type bytes) (lacking : Nat) (rest : Bytes) :
    readPlain isFrame lacking type (bytes ++ rest) = some (payload, rest) := by
  cases h with
  | varint h =>
    have hread := Varint.read_append h rest
    rw [List.nil_append] at hread
    simp only [readPlain, Varint.read64, hread, Option.map_some]
  | fixed64 h => simp only [readPlain, takeBytes_append 0 h, Option.map_some]
  | @bytes length content h =>
    have hread := readLength_append h (content ++ rest)
    rw [List.nil_append] at hread
    simp only [readPlain, readDelimited, List.append_assoc, hread, Option.bind_eq_bind,
      Option.bind_some, takeBytes_append _ rfl, Nat.sub_self]
  | fixed32 h => simp only [readPlain, takeBytes_append 0 h, Option.map_some]

theorem readTag_of_isTag (h : IsTag number type bytes) (rest : Bytes) :
    readTag (bytes ++ rest) = some (⟨number, type⟩, rest) :=
  readTag_append h rest

/-! ### Groups -/

/-- A plain field in a group is passed over by `skipGroup`. -/
theorem skipGroup_plain {after : Bytes} (htag : readTag bytes = some (⟨number, type⟩, rest))
    (hplain : readPlain false 0 type rest = some (payload, after)) :
    skipGroup levels opened bytes = skipGroup levels opened after := by
  rw [skipGroup]
  split
  · next hnone => rw [htag] at hnone; cases hnone
  · next tag rest' hread =>
    rw [htag] at hread
    cases hread
    split
    · next hend => cases hend; cases hplain
    · next hstart => cases hstart; cases hplain
    · split
      · next hnone => rw [hplain] at hnone; cases hnone
      · next hread => rw [hplain] at hread; cases hread; rfl

theorem skipGroup_start (htag : readTag bytes = some (⟨number, .startGroup⟩, rest))
    (h : opened < levels) :
    skipGroup levels opened bytes = skipGroup levels (opened + 1) rest := by
  rw [skipGroup]
  split
  · next hnone => rw [htag] at hnone; cases hnone
  · next tag rest' hread =>
    rw [htag] at hread
    cases hread
    exact if_pos h

/-- What comes after the end of a group: the rest of the group around it, by `skipGroup`, if it is
inside one. -/
def leaveGroup (levels : Nat) : Nat → Bytes → Option Bytes
  | 0, bytes => some bytes
  | opened + 1, bytes => skipGroup levels opened bytes

theorem skipGroup_stop (htag : readTag bytes = some (⟨number, .endGroup⟩, rest)) :
    skipGroup levels opened bytes = leaveGroup levels opened rest := by
  rw [skipGroup]
  split
  · next hnone => rw [htag] at hnone; cases hnone
  · next tag rest' hread =>
    rw [htag] at hread
    cases hread
    cases opened <;> rfl

/-- **What a group holds is passed over** by `skipGroup`, as long as no group in it is nested too
deep. -/
theorem skipGroup_append {depth : Nat} (h : InGroup depth bytes) (hopened : opened + depth ≤ levels)
    (rest : Bytes) : skipGroup levels opened (bytes ++ rest) = skipGroup levels opened rest := by
  induction h generalizing opened rest with
  | nil depth => rfl
  | @plain depth number type payload tag bytes after htag hpayload _ ih =>
    simp only [List.append_assoc]
    rw [skipGroup_plain (readTag_of_isTag htag _) (readPlain_append hpayload 0 _)]
    exact ih hopened rest
  | @group depth number last start content stop after hstart _ hstop _ ihcontent ihafter =>
    simp only [List.append_assoc]
    rw [skipGroup_start (readTag_of_isTag hstart _) (by omega), ihcontent (by omega),
      skipGroup_stop (readTag_of_isTag hstop _)]
    exact ihafter hopened rest

/-! ### Fields and rows -/

theorem startGroup_ne_of_isPlain (h : IsPlain isFrame payload type bytes) :
    type ≠ .startGroup := by
  cases h <;> nofun

/-- **A field is read from the front of a string** by `readField`, and what comes after it is
left. -/
theorem readField_append (h : IsField framed levels field bytes) (lacking : Nat) (rest : Bytes) :
    readField framed levels lacking (bytes ++ rest) = some (field, rest) := by
  cases h with
  | @plain number type payload tag bytes htag hpayload =>
    have hne := startGroup_ne_of_isPlain hpayload
    simp only [readField, List.append_assoc, readTag_of_isTag htag, Option.bind_eq_bind,
      Option.bind_some, readPlain_append hpayload]
  | @group number last start content stop hstart hcontent hstop =>
    simp only [readField, List.append_assoc, readTag_of_isTag hstart, Option.bind_eq_bind,
      Option.bind_some]
    rw [skipGroup_append hcontent (by omega), skipGroup_stop (readTag_of_isTag hstop _)]
    rfl

theorem readFields_nil : readFields framed levels lacking [] = some [] := by
  rw [readFields]

/-- The first field of a string (`readField`), and those after it. -/
theorem readFields_eq_bind (hne : bytes ≠ []) : readFields framed levels lacking bytes =
    (readField framed levels lacking bytes).bind fun (field, rest) =>
      (readFields framed levels lacking rest).map (field :: ·) := by
  cases bytes with
  | nil => exact absurd rfl hne
  | cons b bytes =>
    rw [readFields]
    split
    · next hread => simp only [hread, Option.bind_some]
    · next hread => simp only [hread, Option.bind_none]

theorem readFields_cons (h : readField framed levels lacking bytes = some (field, rest)) :
    readFields framed levels lacking bytes =
      (readFields framed levels lacking rest).map (field :: ·) := by
  have hne : bytes ≠ [] := by
    rintro rfl
    cases h
  rw [readFields_eq_bind hne, h, Option.bind_some]

/-- **Reading goes on behind a row** of fields (`IsRow`). -/
theorem readFields_append (h : IsRow framed levels fields bytes) (lacking : Nat) (rest : Bytes) :
    readFields framed levels lacking (bytes ++ rest) =
      (readFields framed levels lacking rest).map (fields ++ ·) := by
  induction h with
  | nil => simp
  | @cons field fields bytes after hfield _ ih =>
    rw [List.append_assoc, readFields_cons (readField_append hfield lacking _), ih, Option.map_map]
    rfl

theorem IsRow.singleton (h : IsField framed levels field bytes) :
    IsRow framed levels [field] bytes := by
  have hrow := IsRow.cons h .nil
  rwa [List.append_nil] at hrow

/-! ### Frames that are cut off -/

theorem takeBytes_of_lack {content : Bytes} {lack : Nat} :
    takeBytes lacking (content.length + lack) content =
      if lack ≤ lacking then some (content, []) else none := by
  have htake : content.take (content.length + lack) = content :=
    List.take_of_length_le (Nat.le_add_right _ _)
  have hdrop : content.drop (content.length + lack) = [] :=
    List.drop_eq_nil_of_le (Nat.le_add_right _ _)
  simp only [takeBytes, htake, hdrop, Nat.add_le_add_iff_left]

/-- A frame at the end of a string may lack what the message around it lacks, `lacking`. -/
theorem readField_of_isHeader {tag length content : Bytes} {lack : Nat}
    (hframed : framed number = true) (h : IsHeader number content lack tag length)
    (levels lacking : Nat) :
    readField framed levels lacking (tag ++ (length ++ content)) =
      if lack ≤ lacking then some (⟨number, .bytes content lack⟩, []) else none := by
  have hlength : readLength true (length ++ content) = some (content.length + lack, content) :=
    readLength_append h.length content
  simp only [readField, readTag_of_isTag h.tag, Option.bind_eq_bind, Option.bind_some, readPlain,
    readDelimited, hframed, hlength, if_pos, takeBytes_of_lack]
  split
  · simp only [Option.bind_some, Nat.add_sub_cancel_left]
  · rfl

/-! ### What may be lacking -/

section Lacking

variable {lacking' : Nat} (hle : lacking ≤ lacking')
include hle

end Lacking

end TensorGraph.Wire
