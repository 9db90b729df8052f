import TensorGraph.Proofs.Wire.Field
import TensorGraph.Wire.Message

/-! # Messages that are read back

A kind of values is **lossless** when a value is read back from the payload that it is written with,
and is left out only when it is the default. A rule **restores** a message from another one when the
payloads that it writes for the first message turn the second one into a third one. A codec
**recovers** a message when the message is read back from what it is written as; a codec made of
rules does so when its rules restore the message from the empty one, one after the other, and their
last steps lead to the message (`Codec.recovers_ofRules`).

Lists are gathered from the front, so that rules for lists restore them turned round. -/

namespace TensorGraph.Wire

variable {σ α β : Type}

/-! ### Values -/

/-- Values are read back from their payloads by `read`, and only `default` is left out. -/
structure Scalar.Lossless (kind : Scalar α) (default : α) : Prop where
  read_write : ∀ a, kind.read (kind.write a) = .value a
  eq_of_omits : ∀ a, kind.omits a = true → a = default
  whole : ∀ a, (kind.write a).Whole

/-- Numbers are read back as well when they are packed (`unpack`), and alone they have no
content. -/
structure Numeric.Lossless (kind : Numeric α) (default : α) : Prop where
  scalar : kind.toScalar.Lossless default
  unpack_pack : ∀ values, kind.unpack (kind.pack values) = some values
  content : ∀ a, (kind.write a).content = []

theorem toList_loop (bytes : ByteArray) (i : Nat) (r : List UInt8) :
    ByteArray.toList.loop bytes i r = r.reverse ++ bytes.data.toList.drop i := by
  fun_induction ByteArray.toList.loop bytes i r with
  | case1 i r hlt ih =>
    have hi : i < bytes.data.toList.length := hlt
    have hbyte : bytes.get! i = bytes.data.toList[i] := by
      show bytes.data[i]! = _
      rw [getElem!_pos bytes.data i hlt, Array.getElem_toList]
    rw [ih, List.reverse_cons, List.append_assoc, List.singleton_append, hbyte,
      ← List.drop_eq_getElem_cons hi]
  | case2 i r hle =>
    have hend : bytes.data.toList.length ≤ i := Nat.le_of_not_lt hle
    rw [List.drop_eq_nil_of_le hend, List.append_nil]

theorem toByteArray_toList (bytes : ByteArray) : bytes.toList.toByteArray = bytes := by
  have hlist : bytes.toList = bytes.data.toList := toList_loop bytes 0 []
  refine ByteArray.ext (Array.toList_inj.1 ?_)
  rw [List.toList_data_toByteArray, hlist]

namespace Scalar

theorem lossless_string : string.Lossless "" where
  read_write s := by
    have hback : String.fromUTF8? s.toByteArray = some s := by
      rw [String.fromUTF8?, dif_pos s.isValidUTF8]
      rfl
    simp only [string, toByteArray_toList, hback]
  eq_of_omits s h := by simpa [string] using h
  whole _ := rfl

theorem length_string (s : String) : (string.write s).content.length = s.utf8ByteSize := by
  show s.toByteArray.toList.length = s.toByteArray.size
  rw [← List.size_toByteArray, toByteArray_toList]

theorem lossless_bytes : bytes.Lossless [] where
  read_write _ := rfl
  eq_of_omits content h := by simpa [bytes] using h
  whole _ := rfl

end Scalar

namespace Numeric

/-- What `g` reads back one by one is read back as a list. -/
theorem map_map_cancel {f : α → β} {g : β → α} (h : ∀ a, g (f a) = a) (values : List α) :
    (values.map f).map g = values := by
  rw [List.map_map]
  exact List.map_id'' h values

theorem mapM_map_cancel {f : α → β} {g : β → Option α} (h : ∀ a, g (f a) = some a)
    (values : List α) : (values.map f).mapM g = some values := by
  induction values with
  | nil => rfl
  | cons a values ih =>
    rw [List.map_cons, List.mapM_cons, h, ih]
    rfl

/-- Numbers of 64 bits that are written one after the other are read back by `Varint.readAll`. -/
theorem readAll_pack (code : α → UInt64) (values : List α) :
    Varint.readAll (values.flatMap fun a => Varint.write64 (code a).toNat) =
      some (values.map fun a => (code a).toNat) := by
  rw [← List.flatMap_map]
  refine Varint.readAll_flatMap fun n hn => ?_
  obtain ⟨a, -, rfl⟩ := List.mem_map.1 hn
  exact (code a).toNat_lt

theorem lossless_uint64 : uint64.Lossless 0 where
  scalar := ⟨fun _ => rfl, fun n h => by simpa [uint64] using h, fun _ => trivial⟩
  unpack_pack values := by
    show (Varint.readAll (values.flatMap fun n => Varint.write64 n.toNat)).map _ = _
    rw [readAll_pack fun n : UInt64 => n, Option.map_some, map_map_cancel fun n => by simp]
  content _ := rfl

theorem lossless_int64 : int64.Lossless 0 where
  scalar := ⟨fun n => by simp [int64], fun n h => by simpa [int64] using h, fun _ => trivial⟩
  unpack_pack values := by
    show (Varint.readAll (values.flatMap fun n => Varint.write64 n.toUInt64.toNat)).map _ = _
    rw [readAll_pack Int64.toUInt64, Option.map_some, map_map_cancel fun n => by simp]
  content _ := rfl

theorem int32OfVarint?_eq (n : Int32) : int32OfVarint? n.toInt64.toUInt64 = some n := by
  have hint : n.toInt64.toUInt64.toInt64.toInt = n.toInt := by simp
  have hle := n.le_toInt
  have hlt := n.toInt_lt
  unfold int32OfVarint?
  simp only [hint]
  rw [if_pos ⟨by omega, by omega⟩, Int32.ofInt_toInt]

theorem lossless_int32 : int32.Lossless 0 where
  scalar := ⟨fun n => by simp [int32, int32OfVarint?_eq], fun n h => by simpa [int32] using h,
    fun _ => trivial⟩
  unpack_pack values := by
    show (Varint.readAll (values.flatMap fun n => Varint.write64 n.toInt64.toUInt64.toNat)).bind
      (fun numbers => numbers.mapM fun n => int32OfVarint? (.ofNat n)) = _
    rw [readAll_pack fun n : Int32 => n.toInt64.toUInt64, Option.bind_some,
      mapM_map_cancel fun n => by rw [UInt64.ofNat_toNat, int32OfVarint?_eq]]
  content _ := rfl

/-- Words that are written one after the other are read back by `unpackWords`. -/
theorem unpackWords_pack {width : Nat} (hwidth : 0 < width) {code : α → Nat}
    (h : ∀ a, code a < Word.room width) (values : List α) :
    unpackWords width (values.flatMap fun a => Word.toBytes width (code a)) =
      some (values.map code) := by
  rw [← List.flatMap_map]
  have hlength : ((values.map code).flatMap (Word.toBytes width)).length =
      (values.map code).length * width := by
    rw [List.length_flatMap]
    simp only [Word.length_toBytes, List.map_const', List.sum_replicate_nat]
  rw [unpackWords, hlength, if_pos (Nat.mul_mod_left _ _), Nat.mul_div_cancel _ hwidth,
    Word.split_flatMap fun word hword => ?_]
  obtain ⟨a, -, rfl⟩ := List.mem_map.1 hword
  exact h a

theorem lossless_float : float.Lossless .zero where
  scalar := ⟨fun _ => rfl, fun x h => by cases x; simpa [float, Binary32.zero] using h,
    fun _ => trivial⟩
  unpack_pack values := by
    show (unpackWords 4 (values.flatMap fun x => Word.toBytes 4 x.bits.toNat)).map _ = _
    rw [unpackWords_pack (by decide) fun x : Binary32 => x.bits.toNat_lt, Option.map_some,
      map_map_cancel fun x => by simp [Binary32.ofWord]]
  content _ := rfl

theorem lossless_double : double.Lossless 0 where
  scalar := ⟨fun _ => rfl, fun x h => by simpa [double] using h, fun _ => trivial⟩
  unpack_pack values := by
    show (unpackWords 8 (values.flatMap fun bits => Word.toBytes 8 bits.toNat)).map _ = _
    rw [unpackWords_pack (by decide) UInt64.toNat_lt, Option.map_some,
      map_map_cancel fun bits => by simp]
  content _ := rfl

end Numeric

/-! ### Messages -/

/-- The message `s` is read back, whatever is lacking after it, if what it is written as has a
size. -/
def Codec.Recovers (codec : Codec σ) (s : σ) : Prop :=
  (codec.write s).length < Size.bound → ∀ lacking, codec.read lacking (codec.write s) = some s

/-- What is put into a part of a message is got from there, and only the part is changed. -/
structure Part.Lawful (part : Part σ α) : Prop where
  get_set : ∀ a s, part.get (part.set a s) = a := by intros; rfl
  set_set : ∀ a b s, part.set a (part.set b s) = part.set a s := by intros; rfl
  set_get : ∀ s, part.set (part.get s) s = s := by intro s; cases s; rfl

/-- The payloads that the rule writes for `s` turn `t` into `u`, if their contents have sizes. The
reader takes them: they are whole, and short unless the field is a frame. -/
structure Rule.Restores (r : Rule σ) (s t u : σ) : Prop where
  whole : ∀ payload ∈ r.write s, payload.Whole
  short : r.framed = false → ∀ payload ∈ r.write s, payload.content.length < 0x100000000
  read : (∀ payload ∈ r.write s, payload.content.length < Size.bound) →
    (r.write s).foldlM (fun t payload => r.read payload t) t = some u

namespace Rule

variable {part : Part σ α} {number : Nat} {s t : σ} {default : α}

/-- The part in question is still the `default` in the message that is restored from. -/
theorem restores_single {kind : Scalar α} (hkind : kind.Lossless default) (hpart : part.Lawful)
    (ht : part.get t = default)
    (hshort : (kind.write (part.get s)).content.length < 0x100000000) :
    (single number kind part).Restores s t (part.set (part.get s) t) := by
  have hwrite : (single number kind part).write s =
      if kind.omits (part.get s) then [] else [kind.write (part.get s)] := rfl
  cases homits : kind.omits (part.get s) with
  | true =>
    rw [homits, if_pos rfl] at hwrite
    refine ⟨by simp [hwrite], by simp [hwrite], fun _ => ?_⟩
    rw [hwrite, hkind.eq_of_omits _ homits, ← ht, hpart.set_get]
    rfl
  | false =>
    rw [homits, if_neg Bool.false_ne_true] at hwrite
    refine ⟨by simpa [hwrite] using hkind.whole _, fun _ => by simpa [hwrite] using hshort,
      fun _ => ?_⟩
    rw [hwrite]
    show take (kind.read (kind.write (part.get s))) part.set t >>= pure = _
    rw [hkind.read_write]
    rfl

theorem restores_number {kind : Numeric α} (hkind : kind.Lossless default) (hpart : part.Lawful)
    (ht : part.get t = default) :
    (single number kind.toScalar part).Restores s t (part.set (part.get s) t) := by
  refine restores_single hkind.scalar hpart ht ?_
  rw [hkind.content]
  decide

theorem restores_text {part : Part σ String} (hpart : part.Lawful) (ht : part.get t = "")
    (h : (part.get s).utf8ByteSize < 0x100000000) :
    (single number .string part).Restores s t (part.set (part.get s) t) :=
  restores_single Scalar.lossless_string hpart ht (by rwa [Scalar.length_string])

theorem restores_bytes {part : Part σ Bytes} (hpart : part.Lawful) (ht : part.get t = [])
    (h : (part.get s).length < 0x100000000) :
    (single number .bytes part).Restores s t (part.set (part.get s) t) :=
  restores_single Scalar.lossless_bytes hpart ht h

section Lists

variable {part : Part σ (List α)}

theorem gather_nil (hpart : part.Lawful) (t : σ) : gather part [] t = t := hpart.set_get t

theorem gather_append (hpart : part.Lawful) (values more : List α) (t : σ) :
    gather part (values ++ more) t = gather part more (gather part values t) := by
  simp only [gather, hpart.get_set, hpart.set_set, List.reverse_append, List.append_assoc]

/-- Values that are gathered one after the other are gathered together by `gather`. -/
theorem foldlM_gather (hpart : part.Lawful) {f : σ → Payload → Option σ} {write : α → Payload}
    {values : List α} (h : ∀ a ∈ values, ∀ t, f t (write a) = some (gather part [a] t)) (t : σ) :
    (values.map write).foldlM f t = some (gather part values t) := by
  induction values generalizing t with
  | nil =>
    rw [gather_nil hpart]
    rfl
  | cons a values ih =>
    have hrest := ih (fun b hb => h b (List.mem_cons_of_mem _ hb)) (gather part [a] t)
    rw [← gather_append hpart, List.singleton_append] at hrest
    rw [List.map_cons, List.foldlM_cons, h a List.mem_cons_self]
    exact hrest

theorem restores_many {kind : Scalar α} (hkind : kind.Lossless default) (hpart : part.Lawful)
    (hshort : ∀ a ∈ part.get s, (kind.write a).content.length < 0x100000000) :
    (many number kind part).Restores s t (gather part (part.get s) t) where
  whole := List.forall_mem_map.2 fun a _ => hkind.whole a
  short _ := List.forall_mem_map.2 hshort
  read _ := by
    refine foldlM_gather hpart (fun a _ t => ?_) t
    show take (kind.read (kind.write a)) _ t = _
    rw [hkind.read_write]
    rfl

theorem restores_texts {part : Part σ (List String)} (hpart : part.Lawful)
    (h : ∀ text ∈ part.get s, text.utf8ByteSize < 0x100000000) :
    (many number .string part).Restores s t (gather part (part.get s) t) :=
  restores_many Scalar.lossless_string hpart fun text htext => by
    rw [Scalar.length_string]
    exact h text htext

theorem restores_packed {kind : Numeric α} (hkind : kind.Lossless default)
    (hpart : part.Lawful) :
    (packed number kind part).Restores s t (gather part (part.get s) t) := by
  have hwrite : (packed number kind part).write s =
      if (part.get s).isEmpty then [] else [.bytes (kind.pack (part.get s)) 0] := rfl
  cases hempty : (part.get s).isEmpty with
  | true =>
    rw [hempty, if_pos rfl] at hwrite
    refine ⟨by simp [hwrite], by simp [hwrite], fun _ => ?_⟩
    rw [hwrite, List.isEmpty_iff.1 hempty, gather_nil hpart]
    rfl
  | false =>
    rw [hempty, if_neg Bool.false_ne_true] at hwrite
    refine ⟨by simp [hwrite, Payload.Whole], nofun, fun _ => ?_⟩
    rw [hwrite]
    show (kind.unpack (kind.pack (part.get s))).map (fun values => gather part values t) >>=
      pure = _
    rw [hkind.unpack_pack]
    rfl

theorem restores_messages {codec : Codec α} (hcodec : ∀ m ∈ part.get s, codec.Recovers m)
    (hpart : part.Lawful) :
    (messages number codec part).Restores s t (gather part (part.get s) t) where
  whole := List.forall_mem_map.2 fun _ _ => rfl
  short := nofun
  read hsize := by
    refine foldlM_gather hpart (fun m hm t => ?_) t
    show (codec.read 0 (codec.write m)).map _ = _
    rw [hcodec m hm (List.forall_mem_map.1 hsize m hm)]
    rfl

end Lists

section Options

variable {part : Part σ (Option α)}

theorem restores_message {codec : Codec α} (hcodec : ∀ m, part.get s = some m → codec.Recovers m)
    (hpart : part.Lawful) (ht : part.get t = none) :
    (message number codec part).Restores s t (part.set (part.get s) t) := by
  have hwrite : (message number codec part).write s =
      (part.get s).toList.map fun m => .bytes (codec.write m) 0 := rfl
  cases hm : part.get s with
  | none =>
    rw [hm] at hwrite
    refine ⟨by simp [hwrite], by simp [hwrite], fun _ => ?_⟩
    have hset : part.set none t = t := by rw [← ht, hpart.set_get]
    rw [hwrite, hset]
    rfl
  | some m =>
    rw [hm] at hwrite
    refine ⟨by simp [hwrite, Payload.Whole], nofun, fun hsize => ?_⟩
    have hlength : (codec.write m).length < Size.bound := hsize (.bytes (codec.write m) 0)
      (by simp [hwrite])
    rw [hwrite]
    show (codec.read 0 (codec.write m)).map _ >>= pure = _
    rw [hcodec m hm hlength]
    rfl

/-- The choice that this field stands for is made, and any other one is left alone. -/
theorem restores_choice {d : β} {kind : Scalar β} (hkind : kind.Lossless d) {put : β → α}
    {seen : α → Option β}
    (hshort : ∀ b ∈ (part.get s).bind seen, (kind.write b).content.length < 0x100000000) :
    (choice number kind put seen part).Restores s t
      (((part.get s).bind seen).elim t fun b => part.set (some (put b)) t) := by
  have hwrite : (choice number kind put seen part).write s =
      ((part.get s).bind seen).toList.map kind.write := rfl
  cases hb : (part.get s).bind seen with
  | none =>
    rw [hb] at hwrite
    refine ⟨by simp [hwrite], by simp [hwrite], fun _ => ?_⟩
    rw [hwrite]
    rfl
  | some b =>
    rw [hb] at hwrite
    refine ⟨by simpa [hwrite] using hkind.whole b, fun _ => by simpa [hwrite] using hshort b hb,
      fun _ => ?_⟩
    rw [hwrite]
    show take (kind.read (kind.write b)) _ t >>= pure = _
    rw [hkind.read_write]
    rfl

end Options
end Rule

/-! ### The last steps -/

section Finish

variable {number : Nat} {s : σ}

@[simp] theorem finishAll_nil : finishAll [] s = s := rfl

@[simp] theorem finishAll_cons {r : Rule σ} {rules : List (Rule σ)} :
    finishAll (r :: rules) s = finishAll rules (r.finish s) := rfl

namespace Rule

@[simp] theorem finish_single {kind : Scalar α} {part : Part σ α} :
    (single number kind part).finish s = s := rfl

@[simp] theorem finish_choice {kind : Scalar α} {put : α → β} {seen : β → Option α}
    {part : Part σ (Option β)} : (choice number kind put seen part).finish s = s := rfl

@[simp] theorem finish_message {codec : Codec α} {part : Part σ (Option α)} :
    (message number codec part).finish s = s := rfl

@[simp] theorem finish_many {kind : Scalar α} {part : Part σ (List α)} :
    (many number kind part).finish s = part.set (part.get s).reverse s := rfl

@[simp] theorem finish_packed {kind : Numeric α} {part : Part σ (List α)} :
    (packed number kind part).finish s = part.set (part.get s).reverse s := rfl

@[simp] theorem finish_messages {codec : Codec α} {part : Part σ (List α)} :
    (messages number codec part).finish s = part.set (part.get s).reverse s := rfl

end Rule
end Finish

/-! ### All rules -/

/-- The rules restore `s` from `t`, one after the other, and end in `u`. -/
inductive RestoresAll (s : σ) : List (Rule σ) → σ → σ → Prop
  | nil (t : σ) : RestoresAll s [] t t
  | cons {r : Rule σ} {rules : List (Rule σ)} {t u v : σ} (h : r.Restores s t u)
      (hrest : RestoresAll s rules u v) : RestoresAll s (r :: rules) t v

/-- The `numbers` are numbers of fields, in ascending order. -/
def Numbered (numbers : List Nat) : Prop :=
  numbers.Pairwise (· < ·) ∧ ∀ n ∈ numbers, 0 < n ∧ n < 0x20000000

instance (numbers : List Nat) : Decidable (Numbered numbers) :=
  inferInstanceAs (Decidable (_ ∧ _))

section Format

variable {rules part : List (Rule σ)} {r : Rule σ} {levels lacking : Nat} {s t u empty : σ}

/-- A rule is found by `ruleOf?` if the numbers ascend. -/
theorem ruleOf?_eq (h : (rules.map (·.number)).Pairwise (· < ·)) (hr : r ∈ rules) :
    ruleOf? rules r.number = some r := by
  unfold ruleOf?
  induction rules with
  | nil => cases hr
  | cons first rules ih =>
    rw [List.map_cons, List.pairwise_cons] at h
    rcases List.mem_cons.1 hr with rfl | hr
    · rw [List.find?_cons, beq_self_eq_true]
    · have hlt : first.number < r.number := h.1 _ (List.mem_map.2 ⟨r, hr, rfl⟩)
      rw [List.find?_cons, beq_eq_false_iff_ne.2 (Nat.ne_of_lt hlt)]
      exact ih h.2 hr

theorem RestoresAll.exists_of_mem (h : RestoresAll s rules t u) (hr : r ∈ rules) :
    ∃ v w, r.Restores s v w := by
  induction h with
  | nil t => cases hr
  | cons h _ ih =>
    rcases List.mem_cons.1 hr with rfl | hr
    · exact ⟨_, _, h⟩
    · exact ih hr

theorem length_content_le_write (field : Field) :
    field.payload.content.length ≤ field.write.length := by
  obtain ⟨number, payload⟩ := field
  cases payload with
  | bytes content lacking =>
    simp only [Payload.content, Field.write, writeDelimited, List.length_append]
    omega
  | _ => exact Nat.zero_le _

theorem length_le_flatMap {f : α → List β} {l : List α} {a : α} (ha : a ∈ l) :
    (f a).length ≤ (l.flatMap f).length := by
  obtain ⟨before, after, rfl⟩ := List.append_of_mem ha
  simp only [List.flatMap_append, List.flatMap_cons, List.length_append]
  omega

/-- The fields of the rules in `part` turn a message into what these rules restore
(`RestoresAll`). -/
theorem foldlM_applyField (hrules : ∀ r ∈ part, ruleOf? rules r.number = some r)
    (h : RestoresAll s part t u)
    (hsize : ∀ field ∈ fieldsOf part s, field.payload.content.length < Size.bound) :
    (fieldsOf part s).foldlM (applyField rules) t = some u := by
  induction h with
  | nil t => rfl
  | @cons r part t u v h _ ih =>
    have hfields : fieldsOf (r :: part) s =
        (r.write s).map (fun payload => ⟨r.number, payload⟩) ++ fieldsOf part s := rfl
    rw [hfields] at hsize ⊢
    rw [List.forall_mem_append, List.forall_mem_map] at hsize
    have happly : ∀ t payload, applyField rules t ⟨r.number, payload⟩ = r.read payload t := by
      intro t payload
      rw [applyField, hrules r List.mem_cons_self]
    rw [List.foldlM_append, List.foldlM_map]
    simp only [happly]
    rw [h.read hsize.1]
    exact ih (fun r hr => hrules r (List.mem_cons_of_mem _ hr)) hsize.2

/-- **A codec recovers what its rules restore** (`RestoresAll`): the fields are written in ascending
order of their numbers, each rule restores its part, and the last steps lead to the message. -/
theorem Codec.recovers_ofRules (numbers : List Nat) (hnumbers : rules.map (·.number) = numbers)
    (hnumbered : Numbered numbers) (h : RestoresAll s rules empty t)
    (hend : finishAll rules t = s) : (Codec.ofRules rules levels empty).Recovers s := by
  intro hsize lacking
  subst hnumbers
  have hrules : ∀ r ∈ rules, ruleOf? rules r.number = some r :=
    fun r hr => ruleOf?_eq hnumbered.1 hr
  have hcontent : ∀ field ∈ fieldsOf rules s, field.payload.content.length < Size.bound :=
    fun field hfield => Nat.lt_of_le_of_lt
      (Nat.le_trans (length_content_le_write field) (length_le_flatMap hfield)) hsize
  have hreadable : ∀ field ∈ fieldsOf rules s, field.Readable (isFramed rules) := by
    intro field hfield
    obtain ⟨r, hr, hwritten⟩ := List.mem_flatMap.1 hfield
    obtain ⟨payload, hpayload, rfl⟩ := List.mem_map.1 hwritten
    obtain ⟨v, w, hrestores⟩ := h.exists_of_mem hr
    obtain ⟨hpos, hlt⟩ := hnumbered.2 r.number (List.mem_map.2 ⟨r, hr, rfl⟩)
    refine ⟨hpos, hlt, hrestores.whole payload hpayload, ?_⟩
    have hframed : isFramed rules r.number = r.framed := by rw [isFramed, hrules r hr]
    simp only [hframed]
    cases hframe : r.framed with
    | true => exact hcontent _ hfield
    | false => exact hrestores.short hframe payload hpayload
  show (readFields _ levels lacking ((fieldsOf rules s).flatMap Field.write)).bind _ = _
  rw [readFields_flatMap hreadable, Option.bind_some, foldlM_applyField hrules h hcontent,
    Option.map_some, hend]

end Format
end TensorGraph.Wire
