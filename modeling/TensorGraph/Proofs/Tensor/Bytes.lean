import TensorGraph.Proofs.Check
import TensorGraph.Tensor.Bytes

/-! # Tensors and their bytes

A word of a given width is the same as its bytes: the bytes of a number below `Word.room` give the
number back, and the number that bytes give has these bytes. So a string whose length is a multiple
of the width is the same as the words it is split into.

The elements of a tensor are the words of their bit patterns, and the bytes of a tensor are those of
its words. A tensor is therefore read from a string exactly when the string is as long as the bytes
of the shape and kind are counted, and then it is the tensor with these bytes
(`Tensor.ofBytes_eq_ok`). -/

namespace TensorGraph

/-! ### Words -/

namespace Word

/-- The first number for which a word of the given width has no room, `256 ^ width`. -/
def room : Nat → Nat
  | 0 => 1
  | width + 1 => 256 * room width

theorem ofBytes_toBytes {width n : Nat} (h : n < room width) : ofBytes (toBytes width n) = n := by
  induction width generalizing n with
  | zero => exact (Nat.lt_one_iff.1 h).symm
  | succ width ih =>
    have hrest : n / 256 < room width := Nat.div_lt_of_lt_mul h
    have hbyte : (UInt8.ofNat n).toNat = n % 256 := UInt8.toNat_ofNat
    show (UInt8.ofNat n).toNat + 256 * ofBytes (toBytes width (n / 256)) = n
    rw [ih hrest, hbyte]
    omega

/-- A word has `room` for the number of its bytes. -/
theorem ofBytes_lt (bytes : Bytes) : ofBytes bytes < room bytes.length := by
  induction bytes with
  | nil => exact Nat.one_pos
  | cons b bytes ih =>
    have hbyte : b.toNat < 256 := b.toNat_lt
    show b.toNat + 256 * ofBytes bytes < 256 * room bytes.length
    omega

/-- The bytes (`toBytes`) of the number that some bytes give (`ofBytes`) are these. -/
theorem toBytes_ofBytes (bytes : Bytes) : toBytes bytes.length (ofBytes bytes) = bytes := by
  induction bytes with
  | nil => rfl
  | cons b bytes ih =>
    have hbyte : b.toNat < 256 := b.toNat_lt
    have hfirst : UInt8.ofNat (b.toNat + 256 * ofBytes bytes) = b := by
      apply UInt8.toNat_inj.1
      rw [UInt8.toNat_ofNat']
      omega
    have hrest : (b.toNat + 256 * ofBytes bytes) / 256 = ofBytes bytes := by omega
    show UInt8.ofNat (b.toNat + 256 * ofBytes bytes) ::
      toBytes bytes.length ((b.toNat + 256 * ofBytes bytes) / 256) = b :: bytes
    rw [hfirst, hrest, ih]

/-- The bytes of a number are its digits, the least significant one first. -/
theorem getElem?_toBytes {count n k : Nat} (hk : k < count) :
    (toBytes count n)[k]? = some (UInt8.ofNat (n / room k)) := by
  induction k generalizing count n with
  | zero =>
    obtain ⟨count, rfl⟩ : ∃ rest, count = rest + 1 := ⟨count - 1, by omega⟩
    rw [toBytes, List.getElem?_cons_zero, room, Nat.div_one]
  | succ k ih =>
    obtain ⟨count, rfl⟩ : ∃ rest, count = rest + 1 := ⟨count - 1, by omega⟩
    rw [toBytes, List.getElem?_cons_succ, ih (by omega), Nat.div_div_eq_div_mul, room]

/-- Words that are written one after the other are all read back by `split`. -/
theorem split_flatMap {width : Nat} {words : List Nat} (h : ∀ word ∈ words, word < room width) :
    split width words.length (words.flatMap (toBytes width)) = words := by
  induction words with
  | nil => rfl
  | cons word words ih =>
    have hlength : (toBytes width word).length = width := length_toBytes width word
    rw [List.flatMap_cons, List.length_cons, split, List.take_left' hlength,
      List.drop_left' hlength, ofBytes_toBytes (h word List.mem_cons_self),
      ih fun w hw => h w (List.mem_cons_of_mem _ hw)]

/-- A string that `split` cuts into words is read off them again. -/
theorem flatMap_split {width count : Nat} {bytes : Bytes} (h : bytes.length = count * width) :
    (split width count bytes).flatMap (toBytes width) = bytes := by
  induction count generalizing bytes with
  | zero =>
    rw [Nat.zero_mul] at h
    exact (List.eq_nil_of_length_eq_zero h).symm
  | succ count ih =>
    rw [Nat.succ_mul] at h
    have hfirst : (bytes.take width).length = width := by
      rw [List.length_take]
      omega
    have hrest : (bytes.drop width).length = count * width := by
      rw [List.length_drop]
      omega
    have hword : toBytes width (ofBytes (bytes.take width)) = bytes.take width := by
      have hbytes := toBytes_ofBytes (bytes.take width)
      rwa [hfirst] at hbytes
    rw [split, List.flatMap_cons, hword, ih hrest, List.take_append_drop]

theorem lt_of_mem_split {width count : Nat} {bytes : Bytes} (h : bytes.length = count * width)
    {word : Nat} (hword : word ∈ split width count bytes) : word < room width := by
  induction count generalizing bytes with
  | zero => cases hword
  | succ count ih =>
    rw [Nat.succ_mul] at h
    rcases List.mem_cons.1 hword with rfl | hword
    · have hlt := ofBytes_lt (bytes.take width)
      rwa [List.length_take, Nat.min_eq_left (by omega)] at hlt
    · refine ih ?_ hword
      rw [List.length_drop]
      omega

theorem length_flatMap_toBytes (width : Nat) (words : List Nat) :
    (words.flatMap (toBytes width)).length = words.length * width := by
  induction words with
  | nil => exact (Nat.zero_mul width).symm
  | cons word words ih =>
    rw [List.flatMap_cons, List.length_append, length_toBytes, ih, List.length_cons, Nat.succ_mul,
      Nat.add_comm]

/-- In a string of words of `width` bytes, each word stands at the place that its number gives. -/
theorem getElem?_flatMap_toBytes {width : Nat} {words : List Nat} {i k : Nat} (hk : k < width) :
    (words.flatMap (toBytes width))[i * width + k]? =
      words[i]?.map fun word => UInt8.ofNat (word / room k) := by
  induction words generalizing i with
  | nil => simp
  | cons word words ih =>
    have hlength : (toBytes width word).length = width := length_toBytes width word
    rw [List.flatMap_cons]
    cases i with
    | zero =>
      rw [Nat.zero_mul, Nat.zero_add, List.getElem?_append_left (by omega), getElem?_toBytes hk]
      rfl
    | succ i =>
      have hplace : (i + 1) * width + k - width = i * width + k := by
        rw [Nat.succ_mul]
        omega
      rw [List.getElem?_append_right (by rw [hlength, Nat.succ_mul]; omega), hlength, hplace, ih]
      rfl

end Word

/-! ### Elements -/

theorem ElementKind.width_pos (kind : ElementKind) : 0 < kind.width := by
  cases kind <;> decide

namespace Elements

/-- The bit patterns of the elements, in order. -/
def words : Elements → List Nat
  | float values => values.toList.map fun x => x.bits.toNat
  | index values => values.toList.map fun i => i.toUInt64.toNat

/-- The elements with the given bit patterns. -/
def ofWords (kind : ElementKind) (words : List Nat) : Elements :=
  match kind with
  | .float => float (words.map Binary32.ofWord).toArray
  | .index => index (words.map Index.ofWord).toArray

theorem ofBytes_eq_ofWords (kind : ElementKind) (count : Nat) (bytes : Bytes) :
    ofBytes kind count bytes = ofWords kind (Word.split kind.width count bytes) := by
  cases kind <;> rfl

theorem toBytes_eq_flatMap (elements : Elements) :
    elements.toBytes = elements.words.flatMap (Word.toBytes elements.kind.width) := by
  cases elements <;> simp only [toBytes, words, kind, List.flatMap_map] <;> rfl

@[simp] theorem length_words (elements : Elements) : elements.words.length = elements.size := by
  cases elements <;> simp [words, size]

theorem lt_of_mem_words {elements : Elements} {word : Nat} (h : word ∈ elements.words) :
    word < Word.room elements.kind.width := by
  cases elements with
  | float values =>
    obtain ⟨x, -, rfl⟩ := List.mem_map.1 h
    exact x.bits.toNat_lt
  | index values =>
    obtain ⟨i, -, rfl⟩ := List.mem_map.1 h
    exact i.toUInt64.toNat_lt

@[simp] theorem kind_ofWords (kind : ElementKind) (words : List Nat) :
    (ofWords kind words).kind = kind := by
  cases kind <;> rfl

theorem ofWord_bits (x : Binary32) : Binary32.ofWord x.bits.toNat = x := by
  rw [Binary32.ofWord, UInt32.ofNat_toNat]

theorem ofWord_toUInt64 (i : Int64) : Index.ofWord i.toUInt64.toNat = i := by
  rw [Index.ofWord, UInt64.ofNat_toNat]
  rfl

/-- Elements are given by their bit patterns, `words`. -/
theorem ofWords_words (elements : Elements) : ofWords elements.kind elements.words = elements := by
  cases elements with
  | float values =>
    have hwords := List.map_congr_left fun x (_ : x ∈ values.toList) => ofWord_bits x
    simp only [ofWords, words, kind, List.map_map, Function.comp_def, hwords, List.map_id']
  | index values =>
    have hwords := List.map_congr_left fun i (_ : i ∈ values.toList) => ofWord_toUInt64 i
    simp only [ofWords, words, kind, List.map_map, Function.comp_def, hwords, List.map_id']

/-- All words of the width of the kind are bit patterns, so `words` gives them back. -/
theorem words_ofWords {kind : ElementKind} {words : List Nat}
    (h : ∀ word ∈ words, word < Word.room kind.width) : (ofWords kind words).words = words := by
  cases kind with
  | float =>
    have hword : ∀ word ∈ words, (Binary32.ofWord word).bits.toNat = word := fun word hword =>
      UInt32.toNat_ofNat_of_lt' (h word hword)
    simp only [ofWords, Elements.words, List.map_map]
    exact (List.map_congr_left hword).trans (List.map_id words)
  | index =>
    have hword : ∀ word ∈ words, (Index.ofWord word).toUInt64.toNat = word := fun word hword => by
      rw [Index.ofWord, UInt64.toUInt64_toInt64]
      exact UInt64.toNat_ofNat_of_lt' (h word hword)
    simp only [ofWords, Elements.words, List.map_map]
    exact (List.map_congr_left hword).trans (List.map_id words)

@[simp] theorem kind_ofBytes (kind : ElementKind) (count : Nat) (bytes : Bytes) :
    (ofBytes kind count bytes).kind = kind := by
  rw [ofBytes_eq_ofWords, kind_ofWords]

theorem length_toBytes (elements : Elements) :
    elements.toBytes.length = elements.size * elements.kind.width := by
  rw [toBytes_eq_flatMap, Word.length_flatMap_toBytes, length_words]

/-- The elements are read back by `ofBytes` from their bytes. -/
theorem ofBytes_toBytes (elements : Elements) :
    ofBytes elements.kind elements.size elements.toBytes = elements := by
  rw [ofBytes_eq_ofWords, toBytes_eq_flatMap, ← length_words,
    Word.split_flatMap fun word hword => lt_of_mem_words hword, ofWords_words]

/-- Elements of one kind are determined by `toBytes`. -/
theorem eq_of_toBytes {a b : Elements} (hkind : a.kind = b.kind) (h : a.toBytes = b.toBytes) :
    a = b := by
  have hsize : a.size = b.size := by
    have hlength := congrArg List.length h
    rw [length_toBytes, length_toBytes, hkind] at hlength
    exact Nat.eq_of_mul_eq_mul_right b.kind.width_pos hlength
  rw [← ofBytes_toBytes a, hkind, hsize, h, ofBytes_toBytes b]

/-- The elements that `ofBytes` reads from bytes have these bytes. -/
theorem toBytes_ofBytes {kind : ElementKind} {count : Nat} {bytes : Bytes}
    (h : bytes.length = count * kind.width) : (ofBytes kind count bytes).toBytes = bytes := by
  have hwords : ∀ word ∈ Word.split kind.width count bytes, word < Word.room kind.width :=
    fun word hword => Word.lt_of_mem_split h hword
  rw [toBytes_eq_flatMap, ofBytes_eq_ofWords, kind_ofWords, words_ofWords hwords,
    Word.flatMap_split h]

/-- The bytes of an element are the digits of its entry of `words`, the least significant one first,
and come after those of the elements before it. -/
theorem getElem?_toBytes {elements : Elements} {i k : Nat} (hk : k < elements.kind.width) :
    elements.toBytes[i * elements.kind.width + k]? =
      elements.words[i]?.map fun word => UInt8.ofNat (word / Word.room k) := by
  rw [toBytes_eq_flatMap, Word.getElem?_flatMap_toBytes hk]

end Elements

/-! ### Tensors -/

namespace Tensor

variable {kind : ElementKind} {dims : List Nat} {bytes : Bytes}

theorem length_toBytes (t : Tensor) : t.toBytes.length = volume t.dims * t.kind.width := by
  rw [toBytes, Elements.length_toBytes, t.size_elements]
  rfl

/-- **When a tensor is read.** It is read by `ofBytes` exactly from as many bytes as `countBytes`
gives for the kind and shape, and is the tensor of this kind and shape with these bytes. -/
theorem ofBytes_eq_ok {t : Tensor} : ofBytes kind dims bytes = .ok t ↔
    countBytes kind dims = .ok bytes.length ∧
      t.kind = kind ∧ t.dims = dims ∧ t.toBytes = bytes := by
  simp only [ofBytes, bind_eq_ok, check_eq_ok]
  constructor
  · rintro ⟨size, hsize, _, hlength, ht⟩
    cases ht
    have hvolume : bytes.length = volume dims * kind.width :=
      hlength.trans (eq_volume_of_countBytes hsize)
    exact ⟨hlength ▸ hsize, Elements.kind_ofBytes kind _ bytes, rfl,
      Elements.toBytes_ofBytes hvolume⟩
  · rintro ⟨hsize, rfl, rfl, rfl⟩
    refine ⟨_, hsize, (), rfl, congrArg Except.ok ?_⟩
    have helements : Elements.ofBytes t.kind (volume t.dims) t.toBytes = t.elements := by
      rw [← t.size_elements]
      exact Elements.ofBytes_toBytes t.elements
    obtain ⟨dims, elements, hsize⟩ := t
    simp only [mk.injEq, true_and]
    exact helements

/-- Some tensor is read exactly if there are as many bytes as `countBytes` gives. -/
theorem exists_ofBytes_eq_ok :
    (∃ t, ofBytes kind dims bytes = .ok t) ↔ countBytes kind dims = .ok bytes.length := by
  constructor
  · rintro ⟨t, ht⟩
    exact (ofBytes_eq_ok.1 ht).1
  · intro hsize
    have hcheck : check (bytes.length = bytes.length)
        (.byteCount bytes.length bytes.length : TensorError) = .ok () := check_eq_ok.2 rfl
    exact ⟨_, bind_eq_ok.2 ⟨_, hsize, bind_eq_ok.2 ⟨(), hcheck, rfl⟩⟩⟩

/-- **Tensors and their bytes.** A tensor whose bytes can be counted (`countBytes`) is read back
from its bytes, with every bit of its elements. From a string a tensor is read exactly if the string
is as long as the bytes of the kind and shape are counted, and the tensor has this kind and shape
and the string as its bytes (`toBytes`). In the bytes of a tensor those of the elements follow each
other, and each has its least significant byte first. -/
theorem bytes_round_trip :
    (∀ (t : Tensor) (size : Nat), countBytes t.kind t.dims = .ok size →
      t.toBytes.length = size ∧ ofBytes t.kind t.dims t.toBytes = .ok t) ∧
    (∀ (kind : ElementKind) (dims : List Nat) (bytes : Bytes),
      ((∃ t, ofBytes kind dims bytes = .ok t) ↔ countBytes kind dims = .ok bytes.length) ∧
      ∀ t, ofBytes kind dims bytes = .ok t → t.kind = kind ∧ t.dims = dims ∧ t.toBytes = bytes) ∧
    ∀ (t : Tensor) (i k : Nat), k < t.kind.width →
      t.toBytes[i * t.kind.width + k]? =
        t.elements.words[i]?.map fun word => UInt8.ofNat (word / Word.room k) := by
  refine ⟨fun t size hsize => ?_, fun kind dims bytes => ⟨exists_ofBytes_eq_ok, ?_⟩, ?_⟩
  · have hlength : t.toBytes.length = size :=
      (length_toBytes t).trans (eq_volume_of_countBytes hsize).symm
    exact ⟨hlength, ofBytes_eq_ok.2 ⟨hlength ▸ hsize, rfl, rfl, rfl⟩⟩
  · intro t ht
    exact (ofBytes_eq_ok.1 ht).2
  · intro t i k hk
    exact Elements.getElem?_toBytes hk

/-- A number that is none and the negative zero: all their bits are read back. -/
def oddFloats : Tensor := ⟨[2], .float #[⟨0x7fa00001⟩, ⟨0x80000000⟩], rfl⟩

theorem oddFloats_round_trip :
    countBytes oddFloats.kind oddFloats.dims = .ok 8 ∧
    oddFloats.toBytes = [0x01, 0x00, 0xa0, 0x7f, 0x00, 0x00, 0x00, 0x80] ∧
    ofBytes oddFloats.kind oddFloats.dims oddFloats.toBytes = .ok oddFloats ∧
    oddFloats.toBytes[1 * 4 + 3]? = some 0x80 := by
  obtain ⟨hread, -, hplace⟩ := bytes_round_trip
  have hsize : countBytes oddFloats.kind oddFloats.dims = .ok 8 := rfl
  exact ⟨hsize, by decide, (hread oddFloats 8 hsize).2, hplace oddFloats 1 3 (by decide)⟩

end Tensor
end TensorGraph
