import TensorGraph.Load.Materialize
import TensorGraph.Proofs.Tensor.Bytes
import TensorGraph.Proofs.Tensor.Counting

/-! # Tensors that are stored in records

A record stores the elements of a tensor in the list for their kind or, if that list is empty, as
raw bytes; what else it holds does not matter. The tensor of a record is the one that the record
**stores**: of the kind and shape that the record gives, with the elements of the list or with the
raw bytes as its bytes. There is such a tensor exactly if the list or the raw bytes are as long as
the shape asks for.

The list and the bytes are read on different ways, and their lengths are counted in different units.
Since elements of a kind are determined by their bytes, both ways give the same tensor. -/

namespace TensorGraph

open Onnx

/-! ### Kinds, shapes and counts -/

/-- The element type of a kind of elements, which `ElementKind.ofCode` takes back to it. -/
def ElementKind.code : ElementKind → Int32
  | .float => floatCode
  | .index => int64Code

theorem ElementKind.ofCode_eq_ok {name : String} {code : Int32} {kind : ElementKind} :
    ElementKind.ofCode name code = .ok kind ↔ code = kind.code := by
  have hne : int64Code ≠ floatCode := by decide
  unfold ElementKind.ofCode
  split
  · next h =>
    subst h
    cases kind <;> simp [ElementKind.code, hne.symm]
  split
  · next h =>
    subst h
    cases kind <;> simp [ElementKind.code, hne]
  · next hfloat hindex => cases kind <;> simp [ElementKind.code, hfloat, hindex]

theorem ElementKind.code_injective {kind other : ElementKind} (h : kind.code = other.code) :
    kind = other := by
  have hne : floatCode ≠ int64Code := by decide
  cases kind <;> cases other
  · rfl
  · exact absurd h hne
  · exact absurd h.symm hne
  · rfl

theorem fixedDims_eq_ok {name : String} {given : List Int64} {dims : List Nat} :
    fixedDims name given = .ok dims ↔
      List.Forall₂ (fun (d : Int64) (n : Nat) => d.toInt = n) given dims := by
  simp only [fixedDims, mapM_eq_ok, found_eq_ok, Size.ofInt?_eq_some]

/-- A positive number of bytes is counted by `countBytes` for just the shapes of which it is the
number of bytes. -/
theorem countBytes_eq_ok_of_pos {kind : ElementKind} {dims : List Nat} {size : Nat}
    (hpos : 0 < size) :
    countBytes kind dims = .ok size ↔ size < Size.bound ∧ volume dims * kind.width = size := by
  simp only [countBytes, bind_eq_ok, found_eq_ok, Size.mul?_eq_some]
  constructor
  · rintro ⟨count, hcount, hlt, rfl⟩
    obtain rfl := eq_volume_of_countElements hcount
    exact ⟨hlt, rfl⟩
  · rintro ⟨hlt, rfl⟩
    have hvolume : 0 < volume dims := Nat.pos_of_mul_pos_right hpos
    have hwidth : 0 < kind.width := Nat.pos_of_mul_pos_left hpos
    have hle : volume dims ≤ volume dims * kind.width := Nat.le_mul_of_pos_right _ hwidth
    exact ⟨volume dims, (countElements_eq_ok_of_pos hvolume (by omega)).2 rfl, hlt, rfl⟩

/-- A tensor is made of elements, of which there are some, for just the shapes that have their
number as `volume`. -/
theorem Tensor.ofElements_eq_ok {elements : Elements} {dims : List Nat} {t : Tensor}
    (hpos : elements.size ≠ 0) :
    Tensor.ofElements elements dims = .ok t ↔
      volume t.dims < Size.bound ∧ t.dims = dims ∧ t.elements = elements := by
  constructor
  · intro h
    obtain ⟨rfl, rfl⟩ := eq_of_ofElements h
    obtain ⟨count, hcount, -⟩ := bind_eq_ok.1 h
    have hvolume : 0 < volume t.dims := by
      rw [← t.size_elements]
      omega
    obtain ⟨-, hlt⟩ := countElements_eq_ok.1 hcount
    have hzero : 0 ∉ t.dims := fun hmem => hvolume.ne' (volume_eq_zero.2 hmem)
    rw [leadingDims_of_not_mem hzero] at hlt
    exact ⟨hlt, rfl, rfl⟩
  · rintro ⟨hlt, rfl, rfl⟩
    have hvolume : 0 < volume t.dims := by
      rw [← t.size_elements]
      omega
    have hcount := (countElements_eq_ok_of_pos hvolume hlt).2 rfl
    refine bind_eq_ok.2 ⟨_, hcount, ?_⟩
    rw [dif_pos t.size_elements]

namespace Onnx.TensorRecord

variable {record : TensorRecord} {kind : ElementKind} {dims : List Nat} {t : Tensor}

/-! ### The tensor that a record stores -/

/-- The list of the record for elements of the given kind, `floatData` or `int64Data`. -/
def listed (record : TensorRecord) : ElementKind → Elements
  | .float => .float record.floatData.toArray
  | .index => .index record.int64Data.toArray

/-- The record gives a supported element type, that of `kind`, and dimensions none of which is
negative, `dims`. -/
structure Describes (record : TensorRecord) (kind : ElementKind) (dims : List Nat) : Prop where
  type : record.dataType = kind.code
  shape : List.Forall₂ (fun (d : Int64) (n : Nat) => d.toInt = n) record.dims dims

/-- The list for the kind or, if it is empty, `rawData` is as long as the shape asks for, and this
is a size. -/
structure Fills (record : TensorRecord) (kind : ElementKind) (dims : List Nat) : Prop where
  list : (record.listed kind).size ≠ 0 →
    volume dims < Size.bound ∧ (record.listed kind).size = volume dims
  raw : (record.listed kind).size = 0 → record.rawData ≠ [] ∧
    volume dims * kind.width < Size.bound ∧ record.rawData.length = volume dims * kind.width

/-- The tensor has the elements of the list for its kind (`listed`) or, if that is empty, the raw
bytes. -/
structure Holds (record : TensorRecord) (t : Tensor) : Prop where
  list : (record.listed t.kind).size ≠ 0 → t.elements = record.listed t.kind
  raw : (record.listed t.kind).size = 0 → t.toBytes = record.rawData

theorem describes_congr {other : TensorRecord} (htype : record.dataType = other.dataType)
    (hdims : record.dims = other.dims) :
    record.Describes kind dims ↔ other.Describes kind dims := by
  constructor
  · rintro ⟨hcode, hshape⟩
    exact ⟨htype ▸ hcode, hdims ▸ hshape⟩
  · rintro ⟨hcode, hshape⟩
    exact ⟨htype ▸ hcode, hdims ▸ hshape⟩

@[simp] theorem kind_listed (record : TensorRecord) (kind : ElementKind) :
    (record.listed kind).kind = kind := by
  cases kind <;> rfl

/-- The lists for the two kinds are read in the same way by `materialize`. -/
theorem materialize_eq (record : TensorRecord) : record.materialize = (do
    let kind ← ElementKind.ofCode record.name record.dataType
    let dims ← fixedDims record.name record.dims
    if (record.listed kind).size ≠ 0 then
      (Tensor.ofElements (record.listed kind) dims).mapError (.tensor record.name)
    else if record.rawData ≠ [] then
      (Tensor.ofBytes kind dims record.rawData).mapError (.tensor record.name)
    else .error (.emptyTensor record.name)) := by
  unfold materialize
  congr 1
  funext kind
  congr 1
  funext dims
  cases kind <;> simp [listed, Elements.size]

/-- **When a record is materialized**, and to which tensor: it `Describes` its kind and shape, and
`Holds` its elements. -/
theorem materialize_eq_ok : record.materialize = .ok t ↔
    record.Describes t.kind t.dims ∧ record.Fills t.kind t.dims ∧ record.Holds t := by
  simp only [materialize_eq, bind_eq_ok, ElementKind.ofCode_eq_ok, fixedDims_eq_ok]
  constructor
  · rintro ⟨kind, htype, dims, hshape, ht⟩
    split at ht
    · next hlist =>
      obtain ⟨hlt, rfl, helements⟩ := (Tensor.ofElements_eq_ok hlist).1 (mapError_eq_ok.1 ht)
      obtain rfl : t.kind = kind := by rw [Tensor.kind, helements, kind_listed]
      have hsize : (record.listed t.kind).size = volume t.dims := by
        rw [← helements, t.size_elements]
      exact ⟨⟨htype, hshape⟩, ⟨fun _ => ⟨hlt, hsize⟩, fun hempty => absurd hempty hlist⟩,
        ⟨fun _ => helements, fun hempty => absurd hempty hlist⟩⟩
    split at ht
    · next hlist hraw =>
      obtain ⟨hcount, rfl, rfl, hbytes⟩ := Tensor.ofBytes_eq_ok.1 (mapError_eq_ok.1 ht)
      obtain ⟨hlt, hvolume⟩ := (countBytes_eq_ok_of_pos (List.length_pos_iff.2 hraw)).1 hcount
      exact ⟨⟨htype, hshape⟩,
        ⟨fun hsome => absurd hsome hlist, fun _ => ⟨hraw, hvolume ▸ hlt, hvolume.symm⟩⟩,
        ⟨fun hsome => absurd hsome hlist, fun _ => hbytes⟩⟩
    · cases ht
  · rintro ⟨⟨htype, hshape⟩, hfills, hholds⟩
    refine ⟨t.kind, htype, t.dims, hshape, ?_⟩
    split
    · next hlist =>
      have hlt := (hfills.list hlist).1
      exact mapError_eq_ok.2 ((Tensor.ofElements_eq_ok hlist).2 ⟨hlt, rfl, hholds.list hlist⟩)
    next hlist =>
    have hempty : (record.listed t.kind).size = 0 := not_not.1 hlist
    obtain ⟨hraw, hlt, hlength⟩ := hfills.raw hempty
    rw [if_pos hraw]
    have hcount : countBytes t.kind t.dims = .ok record.rawData.length :=
      (countBytes_eq_ok_of_pos (List.length_pos_iff.2 hraw)).2 ⟨hlength ▸ hlt, hlength.symm⟩
    exact mapError_eq_ok.2 (Tensor.ofBytes_eq_ok.2 ⟨hcount, rfl, rfl, hholds.raw hempty⟩)

/-- A payload of the right length is the one of a tensor, which the record `Holds`. -/
theorem Fills.exists_holds (h : record.Fills kind dims) :
    ∃ t : Tensor, t.kind = kind ∧ t.dims = dims ∧ record.Holds t := by
  by_cases hempty : (record.listed kind).size = 0
  · obtain ⟨-, -, hlength⟩ := h.raw hempty
    let t : Tensor := ⟨dims, .ofBytes kind (volume dims) record.rawData, Elements.size_ofBytes ..⟩
    have hkind : t.kind = kind := Elements.kind_ofBytes kind _ _
    exact ⟨t, hkind, rfl, fun hsome => absurd (hkind.symm ▸ hempty) hsome,
      fun _ => Elements.toBytes_ofBytes hlength⟩
  · obtain ⟨-, hsize⟩ := h.list hempty
    have hkind : Tensor.kind ⟨dims, record.listed kind, hsize⟩ = kind := kind_listed record kind
    refine ⟨⟨dims, record.listed kind, hsize⟩, hkind, rfl, fun _ => ?_, fun hnone => ?_⟩
    · rw [hkind]
    · rw [hkind] at hnone
      exact absurd hnone hempty

/-- A record can be materialized exactly when its payload has the length for its kind and shape
(`Fills`). -/
theorem exists_materialize_eq_ok : (∃ t, record.materialize = .ok t) ↔
    ∃ kind dims, record.Describes kind dims ∧ record.Fills kind dims := by
  simp only [materialize_eq_ok]
  constructor
  · rintro ⟨t, hdescribes, hfills, -⟩
    exact ⟨t.kind, t.dims, hdescribes, hfills⟩
  · rintro ⟨kind, dims, hdescribes, hfills⟩
    obtain ⟨t, rfl, rfl, hholds⟩ := hfills.exists_holds
    exact ⟨t, hdescribes, hfills, hholds⟩

/-! ### Lists and raw bytes -/

/-- The record `listing` has the elements `values` in the list for their kind, and `raw` has their
bytes as its raw bytes and nothing in that list. Both give the same dimensions and the element type
of the kind; what else they hold does not matter. -/
structure Alternatives (values : Elements) (listing raw : TensorRecord) : Prop where
  dims : listing.dims = raw.dims
  listingType : listing.dataType = values.kind.code
  rawType : raw.dataType = values.kind.code
  listed : listing.listed values.kind = values
  unlisted : (raw.listed values.kind).size = 0
  bytes : raw.rawData = values.toBytes

section Alternatives

variable {values : Elements} (hvalues : values.size ≠ 0) (hlt : values.toBytes.length < Size.bound)
include hvalues hlt

/-- Some elements in the list (`listed`) give the tensors that have them. -/
theorem materialize_listed (htype : record.dataType = values.kind.code)
    (hlisted : record.listed values.kind = values) :
    record.materialize = .ok t ↔ record.Describes t.kind t.dims ∧ t.elements = values := by
  rw [materialize_eq_ok]
  constructor
  · rintro ⟨hdescribes, -, hholds⟩
    have hkind : t.kind = values.kind :=
      ElementKind.code_injective (hdescribes.type.symm.trans htype)
    have hlist : record.listed t.kind = values := by rw [hkind, hlisted]
    exact ⟨hdescribes, (hholds.list (by rwa [hlist])).trans hlist⟩
  · rintro ⟨hdescribes, rfl⟩
    have hlist : record.listed t.kind = t.elements := hlisted
    have hsome : (record.listed t.kind).size ≠ 0 := by rwa [hlist]
    have hsize : (record.listed t.kind).size = volume t.dims := by rw [hlist, t.size_elements]
    have hvolume : volume t.dims < Size.bound := by
      have hle : volume t.dims ≤ volume t.dims * t.kind.width :=
        Nat.le_mul_of_pos_right _ t.kind.width_pos
      have hlength : t.elements.toBytes.length = volume t.dims * t.kind.width := t.length_toBytes
      omega
    exact ⟨hdescribes, ⟨fun _ => ⟨hvolume, hsize⟩, fun hempty => absurd hempty hsome⟩,
      ⟨fun _ => hlist.symm, fun hempty => absurd hempty hsome⟩⟩

/-- The bytes of some elements in `rawData` give the tensors that have the elements. -/
theorem materialize_raw (htype : record.dataType = values.kind.code)
    (hunlisted : (record.listed values.kind).size = 0) (hbytes : record.rawData = values.toBytes) :
    record.materialize = .ok t ↔ record.Describes t.kind t.dims ∧ t.elements = values := by
  rw [materialize_eq_ok]
  constructor
  · rintro ⟨hdescribes, -, hholds⟩
    have hkind : t.kind = values.kind :=
      ElementKind.code_injective (hdescribes.type.symm.trans htype)
    have hraw : t.toBytes = values.toBytes := (hholds.raw (by rwa [hkind])).trans hbytes
    exact ⟨hdescribes, Elements.eq_of_toBytes hkind hraw⟩
  · rintro ⟨hdescribes, rfl⟩
    have hempty : (record.listed t.kind).size = 0 := hunlisted
    have hraw : record.rawData = t.toBytes := hbytes
    have hlength : t.toBytes.length = volume t.dims * t.kind.width := t.length_toBytes
    have hne : t.toBytes ≠ [] := by
      have hsome : 0 < volume t.dims := by
        rw [← t.size_elements]
        omega
      rw [← List.length_pos_iff, hlength]
      exact Nat.mul_pos hsome t.kind.width_pos
    have hbound : volume t.dims * t.kind.width < Size.bound := by
      rw [← hlength]
      exact hlt
    exact ⟨hdescribes, ⟨fun hsome => absurd hempty hsome,
      fun _ => ⟨hraw ▸ hne, hbound, hraw ▸ hlength⟩⟩,
      ⟨fun hsome => absurd hempty hsome, fun _ => hraw.symm⟩⟩

/-- Both records fail to `materialize`, or both give the same tensor. -/
theorem Alternatives.toOption_eq {listing raw : TensorRecord}
    (h : Alternatives values listing raw) :
    listing.materialize.toOption = raw.materialize.toOption := by
  have htypes : listing.dataType = raw.dataType := h.listingType.trans h.rawType.symm
  refine Option.ext fun t => ?_
  rw [toOption_eq_some, toOption_eq_some, materialize_listed hvalues hlt h.listingType h.listed,
    materialize_raw hvalues hlt h.rawType h.unlisted h.bytes, describes_congr htypes h.dims]

end Alternatives

/-- **Lists and raw bytes are materialized alike.** A record gives a tensor exactly if its element
type is a supported one, none of its dimensions is negative (`Describes`) and its payload has the
right length (`Fills`): the list for the kind, if that has entries, and otherwise the raw bytes,
which must not be empty. The tensor has this kind and shape, and the elements of the list or the raw
bytes as its bytes (`Holds`). So if one record has some elements in its list and another one has
their bytes as raw bytes (`Alternatives`), both fail or give the same tensor, as long as the number
of bytes is a size. -/
theorem materialize_alike :
    (∀ record : TensorRecord, (∃ t, record.materialize = .ok t) ↔
      ∃ kind dims, record.Describes kind dims ∧ record.Fills kind dims) ∧
    (∀ (record : TensorRecord) (kind : ElementKind) (dims : List Nat),
      record.Describes kind dims → record.Fills kind dims →
        ∃ t : Tensor, record.materialize = .ok t ∧ t.kind = kind ∧ t.dims = dims ∧ record.Holds t) ∧
    ∀ (values : Elements) (listing raw : TensorRecord), values.size ≠ 0 →
      values.toBytes.length < Size.bound → Alternatives values listing raw →
        listing.materialize.toOption = raw.materialize.toOption := by
  refine ⟨fun record => exists_materialize_eq_ok, fun record kind dims hdescribes hfills => ?_,
    fun values listing raw hvalues hlt halternatives => halternatives.toOption_eq hvalues hlt⟩
  obtain ⟨t, rfl, rfl, hholds⟩ := hfills.exists_holds
  exact ⟨t, materialize_eq_ok.2 ⟨hdescribes, hfills, hholds⟩, rfl, rfl, hholds⟩

/-- Two indices, one of them negative. -/
def signedPair : Elements := .index #[-1, 5]

/-- The indices of `signedPair` in their list, with a raw byte that is not looked at. -/
def listedPair : TensorRecord :=
  { dims := [2], dataType := int64Code, int64Data := [-1, 5], rawData := [0] }

/-- The bytes of `signedPair`, with a float that is not looked at. -/
def rawPair : TensorRecord :=
  { dims := [2], dataType := int64Code, floatData := [.one], rawData := signedPair.toBytes }

theorem listedPair_alike_rawPair :
    (∃ t, listedPair.materialize = .ok t ∧ t.dims = [2] ∧ t.elements = signedPair) ∧
    listedPair.materialize.toOption = rawPair.materialize.toOption := by
  obtain ⟨-, hmakes, halike⟩ := materialize_alike
  have hpair : listedPair.Describes .index [2] := ⟨rfl, .cons rfl .nil⟩
  have hfills : listedPair.Fills .index [2] := ⟨fun _ => by decide, fun hempty => by cases hempty⟩
  obtain ⟨t, ht, hkind, hdims, hholds⟩ := hmakes listedPair .index [2] hpair hfills
  have helements : t.elements = listedPair.listed t.kind := hholds.list (by rw [hkind]; decide)
  rw [hkind] at helements
  exact ⟨⟨t, ht, hdims, helements⟩, halike signedPair listedPair rawPair (by decide) (by decide)
    ⟨rfl, rfl, rfl, rfl, rfl, rfl⟩⟩

end Onnx.TensorRecord
end TensorGraph
