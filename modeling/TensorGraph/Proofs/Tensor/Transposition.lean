import TensorGraph.Proofs.Shape.Permutation
import TensorGraph.Proofs.Tensor.Coordinates
import TensorGraph.Proofs.Tensor.Counting
import Mathlib.Algebra.BigOperators.Group.List.Basic

/-! # Transposition

A list is **rearranged** by a permutation of the axes when entry `shuffle[i]` of it becomes entry
`i`. Transposing rearranges the shape of a tensor, and puts at the rearranged coordinates what stood
at the coordinates before. This determines the result, so that transposing twice is transposing
once, and transposing back gives the tensor again.

The element to be put at a position can be found by dividing the position by the new dimensions,
from the last one on, and adding up the remainders times the strides of the old shape. -/

namespace TensorGraph

variable {dims shuffle coords : List Nat}

/-! ### Rearranged lists -/

/-- Entry `shuffle[i]` of the list before is entry `i` of the list after. -/
structure Rearranged (shuffle after before : List Nat) : Prop where
  length_after : after.length = shuffle.length
  length_before : before.length = shuffle.length
  entry : ∀ i axis : Nat, shuffle[i]? = some axis → before[axis]? = after[i]?

namespace Rearranged

variable {a b c next both : List Nat}

/-- What `shuffle` makes of a list is determined. -/
theorem after_unique (h : Rearranged shuffle b a) (h' : Rearranged shuffle c a) : b = c := by
  refine List.ext_getElem? fun i => ?_
  cases haxis : shuffle[i]? with
  | some axis => rw [← h.entry i axis haxis, h'.entry i axis haxis]
  | none =>
    have hi : shuffle.length ≤ i := List.getElem?_eq_none_iff.1 haxis
    rw [List.getElem?_eq_none (h.length_after ▸ hi), List.getElem?_eq_none (h'.length_after ▸ hi)]

/-- A permutation `shuffle` also determines what a list was. -/
theorem before_unique (hp : shuffle.Perm (List.range shuffle.length))
    (h : Rearranged shuffle c a) (h' : Rearranged shuffle c b) : a = b := by
  refine List.ext_getElem? fun axis => ?_
  by_cases haxis : axis < shuffle.length
  · have hmem : axis ∈ shuffle := hp.mem_iff.2 (List.mem_range.2 haxis)
    obtain ⟨i, hi⟩ := List.mem_iff_getElem?.1 hmem
    rw [h.entry i axis hi, h'.entry i axis hi]
  · have hle := Nat.not_lt.1 haxis
    rw [List.getElem?_eq_none (h.length_before ▸ hle),
      List.getElem?_eq_none (h'.length_before ▸ hle)]

/-- Rearranging by `shuffle` and then by `next` is rearranging once, by `both`. -/
theorem trans (h : Rearranged shuffle b a) (hnext : Rearranged next c b)
    (hboth : Rearranged next both shuffle) : Rearranged both c a where
  length_after := hnext.length_after.trans hboth.length_after.symm
  length_before := h.length_before.trans (hboth.length_before.trans hboth.length_after.symm)
  entry := by
    intro i axis haxis
    have hi : i < next.length := by
      rw [← hboth.length_after]
      exact (List.getElem?_eq_some_iff.1 haxis).1
    have hplace := List.getElem?_eq_getElem hi
    have haxis' : shuffle[next[i]]? = some axis := (hboth.entry i _ hplace).trans haxis
    exact (h.entry _ axis haxis').trans (hnext.entry i _ hplace)

/-- The list `List.range` of all axes rearranges nothing. -/
theorem range (a : List Nat) : Rearranged (List.range a.length) a a where
  length_after := List.length_range.symm
  length_before := List.length_range.symm
  entry := by
    intro i axis haxis
    obtain ⟨hi, rfl⟩ := List.getElem?_eq_some_iff.1 haxis
    rw [List.getElem_range]

end Rearranged

theorem rearranged_permuteDims (hp : shuffle.Perm (List.range dims.length)) :
    Rearranged shuffle (permuteDims dims shuffle) dims where
  length_after := length_permuteDims dims shuffle
  length_before := by rw [hp.length_eq, List.length_range]
  entry := by
    intro i axis haxis
    have hlt : axis < dims.length := List.mem_range.1 (hp.mem_iff.1 (List.mem_of_getElem? haxis))
    simp [permuteDims, haxis, hlt]

namespace Rearranged

variable {a b : List Nat}

/-- A rearranged list has the same entries. -/
theorem perm (hp : shuffle.Perm (List.range shuffle.length)) (h : Rearranged shuffle b a) :
    b.Perm a := by
  rw [← h.length_before] at hp
  rw [h.after_unique (rearranged_permuteDims hp)]
  exact permuteDims_perm (isPermutation_iff_perm.2 hp)

/-- A permutation undoes the one that undoes it, `inverse`. -/
theorem inverse_symm {inverse : List Nat} (hp : shuffle.Perm (List.range shuffle.length))
    (h : Rearranged shuffle (List.range shuffle.length) inverse) :
    Rearranged inverse (List.range shuffle.length) shuffle where
  length_after := List.length_range.trans h.length_before.symm
  length_before := h.length_before.symm
  entry := by
    intro axis i hi
    have haxis : axis < shuffle.length := by
      rw [← h.length_before]
      exact (List.getElem?_eq_some_iff.1 hi).1
    obtain ⟨place, hplace⟩ := List.mem_iff_getElem?.1 (hp.mem_iff.2 (List.mem_range.2 haxis))
    have hlt : place < shuffle.length := (List.getElem?_eq_some_iff.1 hplace).1
    rw [h.entry place axis hplace, List.getElem?_range hlt] at hi
    cases hi
    rw [hplace, List.getElem?_range haxis]

end Rearranged

theorem rearranged_unshuffle (hp : shuffle.Perm (List.range shuffle.length))
    (hlength : coords.length = shuffle.length) :
    Rearranged shuffle coords (unshuffle shuffle coords) where
  length_after := hlength
  length_before := by simp [unshuffle]
  entry := by
    intro i axis haxis
    obtain ⟨hi, rfl⟩ := List.getElem?_eq_some_iff.1 haxis
    have hnodup : shuffle.Nodup := hp.nodup_iff.2 List.nodup_range
    have haxis' : shuffle[i] < shuffle.length :=
      List.mem_range.1 (hp.mem_iff.1 (List.getElem_mem hi))
    have hplace : shuffle.idxOf shuffle[i] = i := hnodup.idxOf_getElem i hi
    simp [unshuffle, haxis', hplace, hlength ▸ hi]

/-! ### Positions by strides -/

/-- How far apart, for each axis of `dims`, the elements are whose coordinates differ by one. -/
def strides : List Nat → List Nat
  | [] => []
  | _ :: dims => volume dims :: strides dims

/-- The sum of the products of entries of `a` and `b` at the same place. -/
def innerProduct (a b : List Nat) : Nat := (List.zipWith (· * ·) a b).sum

/-- A position is divided by one dimension after the other; the remainders are multiplied by the
strides that go with the dimensions. -/
def offsetOf : List (Nat × Nat) → Nat → Nat
  | [], _ => 0
  | (dim, stride) :: rest, p => p % dim * stride + offsetOf rest (p / dim)

/-- The position in a tensor of shape `dims` of what stands at `p` in its transpose, found axis by
axis from the last one on. -/
def stridedPosition (dims shuffle : List Nat) (p : Nat) : Nat :=
  offsetOf ((permuteDims dims shuffle).zip (permuteDims (strides dims) shuffle)).reverse p

@[simp] theorem length_strides (dims : List Nat) : (strides dims).length = dims.length := by
  induction dims with
  | nil => rfl
  | cons d dims ih => rw [strides, List.length_cons, ih, List.length_cons]

/-- In a shape with elements no stride exceeds the number of elements. -/
theorem le_volume_of_mem_strides (hpos : 0 < volume dims) {stride : Nat}
    (h : stride ∈ strides dims) : stride ≤ volume dims := by
  induction dims with
  | nil => cases h
  | cons d dims ih =>
    rw [volume_cons] at hpos ⊢
    have hle : volume dims ≤ d * volume dims :=
      Nat.le_mul_of_pos_left _ (Nat.pos_of_mul_pos_right hpos)
    rcases List.mem_cons.1 h with rfl | h
    · exact hle
    · exact (ih (Nat.pos_of_mul_pos_left hpos) h).trans hle

/-- A `position` is the sum of the coordinates times the `strides`. -/
theorem position_eq_innerProduct (h : coords.length = dims.length) :
    position dims coords = innerProduct coords (strides dims) := by
  induction dims generalizing coords with
  | nil =>
    rw [List.length_eq_zero_iff.1 h]
    rfl
  | cons d dims ih =>
    cases coords with
    | nil => cases h
    | cons c coords =>
      have hrest := ih (Nat.succ.inj h)
      simp only [innerProduct] at hrest
      simp only [position, innerProduct, strides, List.zipWith_cons_cons, List.sum_cons, hrest]

/-- Of rearranged lists the same products are added up by `innerProduct`, in another order. -/
theorem Rearranged.innerProduct_eq {a b a' b' : List Nat}
    (hp : shuffle.Perm (List.range shuffle.length)) (h : Rearranged shuffle a a')
    (h' : Rearranged shuffle b b') : innerProduct a b = innerProduct a' b' := by
  have hproducts : Rearranged shuffle (List.zipWith (· * ·) a b) (List.zipWith (· * ·) a' b') := by
    refine ⟨?_, ?_, fun i axis haxis => ?_⟩
    · rw [List.length_zipWith, h.length_after, h'.length_after, Nat.min_self]
    · rw [List.length_zipWith, h.length_before, h'.length_before, Nat.min_self]
    · rw [List.getElem?_zipWith, List.getElem?_zipWith, h.entry i axis haxis,
        h'.entry i axis haxis]
  exact (hproducts.perm hp).sum_eq

theorem offsetOf_append (l : List (Nat × Nat)) (dim stride p : Nat) :
    offsetOf (l ++ [(dim, stride)]) p =
      offsetOf l p + p / volume (l.map Prod.fst) % dim * stride := by
  induction l generalizing p with
  | nil => simp [offsetOf]
  | cons first l ih =>
    simp only [List.cons_append, offsetOf, ih, List.map_cons, volume_cons, Nat.div_div_eq_div_mul,
      Nat.add_assoc]

/-- Only the part of a position below the product of the dimensions counts for `offsetOf`. -/
theorem offsetOf_mod (l : List (Nat × Nat)) (p : Nat) :
    offsetOf l (p % volume (l.map Prod.fst)) = offsetOf l p := by
  induction l generalizing p with
  | nil => rfl
  | cons first l ih =>
    simp only [offsetOf, List.map_cons, volume_cons]
    rw [Nat.mod_mul_right_mod, Nat.mod_mul_right_div_self, ih]

/-- The remainders that `offsetOf` takes are the coordinates, found from the last one on. -/
theorem offsetOf_reverse_zip {p : Nat} {weights : List Nat} (hp : p < volume dims)
    (hlength : weights.length = dims.length) :
    offsetOf (dims.zip weights).reverse p = innerProduct (coordinates dims p) weights := by
  induction dims generalizing p weights with
  | nil => rfl
  | cons d dims ih =>
    cases weights with
    | nil => cases hlength
    | cons weight weights =>
      have hlength' := Nat.succ.inj hlength
      rw [volume_cons] at hp
      have hpos : 0 < volume dims := Nat.pos_of_lt_mul_left hp
      have hvolume : volume ((dims.zip weights).reverse.map Prod.fst) = volume dims := by
        rw [List.map_reverse, List.map_fst_zip (Nat.le_of_eq hlength'.symm)]
        exact volume_perm (List.reverse_perm dims)
      have hfirst : p / volume dims < d := Nat.div_lt_of_lt_mul (by rwa [Nat.mul_comm])
      have hrest := ih (Nat.mod_lt p hpos) hlength'
      rw [← hvolume, offsetOf_mod, hvolume] at hrest
      rw [List.zip_cons_cons, List.reverse_cons, offsetOf_append, hvolume, hrest,
        Nat.mod_eq_of_lt hfirst]
      simp only [innerProduct, coordinates, List.zipWith_cons_cons, List.sum_cons, Nat.add_comm]

/-- **The position found axis by axis**, `stridedPosition`, is the one of the coordinates before the
transposition. -/
theorem stridedPosition_eq (hperm : shuffle.Perm (List.range dims.length)) {p : Nat}
    (hp : p < volume dims) : stridedPosition dims shuffle p = sourcePosition dims shuffle p := by
  have hlength : shuffle.length = dims.length := by rw [hperm.length_eq, List.length_range]
  have hp' : shuffle.Perm (List.range shuffle.length) := by rwa [hlength]
  have hstrides : Rearranged shuffle (permuteDims (strides dims) shuffle) (strides dims) :=
    rearranged_permuteDims (by rwa [length_strides])
  have hcoords : Rearranged shuffle (coordinates (permuteDims dims shuffle) p)
      (unshuffle shuffle (coordinates (permuteDims dims shuffle) p)) :=
    rearranged_unshuffle hp' (by simp)
  have hvolume := volume_permuteDims (isPermutation_iff_perm.2 hperm)
  calc stridedPosition dims shuffle p
    _ = innerProduct (coordinates (permuteDims dims shuffle) p)
          (permuteDims (strides dims) shuffle) :=
        offsetOf_reverse_zip (by rwa [hvolume]) (by simp)
    _ = innerProduct (unshuffle shuffle (coordinates (permuteDims dims shuffle) p))
          (strides dims) := Rearranged.innerProduct_eq hp' hcoords hstrides
    _ = sourcePosition dims shuffle p :=
        (position_eq_innerProduct (hcoords.length_before.trans hlength)).symm

/-! ### Elements at coordinates -/

namespace Elements

/-- The element at the position `p`, if there is one. -/
def get? (elements : Elements) (p : Nat) : Option (Binary32 ⊕ Int64) :=
  match elements with
  | float values => values[p]?.map .inl
  | index values => values[p]?.map .inr

variable {elements other : Elements} {p count : Nat}

theorem exists_get? (h : p < elements.size) : ∃ x, elements.get? p = some x := by
  cases elements with
  | float values => exact ⟨.inl values[p], by rw [get?, Array.getElem?_eq_getElem h]; rfl⟩
  | index values => exact ⟨.inr values[p], by rw [get?, Array.getElem?_eq_getElem h]; rfl⟩

theorem get?_gather {source : Nat → Nat} (hp : p < count) (hs : source p < elements.size) :
    (elements.gather count source).get? p = elements.get? (source p) := by
  cases elements with
  | float values =>
    have hlt : source p < values.size := hs
    simp [gather, get?, Array.getD, hp, hlt]
  | index values =>
    have hlt : source p < values.size := hs
    simp [gather, get?, Array.getD, hp, hlt]

/-- Elements of one kind and number are told apart by `get?` at their positions. -/
theorem ext_get? (hkind : elements.kind = other.kind) (hsize : elements.size = other.size)
    (h : ∀ p < elements.size, elements.get? p = other.get? p) : elements = other := by
  cases elements with
  | float values =>
    cases other with
    | float values' =>
      congr 1
      refine Array.ext hsize fun p hp hp' => ?_
      simpa [get?, hp, hp'] using h p hp
    | index values' => cases hkind
  | index values =>
    cases other with
    | float values' => cases hkind
    | index values' =>
      congr 1
      refine Array.ext hsize fun p hp hp' => ?_
      simpa [get?, hp, hp'] using h p hp

end Elements

namespace Tensor

variable {t u v w : Tensor} {next both : List Nat}

/-- The element at the coordinates `coords`, if there is one. -/
def element? (t : Tensor) (coords : List Nat) : Option (Binary32 ⊕ Int64) :=
  t.elements.get? (position t.dims coords)

theorem exists_element? (h : InShape coords t.dims) : ∃ x, t.element? coords = some x := by
  refine Elements.exists_get? ?_
  rw [t.size_elements]
  exact position_lt_volume h

/-- **Tensors of one kind and shape are told apart by their coordinates**, by what `element?` gives
there. -/
theorem ext_element? (hkind : t.kind = u.kind) (hdims : t.dims = u.dims)
    (h : ∀ coords, InShape coords t.dims → t.element? coords = u.element? coords) : t = u := by
  have helements : t.elements = u.elements := by
    refine Elements.ext_get? hkind ?_ fun p hp => ?_
    · rw [t.size_elements, u.size_elements, hdims]
    · rw [t.size_elements] at hp
      have hcoords := h _ (inShape_coordinates hp)
      simp only [element?] at hcoords
      rwa [← hdims, position_coordinates hp] at hcoords
  cases t
  cases u
  cases hdims
  cases helements
  rfl

/-! ### What a transposition makes -/

/-- The tensor `u` has the shape of `t` rearranged by `shuffle`, and at rearranged coordinates the
elements that stood at the coordinates before. -/
structure Transposes (t : Tensor) (shuffle : List Nat) (u : Tensor) : Prop where
  perm : shuffle.Perm (List.range t.dims.length)
  kind : u.kind = t.kind
  dims : Rearranged shuffle u.dims t.dims
  element : ∀ {coords source}, InShape coords u.dims → Rearranged shuffle coords source →
    InShape source t.dims ∧ u.element? coords = t.element? source

namespace Transposes

theorem perm_length (h : t.Transposes shuffle u) : shuffle.Perm (List.range shuffle.length) := by
  rw [← h.dims.length_before]
  exact h.perm

/-- For all coordinates in the shape of `u` there are the ones before, `source`. -/
theorem exists_source (h : t.Transposes shuffle u) (hc : InShape coords u.dims) :
    ∃ source, Rearranged shuffle coords source :=
  ⟨_, rearranged_unshuffle h.perm_length (hc.length_eq.trans h.dims.length_after)⟩

/-- There is at most one tensor that `t.Transposes shuffle`. -/
theorem unique (h : t.Transposes shuffle u) (h' : t.Transposes shuffle v) : u = v := by
  have hdims : u.dims = v.dims := h.dims.after_unique h'.dims
  refine ext_element? (h.kind.trans h'.kind.symm) hdims fun coords hc => ?_
  obtain ⟨source, hsource⟩ := h.exists_source hc
  exact (h.element hc hsource).2.trans (h'.element (hdims ▸ hc) hsource).2.symm

/-- Transposing by `shuffle` and then by `next` is transposing once, by `both`. -/
theorem trans (h : t.Transposes shuffle u) (hnext : u.Transposes next v)
    (hboth : Rearranged next both shuffle) (hperm : both.Perm (List.range t.dims.length)) :
    t.Transposes both v where
  perm := hperm
  kind := hnext.kind.trans h.kind
  dims := h.dims.trans hnext.dims hboth
  element := by
    intro coords source hc hsource
    obtain ⟨between, hbetween⟩ := hnext.exists_source hc
    obtain ⟨hu, hvu⟩ := hnext.element hc hbetween
    obtain ⟨first, hfirst⟩ := h.exists_source hu
    obtain ⟨ht, hut⟩ := h.element hu hfirst
    have hperm' : both.Perm (List.range both.length) := by
      rwa [hperm.length_eq, List.length_range]
    obtain rfl := Rearranged.before_unique hperm' (hfirst.trans hbetween hboth) hsource
    exact ⟨ht, hvu.trans hut⟩

/-- A tensor is what rearranging nothing (`List.range`) makes of it. -/
theorem range (t : Tensor) : t.Transposes (List.range t.dims.length) t where
  perm := .refl _
  kind := rfl
  dims := .range t.dims
  element := by
    intro coords source hc hsource
    have hself : Rearranged (List.range t.dims.length) coords coords := by
      rw [← hc.length_eq]
      exact .range coords
    have hperm : (List.range t.dims.length).Perm
        (List.range (List.range t.dims.length).length) := by rw [List.length_range]
    obtain rfl := Rearranged.before_unique hperm hself hsource
    exact ⟨hc, rfl⟩

end Transposes

/-- A permutation of the axes makes what it is to make: a tensor that `t.Transposes shuffle`. -/
theorem exists_transpose (hp : shuffle.Perm (List.range t.dims.length)) :
    ∃ u, t.transpose shuffle = .ok u ∧ t.Transposes shuffle u := by
  have hperm := isPermutation_iff_perm.2 hp
  have hp' : shuffle.Perm (List.range shuffle.length) := by rwa [hp.length_eq, List.length_range]
  unfold transpose
  rw [dif_pos hperm]
  refine ⟨_, rfl, hp, Elements.kind_gather _ _ _, rearranged_permuteDims hp, ?_⟩
  intro coords source hc hsource
  obtain rfl := Rearranged.before_unique hp' hsource
    (rearranged_unshuffle hp' hsource.length_after)
  have hin := inShape_unshuffle hperm hc
  -- the coordinates are found again from the position that they have in the new shape
  have hplace : sourcePosition t.dims shuffle (position (permuteDims t.dims shuffle) coords) =
      position t.dims (unshuffle shuffle coords) := by
    rw [sourcePosition, coordinates_position hc]
  have hlt : position (permuteDims t.dims shuffle) coords < t.size := by
    rw [size, t.size_elements, ← volume_permuteDims hperm]
    exact position_lt_volume hc
  have hread : position t.dims (unshuffle shuffle coords) < t.elements.size := by
    rw [t.size_elements]
    exact position_lt_volume hin
  refine ⟨hin, ?_⟩
  show (t.elements.gather t.size (sourcePosition t.dims shuffle)).get?
    (position (permuteDims t.dims shuffle) coords) = _
  rw [Elements.get?_gather hlt (hplace ▸ hread), hplace, element?]

/-- **A tensor is transposed** exactly into what the transposition is to make, the tensor that
`t.Transposes shuffle`. -/
theorem transpose_eq_ok : t.transpose shuffle = .ok u ↔ t.Transposes shuffle u := by
  constructor
  · intro h
    obtain ⟨v, hv, htransposes⟩ := exists_transpose (isPermutation_iff_perm.1 (of_transpose h).1)
    rw [hv] at h
    cases h
    exact htransposes
  · intro h
    obtain ⟨v, hv, htransposes⟩ := exists_transpose h.perm
    rw [hv, h.unique htransposes]

/-- Transposing back by `inverse` gives the tensor again. -/
theorem Transposes.symm {inverse : List Nat} (h : t.Transposes shuffle u)
    (hinverse : Rearranged shuffle (List.range t.dims.length) inverse) :
    u.Transposes inverse t := by
  have hlength : t.dims.length = shuffle.length := h.dims.length_before
  rw [hlength] at hinverse
  have hperm : inverse.Perm (List.range u.dims.length) := by
    rw [h.dims.length_after]
    exact (hinverse.perm h.perm_length).symm
  obtain ⟨v, -, hv⟩ := exists_transpose hperm
  have hboth := h.trans hv (hinverse.inverse_symm h.perm_length) (by rw [hlength])
  rw [← hlength] at hboth
  rwa [(Transposes.range t).unique hboth]

namespace Transposes

/-- To transpose once more by `next` is to transpose by `both`, the permutation whose entries `next`
picks. -/
theorem exists_next (h : t.Transposes shuffle u) (hnext : next.Perm (List.range t.dims.length)) :
    ∃ both v, Rearranged next both shuffle ∧ u.transpose next = .ok v ∧
      t.transpose both = .ok v := by
  have hlength : t.dims.length = shuffle.length := h.dims.length_before
  have hboth : Rearranged next (permuteDims shuffle next) shuffle :=
    rearranged_permuteDims (hlength ▸ hnext)
  have hperm : (permuteDims shuffle next).Perm shuffle :=
    permuteDims_perm (isPermutation_iff_perm.2 (hlength ▸ hnext))
  have hlength' : u.dims.length = t.dims.length := by rw [h.dims.length_after, ← hlength]
  obtain ⟨v, hv, hnextv⟩ : ∃ v, u.transpose next = .ok v ∧ u.Transposes next v :=
    exists_transpose (by rwa [hlength'])
  exact ⟨_, v, hboth, hv, transpose_eq_ok.2 (h.trans hnextv hboth (hperm.trans h.perm))⟩

/-- The inverse permutation gives the tensor back. -/
theorem exists_inverse (h : t.Transposes shuffle u) : ∃ inverse,
    Rearranged shuffle (List.range t.dims.length) inverse ∧ u.transpose inverse = .ok t := by
  have hinverse : Rearranged shuffle (List.range t.dims.length)
      (unshuffle shuffle (List.range t.dims.length)) :=
    rearranged_unshuffle h.perm_length (by rw [List.length_range, h.dims.length_before])
  exact ⟨_, hinverse, transpose_eq_ok.2 (h.symm hinverse)⟩

end Transposes

/-- **Transposition rearranges coordinates.** For a permutation of the axes, no element is read past
the end, whether the positions are found from coordinates (`sourcePosition`) or by strides
(`stridedPosition`), and in a tensor with elements no stride exceeds their number. The result has
the rearranged shape, the same kind and as many elements; at all its coordinates it has the element
(`element?`) that stood at the coordinates before. To transpose it once more is to transpose the
first tensor by the permutation whose entries the next one picks, and some permutation, the inverse
one, gives the first tensor back. A list that is no permutation of the axes is refused. -/
theorem transpose_exact (t : Tensor) (shuffle : List Nat) :
    (shuffle.Perm (List.range t.dims.length) → ∃ u, t.transpose shuffle = .ok u ∧
      (∀ p < u.size, stridedPosition t.dims shuffle p = sourcePosition t.dims shuffle p ∧
        sourcePosition t.dims shuffle p < t.size) ∧
      (0 < t.size → ∀ stride ∈ strides t.dims, stride ≤ t.size) ∧
      Rearranged shuffle u.dims t.dims ∧ u.kind = t.kind ∧ u.size = t.size ∧
      (∀ coords, InShape coords u.dims → ∃ source x, Rearranged shuffle coords source ∧
        InShape source t.dims ∧ u.element? coords = some x ∧ t.element? source = some x) ∧
      (∀ next, next.Perm (List.range t.dims.length) → ∃ both v, Rearranged next both shuffle ∧
        u.transpose next = .ok v ∧ t.transpose both = .ok v) ∧
      ∃ inverse, Rearranged shuffle (List.range t.dims.length) inverse ∧
        u.transpose inverse = .ok t) ∧
    (¬ shuffle.Perm (List.range t.dims.length) →
      t.transpose shuffle = .error (.permutation shuffle t.dims.length)) := by
  refine ⟨fun hp => ?_, fun hp => ?_⟩
  · obtain ⟨u, hu, h⟩ := exists_transpose hp
    have hsize : u.size = t.size := (of_transpose hu).2
    refine ⟨u, hu, fun p hlt => ?_, fun hpos stride hstride => ?_, h.dims, h.kind, hsize,
      fun coords hc => ?_, fun next => h.exists_next, h.exists_inverse⟩
    · rw [hsize, size, t.size_elements] at hlt
      rw [size, t.size_elements]
      exact ⟨stridedPosition_eq hp hlt, sourcePosition_lt (isPermutation_iff_perm.2 hp) hlt⟩
    · rw [size, t.size_elements] at hpos ⊢
      exact le_volume_of_mem_strides hpos hstride
    · obtain ⟨source, hsource⟩ := h.exists_source hc
      obtain ⟨hin, helement⟩ := h.element hc hsource
      obtain ⟨x, hx⟩ := exists_element? hin
      exact ⟨source, x, hsource, hin, helement.trans hx, hx⟩
  · unfold transpose
    rw [dif_neg fun h => hp (isPermutation_iff_perm.1 h)]

end Tensor
end TensorGraph
