import TensorGraph.Graph.Error
import TensorGraph.Shape.Axes
import Mathlib.Data.List.Nodup

/-! # Lists that rearrange the axes

A list **enumerates** the axes below a rank when it is as long as the rank, no axis stands at two
places, and the axes below the rank are the ones that stand somewhere. A list without repetition
that is as long as the rank and has no other axes leaves none of them out, so these are the lists
that the pass over the marks accepts.

Two lists are **inverse** when each tells the places of the entries of the other. What is inverse to
a list that enumerates the axes enumerates them as well. -/

namespace TensorGraph

variable {shuffle inverse : List Nat} {rank : Nat}

/-! ### Enumerations of the axes -/

/-- The permutations of `List.range rank` are the lists that are accepted. -/
theorem isPermutation_iff_perm :
    isPermutation shuffle rank = true ↔ shuffle.Perm (List.range rank) := by
  refine ⟨perm_range_of_isPermutation, fun h => isPermutation_eq_true.2 ⟨?_, ?_, fun a ha => ?_⟩⟩
  · rw [h.length_eq, List.length_range]
  · exact h.nodup_iff.2 List.nodup_range
  · exact List.mem_range.1 (h.mem_iff.1 ha)

/-- The places of `shuffle` are matched with the axes below `rank`, one to one. -/
structure Enumerates (shuffle : List Nat) (rank : Nat) : Prop where
  length : shuffle.length = rank
  injective : ∀ i j axis : Nat, shuffle[i]? = some axis → shuffle[j]? = some axis → i = j
  image : ∀ axis, axis < rank ↔ ∃ i : Nat, shuffle[i]? = some axis

/-- **Counting**: the lists that `isPermutation` accepts leave no axis out. -/
theorem isPermutation_iff_enumerates :
    isPermutation shuffle rank = true ↔ Enumerates shuffle rank := by
  constructor
  · intro h
    obtain ⟨hlength, hnodup, -⟩ := isPermutation_eq_true.1 h
    have hperm := perm_range_of_isPermutation h
    refine ⟨hlength, fun i j axis hi hj => ?_, fun axis => ?_⟩
    · obtain ⟨hi', rfl⟩ := List.getElem?_eq_some_iff.1 hi
      obtain ⟨hj', hij⟩ := List.getElem?_eq_some_iff.1 hj
      exact (hnodup.getElem_inj_iff.1 hij).symm
    · rw [← List.mem_iff_getElem?, hperm.mem_iff, List.mem_range]
  · intro h
    refine isPermutation_eq_true.2 ⟨h.length, ?_, fun axis haxis => ?_⟩
    · refine List.pairwise_iff_getElem.2 fun i j hi hj hlt heq => Nat.ne_of_lt hlt ?_
      exact h.injective i j _ (List.getElem?_eq_getElem hi) (heq ▸ List.getElem?_eq_getElem hj)
    · exact (h.image axis).2 (List.mem_iff_getElem?.1 haxis)

/-! ### Inverse lists -/

/-- Each of `shuffle` and `inverse` tells the places of the entries of the other one. -/
def Inverse (shuffle inverse : List Nat) : Prop :=
  ∀ i axis : Nat, shuffle[i]? = some axis ↔ inverse[axis]? = some i

theorem Inverse.symm (h : Inverse shuffle inverse) : Inverse inverse shuffle :=
  fun axis i => (h i axis).symm

/-- The place in `shuffle` of each axis. -/
def placesOf (shuffle : List Nat) : List Nat := (List.range shuffle.length).map shuffle.idxOf

theorem getElem?_placesOf {axis i : Nat} :
    (placesOf shuffle)[axis]? = some i ↔ axis < shuffle.length ∧ shuffle.idxOf axis = i := by
  by_cases haxis : axis < shuffle.length
  · simp [placesOf, haxis]
  · simp [placesOf, haxis]

namespace Enumerates

theorem inverse_placesOf (h : Enumerates shuffle rank) : Inverse shuffle (placesOf shuffle) := by
  intro i axis
  rw [getElem?_placesOf, h.length, h.image axis]
  constructor
  · intro hi
    refine ⟨⟨i, hi⟩, h.injective _ _ axis ?_ hi⟩
    exact List.getElem?_idxOf (List.mem_iff_getElem?.2 ⟨i, hi⟩)
  · rintro ⟨hex, rfl⟩
    exact List.getElem?_idxOf (List.mem_iff_getElem?.2 hex)

/-- What is inverse (`Inverse`) to an enumeration is one. -/
theorem of_inverse (h : Enumerates shuffle rank) (hinverse : Inverse shuffle inverse) :
    Enumerates inverse rank where
  length := by
    -- The places of the inverse list are the axes below the rank.
    have hplace : ∀ axis, axis < inverse.length ↔ axis < rank := by
      intro axis
      rw [h.image axis]
      constructor
      · exact fun haxis => ⟨_, (hinverse _ axis).2 (List.getElem?_eq_getElem haxis)⟩
      · rintro ⟨i, hi⟩
        exact (List.getElem?_eq_some_iff.1 ((hinverse i axis).1 hi)).1
    exact Nat.le_antisymm (Nat.le_of_not_lt fun hlt => Nat.lt_irrefl _ ((hplace _).1 hlt))
      (Nat.le_of_not_lt fun hlt => Nat.lt_irrefl _ ((hplace _).2 hlt))
  injective axis other i haxis hother := by
    have hi := ((hinverse i axis).2 haxis).symm.trans ((hinverse i other).2 hother)
    exact Option.some.inj hi
  image i := by
    rw [← h.length]
    constructor
    · exact fun hi => ⟨_, (hinverse i _).1 (List.getElem?_eq_getElem hi)⟩
    · rintro ⟨axis, haxis⟩
      exact (List.getElem?_eq_some_iff.1 ((hinverse i axis).2 haxis)).1

end Enumerates

/-! ### Places in the table of marks -/

/-- The pass of `markAll` over the marks, in which an axis is first compared with `rank`, and the
table may be used only within its bounds: a place beyond them is a fault. -/
def markWithin (rank : Nat) (marked : Array Bool) : List Nat → Except GraphError Bool
  | [] => .ok true
  | axis :: rest =>
    if rank ≤ axis then .ok false
    else if h : axis < marked.size then
      if marked[axis] then .ok false else markWithin rank (marked.set axis true) rest
    else .error (.outOfRange axis marked.size)

/-- Whether a list rearranges the axes below `rank`, or a fault; `isPermutation` with the table of
marks used as it must be. -/
def rearrangesWithin (shuffle : List Nat) (rank : Nat) : Except GraphError Bool :=
  if shuffle.length ≠ rank then .ok false
  else markWithin rank (Array.replicate rank false) shuffle

/-- A table with a mark for each axis below `rank` is used within its bounds, so the pass is that of
`markAll`. -/
theorem markWithin_eq {marked : Array Bool} (hsize : marked.size = rank) (axes : List Nat) :
    markWithin rank marked axes = .ok (markAll marked axes) := by
  induction axes generalizing marked with
  | nil => rfl
  | cons axis rest ih =>
    rw [markWithin, markAll]
    by_cases hle : rank ≤ axis
    · rw [if_pos hle, Array.getElem?_eq_none (hsize ▸ hle)]
    · have hlt : axis < marked.size := hsize ▸ Nat.lt_of_not_le hle
      rw [if_neg hle, dif_pos hlt, Array.getElem?_eq_getElem hlt]
      cases hmark : marked[axis] with
      | true => rfl
      | false =>
        have hset : marked.setIfInBounds axis true = marked.set axis true := by
          rw [Array.setIfInBounds, dif_pos hlt]
        have hrest : (marked.set axis true).size = rank := by rw [Array.size_set, hsize]
        simpa [hset] using ih hrest

theorem rearrangesWithin_eq (shuffle : List Nat) (rank : Nat) :
    rearrangesWithin shuffle rank = .ok (isPermutation shuffle rank) := by
  unfold rearrangesWithin isPermutation
  by_cases hlength : shuffle.length = rank
  · rw [if_neg (not_not_intro hlength), markWithin_eq Array.size_replicate]
    simp [hlength]
  · rw [if_pos hlength]
    simp [hlength]

/-- **A list is accepted exactly when it rearranges the axes** below `rank`, that is, when it
enumerates them (`Enumerates`), and exactly when an accepted list is inverse to it. No place outside
of the table of marks is used (`rearrangesWithin`), whatever the list is. -/
theorem isPermutation_exact (shuffle : List Nat) (rank : Nat) :
    (isPermutation shuffle rank = true ↔ shuffle.Perm (List.range rank)) ∧
    (isPermutation shuffle rank = true ↔ Enumerates shuffle rank) ∧
    rearrangesWithin shuffle rank = .ok (isPermutation shuffle rank) ∧
    (isPermutation shuffle rank = true ↔
      ∃ inverse, isPermutation inverse rank = true ∧ Inverse shuffle inverse) := by
  refine ⟨isPermutation_iff_perm, isPermutation_iff_enumerates, rearrangesWithin_eq shuffle rank,
    ?_⟩
  simp only [isPermutation_iff_enumerates]
  constructor
  · intro h
    exact ⟨placesOf shuffle, h.of_inverse h.inverse_placesOf, h.inverse_placesOf⟩
  · rintro ⟨inverse, h, hinverse⟩
    exact h.of_inverse hinverse.symm

/-- The layouts of images are inverse to each other. -/
example : placesOf [0, 2, 3, 1] = [0, 3, 1, 2] := by decide

end TensorGraph
