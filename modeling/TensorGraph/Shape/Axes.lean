import TensorGraph.Check
import TensorGraph.Shape.Basic

/-! # Axes

A list is a permutation of the axes `0, …, rank - 1` when it has `rank` entries, all below `rank`
and none twice. `isPermutation` decides this in one pass that marks the axes already met, and
`permuteDims` rearranges a shape by such a list. Dimensions of size 1 are removed from a shape by
`removeAxes` and inserted into it by `insertAxes`, at a list of axes. -/

namespace TensorGraph

/-! ### Permutations -/

/-- Marks the entries from left to right in `marked`; an entry without a mark to set, or already
marked, ends the pass. -/
def markAll (marked : Array Bool) : List Nat → Bool
  | [] => true
  | axis :: rest =>
    match marked[axis]? with
    | some false => markAll (marked.setIfInBounds axis true) rest
    | _ => false

/-- Whether `shuffle` rearranges the axes below `rank`. -/
def isPermutation (shuffle : List Nat) (rank : Nat) : Bool :=
  shuffle.length == rank && markAll (Array.replicate rank false) shuffle

/-- The pass succeeds when the entries differ from each other and from the axes `marked` before. -/
theorem markAll_eq_true {marked : Array Bool} {axes : List Nat} :
    markAll marked axes = true ↔ axes.Nodup ∧ ∀ a ∈ axes, marked[a]? = some false := by
  induction axes generalizing marked with
  | nil => simp [markAll]
  | cons axis rest ih =>
    unfold markAll
    split
    · next h =>
      have hlt : axis < marked.size := by
        rcases Array.getElem?_eq_some_iff.1 h with ⟨hlt, -⟩; exact hlt
      rw [ih]
      simp only [List.nodup_cons, List.mem_cons, forall_eq_or_imp, Array.getElem?_setIfInBounds,
        h, true_and]
      constructor
      · rintro ⟨hn, hm⟩
        refine ⟨⟨fun hmem => ?_, hn⟩, fun a ha => ?_⟩
        · simpa [hlt] using hm axis hmem
        · have := hm a ha
          by_cases e : axis = a <;> simp_all
      · rintro ⟨⟨hnot, hn⟩, hm⟩
        refine ⟨hn, fun a ha => ?_⟩
        rw [if_neg (by rintro rfl; exact hnot ha)]
        exact hm a ha
    · next h =>
      simp only [Bool.false_eq_true, List.mem_cons, forall_eq_or_imp, false_iff, not_and]
      intro _ hfalse
      exact absurd hfalse (by simpa using h)

theorem isPermutation_eq_true {shuffle : List Nat} {rank : Nat} :
    isPermutation shuffle rank = true ↔
      shuffle.length = rank ∧ shuffle.Nodup ∧ ∀ a ∈ shuffle, a < rank := by
  simp only [isPermutation, Bool.and_eq_true, beq_iff_eq, markAll_eq_true,
    Array.getElem?_replicate]
  refine and_congr_right fun _ => and_congr_right fun _ => forall₂_congr fun a _ => ?_
  split <;> simp_all

/-- An accepted list is a rearrangement of the axes, which are `List.range rank`. -/
theorem perm_range_of_isPermutation {shuffle : List Nat} {rank : Nat}
    (h : isPermutation shuffle rank = true) : shuffle.Perm (List.range rank) := by
  obtain ⟨hl, hn, hlt⟩ := isPermutation_eq_true.1 h
  refine (List.perm_ext_iff_of_nodup hn List.nodup_range).2 fun a =>
    ⟨fun ha => List.mem_range.2 (hlt a ha), fun ha => Decidable.byContradiction fun hnot => ?_⟩
  -- an axis that is left out could be added, but there is no room for one more
  have hroom := (List.nodup_cons.2 ⟨hnot, hn⟩).length_le_of_subset
    (List.cons_subset.2 ⟨ha, fun b hb => List.mem_range.2 (hlt b hb)⟩)
  simp only [List.length_cons, List.length_range] at hroom
  omega

/-! ### Permuted shapes -/

/-- The shape whose `i`-th dimension is dimension `shuffle[i]` of `dims`. -/
def permuteDims (dims shuffle : List Nat) : List Nat :=
  shuffle.map fun axis => dims.getD axis 0

@[simp] theorem length_permuteDims (dims shuffle : List Nat) :
    (permuteDims dims shuffle).length = shuffle.length := by
  simp [permuteDims]

theorem permuteDims_range (dims : List Nat) : permuteDims dims (List.range dims.length) = dims := by
  apply List.ext_getElem
  · simp
  · intro i h _
    have hi : i < dims.length := by simpa using h
    simp [permuteDims, hi]

/-- Permuting the dimensions by `permuteDims` keeps the `volume`. -/
theorem volume_permuteDims {dims shuffle : List Nat}
    (h : isPermutation shuffle dims.length = true) :
    volume (permuteDims dims shuffle) = volume dims := by
  have := volume_perm ((perm_range_of_isPermutation h).map fun axis => dims.getD axis 0)
  rw [show (List.range dims.length).map (fun axis => dims.getD axis 0) = dims from
    permuteDims_range dims] at this
  exact this

/-! ### Dimensions of size 1 -/

/-- The dimensions in `dims` that do not stand at one of `axes`. -/
def removeAxes (axes dims : List Nat) : List Nat :=
  (dims.zipIdx.filter fun d => !axes.contains d.2).map Prod.fst

/-- The shape with a 1 inserted at each of the axes in turn; `fault` reports an axis past the end
of the shape that it is inserted into. -/
def insertAxes {ε : Type} (fault : Nat → Nat → ε) (axes dims : List Nat) : Except ε (List Nat) :=
  axes.foldlM (fun dims axis => do
    check (axis ≤ dims.length) (fault axis dims.length)
    .ok (dims.insertIdx axis 1)) dims

/-- The axes in ascending order. -/
def sortAxes (axes : List Nat) : List Nat := axes.mergeSort

end TensorGraph
