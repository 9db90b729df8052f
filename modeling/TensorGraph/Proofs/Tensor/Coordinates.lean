import TensorGraph.Tensor.Transpose
import TensorGraph.Proofs.Check
import Mathlib.Data.List.Forall2

/-! # Positions and coordinates

The coordinates of an element are below the dimensions of its shape, one by one. Such coordinates
have a position in the enumeration, and the position gives them back. The element at some
coordinates of a transposed tensor is therefore the one at the rearranged coordinates of the tensor
that was transposed. -/

namespace TensorGraph

/-- The coordinates name an element of a tensor of the shape `dims`. -/
def InShape (coords dims : List Nat) : Prop := List.Forall₂ (· < ·) coords dims

variable {coords dims shuffle : List Nat}

theorem position_lt_volume (h : InShape coords dims) : position dims coords < volume dims := by
  induction h with
  | nil => simp [position]
  | @cons c d coords dims hc _ ih =>
    simp only [position, volume_cons]
    calc c * volume dims + position dims coords
      _ < c * volume dims + volume dims := Nat.add_lt_add_left ih _
      _ = (c + 1) * volume dims := by rw [Nat.succ_mul]
      _ ≤ d * volume dims := Nat.mul_le_mul_right _ hc

theorem inShape_coordinates {p : Nat} (hp : p < volume dims) :
    InShape (coordinates dims p) dims := by
  induction dims generalizing p with
  | nil => exact .nil
  | cons d dims ih =>
    rw [volume_cons] at hp
    have hpos : 0 < volume dims := Nat.pos_of_lt_mul_left hp
    refine .cons (Nat.div_lt_of_lt_mul ?_) (ih (Nat.mod_lt p hpos))
    rwa [Nat.mul_comm]

/-- Coordinates in the permuted shape come, by `unshuffle`, from coordinates in the shape. -/
theorem inShape_unshuffle (h : isPermutation shuffle dims.length = true)
    (hcoords : InShape coords (permuteDims dims shuffle)) :
    InShape (unshuffle shuffle coords) dims := by
  have hlength : shuffle.length = dims.length := (isPermutation_eq_true.1 h).1
  refine List.forall₂_iff_get.2 ⟨by simp [unshuffle, hlength], fun axis _ haxis => ?_⟩
  have hin : axis ∈ shuffle := (perm_range_of_isPermutation h).mem_iff.2 (List.mem_range.2 haxis)
  have hplace : shuffle.idxOf axis < shuffle.length := List.idxOf_lt_length_of_mem hin
  obtain ⟨hcount, hbelow⟩ := List.forall₂_iff_get.1 hcoords
  have hlt : shuffle.idxOf axis < coords.length := by
    rw [hcount, length_permuteDims]
    exact hplace
  have hcoord := hbelow _ hlt (by rwa [length_permuteDims])
  simpa [unshuffle, permuteDims, hlt, haxis] using hcoord

/-- A transposed tensor is filled from positions (`sourcePosition`) of the one that is
transposed. -/
theorem sourcePosition_lt (h : isPermutation shuffle dims.length = true) {p : Nat}
    (hp : p < volume dims) : sourcePosition dims shuffle p < volume dims := by
  refine position_lt_volume (inShape_unshuffle h (inShape_coordinates ?_))
  rwa [volume_permuteDims h]

/-- **The position of coordinates** gives them back by `coordinates`. -/
theorem coordinates_position (h : InShape coords dims) :
    coordinates dims (position dims coords) = coords := by
  induction h with
  | nil => rfl
  | @cons c d coords dims _ hrest ih =>
    have hlt := position_lt_volume hrest
    have hdiv : (c * volume dims + position dims coords) / volume dims = c := by
      rw [Nat.mul_comm, Nat.mul_add_div (Nat.zero_lt_of_lt hlt), Nat.div_eq_of_lt hlt, Nat.add_zero]
    have hmod : (c * volume dims + position dims coords) % volume dims = position dims coords := by
      rw [Nat.mul_add_mod_of_lt hlt]
    simp only [coordinates, position, hdiv, hmod, ih]

/-- **Every position** below the `volume` is the one of its coordinates. -/
theorem position_coordinates {p : Nat} (hp : p < volume dims) :
    position dims (coordinates dims p) = p := by
  induction dims generalizing p with
  | nil =>
    rw [volume_nil] at hp
    simp only [position]
    omega
  | cons d dims ih =>
    rw [volume_cons] at hp
    have hpos : 0 < volume dims := Nat.pos_of_lt_mul_left hp
    simp only [coordinates, position]
    rw [ih (Nat.mod_lt p hpos)]
    exact Nat.div_add_mod' p (volume dims)

/-- A tensor is transposed only by a permutation of its axes, and keeps the number of elements. -/
theorem Tensor.of_transpose {t t' : Tensor} (h : t.transpose shuffle = .ok t') :
    isPermutation shuffle t.dims.length = true ∧ t'.size = t.size := by
  unfold Tensor.transpose at h
  split at h
  · next hperm =>
    cases h
    exact ⟨hperm, Elements.size_gather _ _ _⟩
  · cases h

end TensorGraph
