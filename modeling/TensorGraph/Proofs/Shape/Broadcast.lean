import TensorGraph.Shape.Broadcast
import Mathlib.Data.List.GetD

/-! # Shapes aligned at their last dimensions

Two shapes are compared from their last dimensions on, and a shape that is shorter is padded with
dimensions of size 1 in front. Two shapes have a common shape exactly when their dimensions are
equal or one of them is 1, at every place; the common shape has the other dimension there. Both
shapes then fit into the common one, at the end of it. -/

namespace TensorGraph

variable {a b c dims into : List Nat}

/-- The dimension at `place`, counted from the last one, with 1 for those in front of the shape. -/
def dimFromEnd (dims : List Nat) (place : Nat) : Nat := dims.reverse.getD place 1

theorem dimFromEnd_of_le {place : Nat} (h : dims.length ≤ place) : dimFromEnd dims place = 1 := by
  rw [dimFromEnd, List.getD_eq_default]
  rwa [List.length_reverse]

theorem getElem?_eq_dimFromEnd {place : Nat} (h : place < dims.length) :
    dims[dims.length - 1 - place]? = some (dimFromEnd dims place) := by
  have hlt : place < dims.reverse.length := by rwa [List.length_reverse]
  rw [dimFromEnd, List.getD_eq_getElem _ _ hlt, List.getElem_reverse, List.getElem?_eq_getElem]

/-! ### Shapes that fit -/

/-- The shape `dims` fits into `into` from `axis` on: its dimensions are 1 or those that they
meet. -/
structure FitsInto (dims into : List Nat) (axis : Nat) : Prop where
  rank : axis + dims.length ≤ into.length
  dim : ∀ i d, dims[i]? = some d → d = 1 ∨ into[axis + i]? = some d

theorem FitsInto.axis_le {dims into : List Nat} {axis : Nat} (h : FitsInto dims into axis) :
    axis ≤ into.length := Nat.le_of_add_right_le h.rank

theorem FitsInto.refl (dims : List Nat) : FitsInto dims dims 0 where
  rank := Nat.le_of_eq (Nat.zero_add _)
  dim i d hd := .inr (by rwa [Nat.zero_add])

/-- A shape fits at the end of another one when each `dimFromEnd` of it is 1 or that of the other
one at the same place. -/
theorem fitsInto_end_iff (hrank : dims.length ≤ into.length) :
    FitsInto dims into (into.length - dims.length) ↔
      ∀ place, dimFromEnd dims place = 1 ∨ dimFromEnd dims place = dimFromEnd into place := by
  constructor
  · intro h place
    by_cases hplace : place < dims.length
    · have hinto : into.length - dims.length + (dims.length - 1 - place) =
          into.length - 1 - place := by omega
      rcases h.dim _ _ (getElem?_eq_dimFromEnd hplace) with hone | hdim
      · exact .inl hone
      · rw [hinto, getElem?_eq_dimFromEnd (Nat.lt_of_lt_of_le hplace hrank)] at hdim
        exact .inr (Option.some.inj hdim).symm
    · exact .inl (dimFromEnd_of_le (Nat.not_lt.1 hplace))
  · intro h
    refine ⟨by omega, fun i d hd => ?_⟩
    obtain ⟨hi, -⟩ := List.getElem?_eq_some_iff.1 hd
    have hplace : dims.length - 1 - i < dims.length := by omega
    have hback : dims.length - 1 - (dims.length - 1 - i) = i := by omega
    have hinto : into.length - 1 - (dims.length - 1 - i) = into.length - dims.length + i := by omega
    have hdim := getElem?_eq_dimFromEnd hplace
    rw [hback, hd] at hdim
    rcases h (dims.length - 1 - i) with hone | hsame
    · exact .inl ((Option.some.inj hdim).trans hone)
    · have hmeets := getElem?_eq_dimFromEnd (Nat.lt_of_lt_of_le hplace hrank)
      rw [hinto, ← hsame, ← Option.some.inj hdim] at hmeets
      exact .inr hmeets

/-! ### Common shapes -/

/-- Two dimensions can be brought to one: they are equal, or one of them is 1. -/
def Meet (x y : Nat) : Prop := x = y ∨ x = 1 ∨ y = 1

/-- The dimension `z` that `x` and `y` are brought to. -/
def MeetAt (x y z : Nat) : Prop := (x = y ∧ z = x) ∨ (x = 1 ∧ z = y) ∨ (y = 1 ∧ z = x)

theorem MeetAt.symm {x y z : Nat} (h : MeetAt x y z) : MeetAt y x z := by
  unfold MeetAt at *
  omega

theorem joinDim?_eq_some {x y z : Nat} : joinDim? x y = some z ↔ MeetAt x y z := by
  unfold joinDim? MeetAt
  by_cases hxy : x = y
  · rw [if_pos hxy, Option.some.injEq]
    omega
  rw [if_neg hxy]
  by_cases hx : x = 1
  · rw [if_pos hx, Option.some.injEq]
    omega
  rw [if_neg hx]
  by_cases hy : y = 1
  · rw [if_pos hy, Option.some.injEq]
    omega
  · rw [if_neg hy]
    simp [hxy, hx, hy]

/-- A common shape `c` of two shapes: it is as long as the longer one, and at every place from the
end it has the dimension that theirs are brought to (`MeetAt`). -/
structure Joined (a b c : List Nat) : Prop where
  rank : c.length = max a.length b.length
  dim : ∀ place, MeetAt (dimFromEnd a place) (dimFromEnd b place) (dimFromEnd c place)

theorem Joined.symm (h : Joined a b c) : Joined b a c where
  rank := by rw [h.rank, Nat.max_comm]
  dim place := (h.dim place).symm

/-- What is brought together with dimensions of size 1 stays as it is. -/
theorem eq_of_meetAt_one (hlen : c.length = a.length)
    (h : ∀ place, MeetAt 1 (a.getD place 1) (c.getD place 1)) : a = c := by
  refine List.ext_getElem hlen.symm fun i hi hi' => ?_
  have hdim := h i
  rw [List.getD_eq_getElem _ _ hi, List.getD_eq_getElem _ _ hi'] at hdim
  unfold MeetAt at hdim
  omega

/-- The dimensions of shapes written from the last one on are joined one by one, as `MeetAt`
says. -/
theorem joinReversed?_eq_some : joinReversed? a b = some c ↔ c.length = max a.length b.length ∧
    ∀ place, MeetAt (a.getD place 1) (b.getD place 1) (c.getD place 1) := by
  fun_induction joinReversed? a b generalizing c with
  | case1 b =>
    constructor
    · intro h
      cases h
      exact ⟨by simp, fun place => .inr (.inl ⟨by simp, rfl⟩)⟩
    · rintro ⟨hlen, hdim⟩
      exact congrArg some (eq_of_meetAt_one (by simpa using hlen) fun place => hdim place)
  | case2 a =>
    constructor
    · intro h
      cases h
      exact ⟨by simp, fun place => .inr (.inr ⟨by simp, rfl⟩)⟩
    · rintro ⟨hlen, hdim⟩
      exact congrArg some (eq_of_meetAt_one (by simpa using hlen) fun place => (hdim place).symm)
  | case3 x a y b ih =>
    simp only [Option.bind_eq_bind, Option.bind_eq_some_iff, Option.some.injEq, joinDim?_eq_some]
    constructor
    · rintro ⟨z, hz, rest, hrest, rfl⟩
      obtain ⟨hlen, hdim⟩ := ih.1 hrest
      refine ⟨by simp only [List.length_cons]; omega, fun place => ?_⟩
      cases place with
      | zero => simpa using hz
      | succ place => simpa using hdim place
    · rintro ⟨hlen, hdim⟩
      cases c with
      | nil => simp only [List.length_nil, List.length_cons] at hlen; omega
      | cons z rest =>
        have hrest : rest.length = max a.length b.length := by
          simp only [List.length_cons] at hlen
          omega
        refine ⟨z, by simpa using hdim 0, rest, ih.2 ⟨hrest, fun place => ?_⟩, rfl⟩
        simpa using hdim (place + 1)

/-- **The common shape is found** by `joinShape?` exactly when it is one. -/
theorem joinShape?_eq_some : joinShape? a b = some c ↔ Joined a b c := by
  rw [joinShape?, Option.map_eq_some_iff]
  constructor
  · rintro ⟨r, hr, rfl⟩
    obtain ⟨hlen, hdim⟩ := joinReversed?_eq_some.1 hr
    refine ⟨by simpa using hlen, fun place => ?_⟩
    simpa [dimFromEnd] using hdim place
  · rintro ⟨hrank, hdim⟩
    refine ⟨c.reverse, joinReversed?_eq_some.2 ⟨by simpa using hrank, hdim⟩, by simp⟩

theorem exists_joinReversed? (h : ∀ place, Meet (a.getD place 1) (b.getD place 1)) :
    ∃ c, joinReversed? a b = some c := by
  fun_induction joinReversed? a b with
  | case1 b => exact ⟨b, rfl⟩
  | case2 a => exact ⟨a, rfl⟩
  | case3 x a y b ih =>
    obtain ⟨rest, hrest⟩ := ih fun place => by simpa using h (place + 1)
    have hz : ∃ z, joinDim? x y = some z := by
      have hmeet : Meet x y := by simpa using h 0
      simp only [joinDim?_eq_some]
      rcases hmeet with heq | hx | hy
      · exact ⟨x, .inl ⟨heq, rfl⟩⟩
      · exact ⟨y, .inr (.inl ⟨hx, rfl⟩)⟩
      · exact ⟨x, .inr (.inr ⟨hy, rfl⟩)⟩
    obtain ⟨z, hz⟩ := hz
    exact ⟨z :: rest, by rw [hz, hrest]; rfl⟩

/-- **Two shapes have a common shape** exactly when their dimensions meet at every place
(`Meet`). -/
theorem exists_joined_iff :
    (∃ c, Joined a b c) ↔ ∀ place, Meet (dimFromEnd a place) (dimFromEnd b place) := by
  constructor
  · rintro ⟨c, hc⟩ place
    have hdim := hc.dim place
    unfold MeetAt at hdim
    unfold Meet
    omega
  · intro h
    obtain ⟨r, hr⟩ := exists_joinReversed? h
    refine ⟨r.reverse, joinShape?_eq_some.1 ?_⟩
    rw [joinShape?, hr]
    rfl

/-- The first of two shapes fits at the end of their common shape `c`. -/
theorem Joined.fitsInto (h : Joined a b c) : FitsInto a c (c.length - a.length) := by
  refine (fitsInto_end_iff (h.rank ▸ Nat.le_max_left _ _)).2 fun place => ?_
  have hdim := h.dim place
  unfold MeetAt at hdim
  omega

end TensorGraph
