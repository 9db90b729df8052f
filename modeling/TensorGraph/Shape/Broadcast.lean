/-! # Common shapes

Two shapes have a common shape when, aligned at their last dimensions, each pair of dimensions is
equal or contains a 1; a dimension that only one of them has counts as paired with a 1. -/

namespace TensorGraph

/-- The common dimension of two aligned dimensions: a 1 gives way, and equal ones stay. -/
def joinDim? (a b : Nat) : Option Nat :=
  if a = b then some a else if a = 1 then some b else if b = 1 then some a else none

/-- The common shape of two shapes written from the last dimension on, by `joinDim?`. -/
def joinReversed? : List Nat → List Nat → Option (List Nat)
  | [], b => some b
  | a, [] => some a
  | x :: a, y :: b => do
    let z ← joinDim? x y
    let rest ← joinReversed? a b
    some (z :: rest)

/-- The common shape of two shapes, aligned at their last dimensions. -/
def joinShape? (a b : List Nat) : Option (List Nat) :=
  (joinReversed? a.reverse b.reverse).map List.reverse

/-- A common shape has the rank of the longer one, `max a.length b.length`. -/
theorem length_joinReversed? {a b c : List Nat} (h : joinReversed? a b = some c) :
    c.length = max a.length b.length := by
  fun_induction joinReversed? a b generalizing c with
  | case1 b => simp_all
  | case2 a => simp_all
  | case3 x a y b ih =>
    simp only [Option.bind_eq_bind, Option.bind_eq_some_iff, Option.some.injEq] at h
    obtain ⟨z, -, rest, hr, rfl⟩ := h
    simp [ih hr]

theorem length_joinShape? {a b c : List Nat} (h : joinShape? a b = some c) :
    c.length = max a.length b.length := by
  simp only [joinShape?, Option.map_eq_some_iff] at h
  obtain ⟨r, hr, rfl⟩ := h
  simpa using length_joinReversed? hr

end TensorGraph
