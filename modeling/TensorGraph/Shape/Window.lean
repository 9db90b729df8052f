import TensorGraph.Shape.Basic

/-! # Windows over images

A window is a square of pixels that moves over a padded image in equal steps, in both directions.
Its placements are counted per direction; an image that the window does not fit has none. -/

namespace TensorGraph

/-- Rows and columns of padding around an image. -/
structure Pads where
  top : Nat
  left : Nat
  bottom : Nat
  right : Nat
  deriving DecidableEq

namespace Pads

/-- No padding. -/
def zero : Pads := ⟨0, 0, 0, 0⟩

/-- The four sizes in the order top, left, bottom, right. -/
def toList (p : Pads) : List Nat := [p.top, p.left, p.bottom, p.right]

/-- Padding from exactly four sizes, in the order of `toList`. -/
def ofList? : List Nat → Option Pads
  | [top, left, bottom, right] => some ⟨top, left, bottom, right⟩
  | _ => none

def text (p : Pads) : String := Text.sizes p.toList

end Pads

/-- The spatial parameters of a convolution or pooling. -/
structure Window where
  kernel : Nat
  stride : Nat
  pads : Pads
  deriving DecidableEq

namespace Window

/-- The window as a record, for messages. -/
def text (w : Window) : String :=
  s!"Window \x7b kernel: {w.kernel}, stride: {w.stride}, pads: {w.pads.text} \x7d"

/-- The `extent` of an image between two paddings, if it is a size. -/
def padded? (extent before after : Nat) : Option Nat :=
  (Size.add? extent before).bind (Size.add? · after)

/-- The number of placements along one direction of a padded image of this `extent`, for a window
that fits. -/
def placements (w : Window) (extent : Nat) : Nat :=
  (extent - w.kernel) / w.stride + 1

/-- Height and width of the result of moving the window over an image of the given `height` and
`width`: the `placements` in both directions. -/
def outputSize? (w : Window) (height width : Nat) : Option (Nat × Nat) := do
  let height ← padded? height w.pads.top w.pads.bottom
  let width ← padded? width w.pads.left w.pads.right
  if 0 < w.stride ∧ 0 < w.kernel ∧ w.kernel ≤ height ∧ w.kernel ≤ width then
    some (w.placements height, w.placements width)
  else none

theorem padded?_eq_some {extent before after n : Nat} :
    padded? extent before after = some n ↔
      extent + before + after < Size.bound ∧ extent + before + after = n := by
  simp only [padded?, Option.bind_eq_some_iff, Size.add?_eq_some]
  constructor
  · rintro ⟨m, ⟨_, rfl⟩, h⟩; exact h
  · rintro ⟨h, rfl⟩; exact ⟨_, ⟨by omega, rfl⟩, h, rfl⟩

end Window
end TensorGraph
