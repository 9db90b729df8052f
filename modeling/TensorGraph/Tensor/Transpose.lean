import TensorGraph.Tensor.Basic
import TensorGraph.Shape.Axes

/-! # Coordinates and transposition

An element of a tensor is named by its position in the row-major enumeration or by its
coordinates, one for each axis. Transposing by `shuffle` makes axis `shuffle[i]` of a tensor the
axis `i` of the result. -/

namespace TensorGraph

/-- The coordinates of the element at `position`. -/
def coordinates : List Nat → Nat → List Nat
  | [], _ => []
  | _ :: dims, position => position / volume dims :: coordinates dims (position % volume dims)

/-- The position in row-major order of the element at the coordinates `coords`. -/
def position : List Nat → List Nat → Nat
  | _ :: dims, c :: coords => c * volume dims + position dims coords
  | _, _ => 0

@[simp] theorem length_coordinates (dims : List Nat) (p : Nat) :
    (coordinates dims p).length = dims.length := by
  induction dims generalizing p with
  | nil => rfl
  | cons d dims ih => simp [coordinates, ih]

/-- The coordinates before a transposition of what has the coordinates `coords` after it: entry
`shuffle[i]` is `coords[i]`. -/
def unshuffle (shuffle coords : List Nat) : List Nat :=
  (List.range shuffle.length).map fun axis => coords.getD (shuffle.idxOf axis) 0

/-- The position, in a tensor of shape `dims`, of what stands at `p` in its transpose. -/
def sourcePosition (dims shuffle : List Nat) (p : Nat) : Nat :=
  position dims (unshuffle shuffle (coordinates (permuteDims dims shuffle) p))

namespace Elements

/-- The elements at the positions that `source` gives for `0, …, count - 1`. -/
def gather (elements : Elements) (count : Nat) (source : Nat → Nat) : Elements :=
  match elements with
  | float values => float (Array.ofFn fun i : Fin count => values.getD (source i) .zero)
  | index values => index (Array.ofFn fun i : Fin count => values.getD (source i) 0)

@[simp] theorem size_gather (elements : Elements) (count : Nat) (source : Nat → Nat) :
    (elements.gather count source).size = count := by
  cases elements <;> simp [gather, size]

@[simp] theorem kind_gather (elements : Elements) (count : Nat) (source : Nat → Nat) :
    (elements.gather count source).kind = elements.kind := by
  cases elements <;> rfl

end Elements

namespace Tensor

/-- The tensor whose dimension `i` is dimension `shuffle[i]` of `t`. -/
def transpose (t : Tensor) (shuffle : List Nat) : Except TensorError Tensor :=
  if h : isPermutation shuffle t.dims.length = true then
    .ok {
      dims := permuteDims t.dims shuffle
      elements := t.elements.gather t.size (sourcePosition t.dims shuffle)
      size_elements := by rw [Elements.size_gather, volume_permuteDims h]; exact t.size_elements }
  else .error (.permutation shuffle t.dims.length)

end Tensor
end TensorGraph
