import TensorGraph.Graph.Build
import TensorGraph.Proofs.Graph.ShapeRule
import TensorGraph.Proofs.Tensor.Coordinates
import Mathlib.Algebra.BigOperators.Group.Finset.Basic
import Mathlib.Algebra.Ring.Defs

/-! # What a graph computes

Elements are read as numbers of a commutative ring, in which sums and products are exact. A value
is then a function from coordinates to numbers. Parameters have the elements of their tensors,
transpositions rearrange coordinates and convolutions are sums of products; how the other kinds of
nodes are read is left open.

A graph is evaluated from some place on: the values of the nodes before that place are given, and
each node from there on gets the value that its kind makes of the values of its operands. As
operands come before the node, this is the value in the end too. -/

namespace TensorGraph

universe u

open Finset (range)

/-! ### Readings -/

/-- The numbers that elements stand for, and the values that nodes of the other kinds have. -/
structure Reading (R : Type u) [CommRing R] where
  float : Binary32 → R
  index : Int64 → R
  float_zero : float .zero = 0
  other : NodeKind → List (List Nat → R) → List Nat → R

namespace Reading

variable {R : Type u} [CommRing R] (ρ : Reading R)

/-- The number at a `position`. -/
def entry (elements : Elements) (position : Nat) : R :=
  match elements with
  | .float values => ρ.float (values.getD position .zero)
  | .index values => ρ.index (values.getD position 0)

/-- The number at the coordinates `coords` of a tensor. -/
def element (t : Tensor) (coords : List Nat) : R := ρ.entry t.elements (position t.dims coords)

theorem entry_gather {elements : Elements} {count p : Nat} (source : Nat → Nat) (hp : p < count) :
    ρ.entry (elements.gather count source) p = ρ.entry elements (source p) := by
  cases elements with
  | float values => simp [entry, Elements.gather, Array.getD, hp]
  | index values => simp [entry, Elements.gather, Array.getD, hp]

/-- Positions at which there is no element are read as zero too. -/
theorem entry_zeros (n p : Nat) : ρ.entry (.zeros .float n) p = 0 := by
  rw [← ρ.float_zero]
  simp only [entry, Elements.zeros, Array.getD]
  split <;> simp

/-- **The elements of a transposed tensor** are those of the tensor, at the coordinates before the
transposition (`unshuffle`). -/
theorem element_transpose {t u : Tensor} {shuffle coords : List Nat}
    (h : t.transpose shuffle = .ok u) (hc : InShape coords u.dims) :
    ρ.element u coords = ρ.element t (unshuffle shuffle coords) := by
  unfold Tensor.transpose at h
  split at h
  · next hperm =>
    cases h
    have hp : position (permuteDims t.dims shuffle) coords < t.size := by
      rw [Tensor.size, t.size_elements, ← volume_permuteDims hperm]
      exact position_lt_volume hc
    simp only [element]
    rw [ρ.entry_gather _ hp, sourcePosition, coordinates_position hc]
  · cases h

theorem element_zeros {dims : List Nat} {t : Tensor} (h : Tensor.zeros .float dims = .ok t)
    (coords : List Nat) : ρ.element t coords = 0 := by
  rw [Tensor.eq_zero_of_zeros h]
  exact ρ.entry_zeros _ _

end Reading

/-! ### Convolutions -/

section Convolution

variable {R : Type u} [CommRing R]

/-- A channel-last image between its paddings `pads`, with zeros there. -/
def paddedImage (pads : Pads) (image : ImageDims) (x : List Nat → R) (n i j c : Nat) : R :=
  if (pads.top ≤ i ∧ i < pads.top + image.height) ∧ (pads.left ≤ j ∧ j < pads.left + image.width)
  then x [n, i - pads.top, j - pads.left, c]
  else 0

/-- The first channel that the filter `d` is applied to, for as many groups of channels as of
filters. -/
def firstChannel (channels depth group d : Nat) : Nat := d / (depth / group) * (channels / group)

/-- What a convolution of channel-last images has at some coordinates, by the `window` over each
`paddedImage`. -/
def convolve (window : Window) (group : Nat) (image filters : ImageDims)
    (x filter bias : List Nat → R) : List Nat → R
  | [n, i, j, d] => bias [d] + ∑ ky ∈ range window.kernel, ∑ kx ∈ range window.kernel,
      ∑ c ∈ range (image.channels / group),
        paddedImage window.pads image x n (i * window.stride + ky) (j * window.stride + kx)
          (firstChannel image.channels filters.count group d + c) * filter [d, ky, kx, c]
  | _ => 0

end Convolution

/-! ### Evaluation -/

/-- The shape of a node, where it has one. -/
def Graph.shape (g : Graph) (id : NodeId) : List Nat := (g.dims id).toOption.getD []

theorem Graph.shape_eq {g : Graph} {id : NodeId} {type : ValueType} (h : g.typeOf id = .ok type) :
    g.shape id = type.dims := by
  rw [Graph.shape, Graph.dims_eq_ok.2 ⟨type.kind, h⟩]
  rfl

/-- What each kind of node (`NodeKind`) makes of operands with the given shapes and values. -/
abbrev Meaning (R : Type u) := NodeKind → List (List Nat) → List (List Nat → R) → List Nat → R

namespace Meaning

variable {R : Type u} (m : Meaning R) (g : Graph)

/-- The value of a node when its operands have the values that `v` gives them. -/
def valueOf (v : NodeId → List Nat → R) (node : Node) : List Nat → R :=
  m node.kind (node.operands.map g.shape) (node.operands.map v)

/-- The values after nodes that stand from a place on are evaluated in order by `valueOf`. -/
def run : Nat → List Node → (NodeId → List Nat → R) → NodeId → List Nat → R
  | _, [], v => v
  | place, node :: nodes, v =>
    run (place + 1) nodes (Function.update v ⟨place⟩ (m.valueOf g v node))

/-- The values of the nodes of a graph, when those of the nodes before the place `start` are
`given`. -/
def evaluate (start : Nat) (given : NodeId → List Nat → R) : NodeId → List Nat → R :=
  m.run g start (g.nodes.drop start) given

variable {g}

theorem run_of_lt {place : Nat} {nodes : List Node} {v : NodeId → List Nat → R} {id : NodeId}
    (h : id.index < place) : m.run g place nodes v id = v id := by
  induction nodes generalizing place v with
  | nil => rfl
  | cons node nodes ih =>
    have hne : id ≠ ⟨place⟩ := by rintro rfl; exact Nat.lt_irrefl _ h
    rw [run, ih (Nat.lt_succ_of_lt h), Function.update_of_ne hne]

theorem valueOf_congr {v w : NodeId → List Nat → R} {node : Node}
    (h : ∀ id ∈ node.operands, v id = w id) : m.valueOf g v node = m.valueOf g w node := by
  rw [valueOf, valueOf, List.map_congr_left h]

/-- The value that a node gets does not change while `run` evaluates the nodes after it. -/
theorem run_eq {place i : Nat} {nodes : List Node} {v : NodeId → List Nat → R} {node : Node}
    (hnode : nodes[i]? = some node) (hoperands : ∀ id ∈ node.operands, id.index < place + i) :
    m.run g place nodes v ⟨place + i⟩ = m.valueOf g (m.run g place nodes v) node := by
  induction nodes generalizing place i v with
  | nil => cases hnode
  | cons first nodes ih =>
    cases i with
    | zero =>
      cases hnode
      -- the nodes after it change neither its value nor those of its operands
      have hself : m.run g (place + 1) nodes
          (Function.update v ⟨place⟩ (m.valueOf g v node)) ⟨place⟩ = m.valueOf g v node := by
        rw [m.run_of_lt (Nat.lt_succ_self place), Function.update_self]
      refine Eq.trans hself ?_
      exact m.valueOf_congr fun id hid => (m.run_of_lt (hoperands id hid)).symm
    | succ i =>
      have hplace : place + (i + 1) = place + 1 + i := by omega
      rw [run, hplace]
      rw [hplace] at hoperands
      exact ih hnode hoperands

theorem evaluate_of_lt {start : Nat} {given : NodeId → List Nat → R} {id : NodeId}
    (h : id.index < start) : m.evaluate g start given id = given id :=
  m.run_of_lt h

/-- **Evaluation gives every node the value that its kind makes of its operands** (`valueOf`), for
the nodes that are evaluated and whose operands come before them. -/
theorem evaluate_eq {start : Nat} {given : NodeId → List Nat → R} {id : NodeId} {node : Node}
    (hnode : g.nodes[id.index]? = some node) (hstart : start ≤ id.index)
    (hoperands : ∀ operand ∈ node.operands, operand.index < id.index) :
    m.evaluate g start given id = m.valueOf g (m.evaluate g start given) node := by
  obtain ⟨index⟩ := id
  obtain ⟨i, rfl⟩ := Nat.exists_eq_add_of_le hstart
  exact m.run_eq (by rwa [List.getElem?_drop]) hoperands

end Meaning

namespace Reading

variable {R : Type u} [CommRing R] (ρ : Reading R)

/-- The value that `kind` makes of operands with the given `shapes` and `values`. -/
def value (kind : NodeKind) (shapes : List (List Nat)) (values : List (List Nat → R)) :
    List Nat → R :=
  match kind, values with
  | .parameter tensor, _ => ρ.element tensor
  | .transpose shuffle, [input] => fun coords => input (unshuffle shuffle coords)
  | .convolution window group, [images, filter, bias] =>
    match shapes.map ImageDims.ofList? with
    | [some image, some filters, _] => convolve window group image filters images filter bias
    | _ => ρ.other kind values
  | _, _ => ρ.other kind values

/-- The values of the nodes of a graph, when those of the nodes before a place are given, by
`Meaning.evaluate` of `Reading.value`. -/
def evaluate (g : Graph) (start : Nat) (given : NodeId → List Nat → R) : NodeId → List Nat → R :=
  Meaning.evaluate ρ.value g start given

variable {g : Graph}

theorem evaluate_of_lt {start : Nat} {given : NodeId → List Nat → R} {id : NodeId}
    (h : id.index < start) : ρ.evaluate g start given id = given id :=
  Meaning.evaluate_of_lt _ h

theorem evaluate_append {nodes added : List Node} (h : g.nodes = nodes ++ added) {i : Nat}
    {given : NodeId → List Nat → R} {node : Node} (hnode : added[i]? = some node)
    (hoperands : ∀ id ∈ node.operands, id.index < nodes.length + i) :
    ρ.evaluate g nodes.length given ⟨nodes.length + i⟩ =
      Meaning.valueOf ρ.value g (ρ.evaluate g nodes.length given) node := by
  refine Meaning.evaluate_eq _ ?_ (Nat.le_add_right _ _) hoperands
  rw [h, List.getElem?_append_right (Nat.le_add_right _ _), Nat.add_sub_cancel_left, hnode]

end Reading
end TensorGraph
