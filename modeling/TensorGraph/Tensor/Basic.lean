import TensorGraph.Check
import TensorGraph.Binary32.Decimal
import TensorGraph.Tensor.Error

/-! # Dense tensors

A tensor is a shape and the elements of its row-major enumeration. Tensors are made by checking
the number of elements against the shape, so every tensor holds as many as the volume of its
shape. -/

namespace TensorGraph

/-! ### Counts -/

/-- Number of elements of a tensor of the given shape, which must be a size: `volume?` must have a
value. -/
def countElements (dims : List Nat) : Except TensorError Nat :=
  found (volume? dims) (.overflow dims)

/-- Number of bytes of a tensor, `countElements` times `kind.width`, which must be a size. -/
def countBytes (kind : ElementKind) (dims : List Nat) : Except TensorError Nat := do
  let count ← countElements dims
  found (Size.mul? count kind.width) (.overflow dims)

/-- A count that is found is the `volume`. -/
theorem eq_volume_of_countElements {dims : List Nat} {n : Nat} (h : countElements dims = .ok n) :
    n = volume dims :=
  eq_volume_of_volume? (found_eq_ok.1 h)

/-- A count of bytes that is found is that of all elements, `volume dims * kind.width`. -/
theorem eq_volume_of_countBytes {kind : ElementKind} {dims : List Nat} {size : Nat}
    (h : countBytes kind dims = .ok size) : size = volume dims * kind.width := by
  obtain ⟨count, hcount, hsize⟩ := bind_eq_ok.1 h
  obtain rfl := eq_volume_of_countElements hcount
  exact (Size.mul?_eq_some.1 (found_eq_ok.1 hsize)).2.symm

/-! ### Elements -/

/-- The elements of a tensor, in row-major order. -/
inductive Elements
  | float (values : Array Binary32)
  | index (values : Array Int64)
  deriving DecidableEq

namespace Elements

def kind : Elements → ElementKind
  | float _ => .float
  | index _ => .index

def size : Elements → Nat
  | float values => values.size
  | index values => values.size

/-- As many zeros of the given kind as asked for. -/
def zeros : ElementKind → Nat → Elements
  | .float, n => float (Array.replicate n .zero)
  | .index, n => index (Array.replicate n 0)

/-- Element by element equality as numbers, which differs from equality of bits at zeros and NaN. -/
def numEq : Elements → Elements → Bool
  | float a, float b => a.size == b.size && (a.zip b).all fun p => p.1.numEq p.2
  | index a, index b => a == b
  | _, _ => false

@[simp] theorem size_zeros (kind : ElementKind) (n : Nat) : (zeros kind n).size = n := by
  cases kind <;> simp [zeros, size]

@[simp] theorem kind_zeros (kind : ElementKind) (n : Nat) : (zeros kind n).kind = kind := by
  cases kind <;> rfl

end Elements

/-! ### Tensors -/

/-- A shape with its elements in row-major order. -/
structure Tensor where
  dims : List Nat
  elements : Elements
  size_elements : elements.size = volume dims
  deriving DecidableEq

namespace Tensor

def kind (t : Tensor) : ElementKind := t.elements.kind

/-- Number of elements. -/
def size (t : Tensor) : Nat := t.elements.size

/-- The tensor of the given shape and elements, if their numbers agree. -/
def ofElements (elements : Elements) (dims : List Nat) : Except TensorError Tensor := do
  let expected ← countElements dims
  if h : elements.size = volume dims then .ok ⟨dims, elements, h⟩
  else .error (.elementCount dims expected elements.size)

/-- The tensor of the given kind and shape that holds `volume dims` zeros, whatever its size. -/
def zero (kind : ElementKind) (dims : List Nat) : Tensor where
  dims
  elements := .zeros kind (volume dims)
  size_elements := Elements.size_zeros kind (volume dims)

/-- `Tensor.zero`, for which memory is allocated. -/
def zeros (kind : ElementKind) (dims : List Nat) : Except TensorError Tensor := do
  let _ ← countElements dims
  check (volume dims * kind.width < Size.allocatable) .capacity
  return zero kind dims

/-- The tensor of the same shape and kind that holds zeros, as `Tensor.zero`. -/
def cleared (t : Tensor) : Tensor := zero t.kind t.dims

/-- The tensor itself, if it has the given kind and shape. -/
def fitInto (t : Tensor) (kind : ElementKind) (dims : List Nat) : Except TensorError Tensor :=
  if t.kind = kind ∧ t.dims = dims then .ok t
  else .error (.copyMismatch t.kind t.dims kind dims)

/-- The tensor `t` after it received the elements of `source`, whose kind and shape must be the
same: it is then `source` itself. -/
def copyFrom (t source : Tensor) : Except TensorError Tensor :=
  source.fitInto t.kind t.dims

/-- The elements of a float tensor. -/
def floats? (t : Tensor) : Option (Array Binary32) :=
  match t.elements with
  | .float values => some values
  | .index _ => none

/-- The elements of an index tensor. -/
def indices? (t : Tensor) : Option (Array Int64) :=
  match t.elements with
  | .float _ => none
  | .index values => some values

/-- Equality of shapes and, as numbers, of elements (`Elements.numEq`). -/
def numEq (t u : Tensor) : Bool := t.dims == u.dims && t.elements.numEq u.elements

theorem eq_of_ofElements {elements : Elements} {dims : List Nat} {t : Tensor}
    (h : ofElements elements dims = .ok t) : t.dims = dims ∧ t.elements = elements := by
  simp only [ofElements, bind_eq_ok] at h
  obtain ⟨n, -, h⟩ := h
  split at h
  · cases h; exact ⟨rfl, rfl⟩
  · cases h

theorem eq_zero_of_zeros {kind : ElementKind} {dims : List Nat} {t : Tensor}
    (h : zeros kind dims = .ok t) : t = zero kind dims := by
  simp only [zeros, bind_eq_ok] at h
  obtain ⟨_, -, _, -, h⟩ := h
  exact (Except.ok.inj h).symm

@[simp] theorem kind_zero (kind : ElementKind) (dims : List Nat) : (zero kind dims).kind = kind :=
  Elements.kind_zeros kind (volume dims)

@[simp] theorem dims_zero (kind : ElementKind) (dims : List Nat) : (zero kind dims).dims = dims :=
  rfl

/-- Memory is missing (`capacity`) only for `Size.allocatable` bytes or more. -/
theorem eq_of_zeros_eq_error {kind : ElementKind} {dims : List Nat} {e : TensorError}
    (h : zeros kind dims = .error e) :
    e = .overflow dims ∨ e = .capacity ∧ Size.allocatable ≤ volume dims * kind.width := by
  simp only [zeros, bind_eq_error, countElements, found_eq_error, check_eq_error] at h
  obtain ⟨-, rfl⟩ | ⟨_, -, ⟨hlarge, rfl⟩ | ⟨_, -, h⟩⟩ := h
  · exact .inl rfl
  · exact .inr ⟨rfl, Nat.not_lt.1 hlarge⟩
  · cases h

theorem eq_of_fitInto_eq_error {t : Tensor} {kind : ElementKind} {dims : List Nat} {e : TensorError}
    (h : t.fitInto kind dims = .error e) : e = .copyMismatch t.kind t.dims kind dims := by
  unfold fitInto at h; split at h <;> simp_all

theorem fitInto_eq_ok {t u : Tensor} {kind : ElementKind} {dims : List Nat} :
    t.fitInto kind dims = .ok u ↔ t.kind = kind ∧ t.dims = dims ∧ t = u := by
  unfold fitInto; split <;> simp_all

end Tensor

/-! ### Texts -/

/-- How many elements are shown by `abridged`. Where that many are there, dots follow. -/
def shownElements : Nat := 7

/-- The texts of the first `shownElements` elements, between brackets. -/
def abridged {α : Type} (values : Array α) (text : α → String) : String :=
  let shown := (values.toList.take shownElements).map text
  Text.bracketed (if shown.length < shownElements then shown else shown ++ ["..."])

/-- The kind and the first elements. -/
def Elements.text : Elements → String
  | float values => "Float(" ++ abridged values Binary32.text ++ ")"
  | index values => "Index(" ++ abridged values (fun i => toString i.toInt) ++ ")"

/-- The tensor as a record, with its shape and `Elements.text`. -/
def Tensor.text (t : Tensor) : String :=
  s!"Tensor \x7b dims: {Text.sizes t.dims}, data: {t.elements.text} \x7d"

end TensorGraph
