import TensorGraph.Lowering.Options
import TensorGraph.Proofs.Check

/-! # Which options are read

For each access to an attribute: when it succeeds, and with which value. From these follows for
which attributes the options of a product and of a convolution are read, and which options these
are. -/

namespace TensorGraph

open Onnx

/-! ### Single attributes -/

namespace Onnx.Attributes

/-- The attribute of `name`, if it is there, has the type `type` and its record the `property`. -/
def Holds (attrs : Attributes) (name : String) (type : AttributeType)
    (property : AttributeRecord → Prop) : Prop :=
  ∀ record, attrs.get? name = some record →
    AttributeType.ofCode? record.type = some type ∧ property record

variable {attrs : Attributes} {name : String}

theorem Holds.of_missing {type : AttributeType} {property : AttributeRecord → Prop}
    (h : attrs.get? name = none) : attrs.Holds name type property := by
  intro record hrecord
  rw [h] at hrecord
  cases hrecord

theorem typed_eq_ok {type : AttributeType} {record : AttributeRecord} :
    attrs.typed name type = .ok record ↔ attrs.get? name = some record ∧
      AttributeType.ofCode? record.type = some type := by
  simp only [typed, bind_eq_ok, found_eq_ok, check_eq_ok, pure_eq_ok]
  constructor
  · rintro ⟨_, hrecord, _, htype, rfl⟩
    exact ⟨hrecord, htype⟩
  · rintro ⟨hrecord, htype⟩
    exact ⟨record, hrecord, (), htype, rfl⟩

/-- An attribute whose number `int` reads is there. -/
theorem contains_of_int {value : Int64} (h : attrs.int name = .ok value) :
    attrs.contains name = true := by
  simp only [int, bind_eq_ok, typed_eq_ok] at h
  obtain ⟨record, ⟨hrecord, -⟩, -⟩ := h
  rw [contains, hrecord, Option.isSome_some]

/-- A list that is not there is not read by `ints?`. -/
theorem ints?_of_missing (h : attrs.get? name = none) : attrs.ints? name = .ok none := by
  rw [ints?, contains, h]
  rfl

/-- An attribute is read by `read` if it is there, and has the `default` if it is not. -/
theorem optional_eq_ok {α : Type} {read : Except AttributeError α} {type : AttributeType}
    {property : AttributeRecord → Prop} {default value : α}
    (hread : read = .ok value ↔ ∃ record, attrs.typed name type = .ok record ∧ property record) :
    (if attrs.contains name then read else .ok default) = .ok value ↔
      attrs.Holds name type property ∧ (attrs.get? name = none → value = default) := by
  unfold Holds
  cases hget : attrs.get? name with
  | none =>
    have hmissing : attrs.contains name = false := by rw [contains, hget]; rfl
    rw [if_neg (by simp [hmissing])]
    simp [eq_comm]
  | some record =>
    have hthere : attrs.contains name = true := by rw [contains, hget]; rfl
    simp only [if_pos hthere, hread, typed_eq_ok, hget, Option.some.injEq, reduceCtorEq,
      false_implies, and_true, forall_eq']
    constructor
    · rintro ⟨_, ⟨rfl, htype⟩, hvalue⟩
      exact ⟨htype, hvalue⟩
    · rintro ⟨htype, hvalue⟩
      exact ⟨record, ⟨rfl, htype⟩, hvalue⟩

theorem intOr_eq_ok {default value : Int64} : attrs.intOr name default = .ok value ↔
    attrs.Holds name .int (·.int = value) ∧ (attrs.get? name = none → value = default) :=
  optional_eq_ok (by simp only [int, bind_eq_ok, pure_eq_ok])

theorem floatOr_eq_ok {default value : Binary32} : attrs.floatOr name default = .ok value ↔
    attrs.Holds name .float (·.float = value) ∧ (attrs.get? name = none → value = default) :=
  optional_eq_ok (by simp only [float, bind_eq_ok, pure_eq_ok])

theorem ints?_eq_ok {value : Option (List Int64)} : attrs.ints? name = .ok value ↔
    attrs.Holds name .ints (some ·.ints = value) ∧ (attrs.get? name = none → value = none) := by
  refine optional_eq_ok ?_
  rw [map_eq_pure_bind]
  simp only [ints, bind_eq_ok, pure_eq_ok]
  constructor
  · rintro ⟨_, ⟨record, hrecord, rfl⟩, hvalue⟩
    exact ⟨record, hrecord, hvalue⟩
  · rintro ⟨record, hrecord, hvalue⟩
    exact ⟨_, ⟨record, hrecord, rfl⟩, hvalue⟩

theorem sizeOr_eq_ok {default value : Nat} : attrs.sizeOr name default = .ok value ↔
    attrs.Holds name .int (·.int.toInt = value) ∧ (attrs.get? name = none → value = default) := by
  refine optional_eq_ok ?_
  simp only [int, bind_eq_ok, found_eq_ok, pure_eq_ok, Size.ofInt?_eq_some]
  constructor
  · rintro ⟨_, ⟨record, hrecord, rfl⟩, hvalue⟩
    exact ⟨record, hrecord, hvalue⟩
  · rintro ⟨record, hrecord, hvalue⟩
    exact ⟨_, ⟨record, hrecord, rfl⟩, hvalue⟩

/-- The number that the attribute `name` holds, 0 if it is missing. -/
def number (attrs : Attributes) (name : String) : Int64 := ((attrs.get? name).map (·.int)).getD 0

theorem intOr_eq_number (h : attrs.Holds name .int fun _ => True) :
    attrs.intOr name 0 = .ok (attrs.number name) := by
  refine intOr_eq_ok.2 ⟨fun record hrecord => ⟨(h record hrecord).1, ?_⟩, fun hnone => ?_⟩
  · rw [number, hrecord]
    rfl
  · rw [number, hnone]
    rfl

end Onnx.Attributes

/-! ### Products -/

/-- The attributes of a product that are there have the types that they must have, and its scales
are 1. -/
structure ProductAttributes (attrs : Attributes) : Prop where
  alpha : attrs.Holds "alpha" .float (·.float = .one)
  beta : attrs.Holds "beta" .float (·.float = .one)
  transA : attrs.Holds "transA" .int fun _ => True
  transB : attrs.Holds "transB" .int fun _ => True
  broadcast : attrs.Holds "broadcast" .int fun _ => True

/-- The options that the attributes of a product stand for, if they are `ProductAttributes`. -/
def GemmOptions.ofAttributes (attrs : Attributes) (opset : Int64) : GemmOptions where
  transA := attrs.number "transA" ≠ 0
  transB := attrs.number "transB" ≠ 0
  broadcast := broadcastingOpset ≤ opset.toInt ∨ attrs.number "broadcast" = 1

theorem allowsBroadcast_eq {attrs : Attributes} {opset : Int64}
    (h : attrs.Holds "broadcast" .int fun _ => True) : allowsBroadcast attrs opset =
      .ok (broadcastingOpset ≤ opset.toInt ∨ attrs.number "broadcast" = 1 : Bool) := by
  unfold allowsBroadcast
  by_cases hopset : broadcastingOpset ≤ opset.toInt
  · simp [hopset, pure, Except.pure]
  · simp [hopset, Attributes.intOr_eq_number h, pure, Except.pure, bind, Except.bind]

theorem GemmOptions.read_eq {attrs : Attributes} {opset : Int64} (h : ProductAttributes attrs) :
    GemmOptions.read attrs opset = .ok (.ofAttributes attrs opset) := by
  simp only [GemmOptions.read, bind_eq_ok, pure_eq_ok]
  exact ⟨.one, Attributes.floatOr_eq_ok.2 ⟨h.alpha, fun _ => rfl⟩, .one,
    Attributes.floatOr_eq_ok.2 ⟨h.beta, fun _ => rfl⟩, _, Attributes.intOr_eq_number h.transA, _,
    Attributes.intOr_eq_number h.transB, _, allowsBroadcast_eq h.broadcast, rfl⟩

/-! ### Convolutions -/

/-- A list gives a `size`: there are entries, and each of them is this size. -/
def Gives (size : Nat) (values : List Int64) : Prop := values ≠ [] ∧ ∀ v ∈ values, v.toInt = size

theorem squareSize_eq_ok {name : String} {values : List Int64} {size : Nat} :
    squareSize name values = .ok size ↔ Gives size values := by
  simp only [squareSize, bind_eq_ok, mapError_eq_ok, sizesOf, mapM_eq_ok, found_eq_ok,
    Size.ofInt?_eq_some]
  cases values with
  | nil => simp [Gives]
  | cons v values =>
    simp only [Gives, ne_eq, reduceCtorEq, not_false_eq_true, true_and, List.forall_mem_cons]
    constructor
    · rintro ⟨_, hsizes, h⟩
      cases hsizes with
      | @cons _ first _ rest hfirst hrest =>
        simp only [bind_eq_ok, check_eq_ok, pure_eq_ok] at h
        obtain ⟨_, hall, rfl⟩ := h
        refine ⟨hfirst, fun w hw => ?_⟩
        obtain ⟨other, hother, hwother⟩ := exists_of_forall₂ hrest hw
        rw [hwother, hall other hother]
    · rintro ⟨hfirst, hall⟩
      refine ⟨size :: values.map fun _ => size, .cons hfirst ?_, ?_⟩
      · rw [List.forall₂_map_right_iff, List.forall₂_same]
        exact hall
      · simp only [bind_eq_ok, check_eq_ok, pure_eq_ok]
        exact ⟨(), by simp, trivial⟩

theorem attribute_eq_ok {α : Type} {result : Except AttributeError α} {a : α} :
    (liftM result : Except LoadError α) = .ok a ↔ result = .ok a :=
  mapError_eq_ok

/-- A list is read, if it is there, by a function that finds its size (`squareSize`). -/
theorem sizeOfList_eq_ok {attrs : Attributes} {name : String} {missing : Except LoadError Nat}
    {size : Nat} : ((liftM (attrs.ints? name) : Except LoadError _) >>= fun
        | some values => squareSize name values
        | none => missing) = .ok size ↔
      attrs.Holds name .ints (Gives size ·.ints) ∧
        (attrs.get? name = none → missing = .ok size) := by
  simp only [bind_eq_ok, attribute_eq_ok, Attributes.ints?_eq_ok]
  unfold Attributes.Holds
  cases hget : attrs.get? name with
  | none => simp
  | some record =>
    simp only [Option.some.injEq, forall_eq', reduceCtorEq, false_implies, and_true]
    constructor
    · rintro ⟨_, ⟨htype, rfl⟩, hsize⟩
      exact ⟨htype, squareSize_eq_ok.1 hsize⟩
    · rintro ⟨htype, hsize⟩
      exact ⟨_, ⟨htype, rfl⟩, squareSize_eq_ok.2 hsize⟩

theorem kernelOf_eq_ok {attrs : Attributes} {height width size : Nat} :
    kernelOf attrs height width = .ok size ↔
      attrs.Holds "kernel_shape" .ints (Gives size ·.ints) ∧
        (attrs.get? "kernel_shape" = none → height = width ∧ height = size) := by
  refine sizeOfList_eq_ok.trans ?_
  simp only [bind_eq_ok, check_eq_ok, pure_eq_ok, exists_const]

theorem strideOf_eq_ok {attrs : Attributes} {size : Nat} : strideOf attrs = .ok size ↔
    attrs.Holds "strides" .ints (Gives size ·.ints) ∧ (attrs.get? "strides" = none → 1 = size) := by
  refine sizeOfList_eq_ok.trans ?_
  simp only [pure_eq_ok]

/-- A list that may be missing has one number in all its entries. -/
theorem exists_all_iff {attrs : Attributes} {name : String} {number : Int64} :
    (∃ list, attrs.ints? name = .ok list ∧ (list.getD []).all (· == number) = true) ↔
      attrs.Holds name .ints (∀ v ∈ ·.ints, v = number) := by
  simp only [Attributes.ints?_eq_ok]
  unfold Attributes.Holds
  cases hget : attrs.get? name with
  | none => simp
  | some record =>
    simp only [Option.some.injEq, forall_eq', reduceCtorEq, false_implies, and_true]
    constructor
    · rintro ⟨_, ⟨htype, rfl⟩, hall⟩
      exact ⟨htype, by simpa using hall⟩
    · rintro ⟨htype, hall⟩
      exact ⟨_, ⟨htype, rfl⟩, by simpa using hall⟩

/-- The attributes of a convolution ask for these `options`, if it has filters of the size of the
window. -/
structure ConvolutionAttributes (attrs : Attributes) (options : ConvOptions) : Prop where
  kernel : attrs.Holds "kernel_shape" .ints (Gives options.window.kernel ·.ints)
  strides : attrs.Holds "strides" .ints (Gives options.window.stride ·.ints)
  stride_default : attrs.get? "strides" = none → options.window.stride = 1
  dilations : attrs.Holds "dilations" .ints (∀ v ∈ ·.ints, v = 1)
  group : attrs.Holds "group" .int (·.int.toInt = options.group)
  group_default : attrs.get? "group" = none → options.group = 1
  pads : padsOf attrs = .ok options.window.pads

/-- **The options of a convolution**, which `ConvOptions.read` reads, are those that its attributes
ask for (`ConvolutionAttributes`). The filters give their number and, without an attribute for it,
the size of the window. -/
theorem ConvOptions.read_eq_ok {attrs : Attributes} {depth height width channels : Nat}
    {options : ConvOptions} :
    ConvOptions.read attrs [depth, height, width, channels] = .ok options ↔
      ConvolutionAttributes attrs options ∧ options.depth = depth ∧
        (attrs.get? "kernel_shape" = none → height = width ∧ height = options.window.kernel) := by
  simp only [ConvOptions.read, bind_eq_ok, attribute_eq_ok, check_eq_ok, pure_eq_ok, kernelOf_eq_ok,
    strideOf_eq_ok, Attributes.sizeOr_eq_ok]
  constructor
  · rintro ⟨kernel, ⟨hkernel, hsquare⟩, stride, ⟨hstrides, hstride⟩, list, hlist, _, hall, group,
      ⟨hgroup, hdefault⟩, pads, hpads, rfl⟩
    exact ⟨⟨hkernel, hstrides, fun h => (hstride h).symm, exists_all_iff.1 ⟨list, hlist, hall⟩,
      hgroup, hdefault, hpads⟩, rfl, hsquare⟩
  · rintro ⟨h, rfl, hsquare⟩
    obtain ⟨list, hlist, hall⟩ := exists_all_iff.2 h.dilations
    exact ⟨_, ⟨h.kernel, hsquare⟩, _, ⟨h.strides, fun hnone => (h.stride_default hnone).symm⟩, list,
      hlist, (), hall, _, ⟨h.group, h.group_default⟩, _, h.pads, rfl⟩

end TensorGraph
