import TensorGraph.Load.Error

/-! # Options of operators

The attributes of a node are read into the options of its operator. Only square windows are
supported, with explicit padding or none, and implicit broadcasting depends on the version of the
operator set. -/

namespace TensorGraph

open Onnx

/-- The first version of the operator set in which broadcasting is always on. -/
def broadcastingOpset : Int := 7

/-! ### Windows -/

/-- The four paddings of a window. A list `pads` is taken as it is; otherwise only automatic
padding that pads nothing is supported. -/
def padsOf (attrs : Attributes) : Except AttributeError Pads := do
  match ← attrs.ints? "pads" with
  | some values =>
    let sizes ← sizesOf "pads" values
    found (Pads.ofList? sizes) (.invalid "pads" (.count 4 sizes))
  | none =>
    if attrs.contains "auto_pad" then
      let mode ← attrs.string "auto_pad"
      check (mode = "VALID" ∨ mode = "NOTSET") (.unsupported "auto_pad" mode)
    return .zero

/-- The size that all entries of a list are equal to. -/
def squareSize (name : String) (values : List Int64) : Except LoadError Nat := do
  let sizes ← (sizesOf name values).mapError .attribute
  match sizes with
  | [] => .error (.attribute (.invalid name .empty))
  | first :: rest =>
    check (∀ size ∈ rest, size = first) (.shape (.notSquare name sizes))
    return first

/-- The kernel of a convolution: `kernel_shape`, else that of the filters, which must be square. -/
def kernelOf (attrs : Attributes) (height width : Nat) : Except LoadError Nat := do
  match ← attrs.ints? "kernel_shape" with
  | some values => squareSize "kernel_shape" values
  | none => do
    check (height = width) (.shape (.filterNotSquare height width))
    return height

/-- The stride of a window, from `strides`, 1 by default. -/
def strideOf (attrs : Attributes) : Except LoadError Nat := do
  match ← attrs.ints? "strides" with
  | some values => squareSize "strides" values
  | none => return 1

/-- The options of a convolution. -/
structure ConvOptions where
  /-- Number of filters. -/
  depth : Nat
  window : Window
  group : Nat
  deriving DecidableEq

/-- The options of a convolution with filters `[depth, height, width, channels]`. -/
def ConvOptions.read (attrs : Attributes) (filter : List Nat) : Except LoadError ConvOptions := do
  match filter with
  | [depth, height, width, _] =>
    let kernel ← kernelOf attrs height width
    let stride ← strideOf attrs
    let dilations ← attrs.ints? "dilations"
    check ((dilations.getD []).all (· == 1))
      (.attribute (.unsupported "dilations" (Text.integers (dilations.getD []))))
    let group ← attrs.sizeOr "group" 1
    let pads ← padsOf attrs
    return { depth, window := { kernel, stride, pads }, group }
  | _ => .error (.shape (.filterRank filter))

/-- The height of images that are as high as they are wide. -/
def squareExtent (dims : List Nat) : Except LoadError Nat :=
  match dims with
  | [_, height, width, _] => do
    check (height = width) (.shape (.notSquareImage dims))
    return height
  | _ => .error (.shape (.notSquareImage dims))

/-- The kernel of a pooling, `kernel_shape`, which must be given. -/
def requiredKernel (attrs : Attributes) : Except LoadError Nat := do
  let values ← found (← attrs.ints? "kernel_shape") (.attribute (.missing "kernel_shape"))
  squareSize "kernel_shape" values

/-- The window of a pooling over images `[count, height, width, channels]`. Global pooling takes the
whole image, whatever the kernel. -/
def poolWindow (attrs : Attributes) (dims : List Nat) : Except LoadError Window := do
  let isGlobal := (← attrs.intOr "global_pooling" 0) ≠ 0
  let kernel ← if isGlobal then squareExtent dims else requiredKernel attrs
  let stride ← strideOf attrs
  let pads ← padsOf attrs
  return { kernel, stride, pads }

/-- The window of a pooling that takes the whole image, without padding. -/
def globalWindow (dims : List Nat) : Except LoadError Window := do
  return { kernel := ← squareExtent dims, stride := 1, pads := .zero }

/-! ### Broadcasting -/

/-- Whether operands of different shapes may be broadcast: always in newer operator sets, from
`broadcastingOpset` on, by a flag in older ones. -/
def allowsBroadcast (attrs : Attributes) (opset : Int64) : Except AttributeError Bool := do
  if broadcastingOpset ≤ opset.toInt then return true
  return (← attrs.intOr "broadcast" 0) = 1

/-- How two operands of different shapes are brought together. -/
inductive BroadcastMode
  /-- Not at all. -/
  | disabled
  /-- The right operand takes the shape of the left one, from an axis on; without an axis their last
  dimensions are aligned. -/
  | legacy (axis : Option Int64)
  /-- Both operands take their common shape. -/
  | multidirectional
  deriving DecidableEq

/-- The mode that an operator set and the attributes ask for: `multidirectional` in newer operator
sets, `legacy` in older ones if the flag is set. -/
def BroadcastMode.read (attrs : Attributes) (opset : Int64) :
    Except AttributeError BroadcastMode := do
  if !(← allowsBroadcast attrs opset) then return .disabled
  if broadcastingOpset ≤ opset.toInt then return .multidirectional
  if attrs.contains "axis" then return .legacy (some (← attrs.int "axis"))
  return .legacy none

/-! ### Products and normalization -/

/-- The options of a general matrix product. -/
structure GemmOptions where
  transA : Bool
  transB : Bool
  /-- Whether the addend may be broadcast to the shape of the product. -/
  broadcast : Bool
  deriving DecidableEq

/-- The scales of a product must be numbers, but count as 1. -/
def GemmOptions.read (attrs : Attributes) (opset : Int64) : Except AttributeError GemmOptions := do
  let _ ← attrs.floatOr "alpha" .one
  let _ ← attrs.floatOr "beta" .one
  let transA ← attrs.intOr "transA" 0
  let transB ← attrs.intOr "transB" 0
  let broadcast ← allowsBroadcast attrs opset
  return { transA := transA ≠ 0, transB := transB ≠ 0, broadcast }

/-- The options of a batch normalization. -/
structure BatchOptions where
  epsilon : Binary32
  momentum : Binary32
  deriving DecidableEq

namespace BatchOptions

/-- The number nearest to 0.00001. -/
def defaultEpsilon : Binary32 := ⟨0x3727c5ac⟩

/-- The number nearest to 0.9. -/
def defaultMomentum : Binary32 := ⟨0x3f666666⟩

/-- The options with their defaults. -/
def read (attrs : Attributes) : Except AttributeError BatchOptions := do
  let epsilon ← attrs.floatOr "epsilon" defaultEpsilon
  let momentum ← attrs.floatOr "momentum" defaultMomentum
  return { epsilon, momentum }

end BatchOptions
end TensorGraph
