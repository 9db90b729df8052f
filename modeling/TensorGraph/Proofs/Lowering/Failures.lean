import TensorGraph.Lowering.Operator
import TensorGraph.Proofs.Graph.Safety

/-! # Errors of the parts of lowerings

What a lowering computes besides looking names up and making nodes fails only with errors that tell
something about the model. Where a list is cut, or one of its entries replaced, the place was
checked or found before. Memory is allocated for tensors of zeros (`Tensor.zeros`), and it is
missing only for `Size.allocatable` bytes or more. -/

namespace TensorGraph

open Lowering
open Onnx (NodeRecord Attributes AttributeError)

/-- Errors that report a broken assumption, perhaps for a node: all handles and places are valid,
and where there is `room` memory can be allocated. -/
inductive LoadError.Broken (room : Prop) : LoadError → Prop
  | graph {cause : GraphError} (h : cause.Broken True room) : Broken room (.graph cause)
  | capacity (name : String) (h : room) : Broken room (.tensor name .capacity)
  | node (opType name : String) {cause : LoadError} (h : cause.Broken room) :
    Broken room (.node opType name cause)

/-- Errors that report a node. -/
inductive LoadError.ReportsNode : LoadError → Prop
  | node (opType name : String) (cause : LoadError) : ReportsNode (.node opType name cause)
  | unsupportedOperator (opType name : String) : ReportsNode (.unsupportedOperator opType name)

/-- Errors that do not come from what a lowering computes by itself: broken assumptions (`Broken`),
and reports of nodes (`ReportsNode`). -/
inductive LoadError.Foreign (room : Prop) : LoadError → Prop
  | graph {cause : GraphError} (h : cause.Broken True room) : Foreign room (.graph cause)
  | capacity (name : String) (h : room) : Foreign room (.tensor name .capacity)
  | node (opType name : String) (cause : LoadError) : Foreign room (.node opType name cause)
  | unsupportedOperator (opType name : String) : Foreign room (.unsupportedOperator opType name)

variable {room : Prop}

theorem GraphError.Broken.mono {expected room room' : Prop} {e : GraphError}
    (h : e.Broken expected room) (hroom : room → room') : e.Broken expected room' := by
  cases h with
  | unknownNode id hexpected => exact .unknownNode id hexpected
  | staleType ref => exact .staleType ref
  | outOfRange index length => exact .outOfRange index length
  | capacity h => exact .capacity (hroom h)

theorem LoadError.Broken.foreign {room' : Prop} {e : LoadError} (h : e.Broken room)
    (hroom : room → room') : e.Foreign room' := by
  cases h with
  | graph hcause => exact .graph (hcause.mono hroom)
  | capacity name h => exact .capacity name (hroom h)
  | node opType name _ => exact .node opType name _

theorem LoadError.ReportsNode.foreign {e : LoadError} (h : e.ReportsNode) : e.Foreign room := by
  cases h with
  | node opType name cause => exact .node opType name cause
  | unsupportedOperator opType name => exact .unsupportedOperator opType name

section Parts

variable {α : Type}

theorem avoids_attribute (result : Except AttributeError α) :
    Avoids (LoadError.Foreign room) (result.mapError .attribute) :=
  .mapError fun _ _ => nofun

theorem avoids_tensor (name : String) {result : Except TensorError α}
    (h : Avoids (·.isFault) result) :
    Avoids (LoadError.Foreign room) (result.mapError (.tensor name)) :=
  .mapError fun e he hforeign => by
    cases hforeign with
    | capacity _ _ => exact h .capacity he rfl

theorem avoids_shape {ε : Type} (cause : ShapeError) (result : Except ε α) :
    Avoids (LoadError.Foreign room) (result.mapError fun _ => .shape cause) :=
  .mapError fun _ _ => nofun

theorem avoids_graph {result : Except GraphError α}
    (h : Avoids (GraphError.Broken True room) result) :
    Avoids (LoadError.Foreign room) (result.mapError .graph) :=
  .mapError fun e he hinternal => by
    cases hinternal with
    | graph hcause => exact h e he hcause

theorem avoids_input (node : NodeRecord) (position : Nat) :
    Avoids (LoadError.Foreign room) (node.input position) := .found nofun

theorem avoids_output (node : NodeRecord) : Avoids (LoadError.Foreign room) node.output :=
  .found nofun

theorem avoids_constant (t : Table) (name : String) :
    Avoids (LoadError.Foreign room) (t.constant name) := by
  unfold Table.constant
  split
  · exact .pure _
  split
  · exact .error nofun
  · exact .error nofun

end Parts

/-! ### Tensors -/

section Tensors

variable {kind : ElementKind} {dims : List Nat}

theorem avoids_countElements (dims : List Nat) : Avoids (·.isFault) (countElements dims) :=
  .found nofun

theorem avoids_countBytes (kind : ElementKind) (dims : List Nat) :
    Avoids (·.isFault) (countBytes kind dims) :=
  (avoids_countElements dims).bind fun _ _ => .found nofun

theorem avoids_ofElements (elements : Elements) (dims : List Nat) :
    Avoids (·.isFault) (Tensor.ofElements elements dims) := by
  refine (avoids_countElements dims).bind fun count _ => ?_
  split
  · exact .pure _
  · exact .error Bool.false_ne_true

theorem avoids_tensorOfBytes (kind : ElementKind) (dims : List Nat) (bytes : Bytes) :
    Avoids (·.isFault) (Tensor.ofBytes kind dims bytes) :=
  (avoids_countBytes kind dims).bind fun _ _ => (Avoids.check nofun).bind fun _ _ => .pure _

theorem avoids_transposed (t : Tensor) (shuffle : List Nat) :
    Avoids (·.isFault) (t.transpose shuffle) := by
  unfold Tensor.transpose
  split
  · exact .pure _
  · exact .error Bool.false_ne_true

theorem avoids_copyFrom (t source : Tensor) : Avoids (·.isFault) (t.copyFrom source) := by
  intro e he hfault
  rw [Tensor.eq_of_fitInto_eq_error he] at hfault
  cases hfault

/-- Zeros that take fewer bytes than `Size.allocatable` find memory. -/
theorem avoids_zeros (name : String)
    (hroom : room → volume dims * kind.width < Size.allocatable) :
    Avoids (LoadError.Foreign room) ((Tensor.zeros kind dims).mapError (.tensor name)) := by
  refine .mapError fun e he hforeign => ?_
  cases hforeign with
  | capacity _ h =>
    rcases Tensor.eq_of_zeros_eq_error he with hoverflow | ⟨-, hlarge⟩
    · cases hoverflow
    · exact Nat.not_lt.2 hlarge (hroom h)

end Tensors

/-! ### Tensors of records -/

section Records

theorem avoids_ofCode (name : String) (code : Int32) :
    Avoids (LoadError.Foreign room) (ElementKind.ofCode name code) := by
  unfold ElementKind.ofCode
  split
  · exact .pure _
  split
  · exact .pure _
  · exact .error nofun

theorem avoids_materialize (record : Onnx.TensorRecord) :
    Avoids (LoadError.Foreign room) record.materialize := by
  refine (avoids_ofCode _ _).bind fun kind _ => ?_
  refine (Avoids.mapM fun d _ => .found nofun).bind fun dims _ => ?_
  split
  · exact avoids_tensor record.name (avoids_ofElements _ dims)
  split
  · exact avoids_tensor record.name (avoids_ofElements _ dims)
  split
  · exact avoids_tensor record.name (avoids_tensorOfBytes kind dims _)
  · exact .error nofun

end Records

/-! ### Windows -/

section Windows

theorem avoids_squareSize (name : String) (values : List Int64) :
    Avoids (LoadError.Foreign room) (squareSize name values) := by
  refine (avoids_attribute _).bind fun sizes _ => ?_
  split
  · exact .error nofun
  · exact (Avoids.check nofun).bind fun _ _ => .pure _

theorem avoids_kernelOf (attrs : Attributes) (height width : Nat) :
    Avoids (LoadError.Foreign room) (kernelOf attrs height width) := by
  refine (avoids_attribute _).bind fun given _ => ?_
  split
  · exact avoids_squareSize _ _
  · exact (Avoids.check nofun).bind fun _ _ => .pure _

theorem avoids_strideOf (attrs : Attributes) :
    Avoids (LoadError.Foreign room) (strideOf attrs) := by
  refine (avoids_attribute _).bind fun given _ => ?_
  split
  · exact avoids_squareSize _ _
  · exact .pure _

theorem avoids_convOptions (attrs : Attributes) (filter : List Nat) :
    Avoids (LoadError.Foreign room) (ConvOptions.read attrs filter) := by
  unfold ConvOptions.read
  split
  · refine (avoids_kernelOf attrs _ _).bind fun kernel _ => ?_
    refine (avoids_strideOf attrs).bind fun stride _ => ?_
    refine (avoids_attribute _).bind fun dilations _ => (Avoids.check nofun).bind fun _ _ => ?_
    exact (avoids_attribute _).bind fun group _ => (avoids_attribute _).bind fun pads _ => .pure _
  · exact .error nofun

theorem avoids_squareExtent (dims : List Nat) :
    Avoids (LoadError.Foreign room) (squareExtent dims) := by
  unfold squareExtent
  split
  · exact (Avoids.check nofun).bind fun _ _ => .pure _
  · exact .error nofun

theorem avoids_requiredKernel (attrs : Attributes) :
    Avoids (LoadError.Foreign room) (requiredKernel attrs) :=
  (avoids_attribute _).bind fun _ _ => (Avoids.found nofun).bind fun _ _ => avoids_squareSize _ _

theorem avoids_poolWindow (attrs : Attributes) (dims : List Nat) :
    Avoids (LoadError.Foreign room) (poolWindow attrs dims) := by
  refine (avoids_attribute _).bind fun flag _ => ?_
  have hrest : ∀ kernel, Avoids (LoadError.Foreign room) (do
      let stride ← strideOf attrs
      let pads ← padsOf attrs
      return ({ kernel, stride, pads } : Window)) := fun kernel =>
    (avoids_strideOf attrs).bind fun _ _ => (avoids_attribute _).bind fun _ _ => .pure _
  simp only
  split
  · exact (avoids_squareExtent dims).bind fun kernel _ => hrest kernel
  · exact (avoids_requiredKernel attrs).bind fun kernel _ => hrest kernel

theorem avoids_globalWindow (dims : List Nat) :
    Avoids (LoadError.Foreign room) (globalWindow dims) :=
  (avoids_squareExtent dims).bind fun _ _ => .pure _

end Windows

/-! ### Shapes -/

section Shapes

theorem avoids_targetDim (dims : List Nat) (target : List Int64) (place : Nat) (entry : Int64) :
    Avoids (LoadError.Foreign room) (targetDim dims target place entry) := by
  unfold targetDim
  split
  · exact .pure _
  split
  · exact .found nofun
  split
  · exact .pure _
  · exact .error nofun

theorem avoids_countOf (dims : List Nat) : Avoids (LoadError.Foreign room) (countOf dims) := by
  refine .mapError fun e he hforeign => ?_
  cases hforeign with
  | graph hcause =>
    cases hcause with
    | capacity _ => exact avoids_countElements dims _ he rfl

/-- The dimension that `resolveTarget` finds last stands at a place of the target shape. -/
theorem avoids_resolveTarget (dims : List Nat) (target : List Int64) :
    Avoids (LoadError.Foreign room) (resolveTarget dims target) := by
  refine (Avoids.mapM fun entry _ => avoids_targetDim _ _ _ _).bind fun known hknown => ?_
  split
  · next hmem =>
    refine (avoids_countOf _).bind fun total _ => (avoids_countOf _).bind fun count _ => ?_
    refine (Avoids.check (by rintro ⟨⟩)).bind fun _ _ => avoids_graph ?_
    have hlength : known.length = target.length := by
      rw [← (mapM_eq_ok.1 hknown).length_eq, List.length_zipIdx]
    have hplace : target.idxOf (-1) < known.length := by
      rw [hlength]
      exact List.idxOf_lt_length_of_mem hmem
    exact .of_ok (bind_eq_ok.2 ⟨(), check_eq_ok.2 hplace, rfl⟩)
  · exact .pure _

theorem avoids_splitPlace (axis : Int64) (rank : Nat) :
    Avoids (LoadError.Foreign room) (splitPlace axis rank) := by
  unfold splitPlace
  generalize (if axis.toInt < 0 then axis.toInt + rank else axis.toInt) = resolved
  show Avoids _ (if 0 ≤ resolved ∧ resolved ≤ rank then _ else _)
  split
  · exact .pure _
  · exact .error nofun

/-- The place at which a shape is cut, `splitPlace`, does not lie behind its end. -/
theorem splitPlace_le {axis : Int64} {rank place : Nat} (h : splitPlace axis rank = .ok place) :
    place ≤ rank := by
  unfold splitPlace at h
  generalize (if axis.toInt < 0 then axis.toInt + rank else axis.toInt) = resolved at h
  simp only at h
  split at h
  · next hrange =>
    cases h
    omega
  · cases h

theorem avoids_splitDims {dims : List Nat} {axis : Int64} {place : Nat}
    (h : splitPlace axis dims.length = .ok place) :
    Avoids (LoadError.Foreign room) ((splitDims dims place).mapError LoadError.graph) :=
  avoids_graph (.of_ok (bind_eq_ok.2 ⟨(), check_eq_ok.2 (splitPlace_le h), rfl⟩))

end Shapes

/-! ### Broadcasting -/

section Broadcasting

theorem Lowering.alignment_eq_ok {dims into : List Nat} {axis : Nat} :
    alignment dims into = .ok axis ↔ dims.length ≤ into.length ∧
      into.length - dims.length = axis := by
  simp only [alignment, bind_eq_ok, check_eq_ok, pure_eq_ok, exists_const]

theorem Lowering.axisOf_eq_ok {name : String} {axis : Int64} {rank place : Nat} :
    Onnx.axisOf name axis rank = .ok place ↔ place < rank ∧
      (place : Int) = if axis.toInt < 0 then axis.toInt + rank else axis.toInt := by
  unfold Onnx.axisOf
  generalize (if axis.toInt < 0 then axis.toInt + rank else axis.toInt) = resolved
  simp only
  split
  · rw [Except.ok.injEq]
    omega
  · simp only [reduceCtorEq, false_iff]
    omega

/-- An operand is placed by `alignment` at an axis of the other shape or at its end. -/
theorem alignment_le {dims into : List Nat} {axis : Nat} (h : alignment dims into = .ok axis) :
    axis ≤ into.length := by
  obtain ⟨-, rfl⟩ := alignment_eq_ok.1 h
  exact Nat.sub_le _ _

theorem legacyAxis_le {axis : Option Int64} {lhs rhs : List Nat} {place : Nat}
    (h : legacyAxis axis lhs rhs = .ok place) : place ≤ lhs.length := by
  cases axis with
  | some axis => exact Nat.le_of_lt (axisOf_eq_ok.1 (mapError_eq_ok.1 h)).1
  | none => exact alignment_le (mapError_eq_ok.1 h)

theorem avoids_legacyAxis (axis : Option Int64) (lhs rhs : List Nat) :
    Avoids (LoadError.Foreign room) (legacyAxis axis lhs rhs) := by
  unfold legacyAxis
  split
  · exact avoids_attribute _
  · exact avoids_shape _ _

/-- Both operands have at most the rank of their common shape, so they have an `alignment` in it. -/
theorem avoids_alignment {lhs rhs common dims : List Nat} (h : joinShape? lhs rhs = some common)
    (hdims : dims = lhs ∨ dims = rhs) :
    Avoids (LoadError.Foreign room) ((alignment dims common).mapError LoadError.graph) := by
  have hrank : dims.length ≤ common.length := by
    rw [length_joinShape? h]
    rcases hdims with rfl | rfl
    · exact Nat.le_max_left _ _
    · exact Nat.le_max_right _ _
  exact avoids_graph (.of_ok (bind_eq_ok.2 ⟨(), check_eq_ok.2 hrank, rfl⟩))

end Broadcasting
end TensorGraph
