import TensorGraph.Lowering.Operator

/-! # Operands

A node looks its inputs up as graph values or as constants, depending on its operator and on the
place of the input. -/

namespace TensorGraph.Onnx.NodeRecord

/-- The names that a node of an operator takes as graph values. -/
def valueInputs (node : NodeRecord) : Operator → List String
  | .constant => []
  | .concat | .sum => node.inputs
  | .matMul | .add | .sub | .mul | .div => [0, 1].filterMap node.input?
  | .gemm => [0, 1, 2].filterMap node.input?
  | _ => [0].filterMap node.input?

/-- The names that a node of an operator takes as constant operands: filters and bias, the four
parameters of a normalization, a target shape, and the axes that no attribute gives. -/
def constantInputs (node : NodeRecord) : Operator → List String
  | .conv => [1, 2].filterMap node.input?
  | .batchNormalization => [1, 2, 3, 4].filterMap node.input?
  | .reshape => [1].filterMap node.input?
  | .squeeze | .unsqueeze =>
    match node.view.ints? "axes" with
    | .ok none => [1].filterMap node.input?
    | _ => []
  | _ => []

variable {node : NodeRecord}

theorem mem_inputs_of_input? {position : Nat} {name : String}
    (h : node.input? position = some name) : name ∈ node.inputs := by
  simp only [input?, Option.filter_eq_some_iff] at h
  exact List.mem_of_getElem? h.1

theorem mem_filterMap_input? {positions : List Nat} {position : Nat} {name : String}
    (hp : position ∈ positions) (h : node.input? position = some name) :
    name ∈ positions.filterMap node.input? :=
  List.mem_filterMap.2 ⟨position, hp, h⟩

/-- Axes are a constant operand (`constantInputs`) unless an attribute gives them. -/
theorem mem_constantInputs_of_axes {op : Operator} (hop : op = .squeeze ∨ op = .unsqueeze)
    {name : String} : name ∈ node.constantInputs op ↔
      node.view.ints? "axes" = .ok none ∧ node.input? 1 = some name := by
  have hinputs : node.constantInputs op = node.constantInputs .squeeze := by
    obtain rfl | rfl := hop
    · rfl
    · rfl
  rw [hinputs, constantInputs]
  split
  · next h => simp [h]
  · next h => exact ⟨fun hname => absurd hname List.not_mem_nil, fun hname => absurd hname.1 h⟩

theorem filterMap_input?_subset (positions : List Nat) :
    positions.filterMap node.input? ⊆ node.inputs := by
  intro name hname
  obtain ⟨position, -, h⟩ := List.mem_filterMap.1 hname
  exact mem_inputs_of_input? h

/-- Every operand that is taken as a value (`valueInputs`) is an input. -/
theorem valueInputs_subset (op : Operator) : node.valueInputs op ⊆ node.inputs := by
  cases op with
  | constant => exact List.nil_subset _
  | concat => exact List.Subset.refl _
  | sum => exact List.Subset.refl _
  | _ => exact filterMap_input?_subset _

/-- Every constant operand (`constantInputs`) is an input. -/
theorem constantInputs_subset (op : Operator) : node.constantInputs op ⊆ node.inputs := by
  have haxes : ∀ op, op = .squeeze ∨ op = .unsqueeze → node.constantInputs op ⊆ node.inputs :=
    fun op hop name hname => mem_inputs_of_input? ((mem_constantInputs_of_axes hop).1 hname).2
  cases op with
  | conv => exact filterMap_input?_subset _
  | batchNormalization => exact filterMap_input?_subset _
  | reshape => exact filterMap_input?_subset _
  | squeeze => exact haxes _ (.inl rfl)
  | unsqueeze => exact haxes _ (.inr rfl)
  | _ => exact List.nil_subset _

end TensorGraph.Onnx.NodeRecord
