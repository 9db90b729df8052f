import TensorGraph.Proofs.Lowering.Moves
import TensorGraph.Proofs.Lowering.Operands

/-! # Constant operands

Some operators take operands that must be known when the node is lowered: they are frozen into
parameters, shapes and axes. A node is lowered only if each of these names stands for a tensor at
that time, and no part of the lowering changes what it stands for. -/

namespace TensorGraph

open Onnx (NodeRecord)
open Step (after MovesBy)

namespace Lowering

variable {node : NodeRecord} {name : String} {s t : Workspace}

theorem tensor?_of_ok {α : Type} {op : Operator} (hop : op ≠ .constant) {x : Lowering α}
    (hx : MovesBy (Move op node) x) {a : α} (h : x s = .ok a t) (name : String) :
    t.table.tensor? name = s.table.tensor? name := by
  have htensors := tensors_eq_of_movesBy hop hx s
  rw [Step.after_of_ok h] at htensors
  simp only [Table.tensor?, htensors]

/-! ### Convolution -/

theorem filterTensor_eq_ok {filters : Tensor} : filterTensor name s = .ok filters t ↔
    (∃ weight, s.table.tensor? name = some weight ∧ weight.transpose toChannelLast = .ok filters) ∧
      t = s := by
  unfold filterTensor
  simp only [Step.bind_eq_ok, constant_eq_ok, ofExcept_eq_ok, mapError_eq_ok]
  constructor
  · rintro ⟨weight, _, ⟨hweight, rfl⟩, hfilters, rfl⟩
    exact ⟨⟨weight, hweight, hfilters⟩, rfl⟩
  · rintro ⟨⟨weight, hweight, hfilters⟩, rfl⟩
    exact ⟨weight, _, ⟨hweight, rfl⟩, hfilters, rfl⟩

/-- The bias of a convolution is the tensor of the third input, of the right kind and shape, or as
many zeros, for which there must be memory (`Tensor.zeros`). -/
theorem biasTensor_eq_ok {depth : Nat} {biases : Tensor} :
    biasTensor node depth s = .ok biases t ↔ (∃ zeros, Tensor.zeros .float [depth] = .ok zeros ∧
      match node.input? 2 with
      | some name => s.table.tensor? name = some biases ∧ zeros.copyFrom biases = .ok biases
      | none => biases = zeros) ∧ t = s := by
  unfold biasTensor
  simp only [Step.bind_eq_ok, ofExcept_eq_ok, mapError_eq_ok]
  cases node.input? 2 with
  | none =>
    simp only [Step.pure_eq_ok]
    constructor
    · rintro ⟨zeros, _, ⟨hzeros, rfl⟩, rfl, rfl⟩
      exact ⟨⟨_, hzeros, rfl⟩, rfl⟩
    · rintro ⟨⟨zeros, hzeros, rfl⟩, rfl⟩
      exact ⟨_, _, ⟨hzeros, rfl⟩, rfl, rfl⟩
  | some name =>
    simp only [Step.bind_eq_ok, constant_eq_ok, ofExcept_eq_ok, mapError_eq_ok]
    constructor
    · rintro ⟨zeros, _, ⟨hzeros, rfl⟩, bias, _, ⟨hbias, rfl⟩, hcopy, rfl⟩
      obtain ⟨-, -, rfl⟩ := Tensor.fitInto_eq_ok.1 hcopy
      exact ⟨⟨zeros, hzeros, hbias, hcopy⟩, rfl⟩
    · rintro ⟨⟨zeros, hzeros, hbias, hcopy⟩, rfl⟩
      exact ⟨zeros, _, ⟨hzeros, rfl⟩, biases, _, ⟨hbias, rfl⟩, hcopy, rfl⟩

theorem type_of_biasTensor {depth : Nat} {biases : Tensor}
    (h : biasTensor node depth s = .ok biases t) : biases.type = ⟨.float, [depth]⟩ := by
  obtain ⟨⟨zeros, hzeros, hbias⟩, -⟩ := biasTensor_eq_ok.1 h
  have htype : zeros.type = ⟨.float, [depth]⟩ := by
    rw [Tensor.eq_zero_of_zeros hzeros]
    rfl
  cases hinput : node.input? 2 with
  | some name =>
    rw [hinput] at hbias
    obtain ⟨hkind, hdims, -⟩ := Tensor.fitInto_eq_ok.1 hbias.2
    simp only [Tensor.type, hkind, hdims]
    exact htype
  | none =>
    rw [hinput] at hbias
    rw [hbias, htype]

theorem exists_tensor_of_convolution (h : convolution node s = .ok () t)
    (hname : name ∈ node.constantInputs .conv) : ∃ tensor, s.table.tensor? name = some tensor := by
  unfold convolution at h
  rw [Step.bind_eq_ok] at h
  obtain ⟨input, r, hinput, h⟩ := h
  rw [← tensor?_of_ok (by decide : Operator.conv ≠ .constant) (movesBy_inputValue 0) hinput]
  simp only [Step.bind_eq_ok, lift_eq_ok, input_eq_ok, filterTensor_eq_ok, biasTensor_eq_ok] at h
  obtain ⟨filter, _, ⟨hfilter, rfl⟩, filters, _, ⟨⟨weight, hweight, -⟩, rfl⟩, options, _, ⟨-, rfl⟩,
    biases, _, ⟨⟨zeros, -, hbias⟩, rfl⟩, -⟩ := h
  simp only [NodeRecord.constantInputs, List.mem_filterMap, List.mem_cons, List.not_mem_nil,
    or_false] at hname
  obtain ⟨position, rfl | rfl, hposition⟩ := hname
  · rw [hfilter] at hposition
    cases hposition
    exact ⟨weight, hweight⟩
  · rw [hposition] at hbias
    exact ⟨biases, hbias.1⟩

/-! ### Batch normalization -/

theorem exists_tensor_of_batchNormalization (h : batchNormalization node s = .ok () t)
    (hname : name ∈ node.constantInputs .batchNormalization) :
    ∃ tensor, s.table.tensor? name = some tensor := by
  unfold batchNormalization at h
  rw [Step.bind_eq_ok] at h
  obtain ⟨input, r, hinput, h⟩ := h
  rw [← tensor?_of_ok (by decide : Operator.batchNormalization ≠ .constant)
    (movesBy_inputValue 0) hinput]
  simp only [Step.bind_eq_ok, lift_eq_ok, liftAttribute_eq_ok, input_eq_ok, constant_eq_ok] at h
  obtain ⟨options, _, ⟨-, rfl⟩, n₁, _, ⟨h₁, rfl⟩, scale, _, ⟨hscale, rfl⟩, n₂, _, ⟨h₂, rfl⟩,
    bias, _, ⟨hbias, rfl⟩, n₃, _, ⟨h₃, rfl⟩, mean, _, ⟨hmean, rfl⟩, n₄, _, ⟨h₄, rfl⟩, variance, _,
    ⟨hvariance, rfl⟩, -⟩ := h
  simp only [NodeRecord.constantInputs, List.mem_filterMap, List.mem_cons, List.not_mem_nil,
    or_false] at hname
  obtain ⟨position, rfl | rfl | rfl | rfl, hposition⟩ := hname
  · rw [h₁] at hposition; cases hposition; exact ⟨scale, hscale⟩
  · rw [h₂] at hposition; cases hposition; exact ⟨bias, hbias⟩
  · rw [h₃] at hposition; cases hposition; exact ⟨mean, hmean⟩
  · rw [h₄] at hposition; cases hposition; exact ⟨variance, hvariance⟩

/-! ### Shapes and axes -/

theorem mem_input? : name ∈ [1].filterMap node.input? ↔ node.input? 1 = some name := by
  simp [List.mem_filterMap]

theorem exists_tensor_of_constantIndices {role : String} {numbers : List Int64}
    (h : constantIndices role name s = .ok numbers t) :
    ∃ tensor, s.table.tensor? name = some tensor := by
  obtain ⟨⟨tensor, -, htensor, -⟩, -⟩ := constantIndices_eq_ok.1 h
  exact ⟨tensor, htensor⟩

theorem exists_tensor_of_reshape (h : reshape node s = .ok () t)
    (hname : name ∈ node.constantInputs .reshape) :
    ∃ tensor, s.table.tensor? name = some tensor := by
  unfold reshape at h
  rw [Step.bind_eq_ok] at h
  obtain ⟨input, r, hinput, h⟩ := h
  rw [← tensor?_of_ok (by decide : Operator.reshape ≠ .constant) (movesBy_inputValue 0) hinput]
  rw [Step.bind_eq_ok] at h
  obtain ⟨target, _, htarget, -⟩ := h
  unfold targetShape at htarget
  rw [mem_input?.1 hname] at htarget
  exact exists_tensor_of_constantIndices htarget

theorem exists_tensor_of_axes {op : Operator} (hop : op = .squeeze ∨ op = .unsqueeze) {rank : Nat}
    {axes : List Nat} (h : resolvedAxes node rank s = .ok axes t)
    (hname : name ∈ node.constantInputs op) : ∃ tensor, s.table.tensor? name = some tensor := by
  unfold resolvedAxes axesOf at h
  simp only [Step.bind_eq_ok, liftAttribute_eq_ok] at h
  obtain ⟨_, _, ⟨given, _, ⟨hgiven, rfl⟩, haxes⟩, -⟩ := h
  obtain ⟨hnone, hinput⟩ := (NodeRecord.mem_constantInputs_of_axes hop).1 hname
  rw [hgiven] at hnone
  cases hnone
  simp only [hinput] at haxes
  exact exists_tensor_of_constantIndices haxes

theorem exists_tensor_of_squeeze (h : squeeze node s = .ok () t)
    (hname : name ∈ node.constantInputs .squeeze) :
    ∃ tensor, s.table.tensor? name = some tensor := by
  unfold squeeze at h
  simp only [Step.bind_eq_ok, dims_eq_ok] at h
  obtain ⟨input, r, hinput, shape, _, ⟨-, rfl⟩, axes, u, haxes, -⟩ := h
  rw [← tensor?_of_ok (by decide : Operator.squeeze ≠ .constant) (movesBy_inputValue 0) hinput]
  exact exists_tensor_of_axes (.inl rfl) haxes hname

theorem exists_tensor_of_unsqueeze (h : unsqueeze node s = .ok () t)
    (hname : name ∈ node.constantInputs .unsqueeze) :
    ∃ tensor, s.table.tensor? name = some tensor := by
  unfold unsqueeze at h
  simp only [Step.bind_eq_ok, dims_eq_ok] at h
  obtain ⟨input, r, hinput, shape, _, ⟨-, rfl⟩, count, u, hcount, axes, v, haxes, -⟩ := h
  have hop : Operator.unsqueeze ≠ .constant := by decide
  rw [← tensor?_of_ok hop (movesBy_inputValue 0) hinput,
    ← tensor?_of_ok hop movesBy_axesCount hcount]
  exact exists_tensor_of_axes (.inr rfl) haxes hname

/-! ### All operators -/

/-- **A node is lowered only if its constant operands are known**: each name in `constantInputs`
stands for a tensor when the lowering begins. -/
theorem exists_tensor_of_step {opset : Int64} {op : Operator} (h : step opset node op s = .ok () t)
    (hname : name ∈ node.constantInputs op) : ∃ tensor, s.table.tensor? name = some tensor := by
  cases op with
  | conv => exact exists_tensor_of_convolution h hname
  | batchNormalization => exact exists_tensor_of_batchNormalization h hname
  | reshape => exact exists_tensor_of_reshape h hname
  | squeeze => exact exists_tensor_of_squeeze h hname
  | unsqueeze => exact exists_tensor_of_unsqueeze h hname
  | _ => cases hname

/-- The tensor of a constant is stored under its first output, unless one is lent for that name
(`isLent`). -/
theorem storeConstant_eq_ok (h : storeConstant node s = .ok () t) :
    ∃ name, node.output = .ok name ∧ ((s.table.isLent name = true ∧ t = s) ∨
      (s.table.isLent name = false ∧ ∃ record tensor, node.view.tensor "value" = .ok record ∧
        record.materialize = .ok tensor ∧ t = { s with table := s.table.insert name tensor })) := by
  unfold storeConstant at h
  simp only [Step.bind_eq_ok, lift_eq_ok, table_eq_ok] at h
  obtain ⟨name, _, ⟨hname, rfl⟩, _, r, ⟨rfl, rfl⟩, h⟩ := h
  refine ⟨name, hname, ?_⟩
  cases hlent : r.table.isLent name with
  | true =>
    rw [hlent, if_pos rfl] at h
    exact .inl ⟨rfl, (Step.pure_eq_ok.1 h).2.symm⟩
  | false =>
    rw [hlent, if_neg (by decide)] at h
    simp only [Step.bind_eq_ok, lift_eq_ok, liftAttribute_eq_ok, updateTable_eq_ok] at h
    obtain ⟨record, _, ⟨hrecord, rfl⟩, tensor, _, ⟨htensor, rfl⟩, _, hend, rfl⟩ := h
    cases hend
    exact .inr ⟨rfl, record, tensor, hrecord, htensor, rfl⟩

end Lowering
end TensorGraph
