import TensorGraph.Proofs.Lowering.Blind
import TensorGraph.Proofs.Lowering.Operands

/-! # Axes that count from the end

Six operators count an axis or a list of axes against the shape of an operand, each along its own
way and one of them up to another limit. Everywhere a negative axis means what it should: counted
from the end it is the axis that is counted from the start, and an axis beyond the shape is refused.

The operators are brought to one form first, in which they resolve their operands and then build a
node with the axes at hand. -/

namespace TensorGraph

open Onnx (NodeRecord)
open Onnx.NodeRecord (mem_filterMap_input?)

/-! ### Single axes -/

/-- The axis `other` is `axis`, or `axis` counts from the end and `other` is the same axis counted
from the start. -/
def SameAxis (rank : Nat) (axis other : Int64) : Prop :=
  other = axis ∨ (-(rank : Int) ≤ axis.toInt ∧ axis.toInt ≤ -1 ∧
    other.toInt = axis.toInt + rank)

namespace SameAxis

variable {rank : Nat} {axis other : Int64}

theorem resolved_eq (h : SameAxis rank axis other) :
    (if other.toInt < 0 then other.toInt + rank else other.toInt) =
      if axis.toInt < 0 then axis.toInt + (rank : Int) else axis.toInt := by
  rcases h with rfl | ⟨hlow, hneg, hother⟩
  · rfl
  · rw [if_neg (by omega), if_pos (by omega), hother]

theorem splitPlace_eq (h : SameAxis rank axis other) :
    Lowering.splitPlace other rank = Lowering.splitPlace axis rank := by
  simp only [Lowering.splitPlace, h.resolved_eq]

/-- A refusal by `Onnx.axisOf` would name the axis, but an axis that counts from the end of the
shape is not refused. -/
theorem axisOf_eq (h : SameAxis rank axis other) (name : String) :
    Onnx.axisOf name other rank = Onnx.axisOf name axis rank := by
  have hresolved := h.resolved_eq
  rcases h with rfl | ⟨hlow, hneg, -⟩
  · rfl
  · have hinside : 0 ≤ axis.toInt + rank ∧ axis.toInt + rank < rank := by omega
    have hneg' : axis.toInt < 0 := by omega
    simp only [Onnx.axisOf, hresolved, if_pos hneg', if_pos hinside]

end SameAxis

theorem inRange_of_axisOf {name : String} {rank place : Nat} {axis : Int64}
    (h : Onnx.axisOf name axis rank = .ok place) :
    -(rank : Int) ≤ axis.toInt ∧ axis.toInt < rank := by
  obtain ⟨hlt, hplace⟩ := Lowering.axisOf_eq_ok.1 h
  split at hplace <;> omega

theorem inRange_of_splitPlace {rank place : Nat} {axis : Int64}
    (h : Lowering.splitPlace axis rank = .ok place) :
    -(rank : Int) ≤ axis.toInt ∧ axis.toInt ≤ rank := by
  unfold Lowering.splitPlace at h
  generalize hresolved : (if axis.toInt < 0 then axis.toInt + rank else axis.toInt) = resolved at h
  simp only at h
  split at h
  · next hinside => split at hresolved <;> omega
  · cases h

/-! ### Shapes of operands -/

/-- The value of `name` has the shape `shape`. -/
def Workspace.HasShape (s : Workspace) (name : String) (shape : List Nat) : Prop :=
  ∃ id t, Lowering.value name s = .ok id t ∧ t.graph.dims id = .ok shape

namespace Lowering

variable {α β : Type} {s t : Workspace} {node : NodeRecord} {shape : List Nat} {opset : Int64}

theorem extends_of_values {names : List String} {ids : List NodeId}
    (h : names.mapM value s = .ok ids t) : s.graph.Extends t.graph := by
  induction names generalizing s ids with
  | nil =>
    obtain ⟨-, rfl⟩ := Step.pure_eq_ok.1 h
    exact .refl _
  | cons name names ih =>
    rw [List.mapM_cons] at h
    obtain ⟨id, r, hvalue, h⟩ := Step.bind_eq_ok.1 h
    obtain ⟨rest, _, hrest, h⟩ := Step.bind_eq_ok.1 h
    obtain ⟨-, rfl⟩ := Step.pure_eq_ok.1 h
    exact (extends_of_value hvalue).trans (ih hrest)

/-- A shape is still there when the graph has grown (`Graph.Extends`). -/
theorem shape_eq_of_extends {g h : Graph} (hgh : g.Extends h) {id : NodeId} {found : List Nat}
    (hshape : g.dims id = .ok shape) (hfound : h.dims id = .ok found) : found = shape := by
  obtain ⟨kind, htype⟩ := Graph.dims_eq_ok.1 hshape
  rw [Graph.dims_eq_ok.2 ⟨kind, hgh.typeOf_eq htype⟩] at hfound
  exact (Except.ok.inj hfound).symm

/-! ### Operands of operators with axes -/

/-- All inputs and the shape of the first one. -/
def readInputs (node : NodeRecord) : Lowering (List NodeId × List Nat) := do
  let inputs ← inputValues node
  let first ← found inputs.head? (LoadError.shape (.noInputs "Concat"))
  return (inputs, ← dims first)

/-- The first two inputs and the shape of the first one. -/
def readBoth (node : NodeRecord) : Lowering ((NodeId × NodeId) × List Nat) := do
  let lhs ← inputValue node 0
  let rhs ← inputValue node 1
  return ((lhs, rhs), ← dims lhs)

/-- The ways to use axes, with the axes that are used. -/
inductive AxisUse
  | concat (axis : Int64)
  | softMax (axis : Int64)
  | flatten (axis : Int64)
  | squeeze (axes : List Int64)
  | unsqueeze (axes : List Int64)
  /-- The right operand is placed into the shape of the left one from an axis on. -/
  | broadcast (op : ArithmeticOp) (axis : Int64)

namespace AxisUse

def operator : AxisUse → Operator
  | concat _ => .concat
  | softMax _ => .softmax
  | flatten _ => .flatten
  | squeeze _ => .squeeze
  | unsqueeze _ => .unsqueeze
  | broadcast .add _ => .add
  | broadcast .sub _ => .sub
  | broadcast .mul _ => .mul
  | broadcast .div _ => .div

def axes : AxisUse → List Int64
  | concat axis | softMax axis | flatten axis | broadcast _ axis => [axis]
  | squeeze axes | unsqueeze axes => axes

/-- The rank that axes are counted against, for a counted operand of the shape `shape`. -/
def rank (shape : List Nat) : AxisUse → Nat
  | unsqueeze axes => shape.length + axes.length
  | _ => shape.length

/-- Axes are below this number. A shape may also be cut behind its last dimension. -/
def limit (shape : List Nat) : AxisUse → Nat
  | flatten _ => shape.length + 1
  | use => use.rank shape

/-- The input whose shape axes are counted against. -/
def counted? (node : NodeRecord) : AxisUse → Option String
  | concat _ => node.inputs.head?
  | _ => node.input? 0

/-- The node uses these axes. A missing axis is 1 for two operators; the axes of a list may be given
by an input (`ListOperator.Gives`); broadcasting has an axis in older operator sets only, where a
flag asks for it. -/
inductive Reads (opset : Int64) (s : Workspace) (node : NodeRecord) : AxisUse → Prop
  | concat {axis : Int64} (h : node.view.int "axis" = .ok axis) : Reads opset s node (.concat axis)
  | softMax {axis : Int64} (h : node.view.intOr "axis" 1 = .ok axis) :
    Reads opset s node (.softMax axis)
  | flatten {axis : Int64} (h : node.view.intOr "axis" 1 = .ok axis) :
    Reads opset s node (.flatten axis)
  | squeeze {axes : List Int64} (h : ListOperator.squeeze.Gives s node axes) :
    Reads opset s node (.squeeze axes)
  | unsqueeze {axes : List Int64} (h : ListOperator.unsqueeze.Gives s node axes) :
    Reads opset s node (.unsqueeze axes)
  | broadcast {op : ArithmeticOp} {axis : Int64} (hopset : opset.toInt ≤ 6)
      (hflag : node.view.intOr "broadcast" 0 = .ok 1) (h : node.view.int "axis" = .ok axis) :
    Reads opset s node (.broadcast op axis)

/-- The axes of the second use are those of the first one, or the same ones counted from the start
(`SameAxis`). -/
inductive SameAxes (shape : List Nat) : AxisUse → AxisUse → Prop
  | concat {axis other : Int64} (h : SameAxis shape.length axis other) :
    SameAxes shape (.concat axis) (.concat other)
  | softMax {axis other : Int64} (h : SameAxis shape.length axis other) :
    SameAxes shape (.softMax axis) (.softMax other)
  | flatten {axis other : Int64} (h : SameAxis shape.length axis other) :
    SameAxes shape (.flatten axis) (.flatten other)
  | squeeze {axes others : List Int64} (h : List.Forall₂ (SameAxis shape.length) axes others) :
    SameAxes shape (.squeeze axes) (.squeeze others)
  | unsqueeze {axes others : List Int64}
      (h : List.Forall₂ (SameAxis (shape.length + axes.length)) axes others) :
    SameAxes shape (.unsqueeze axes) (.unsqueeze others)
  | broadcast {op : ArithmeticOp} {axis other : Int64} (h : SameAxis shape.length axis other) :
    SameAxes shape (.broadcast op axis) (.broadcast op other)

/-! ### One form -/

/-- The operands that are resolved. -/
def Operands : AxisUse → Type
  | concat _ => List NodeId
  | broadcast _ _ => NodeId × NodeId
  | _ => NodeId

/-- Resolves the operands (`Operands`) and reads the shape that axes are counted against. -/
def read (node : NodeRecord) : (use : AxisUse) → Lowering (use.Operands × List Nat)
  | concat _ => readInputs node
  | softMax _ => readInput node
  | flatten _ => readInput node
  | squeeze _ => readInput node
  | unsqueeze _ => readInput node
  | broadcast _ _ => readBoth node

/-- Adds what there is to be added for the operands. -/
def build (title : String) : (use : AxisUse) → use.Operands → List Nat → Lowering NodeId
  | concat axis, inputs, shape => do
    let place ← Onnx.axisOf "axis" axis shape.length
    Build.concat title inputs place
  | softMax axis, input, shape => do
    let place ← Onnx.axisOf "axis" axis shape.length
    Build.softMax title input place
  | flatten axis, input, shape => do
    let place ← splitPlace axis shape.length
    let (outer, inner) ← (splitDims shape place).mapError LoadError.graph
    let outer ← countOf outer
    let inner ← countOf inner
    Build.reshape title input [outer, inner]
  | squeeze axes, input, shape => ListOperator.squeeze.build title axes input shape
  | unsqueeze axes, input, shape => ListOperator.unsqueeze.build title axes input shape
  | broadcast op axis, (lhs, rhs), shape => do
    let other ← dims rhs
    let (lhs, rhs) ←
      if shape = other then pure (lhs, rhs) else align title lhs rhs shape other (.legacy axis)
    Build.arithmetic title op lhs rhs

end AxisUse

theorem liftAttribute_bind (a : α) (f : α → Lowering β) :
    ((liftM (Except.ok a : Except Onnx.AttributeError α) : Lowering α) >>= f) = f a := rfl

theorem broadcastMode_eq {attrs : Onnx.Attributes} {axis : Int64} (hopset : opset.toInt ≤ 6)
    (hflag : attrs.intOr "broadcast" 0 = .ok 1) (h : attrs.int "axis" = .ok axis) :
    BroadcastMode.read attrs opset = .ok (.legacy axis) := by
  have holder : ¬ broadcastingOpset ≤ opset.toInt := by
    unfold broadcastingOpset
    omega
  simp only [BroadcastMode.read, allowsBroadcast, hflag, h, if_neg holder,
    if_pos (Onnx.Attributes.contains_of_int h)]
  rfl

/-- **With the axes at hand**, an operator only needs its operands: it is an `assemble`. -/
theorem step_eq_of_reads {use : AxisUse} (h : use.Reads opset s node) :
    step opset node use.operator s = assemble node (use.read node) (use.build node.title) s := by
  cases h with
  | concat h =>
    show concat node s = assemble node (readInputs node) _ s
    simp only [concat, assemble, readInputs, AxisUse.build, bind_assoc, pure_bind, h,
      liftAttribute_bind]
  | softMax h =>
    show softMax node s = assemble node (readInput node) _ s
    simp only [softMax, assemble, readInput, AxisUse.build, bind_assoc, pure_bind, h,
      liftAttribute_bind]
  | flatten h =>
    show flatten node s = assemble node (readInput node) _ s
    simp only [flatten, assemble, readInput, AxisUse.build, bind_assoc, pure_bind, h,
      liftAttribute_bind]
  | squeeze h => exact step_eq_assemble opset h
  | unsqueeze h => exact step_eq_assemble opset h
  | @broadcast op axis hopset hflag h =>
    have hbinary : step opset node (AxisUse.broadcast op axis).operator = binary op opset node := by
      cases op <;> rfl
    show _ = assemble node (readBoth node) _ s
    simp only [hbinary, binary, broadcastMode_eq hopset hflag h, assemble, readBoth, elementwise,
      AxisUse.build, bind_assoc, pure_bind, liftAttribute_bind]

/-! ### The shape that is counted against -/

theorem shape_of_value {name : String} {r : Workspace} {id : NodeId} {found : List Nat}
    (hshape : s.HasShape name shape) (hvalue : value name s = .ok id r)
    (hgrown : r.graph.Extends t.graph) (hfound : t.graph.dims id = .ok found) : found = shape := by
  obtain ⟨id', r', hvalue', hdims⟩ := hshape
  rw [hvalue] at hvalue'
  cases hvalue'
  exact shape_eq_of_extends hgrown hdims hfound

theorem readInputs_eq_ok {ids : List NodeId} {found : List Nat} :
    readInputs node s = .ok (ids, found) t ↔ inputValues node s = .ok ids t ∧
      ∃ first, ids.head? = some first ∧ t.graph.dims first = .ok found := by
  unfold readInputs
  simp only [Step.bind_eq_ok, lift_eq_ok, found_eq_ok, dims_eq_ok, Step.pure_eq_ok, Prod.mk.injEq]
  constructor
  · rintro ⟨_, _, hids, first, _, ⟨hfirst, rfl⟩, _, _, ⟨hfound, rfl⟩, ⟨rfl, rfl⟩, rfl⟩
    exact ⟨hids, first, hfirst, hfound⟩
  · rintro ⟨hids, first, hfirst, hfound⟩
    exact ⟨_, _, hids, first, _, ⟨hfirst, rfl⟩, _, _, ⟨hfound, rfl⟩, ⟨rfl, rfl⟩, rfl⟩

theorem readBoth_eq_ok {lhs rhs : NodeId} {found : List Nat} :
    readBoth node s = .ok ((lhs, rhs), found) t ↔ ∃ r, inputValue node 0 s = .ok lhs r ∧
      inputValue node 1 r = .ok rhs t ∧ t.graph.dims lhs = .ok found := by
  unfold readBoth
  simp only [Step.bind_eq_ok, dims_eq_ok, Step.pure_eq_ok, Prod.mk.injEq]
  constructor
  · rintro ⟨_, r, hlhs, _, _, hrhs, _, _, ⟨hfound, rfl⟩, ⟨⟨rfl, rfl⟩, rfl⟩, rfl⟩
    exact ⟨r, hlhs, hrhs, hfound⟩
  · rintro ⟨r, hlhs, hrhs, hfound⟩
    exact ⟨_, r, hlhs, _, _, hrhs, _, _, ⟨hfound, rfl⟩, ⟨⟨rfl, rfl⟩, rfl⟩, rfl⟩

theorem shape_of_readInput {name : String} (hname : node.input? 0 = some name)
    (hshape : s.HasShape name shape) {input : NodeId} {found : List Nat}
    (h : readInput node s = .ok (input, found) t) : found = shape := by
  obtain ⟨hinput, hfound⟩ := readInput_eq_ok.1 h
  obtain ⟨_, hname', hvalue⟩ := inputValue_eq_ok.1 hinput
  obtain rfl := Option.some.inj (hname.symm.trans hname')
  exact shape_of_value hshape hvalue (.refl _) hfound

/-- The shape that `use.read` finds is that of the counted operand, also after other operands are
resolved. -/
theorem shape_of_read {use : AxisUse} {name : String} (hname : use.counted? node = some name)
    (hshape : s.HasShape name shape) {operands : use.Operands} {found : List Nat}
    (h : use.read node s = .ok (operands, found) t) : found = shape := by
  cases use with
  | concat axis =>
    obtain ⟨hids, first, hfirst, hfound⟩ := readInputs_eq_ok.1 h
    obtain ⟨rest, hinputs⟩ := List.head?_eq_some_iff.1 hname
    rw [inputValues, hinputs, List.mapM_cons] at hids
    obtain ⟨id, r, hvalue, hids⟩ := Step.bind_eq_ok.1 hids
    obtain ⟨ids, _, hrest, hids⟩ := Step.bind_eq_ok.1 hids
    obtain ⟨rfl, rfl⟩ := Step.pure_eq_ok.1 hids
    obtain rfl := Option.some.inj hfirst
    exact shape_of_value hshape hvalue (extends_of_values hrest) hfound
  | broadcast op axis =>
    obtain ⟨r, hlhs, hrhs, hfound⟩ := readBoth_eq_ok.1 h
    obtain ⟨_, hname', hvalue⟩ := inputValue_eq_ok.1 hlhs
    obtain ⟨_, -, hother⟩ := inputValue_eq_ok.1 hrhs
    obtain rfl := Option.some.inj (hname.symm.trans hname')
    exact shape_of_value hshape hvalue (extends_of_value hother) hfound
  | softMax _ | flatten _ | squeeze _ | unsqueeze _ => exact shape_of_readInput hname hshape h

/-! ### The same axes counted from the other end -/

theorem assemble_congr_build {read : Lowering (α × List Nat)}
    {build build' : α → List Nat → Lowering NodeId}
    (hread : ∀ operands found t, read s = .ok (operands, found) t → found = shape)
    (hbuild : ∀ operands, build operands shape = build' operands shape) :
    assemble node read build s = assemble node read build' s := by
  refine Step.bind_congr fun p t ht => ?_
  obtain ⟨operands, found⟩ := p
  obtain rfl := hread operands found t ht
  simp only [hbuild]

theorem mapM_axisOf_eq {rank : Nat} {axes others : List Int64}
    (h : List.Forall₂ (SameAxis rank) axes others) :
    (others.mapM fun axis => (liftM (Onnx.axisOf "axes" axis rank) : Lowering Nat)) =
      axes.mapM fun axis => (liftM (Onnx.axisOf "axes" axis rank) : Lowering Nat) := by
  induction h with
  | nil => rfl
  | cons haxis _ ih => rw [List.mapM_cons, List.mapM_cons, haxis.axisOf_eq, ih]

/-- Operands are resolved without the axes, so the same axes (`SameAxes`) give the same. -/
theorem assemble_of_sameAxes {use other : AxisUse} (h : AxisUse.SameAxes shape use other)
    {title : String}
    (hread : ∀ operands found t, use.read node s = .ok (operands, found) t → found = shape) :
    assemble node (other.read node) (other.build title) s =
      assemble node (use.read node) (use.build title) s := by
  cases h with
  | concat h =>
    refine assemble_congr_build hread fun inputs => ?_
    simp only [AxisUse.build, h.axisOf_eq]
  | softMax h =>
    refine assemble_congr_build hread fun input => ?_
    simp only [AxisUse.build, h.axisOf_eq]
  | flatten h =>
    refine assemble_congr_build hread fun input => ?_
    simp only [AxisUse.build, h.splitPlace_eq]
  | squeeze h =>
    refine assemble_congr_build hread fun input => ?_
    simp only [AxisUse.build, ListOperator.build, mapM_axisOf_eq h]
  | unsqueeze h =>
    refine assemble_congr_build hread fun input => ?_
    simp only [AxisUse.build, ListOperator.build, ← h.length_eq, mapM_axisOf_eq h]
  | broadcast h =>
    refine assemble_congr_build hread fun operands => ?_
    obtain ⟨lhs, rhs⟩ := operands
    simp only [AxisUse.build, align, legacyAxis, h.axisOf_eq]

/-! ### Other tensors -/

namespace Blind

variable {old new : NameMap Slot}

/-- The operands are resolved alike if their tensors stay (`Blind`). -/
theorem read {use : AxisUse}
    (h : ∀ name ∈ node.valueInputs use.operator, new.get? name = old.get? name) :
    Blind old new (use.read node) := by
  have hfirst : 0 ∈ [0] := List.mem_singleton_self 0
  cases use with
  | concat axis =>
    refine (mapM fun name hname => value (h name hname)).bind fun inputs => ?_
    exact (ofExcept _).bind fun first => (onGraph _).bind fun _ => pure _
  | broadcast op axis =>
    have hinputs : node.valueInputs (AxisUse.broadcast op axis).operator =
        [0, 1].filterMap node.input? := by cases op <;> rfl
    rw [hinputs] at h
    refine (inputValue fun name hname => ?_).bind fun lhs =>
      (inputValue fun name hname => ?_).bind fun rhs => (onGraph _).bind fun _ => pure _
    · exact h name (mem_filterMap_input? (by simp) hname)
    · exact h name (mem_filterMap_input? (by simp) hname)
  | softMax _ | flatten _ | squeeze _ | unsqueeze _ =>
    exact readInput fun name hname => h name (mem_filterMap_input? hfirst hname)

theorem build (use : AxisUse) (title : String) (operands : use.Operands) (shape : List Nat) :
    Blind old new (use.build title operands shape) := by
  cases use with
  | concat axis | softMax axis => exact (ofExcept _).bind fun place => onGraph _
  | flatten axis =>
    refine (ofExcept _).bind fun place => (ofExcept _).bind fun parts => ?_
    exact (ofExcept _).bind fun outer => (ofExcept _).bind fun inner => onGraph _
  | squeeze axes | unsqueeze axes =>
    exact (mapM fun axis _ => ofExcept _).bind fun places => onGraph _
  | broadcast op axis =>
    obtain ⟨lhs, rhs⟩ := operands
    refine (onGraph _).bind fun other => ?_
    split
    · exact (pure _).bind fun operands => onGraph _
    · refine Blind.bind ?_ fun operands => onGraph _
      exact (ofExcept _).bind fun place => (broadcastTo _ _ _ _).bind fun _ => pure _

end Blind

/-! ### Axes in range -/

/-- The `axis` is one of the shape, counted from either end. -/
def AxisUse.InRange (use : AxisUse) (shape : List Nat) (axis : Int64) : Prop :=
  -(use.rank shape : Int) ≤ axis.toInt ∧ axis.toInt < use.limit shape

/-- The first two inputs, resolved one after the other, have one shape. -/
def OperandsAgree (s : Workspace) (node : NodeRecord) : Prop :=
  ∃ lhs r rhs t shape, inputValue node 0 s = .ok lhs r ∧ inputValue node 1 r = .ok rhs t ∧
    t.graph.dims lhs = .ok shape ∧ t.graph.dims rhs = .ok shape

/-- Nothing is broadcast between operands of one shape, and then the axis is not looked at. -/
def AxisUse.Unused (s : Workspace) (node : NodeRecord) : AxisUse → Prop
  | broadcast _ _ => OperandsAgree s node
  | _ => False

theorem inRange_of_mapM {rank : Nat} {axes : List Int64} {places : List Nat}
    (h : (axes.mapM fun axis => (liftM (Onnx.axisOf "axes" axis rank) : Lowering Nat)) s =
      .ok places t) : ∀ axis ∈ axes, -(rank : Int) ≤ axis.toInt ∧ axis.toInt < rank := by
  intro axis haxis
  obtain ⟨hplaces, -⟩ := mapM_liftAttribute_eq_ok.1 h
  obtain ⟨place, -, hplace⟩ := exists_of_forall₂ hplaces haxis
  exact inRange_of_axisOf hplace

/-- A node is only added by `assemble` for axes in range (`InRange`). -/
theorem inRange_of_assemble {use : AxisUse} {title : String}
    (hread : ∀ operands found t, use.read node s = .ok (operands, found) t → found = shape)
    (h : assemble node (use.read node) (use.build title) s = .ok () t) :
    (∀ axis ∈ use.axes, use.InRange shape axis) ∨ use.Unused s node := by
  obtain ⟨⟨operands, found⟩, r, hoperands, hrest⟩ := Step.bind_eq_ok.1 h
  obtain ⟨id, u, hbuild, -⟩ := Step.bind_eq_ok.1 hrest
  obtain rfl := hread operands found r hoperands
  cases use with
  | concat axis | softMax axis =>
    obtain ⟨place, _, hplace, -⟩ := Step.bind_eq_ok.1 hbuild
    have hinside := inRange_of_axisOf (liftAttribute_eq_ok.1 hplace).1
    exact .inl (List.forall_mem_singleton.2 hinside)
  | flatten axis =>
    obtain ⟨place, _, hplace, -⟩ := Step.bind_eq_ok.1 hbuild
    obtain ⟨hlow, hhigh⟩ := inRange_of_splitPlace (lift_eq_ok.1 hplace).1
    exact .inl (List.forall_mem_singleton.2 ⟨hlow, by simp only [AxisUse.limit]; omega⟩)
  | squeeze axes | unsqueeze axes =>
    obtain ⟨places, _, hplaces, -⟩ := Step.bind_eq_ok.1 hbuild
    exact .inl (inRange_of_mapM hplaces)
  | broadcast op axis =>
    obtain ⟨lhs, rhs⟩ := operands
    obtain ⟨other, _, hother, halign⟩ := Step.bind_eq_ok.1 hbuild
    obtain ⟨hrhs, rfl⟩ := dims_eq_ok.1 hother
    obtain ⟨r', hl, hr, hlhs⟩ := readBoth_eq_ok.1 hoperands
    by_cases hsame : found = other
    · subst hsame
      exact .inr ⟨lhs, r', rhs, _, found, hl, hr, hlhs, hrhs⟩
    · rw [if_neg hsame] at halign
      obtain ⟨_, _, halign, -⟩ := Step.bind_eq_ok.1 halign
      obtain ⟨place, _, hplace, -⟩ := Step.bind_eq_ok.1 halign
      have hinside := inRange_of_axisOf (mapError_eq_ok.1 (lift_eq_ok.1 hplace).1)
      exact .inl (List.forall_mem_singleton.2 hinside)

theorem assemble_of_agree {op : ArithmeticOp} {axis other : Int64} {title : String}
    (h : OperandsAgree s node) :
    assemble node (readBoth node) ((AxisUse.broadcast op other).build title) s =
      assemble node (readBoth node) ((AxisUse.broadcast op axis).build title) s := by
  refine Step.bind_congr fun p t ht => ?_
  obtain ⟨⟨lhs, rhs⟩, found⟩ := p
  obtain ⟨r, hlhs, hrhs, hfound⟩ := readBoth_eq_ok.1 ht
  obtain ⟨lhs', r', rhs', t', shape, hlhs', hrhs', hleft, hright⟩ := h
  rw [hlhs] at hlhs'
  cases hlhs'
  rw [hrhs] at hrhs'
  cases hrhs'
  obtain rfl := Except.ok.inj (hfound.symm.trans hleft)
  have hdims : dims rhs t = .ok found t := dims_eq_ok.2 ⟨hright, rfl⟩
  simp only [AxisUse.build, bind_assoc]
  rw [Step.bind_of_ok hdims, Step.bind_of_ok hdims, if_pos rfl, if_pos rfl]

/-! ### Axes from the end and axes out of range -/

section Main

variable {use other : AxisUse} {name : String} {attributes : List Onnx.AttributeRecord}

theorem AxisUse.SameAxes.operator_eq (h : AxisUse.SameAxes shape use other) :
    other.operator = use.operator := by
  cases h with
  | @broadcast op _ _ h => cases op <;> rfl
  | _ => rfl

/-- The `attributes` matter for the axes only. -/
theorem step_eq_of_reads_attributes (h : use.Reads opset s { node with attributes }) :
    step opset { node with attributes } use.operator s =
      assemble node (use.read node) (use.build node.title) s := by
  have hread : use.read { node with attributes } = use.read node := by cases use <;> rfl
  rw [step_eq_of_reads h, hread]
  rfl

/-- **Negative axes mean what they should.** Where a node uses axes (`AxisUse.Reads`), counted
against the shape of an operand, nothing changes when axes that count from the end are replaced by
the same ones counted from the start (`SameAxes`): neither when its attributes give the others, nor
when other tensors do that leave its operands alone. An axis out of range (`InRange`) is refused;
only where operands of one shape need no broadcasting is it not looked at (`Unused`), and there any
other axis does as well. -/
theorem lower_axes (opset : Int64) (hop : node.operator? = some use.operator)
    (hreads : use.Reads opset s node) (hname : use.counted? node = some name)
    (hshape : s.HasShape name shape) :
    (∀ attributes other, AxisUse.SameAxes shape use other →
      other.Reads opset s { node with attributes } →
      lower opset { node with attributes } s = lower opset node s) ∧
    (∀ tensors other, AxisUse.SameAxes shape use other →
      (∀ operand ∈ node.valueInputs use.operator,
        tensors.get? operand = s.table.tensors.get? operand) →
      other.Reads opset (s.withTensors tensors) node →
      lower opset node (s.withTensors tensors) = retensor tensors (lower opset node s)) ∧
    ((∃ axis ∈ use.axes, ¬ use.InRange shape axis) → ¬ use.Unused s node →
      ∃ e t, lower opset node s = .error e t) ∧
    ∀ op axis axis' attributes, use = .broadcast op axis → OperandsAgree s node →
      (AxisUse.broadcast op axis').Reads opset s { node with attributes } →
      lower opset { node with attributes } s = lower opset node s := by
  have hread : ∀ operands found t, use.read node s = .ok (operands, found) t → found = shape :=
    fun _ _ _ h => shape_of_read hname hshape h
  have hstep := step_eq_of_reads hreads
  refine ⟨fun attributes other hsame hother => ?_, fun tensors other hsame hkept hother => ?_,
    fun hout hused => ?_, ?_⟩
  · refine lower_congr hop hop ?_
    rw [hstep, ← hsame.operator_eq, step_eq_of_reads_attributes hother]
    exact assemble_of_sameAxes hsame hread
  · have hblind : Blind s.table.tensors tensors
        (assemble node (other.read node) (other.build node.title)) :=
      .assemble (.read (hsame.operator_eq ▸ hkept)) (.build other _)
    have hrun : step opset node use.operator (s.withTensors tensors) =
        retensor tensors (step opset node use.operator s) := by
      rw [hstep, ← assemble_of_sameAxes hsame hread, ← (hblind s rfl).1, ← step_eq_of_reads hother,
        hsame.operator_eq]
    simp only [lower, hop, Step.bind_apply, hrun]
    cases step opset node use.operator s <;> rfl
  · cases hrun : lower opset node s with
    | error e t => exact ⟨e, t, rfl⟩
    | ok supported t =>
      simp only [lower, hop] at hrun
      obtain ⟨_, r, hassemble, -⟩ := Step.bind_eq_ok.1 hrun
      obtain ⟨axis, haxis, houtside⟩ := hout
      rcases inRange_of_assemble hread (hstep ▸ hassemble) with hinside | hunused
      · exact absurd (hinside axis haxis) houtside
      · exact absurd hunused hused
  · rintro op axis axis' attributes rfl hagree hother
    refine lower_congr hop hop ?_
    have hoperator : (AxisUse.broadcast op axis).operator =
        (AxisUse.broadcast op axis').operator := by cases op <;> rfl
    rw [hstep, hoperator, step_eq_of_reads_attributes hother]
    exact assemble_of_agree hagree

end Main

/-- The tensors of the example, with the last axis counted from the start. -/
def positiveAxes : NameMap Slot :=
  axesStart.table.tensors.insert "axes" (.made ⟨[2], .index #[0, 2], rfl⟩)

/-- A flattening at the least of all numbers. -/
def flattenNode : NodeRecord :=
  { inputs := ["w"], outputs := ["y"], opType := "Flatten",
    attributes := [{ name := "axis", type := 2, int := Int64.minValue }] }

/-- A vector is unsqueezed at its last axis alike when an attribute or another tensor counts this
axis from the start, and an axis far before the shape is refused. -/
theorem lower_axes_vector :
    lower 13 { unsqueezeNode with
      attributes := [{ name := "axes", type := 7, ints := [0, 2] }] } axesStart =
        lower 13 unsqueezeNode axesStart ∧
    lower 13 unsqueezeNode (axesStart.withTensors positiveAxes) =
      retensor positiveAxes (lower 13 unsqueezeNode axesStart) ∧
    ∃ e t, lower 13 flattenNode axesStart = .error e t := by
  have hsame : AxisUse.SameAxes [3] (.unsqueeze [0, -1]) (.unsqueeze [0, 2]) :=
    .unsqueeze (.cons (.inl rfl) (.cons (.inr (by decide)) .nil))
  have hunsqueeze : (AxisUse.unsqueeze [0, -1]).Reads 13 axesStart unsqueezeNode :=
    .unsqueeze (.input (fun _ => rfl) rfl rfl rfl)
  have hflatten : (AxisUse.flatten Int64.minValue).Reads 13 axesStart flattenNode := .flatten rfl
  have hvector : axesStart.HasShape "x" [3] := ⟨_, _, rfl, rfl⟩
  have himage : axesStart.HasShape "w" [1, 3, 1] := ⟨_, _, rfl, rfl⟩
  obtain ⟨hattribute, htensor, -, -⟩ := lower_axes 13 rfl hunsqueeze rfl hvector
  obtain ⟨-, -, hrefused, -⟩ := lower_axes 13 rfl hflatten rfl himage
  refine ⟨hattribute _ _ hsame (.unsqueeze (.listed rfl nofun)),
    htensor _ _ hsame (fun operand hoperand => ?_)
      (.unsqueeze (.input (fun _ => rfl) rfl rfl rfl)), hrefused ?_ id⟩
  · obtain rfl : operand = "x" := List.mem_singleton.1 hoperand
    rfl
  · exact ⟨_, List.mem_singleton_self _, fun hinside => absurd hinside.1 (by decide)⟩

end Lowering
end TensorGraph
