import TensorGraph.Proofs.Check
import TensorGraph.Proofs.Graph.Operation
import TensorGraph.Proofs.Lowering.Failures
import TensorGraph.Proofs.Lowering.Operands
import TensorGraph.Proofs.Lowering.Success
import Mathlib.Order.Basic

/-! # Couplings

What holds of the small steps that lowerings are put together from often holds of all lowerings. A
**coupling** says this for two runs at a time. It has worlds that tell how far the two runs have
come, correspondences between the handles of the two runs, and a condition on two parts of
lowerings; it asks that the condition is kept by sequences and that it holds of the smallest parts:
looking an operand up, looking at the shape of a value, making a node. The names that may be looked
up are the operands of the node only, only the operator of convolutions makes convolutions, and none
saves a value.

**Every operator keeps every coupling** (`Coupling.ends_step`). This goes through the operators once
and for all; properties of one run are couplings that do not look at the second run. -/

namespace TensorGraph

open Onnx (NodeRecord)

/-- The constructors that an operator may use: convolutions are made by `Operator.conv` only, what
saves a value by none, and a broadcast begins at an axis of the new shape or at its end. -/
def Graph.Constructor.UsedBy (op : Operator) : Graph.Constructor → Prop
  | convolution _ _ _ _ _ _ => op = .conv
  | broadcast _ dims axis => axis ≤ dims.length
  | save _ => False
  | _ => True

theorem Graph.Constructor.UsedBy.eq_conv {op : Operator} {c : Graph.Constructor} (h : c.UsedBy op)
    (hc : c.IsConvolution) : op = .conv := by
  cases c with
  | convolution => exact h
  | _ => exact hc.elim

theorem Graph.Constructor.UsedBy.placed {op : Operator} {c : Graph.Constructor} {g : Graph}
    (h : c.UsedBy op) : c.Placed g := by
  cases c with
  | broadcast => exact .inl h
  | _ => trivial

namespace Lowering

/-- The tensor of `name`, if it has one. -/
def tensorOf (name : String) : Lowering (Option Tensor) := do
  return (← table).tensor? name

/-- A batch of images in the layout of the graph, transposed by `toChannelLast`, with its
dimensions. -/
def channelLast (name : String) (input : NodeId) : Lowering (NodeId × ImageDims) := do
  let images ← Build.transpose name input toChannelLast
  let image ← imageDims images
  return (images, image)

/-- Reading the dimensions in `channelLast` leaves the workspace as the transposition has made
it. -/
theorem create_of_channelLast {name : String} {input : NodeId} {result : NodeId × ImageDims}
    {s t : Workspace} (h : channelLast name input s = .ok result t) :
    (liftM (Build.transpose name input toChannelLast) : Lowering NodeId) s = .ok result.1 t := by
  obtain ⟨images, r, hcreate, h⟩ := Step.bind_eq_ok.1 h
  obtain ⟨image, u, himage, h⟩ := Step.bind_eq_ok.1 h
  obtain ⟨rfl, rfl⟩ := Step.pure_eq_ok.1 h
  obtain ⟨dims, v, hdims, hfound⟩ := Step.bind_eq_ok.1 himage
  obtain ⟨-, rfl⟩ := dims_eq_ok.1 hdims
  obtain ⟨-, rfl⟩ := ofExcept_eq_ok.1 hfound
  exact hcreate

/-- A condition on two runs of the parts of a lowering of a node, with its closure properties. What
is computed without the workspace is taken not to fail with foreign errors (`LoadError.Foreign`);
that memory is missing is foreign to all operators but convolutions. -/
structure Coupling (W : Type) [Preorder W] (node : NodeRecord) (op : Operator) where
  /-- The handles of nodes that correspond to each other in a world. -/
  ids : W → NodeId → NodeId → Prop
  /-- The handles of types that correspond to each other. -/
  refs : W → TypeRef → TypeRef → Prop
  /-- The names that have been looked up as values. -/
  seen : W → String → Prop
  ids_mono : ∀ {w w' : W} {i j : NodeId}, w ≤ w' → ids w i j → ids w' i j
  refs_mono : ∀ {w w' : W} {i j : TypeRef}, w ≤ w' → refs w i j → refs w' i j
  seen_mono : ∀ {w w' : W} {name : String}, w ≤ w' → seen w name → seen w' name
  /-- The condition on two parts that begin in a world: they end in later worlds, with results that
  are related there. -/
  Couples : {α : Type} → W → Lowering α → Lowering α → (W → α → α → Prop) → Prop
  /-- The condition on two parts with which the lowering ends. -/
  Ends : W → Lowering Unit → Lowering Unit → Prop
  couples_pure : ∀ {α : Type} {w : W} {a b : α} {post : W → α → α → Prop}, post w a b →
    Couples w (pure a) (pure b) post
  couples_bind : ∀ {α β : Type} {w : W} {x y : Lowering α} {f g : α → Lowering β}
    {mid : W → α → α → Prop} {post : W → β → β → Prop}, Couples w x y mid →
    (∀ w' a b, w ≤ w' → mid w' a b → Couples w' (f a) (g b) post) →
    Couples w (x >>= f) (y >>= g) post
  ends_bind : ∀ {α : Type} {w : W} {x y : Lowering α} {f g : α → Lowering Unit}
    {mid : W → α → α → Prop}, Couples w x y mid →
    (∀ w' a b, w ≤ w' → mid w' a b → Ends w' (f a) (g b)) → Ends w (x >>= f) (y >>= g)
  couples_ofExcept : ∀ {α : Type} {w : W} {result : Except LoadError α},
    Avoids (LoadError.Foreign (op ≠ .conv)) result →
    Couples w (ofExcept result) (ofExcept result) fun w' a b =>
      w' = w ∧ a = b ∧ result = .ok a
  couples_value : ∀ {w : W} {name : String}, name ∈ node.valueInputs op →
    Couples w (value name) (value name) fun w' i j => ids w' i j ∧ seen w' name
  couples_constant : ∀ {w : W} {name : String}, name ∈ node.constantInputs op →
    Couples w (constant name) (constant name) fun w' a b => w' = w ∧ a = b
  couples_constantIndices : ∀ {w : W} (role : String) {name : String},
    name ∈ node.constantInputs op →
    Couples w (constantIndices role name) (constantIndices role name) fun w' a b => w' = w ∧ a = b
  couples_tensorOf : ∀ {w : W} {name : String}, name ∈ node.constantInputs op →
    Couples w (tensorOf name) (tensorOf name) fun w' a b => w' = w ∧ a = b
  couples_dims : ∀ {w : W} {i j : NodeId}, ids w i j →
    Couples w (dims i) (dims j) fun w' a b => w' = w ∧ a = b
  couples_kind : ∀ {w : W} {i j : NodeId}, ids w i j →
    Couples w (onGraph (.read (·.kind i))) (onGraph (.read (·.kind j))) fun w' a b => w' = w ∧ a = b
  couples_create : ∀ {w : W} {c c' : Graph.Constructor} (name : String),
    c.Alike (ids w) (refs w) c' → c.UsedBy op →
    Couples w (onGraph (.create name (c.rule name))) (onGraph (.create name (c'.rule name))) ids
  couples_channelLast : ∀ {w : W} {i j : NodeId} (name : String), ids w i j →
    Couples w (channelLast name i) (channelLast name j) fun w' a b => ids w' a.1 b.1 ∧ a.2 = b.2
  couples_intern : ∀ {w : W} (type : ValueType),
    Couples w (onGraph (.intern type)) (onGraph (.intern type)) refs
  couples_batchNormalization : ∀ {w : W} {i j : NodeId} (name : String) (channel : Nat)
    (epsilon momentum : Binary32) (tensors : BatchParameters), op = .batchNormalization →
    ids w i j → Couples w (onGraph (.batchNormalization name i channel epsilon momentum tensors))
      (onGraph (.batchNormalization name j channel epsilon momentum tensors)) ids
  ends_bindOutput : ∀ {w : W} {i j : NodeId}, ids w i j →
    (∀ name ∈ node.valueInputs op, seen w name) → Ends w (bindOutput node i) (bindOutput node j)

/-- The axes that no attribute gives are counted by the size of the tensor of their name
(`tensorOf`). -/
theorem axesCount_eq (node : NodeRecord) : axesCount node =
    (liftM (node.view.ints? "axes") : Lowering (Option (List Int64))) >>= fun given =>
      given.elim
        ((node.input? 1).elim (pure 0) fun name =>
          tensorOf name >>= fun tensor => pure ((tensor.map Tensor.size).getD 0))
        fun axes => pure axes.length := by
  refine congrArg _ (funext fun given => ?_)
  cases given with
  | some axes => rfl
  | none =>
    cases node.input? 1 with
    | none => rfl
    | some name =>
      funext s
      simp only [Step.bind_apply, table, tensorOf, Option.bind_some, Option.elim_none,
        Option.elim_some]
      show _ = EStateM.Result.ok (((s.table.tensor? name).map Tensor.size).getD 0) s
      cases s.table.tensor? name with
      | some tensor => rfl
      | none => rfl

/-- The transposition of the images and the reading of their dimensions are one part,
`channelLast`. -/
theorem addConvolution_eq (node : NodeRecord) (input : NodeId) (filters biases : Tensor)
    (options : ConvOptions) : addConvolution node input filters biases options = (do
      let filter ← Build.parameter (node.part "filter") filters
      let bias ← Build.parameter (node.part "bias") biases
      let (images, image) ← channelLast (node.part "input_nhwc") input
      let (height, width) ← found (options.window.outputSize? image.height image.width)
        (LoadError.shape (.window options.window image.toList))
      let elements ← Build.read (·.kind images)
      let out ← Build.intern ⟨elements, [image.count, height, width, options.depth]⟩
      let result ← Build.convolution node.title images filter bias out options.window options.group
      Build.transpose (node.part "output_nchw") result toChannelFirst) := by
  simp only [addConvolution, channelLast, bind_assoc, pure_bind]

namespace Coupling

variable {W : Type} [Preorder W] {node : NodeRecord} {op : Operator} {C : Coupling W node op}
  {w : W} {α β : Type}

/-! ### Sequences -/

theorem Couples.bind {x y : Lowering α} {f g : α → Lowering β} {mid : W → α → α → Prop}
    {post : W → β → β → Prop} (hx : C.Couples w x y mid)
    (hf : ∀ w' a b, w ≤ w' → mid w' a b → C.Couples w' (f a) (g b) post) :
    C.Couples w (x >>= f) (y >>= g) post := C.couples_bind hx hf

theorem Couples.ends {x y : Lowering α} {f g : α → Lowering Unit} {mid : W → α → α → Prop}
    (hx : C.Couples w x y mid) (hf : ∀ w' a b, w ≤ w' → mid w' a b → C.Ends w' (f a) (g b)) :
    C.Ends w (x >>= f) (y >>= g) := C.ends_bind hx hf

theorem Couples.mono {x y : Lowering α} {mid post : W → α → α → Prop} (hx : C.Couples w x y mid)
    (h : ∀ w' a b, w ≤ w' → mid w' a b → post w' a b) : C.Couples w x y post := by
  have hpure := hx.bind fun w' a b hw hmid => C.couples_pure (h w' a b hw hmid)
  rwa [bind_pure, bind_pure] at hpure

/-- A part `x` that only looks gives the same to both runs. -/
theorem Couples.bind_same {x y : Lowering α} {f g : α → Lowering β} {post : W → β → β → Prop}
    (hx : C.Couples w x y fun w' a b => w' = w ∧ a = b)
    (hf : ∀ a, C.Couples w (f a) (g a) post) : C.Couples w (x >>= f) (y >>= g) post := by
  refine hx.bind fun w' a b _ hsame => ?_
  obtain ⟨rfl, rfl⟩ := hsame
  exact hf a

theorem Couples.ends_same {x y : Lowering α} {f g : α → Lowering Unit}
    (hx : C.Couples w x y fun w' a b => w' = w ∧ a = b) (hf : ∀ a, C.Ends w (f a) (g a)) :
    C.Ends w (x >>= f) (y >>= g) := by
  refine hx.ends fun w' a b _ hsame => ?_
  obtain ⟨rfl, rfl⟩ := hsame
  exact hf a

/-- A result that does not depend on the workspace, by `ofExcept`. -/
theorem couples_result {result : Except LoadError α}
    (h : Avoids (LoadError.Foreign (op ≠ .conv)) result) :
    C.Couples w (ofExcept result) (ofExcept result) fun w' a b => w' = w ∧ a = b :=
  (C.couples_ofExcept h).mono fun _ _ _ _ h => ⟨h.1, h.2.1⟩

theorem couples_lift {result : Except LoadError α}
    (h : Avoids (LoadError.Foreign (op ≠ .conv)) result)
    {f g : α → Lowering β} {post : W → β → β → Prop}
    (hf : ∀ a, result = .ok a → C.Couples w (f a) (g a) post) :
    C.Couples w ((liftM result : Lowering α) >>= f) ((liftM result : Lowering α) >>= g) post := by
  refine (C.couples_ofExcept h).bind fun w' a b _ hsame => ?_
  obtain ⟨rfl, rfl, hresult⟩ := hsame
  exact hf a hresult

theorem ends_lift {result : Except LoadError α} (h : Avoids (LoadError.Foreign (op ≠ .conv)) result)
    {f g : α → Lowering Unit} (hf : ∀ a, result = .ok a → C.Ends w (f a) (g a)) :
    C.Ends w ((liftM result : Lowering α) >>= f) ((liftM result : Lowering α) >>= g) := by
  refine (C.couples_ofExcept h).ends fun w' a b _ hsame => ?_
  obtain ⟨rfl, rfl, hresult⟩ := hsame
  exact hf a hresult

theorem couples_attribute (result : Except Onnx.AttributeError α) {f g : α → Lowering β}
    {post : W → β → β → Prop} (hf : ∀ a, result = .ok a → C.Couples w (f a) (g a) post) :
    C.Couples w ((liftM result : Lowering α) >>= f) ((liftM result : Lowering α) >>= g) post :=
  C.couples_lift (avoids_attribute result) fun a h => hf a (mapError_eq_ok.1 h)

theorem ends_attribute (result : Except Onnx.AttributeError α) {f g : α → Lowering Unit}
    (hf : ∀ a, result = .ok a → C.Ends w (f a) (g a)) :
    C.Ends w ((liftM result : Lowering α) >>= f) ((liftM result : Lowering α) >>= g) :=
  C.ends_lift (avoids_attribute result) fun a h => hf a (mapError_eq_ok.1 h)

/-- A failure by `throw` is the same in both runs. -/
theorem couples_throw {e : LoadError} (h : ¬ e.Foreign (op ≠ .conv)) (post : W → α → α → Prop) :
    C.Couples w (throw e : Lowering α) (throw e) post :=
  (C.couples_ofExcept (.error h)).mono fun _ _ _ _ h => by cases h.2.2

theorem ends_throw {e : LoadError} (h : ¬ e.Foreign (op ≠ .conv)) :
    C.Ends w (throw e : Lowering Unit) (throw e) :=
  C.ends_lift (.error h) (f := pure) (g := pure) fun _ h => by cases h

/-! ### Operands -/

/-- A node that takes its values from `positions` has looked all of them up when it has looked at
each position. -/
theorem seen_of_positions {positions : List Nat}
    (hop : node.valueInputs op = positions.filterMap node.input?)
    (h : ∀ position ∈ positions, ∀ name, node.input? position = some name → C.seen w name) :
    ∀ name ∈ node.valueInputs op, C.seen w name := by
  intro name hname
  rw [hop] at hname
  obtain ⟨position, hp, hname⟩ := List.mem_filterMap.1 hname
  exact h position hp name hname

theorem couples_inputValue {positions : List Nat}
    (hop : node.valueInputs op = positions.filterMap node.input?) {position : Nat}
    (hp : position ∈ positions) :
    C.Couples w (inputValue node position) (inputValue node position) fun w' i j =>
      C.ids w' i j ∧ ∀ name, node.input? position = some name → C.seen w' name := by
  refine C.couples_lift (avoids_input node position) fun name hname => ?_
  have hinput := found_eq_ok.1 hname
  have hmem : name ∈ node.valueInputs op := by
    rw [hop]
    exact NodeRecord.mem_filterMap_input? hp hinput
  refine (C.couples_value hmem).mono fun w' i j _ hij => ⟨hij.1, fun name' h' => ?_⟩
  rw [hinput] at h'
  cases h'
  exact hij.2

/-- The only operand of most operators. -/
theorem couples_onlyInput (hop : node.valueInputs op = [0].filterMap node.input?) :
    C.Couples w (inputValue node 0) (inputValue node 0) fun w' i j =>
      C.ids w' i j ∧ ∀ name ∈ node.valueInputs op, C.seen w' name := by
  refine (C.couples_inputValue hop List.mem_cons_self).mono fun w' i j _ hij => ⟨hij.1, ?_⟩
  refine C.seen_of_positions hop fun position hp => ?_
  rw [List.mem_singleton.1 hp]
  exact hij.2

theorem couples_mapM_value {names : List String} (h : ∀ name ∈ names, name ∈ node.valueInputs op) :
    C.Couples w (names.mapM value) (names.mapM value) fun w' is js =>
      List.Forall₂ (C.ids w') is js ∧ ∀ name ∈ names, C.seen w' name := by
  induction names generalizing w with
  | nil => exact C.couples_pure ⟨.nil, by simp⟩
  | cons name names ih =>
    rw [List.mapM_cons]
    refine (C.couples_value (h name List.mem_cons_self)).bind fun w₁ i j _ hij => ?_
    refine (ih fun m hm => h m (List.mem_cons_of_mem _ hm)).bind fun w₂ is js h₂ hijs => ?_
    refine C.couples_pure ⟨.cons (C.ids_mono h₂ hij.1) hijs.1, fun m hm => ?_⟩
    rcases List.mem_cons.1 hm with rfl | hm
    · exact C.seen_mono h₂ hij.2
    · exact hijs.2 m hm

/-- The end of a lowering, `bindOutput`, once every operand that is taken as a value has been looked
up. -/
theorem ends_output {w' : W} {i j : NodeId} (hij : C.ids w' i j) (hw : w ≤ w')
    (hseen : ∀ name ∈ node.valueInputs op, C.seen w name) :
    C.Ends w' (bindOutput node i) (bindOutput node j) :=
  C.ends_bindOutput hij fun name hname => C.seen_mono hw (hseen name hname)

/-! ### Operators that keep the shape -/

section Pointwise

variable (hop : node.valueInputs op = [0].filterMap node.input?)
include hop

theorem ends_identity : C.Ends w (identity node) (identity node) :=
  (C.couples_onlyInput hop).ends fun _ _ _ _ h => C.ends_bindOutput h.1 h.2

theorem ends_unary (o : UnaryOp) : C.Ends w (unary o node) (unary o node) := by
  refine (C.couples_onlyInput hop).ends fun w₁ i j _ h => ?_
  refine (C.couples_create _ (.unary o h.1) trivial).ends fun w₂ i' j' h₂ hout => ?_
  exact C.ends_output hout h₂ h.2

theorem ends_softMax : C.Ends w (softMax node) (softMax node) := by
  refine (C.couples_onlyInput hop).ends fun w₁ i j _ h => ?_
  refine (C.couples_dims h.1).ends_same fun dims => ?_
  refine C.ends_attribute _ fun axis _ => C.ends_attribute _ fun axis _ => ?_
  refine (C.couples_create _ (.softMax h.1 axis) trivial).ends fun w₂ i' j' h₂ hout => ?_
  exact C.ends_output hout h₂ h.2

theorem ends_batchNormalization (hbatch : op = .batchNormalization)
    (hc : node.constantInputs op = [1, 2, 3, 4].filterMap node.input?) :
    C.Ends w (batchNormalization node) (batchNormalization node) := by
  have hconstant : ∀ {w : W} {position : Nat}, position ∈ [1, 2, 3, 4] →
      ∀ {f g : Tensor → Lowering Unit}, (∀ t, C.Ends w (f t) (g t)) → C.Ends w
        ((liftM (node.input position) : Lowering String) >>= fun name => constant name >>= f)
        ((liftM (node.input position) : Lowering String) >>= fun name => constant name >>= g) := by
    intro w position hp f g hf
    refine C.ends_lift (avoids_input node position) fun name hname =>
      (C.couples_constant ?_).ends_same hf
    rw [hc]
    exact NodeRecord.mem_filterMap_input? hp (found_eq_ok.1 hname)
  refine (C.couples_onlyInput hop).ends fun w₁ i j _ h => C.ends_attribute _ fun options _ => ?_
  refine hconstant (by simp) fun scale => hconstant (by simp) fun bias => ?_
  refine hconstant (by simp) fun mean => hconstant (by simp) fun variance => ?_
  refine (C.couples_batchNormalization _ 1 options.epsilon options.momentum _ hbatch h.1).ends
    fun w₂ i' j' h₂ hout => ?_
  exact C.ends_output hout h₂ h.2

end Pointwise

/-! ### Convolution and pooling -/

section Spatial

theorem couples_filterTensor {name : String} (h : name ∈ node.constantInputs op) :
    C.Couples w (filterTensor name) (filterTensor name) fun w' a b => w' = w ∧ a = b :=
  (C.couples_constant h).bind_same fun weight =>
    C.couples_result (avoids_tensor name (avoids_transposed weight _))

theorem couples_biasTensor (hconv : op = .conv)
    (h : ∀ name, node.input? 2 = some name → name ∈ node.constantInputs op)
    (depth : Nat) :
    C.Couples w (biasTensor node depth) (biasTensor node depth) fun w' a b => w' = w ∧ a = b := by
  refine C.couples_lift (avoids_zeros _ fun h => absurd hconv h) fun zeros _ => ?_
  cases hname : node.input? 2 with
  | some name =>
    exact (C.couples_constant (h name hname)).bind_same fun bias =>
      C.couples_result (avoids_tensor name (avoids_copyFrom zeros bias))
  | none => exact C.couples_pure ⟨rfl, rfl⟩

theorem couples_addConvolution {i j : NodeId} (hconv : op = .conv) (h : C.ids w i j)
    (filters biases : Tensor) (options : ConvOptions) :
    C.Couples w (addConvolution node i filters biases options)
      (addConvolution node j filters biases options) C.ids := by
  rw [addConvolution_eq, addConvolution_eq]
  refine (C.couples_create _ (.parameter filters) trivial).bind
    fun w₁ filter filter' h₁ hfilter => ?_
  refine (C.couples_create _ (.parameter biases) trivial).bind fun w₂ bias bias' h₂ hbias => ?_
  refine (C.couples_channelLast _ (C.ids_mono (h₁.trans h₂) h)).bind
    fun w₃ ⟨images, image⟩ ⟨images', image'⟩ h₃ hlast => ?_
  obtain ⟨himages, rfl⟩ := hlast
  refine C.couples_lift (.found (by nofun)) fun size _ => ?_
  refine (C.couples_kind himages).bind_same fun elements => ?_
  refine (C.couples_intern _).bind fun w₄ out out' h₄ hout => ?_
  have hconvolution := Graph.Constructor.Alike.convolution (C.ids_mono h₄ himages)
    (C.ids_mono (h₂.trans (h₃.trans h₄)) hfilter) (C.ids_mono (h₃.trans h₄) hbias) hout
    options.window options.group
  refine (C.couples_create _ hconvolution hconv).bind
    fun w₅ result result' _ hresult => ?_
  exact C.couples_create _ (.transpose hresult toChannelFirst) trivial

variable (hop : node.valueInputs op = [0].filterMap node.input?)
include hop

theorem ends_convolution (hconv : op = .conv)
    (hc : node.constantInputs op = [1, 2].filterMap node.input?) :
    C.Ends w (convolution node) (convolution node) := by
  refine (C.couples_onlyInput hop).ends fun w₁ i j _ h => ?_
  refine C.ends_lift (avoids_input node 1) fun weight hweight => ?_
  have hfilter : weight ∈ node.constantInputs op := by
    rw [hc]
    exact NodeRecord.mem_filterMap_input? (by simp) (found_eq_ok.1 hweight)
  have hbias : ∀ name, node.input? 2 = some name → name ∈ node.constantInputs op := by
    intro name hname
    rw [hc]
    exact NodeRecord.mem_filterMap_input? (by simp) hname
  refine (C.couples_filterTensor hfilter).ends_same fun filters => ?_
  refine C.ends_lift (avoids_convOptions node.view filters.dims) fun options _ => ?_
  refine (C.couples_biasTensor hconv hbias options.depth).ends_same fun biases => ?_
  refine (C.couples_addConvolution hconv h.1 filters biases options).ends fun w₂ i' j' h₂ hout => ?_
  exact C.ends_output hout h₂ h.2

theorem ends_poolWith (kind : PoolKind) {windowOf : List Nat → Except LoadError Window}
    (hwindow : ∀ dims, Avoids (LoadError.Foreign (op ≠ .conv)) (windowOf dims)) :
    C.Ends w (poolWith node kind windowOf) (poolWith node kind windowOf) := by
  refine (C.couples_onlyInput hop).ends fun w₁ i j _ h => ?_
  refine (C.couples_create _ (.transpose h.1 toChannelLast) trivial).ends
    fun w₂ images images' h₂ himages => ?_
  refine (C.couples_dims himages).ends_same fun dims => ?_
  refine C.ends_lift (hwindow dims) fun window _ => ?_
  refine (C.couples_create _ (.pool kind himages window) trivial).ends
    fun w₃ result result' h₃ hresult => ?_
  refine (C.couples_create _ (.transpose hresult toChannelFirst) trivial).ends
    fun w₄ i' j' h₄ hout => ?_
  exact C.ends_output hout (h₂.trans (h₃.trans h₄)) h.2

end Spatial

/-! ### Operators on shapes -/

section Reshaping

theorem couples_targetShape
    (h : ∀ name, node.input? 1 = some name → name ∈ node.constantInputs op) :
    C.Couples w (targetShape node) (targetShape node) fun w' a b => w' = w ∧ a = b := by
  unfold targetShape
  cases hname : node.input? 1 with
  | some name => exact C.couples_constantIndices "shape" (h name hname)
  | none => exact C.couples_attribute _ fun shape _ => C.couples_result (.found (by nofun))

section Axes

variable (haxes : op = .squeeze ∨ op = .unsqueeze)
include haxes

theorem couples_axesOf :
    C.Couples w (axesOf node) (axesOf node) fun w' a b => w' = w ∧ a = b := by
  refine C.couples_attribute _ fun given hgiven => ?_
  cases given with
  | some axes => exact C.couples_pure ⟨rfl, rfl⟩
  | none =>
    cases hname : node.input? 1 with
    | some name =>
      have hmem := (NodeRecord.mem_constantInputs_of_axes haxes).2 ⟨hgiven, hname⟩
      exact C.couples_constantIndices "axes" hmem
    | none => exact C.couples_throw (by nofun) _

theorem couples_resolvedAxes (rank : Nat) :
    C.Couples w (resolvedAxes node rank) (resolvedAxes node rank) fun w' a b => w' = w ∧ a = b := by
  refine (C.couples_axesOf haxes).bind_same fun axes => ?_
  induction axes with
  | nil => exact C.couples_pure ⟨rfl, rfl⟩
  | cons axis axes ih =>
    rw [List.mapM_cons]
    exact C.couples_attribute _ fun place _ => ih.bind_same fun places => C.couples_pure ⟨rfl, rfl⟩

theorem couples_axesCount :
    C.Couples w (axesCount node) (axesCount node) fun w' a b => w' = w ∧ a = b := by
  rw [axesCount_eq]
  refine C.couples_attribute _ fun given hgiven => ?_
  cases given with
  | some axes => exact C.couples_pure ⟨rfl, rfl⟩
  | none =>
    cases hname : node.input? 1 with
    | some name =>
      have hmem := (NodeRecord.mem_constantInputs_of_axes haxes).2 ⟨hgiven, hname⟩
      exact (C.couples_tensorOf hmem).bind_same fun tensor => C.couples_pure ⟨rfl, rfl⟩
    | none => exact C.couples_pure ⟨rfl, rfl⟩

end Axes

section OneValue

variable (hop : node.valueInputs op = [0].filterMap node.input?)
include hop

theorem ends_reshape (hc : node.constantInputs op = [1].filterMap node.input?) :
    C.Ends w (reshape node) (reshape node) := by
  refine (C.couples_onlyInput hop).ends fun w₁ i j _ h => ?_
  have htarget : ∀ name, node.input? 1 = some name → name ∈ node.constantInputs op := by
    intro name hname
    rw [hc]
    exact NodeRecord.mem_filterMap_input? List.mem_cons_self hname
  refine (C.couples_targetShape htarget).ends_same fun target => ?_
  refine (C.couples_dims h.1).ends_same fun dims => ?_
  refine C.ends_lift (avoids_resolveTarget dims target) fun into _ => ?_
  refine (C.couples_create _ (.reshape h.1 into) trivial).ends fun w₂ i' j' h₂ hout => ?_
  exact C.ends_output hout h₂ h.2

theorem ends_flatten : C.Ends w (flatten node) (flatten node) := by
  refine (C.couples_onlyInput hop).ends fun w₁ i j _ h => ?_
  refine (C.couples_dims h.1).ends_same fun dims => ?_
  refine C.ends_attribute _ fun axis _ => ?_
  refine C.ends_lift (avoids_splitPlace axis dims.length) fun place hplace => ?_
  refine C.ends_lift (avoids_splitDims hplace) fun parts _ => ?_
  refine C.ends_lift (avoids_countOf _) fun outer _ => ?_
  refine C.ends_lift (avoids_countOf _) fun inner _ => ?_
  refine (C.couples_create _ (.reshape h.1 [outer, inner]) trivial).ends fun w₂ i' j' h₂ hout => ?_
  exact C.ends_output hout h₂ h.2

theorem ends_squeeze (haxes : op = .squeeze ∨ op = .unsqueeze) :
    C.Ends w (squeeze node) (squeeze node) := by
  refine (C.couples_onlyInput hop).ends fun w₁ i j _ h => ?_
  refine (C.couples_dims h.1).ends_same fun dims => ?_
  refine (C.couples_resolvedAxes haxes _).ends_same fun axes => ?_
  refine (C.couples_create _ (.squeeze h.1 axes) trivial).ends fun w₂ i' j' h₂ hout => ?_
  exact C.ends_output hout h₂ h.2

theorem ends_unsqueeze (haxes : op = .squeeze ∨ op = .unsqueeze) :
    C.Ends w (unsqueeze node) (unsqueeze node) := by
  refine (C.couples_onlyInput hop).ends fun w₁ i j _ h => ?_
  refine (C.couples_dims h.1).ends_same fun dims => ?_
  refine (C.couples_axesCount haxes).ends_same fun count => ?_
  refine (C.couples_resolvedAxes haxes _).ends_same fun axes => ?_
  refine (C.couples_create _ (.expandDims h.1 axes) trivial).ends fun w₂ i' j' h₂ hout => ?_
  exact C.ends_output hout h₂ h.2

theorem ends_transpose : C.Ends w (transpose node) (transpose node) := by
  refine (C.couples_onlyInput hop).ends fun w₁ i j _ h => ?_
  refine C.ends_attribute _ fun perm _ => C.ends_attribute _ fun shuffle _ => ?_
  refine (C.couples_create _ (.transpose h.1 shuffle) trivial).ends fun w₂ i' j' h₂ hout => ?_
  exact C.ends_output hout h₂ h.2

end OneValue

theorem ends_concat (hop : node.valueInputs op = node.inputs) :
    C.Ends w (concat node) (concat node) := by
  refine (C.couples_mapM_value fun name hname => hop ▸ hname).ends fun w₁ is js _ h => ?_
  rw [← hop] at h
  cases h.1 with
  | nil => exact C.ends_lift (.found (by nofun)) fun first hfirst => by cases hfirst
  | @cons i j is js hij hrest =>
    show C.Ends w₁ (dims i >>= _) (dims j >>= _)
    refine (C.couples_dims hij).ends_same fun dims => ?_
    refine C.ends_attribute _ fun axis _ => C.ends_attribute _ fun axis _ => ?_
    refine (C.couples_create _ (.concat h.1 axis) trivial).ends fun w₂ i' j' h₂ hout => ?_
    exact C.ends_output hout h₂ h.2

end Reshaping

/-! ### Element-wise arithmetic and matrix products -/

section Arithmetic

theorem couples_broadcastTo (name : String) {i j : NodeId} (h : C.ids w i j) {into : List Nat}
    {axis : Nat} (haxis : axis ≤ into.length) :
    C.Couples w (broadcastTo name i into axis) (broadcastTo name j into axis) C.ids := by
  refine (C.couples_dims h).bind_same fun dims => ?_
  split
  · exact C.couples_pure h
  · exact C.couples_create name (.broadcast h into axis) haxis

theorem couples_align (name : String) {i j k l : NodeId} (hl : C.ids w i j) (hr : C.ids w k l)
    (lhsDims rhsDims : List Nat) (mode : BroadcastMode) :
    C.Couples w (align name i k lhsDims rhsDims mode) (align name j l lhsDims rhsDims mode)
      fun w' a b => C.ids w' a.1 b.1 ∧ C.ids w' a.2 b.2 := by
  cases mode with
  | disabled => exact C.couples_pure ⟨hl, hr⟩
  | legacy axis =>
    refine C.couples_lift (avoids_legacyAxis axis lhsDims rhsDims) fun place hplace => ?_
    have hle := legacyAxis_le hplace
    refine (C.couples_broadcastTo _ hr hle).bind fun w₁ k' l' h₁ hr' => ?_
    exact C.couples_pure ⟨C.ids_mono h₁ hl, hr'⟩
  | multidirectional =>
    refine C.couples_lift (.found (by nofun)) fun common hcommon => ?_
    have hjoin := found_eq_ok.1 hcommon
    refine C.couples_lift (avoids_alignment hjoin (.inl rfl)) fun lhsAxis hlhs => ?_
    have hlle := alignment_le (mapError_eq_ok.1 hlhs)
    refine (C.couples_broadcastTo _ hl hlle).bind fun w₁ i' j' h₁ hl' => ?_
    refine C.couples_lift (avoids_alignment hjoin (.inr rfl)) fun rhsAxis hrhs => ?_
    have hrle := alignment_le (mapError_eq_ok.1 hrhs)
    refine (C.couples_broadcastTo _ (C.ids_mono h₁ hr) hrle).bind
      fun w₂ k' l' h₂ hr' => ?_
    exact C.couples_pure ⟨C.ids_mono h₂ hl', hr'⟩

theorem couples_elementwise (name : String) (o : ArithmeticOp) {i j k l : NodeId}
    (hl : C.ids w i j) (hr : C.ids w k l) (mode : BroadcastMode) :
    C.Couples w (elementwise name o i k mode) (elementwise name o j l mode) C.ids := by
  refine (C.couples_dims hl).bind_same fun lhsDims => ?_
  refine (C.couples_dims hr).bind_same fun rhsDims => ?_
  have hlast : ∀ (w' : W) (a b : NodeId × NodeId), w ≤ w' →
      C.ids w' a.1 b.1 ∧ C.ids w' a.2 b.2 →
      C.Couples w' (liftM (Build.arithmetic name o a.1 a.2) : Lowering NodeId)
        (liftM (Build.arithmetic name o b.1 b.2) : Lowering NodeId) C.ids :=
    fun w' a b _ hab => C.couples_create name (.arithmetic o hab.1 hab.2) trivial
  split
  · exact (C.couples_pure (a := (i, k)) (b := (j, l)) ⟨hl, hr⟩).bind hlast
  · exact (C.couples_align name hl hr lhsDims rhsDims mode).bind hlast

theorem ends_binary (hop : node.valueInputs op = [0, 1].filterMap node.input?) (o : ArithmeticOp)
    (opset : Int64) : C.Ends w (binary o opset node) (binary o opset node) := by
  refine C.ends_attribute _ fun mode _ => ?_
  refine (C.couples_inputValue hop (by simp)).ends fun w₁ i j h₁ hl => ?_
  refine (C.couples_inputValue hop (by simp)).ends fun w₂ k l h₂ hr => ?_
  refine (C.couples_elementwise _ o (C.ids_mono h₂ hl.1) hr.1 mode).ends
    fun w₃ i' j' h₃ hout => ?_
  refine C.ends_output hout h₃ (C.seen_of_positions hop fun position hp name hname => ?_)
  simp only [List.mem_cons, List.not_mem_nil, or_false] at hp
  obtain rfl | rfl := hp
  · exact C.seen_mono h₂ (hl.2 name hname)
  · exact hr.2 name hname

theorem forall₂_zipIdx {P : α → α → Prop} {l m : List α} (h : List.Forall₂ P l m) (k : Nat) :
    List.Forall₂ (fun a b => P a.1 b.1 ∧ a.2 = b.2) (l.zipIdx k) (m.zipIdx k) := by
  induction h generalizing k with
  | nil => exact .nil
  | cons hab _ ih => exact .cons ⟨hab, rfl⟩ (ih (k + 1))

/-- The additions of a sum (`addAll`) go on with corresponding totals. -/
theorem couples_foldlM {f g : NodeId → NodeId × Nat → Lowering NodeId}
    (hf : ∀ {w i j k l place}, C.ids w i j → C.ids w k l →
      C.Couples w (f i (k, place)) (g j (l, place)) C.ids)
    {is js : List (NodeId × Nat)}
    (h : List.Forall₂ (fun a b => C.ids w a.1 b.1 ∧ a.2 = b.2) is js) {i j : NodeId}
    (hij : C.ids w i j) : C.Couples w (is.foldlM f i) (js.foldlM g j) C.ids := by
  induction is generalizing w js i j with
  | nil =>
    cases h
    exact C.couples_pure hij
  | cons a is ih =>
    obtain _ | ⟨hab, hrest⟩ := h
    rw [List.foldlM_cons, List.foldlM_cons]
    obtain ⟨k, place⟩ := a
    obtain ⟨hk, rfl⟩ := hab
    refine (hf hij hk).bind fun w' i' j' hw hij' => ih (hrest.imp fun a b hab => ?_) hij'
    exact ⟨C.ids_mono hw hab.1, hab.2⟩

theorem ends_sum (hop : node.valueInputs op = node.inputs) (opset : Int64) :
    C.Ends w (sum opset node) (sum opset node) := by
  refine (C.couples_mapM_value fun name hname => hop ▸ hname).ends fun w₁ is js _ h => ?_
  rw [← hop] at h
  cases h.1 with
  | nil => exact C.ends_throw (by nofun)
  | @cons i j is js hij hrest =>
    have htotal : C.Couples w₁ (addAll node (sumMode opset) i is) (addAll node (sumMode opset) j js)
        C.ids := by
      refine C.couples_foldlM (fun hij hkl => ?_) (forall₂_zipIdx hrest 0) hij
      rw [hrest.length_eq]
      exact C.couples_elementwise _ .add hij hkl _
    exact htotal.ends fun w₂ i' j' h₂ hout => C.ends_output hout h₂ h.2

theorem couples_orient (flip : Bool) (name : String) {i j : NodeId} (h : C.ids w i j) :
    C.Couples w (orient flip name i) (orient flip name j) C.ids := by
  cases flip with
  | true => exact C.couples_create name (.transpose h [1, 0]) trivial
  | false => exact C.couples_pure h

theorem couples_fitAddend (broadcast : Bool) {i j k l : NodeId} (hproduct : C.ids w i j)
    (haddend : C.ids w k l) :
    C.Couples w (fitAddend node broadcast i k) (fitAddend node broadcast j l) C.ids := by
  refine (C.couples_dims hproduct).bind_same fun productDims => ?_
  refine (C.couples_dims haddend).bind_same fun addendDims => ?_
  split
  · refine C.couples_lift (avoids_shape _ _) fun axis haxis => ?_
    have hle := alignment_le (mapError_eq_ok.1 haxis)
    exact C.couples_create _ (.broadcast haddend productDims axis) hle
  · exact C.couples_pure haddend

/-- The third input of a matrix product, which may be left out. -/
theorem couples_thirdInput (hop : node.valueInputs op = [0, 1, 2].filterMap node.input?) :
    C.Couples w ((node.input? 2).mapM value) ((node.input? 2).mapM value) fun w' c d =>
      Option.Rel (C.ids w') c d ∧ ∀ name, node.input? 2 = some name → C.seen w' name := by
  cases hname : node.input? 2 with
  | none => exact C.couples_pure ⟨.none, fun _ h => by cases h⟩
  | some name =>
    have hmem : name ∈ node.valueInputs op := by
      rw [hop]
      exact NodeRecord.mem_filterMap_input? (by simp) hname
    refine (C.couples_value hmem).bind fun w' k l _ h => ?_
    refine C.couples_pure ⟨.some h.1, fun name' h' => ?_⟩
    cases h'
    exact h.2

theorem ends_gemm (hop : node.valueInputs op = [0, 1, 2].filterMap node.input?) (opset : Int64) :
    C.Ends w (gemm opset node) (gemm opset node) := by
  refine C.ends_attribute _ fun options _ => ?_
  refine (C.couples_inputValue hop (by simp)).ends fun w₁ i j _ ha => ?_
  refine (C.couples_inputValue hop (by simp)).ends fun w₂ k l h₂ hb => ?_
  refine (C.couples_thirdInput hop).ends fun w₃ c d h₃ hc => ?_
  have hseen : ∀ name ∈ node.valueInputs op, C.seen w₃ name := by
    refine C.seen_of_positions hop fun position hp name hname => ?_
    simp only [List.mem_cons, List.not_mem_nil, or_false] at hp
    obtain rfl | rfl | rfl := hp
    · exact C.seen_mono (h₂.trans h₃) (ha.2 name hname)
    · exact C.seen_mono h₃ (hb.2 name hname)
    · exact hc.2 name hname
  refine (C.couples_orient _ _ (C.ids_mono (h₂.trans h₃) ha.1)).ends fun w₄ i' j' h₄ ha' => ?_
  refine (C.couples_orient _ _ (C.ids_mono (h₃.trans h₄) hb.1)).ends fun w₅ k' l' h₅ hb' => ?_
  have hproduct : Graph.Constructor.Alike (C.ids w₅) (C.refs w₅) (.matMul i' k') (.matMul j' l') :=
    .matMul (C.ids_mono h₅ ha') hb'
  cases hc.1 with
  | none =>
    refine (C.couples_create _ hproduct trivial).ends fun w₆ i' j' h₆ hout => ?_
    exact C.ends_output hout (h₄.trans (h₅.trans h₆)) hseen
  | @some m n hmn =>
    refine (C.couples_create _ hproduct trivial).ends fun w₆ p q h₆ hpq => ?_
    have haddend := C.ids_mono (h₄.trans (h₅.trans h₆)) hmn
    refine (C.couples_fitAddend _ hpq haddend).ends fun w₇ m' n' h₇ hmn' => ?_
    refine (C.couples_create _ (.arithmetic .add (C.ids_mono h₇ hpq) hmn') trivial).ends
      fun w₈ i' j' h₈ hout => ?_
    exact C.ends_output hout (h₄.trans (h₅.trans (h₆.trans (h₇.trans h₈)))) hseen

theorem ends_matMul (hop : node.valueInputs op = [0, 1].filterMap node.input?) :
    C.Ends w (matMul node) (matMul node) := by
  refine (C.couples_inputValue hop (by simp)).ends fun w₁ i j h₁ hl => ?_
  refine (C.couples_inputValue hop (by simp)).ends fun w₂ k l h₂ hr => ?_
  refine (C.couples_create _ (.matMul (C.ids_mono h₂ hl.1) hr.1) trivial).ends
    fun w₃ i' j' h₃ hout => ?_
  refine C.ends_output hout h₃ (C.seen_of_positions hop fun position hp name hname => ?_)
  simp only [List.mem_cons, List.not_mem_nil, or_false] at hp
  obtain rfl | rfl := hp
  · exact C.seen_mono h₂ (hl.2 name hname)
  · exact hr.2 name hname

end Arithmetic

/-! ### All operators -/

/-- **Every operator keeps every coupling.** Constants (`storeConstant`) are left to the coupling,
as they look no operand up and make no node. -/
theorem ends_step (hop : op ≠ .constant) (opset : Int64) :
    C.Ends w (step opset node op) (step opset node op) := by
  cases op with
  | constant => exact absurd rfl hop
  | conv => exact C.ends_convolution rfl rfl rfl
  | maxPool => exact C.ends_poolWith rfl .max (avoids_poolWindow node.view)
  | averagePool => exact C.ends_poolWith rfl .average (avoids_poolWindow node.view)
  | globalAveragePool => exact C.ends_poolWith rfl .average avoids_globalWindow
  | squeeze => exact C.ends_squeeze rfl (.inl rfl)
  | unsqueeze => exact C.ends_unsqueeze rfl (.inr rfl)
  | dropout => exact C.ends_identity rfl
  | identity => exact C.ends_identity rfl
  | batchNormalization => exact C.ends_batchNormalization rfl rfl rfl
  | concat => exact C.ends_concat rfl
  | gemm => exact C.ends_gemm rfl opset
  | matMul => exact C.ends_matMul rfl
  | transpose => exact C.ends_transpose rfl
  | reshape => exact C.ends_reshape rfl rfl
  | flatten => exact C.ends_flatten rfl
  | relu => exact C.ends_unary rfl .relu
  | sigmoid => exact C.ends_unary rfl .sigmoid
  | tanh => exact C.ends_unary rfl .tanh
  | softmax => exact C.ends_softMax rfl
  | add => exact C.ends_binary rfl .add opset
  | sub => exact C.ends_binary rfl .sub opset
  | mul => exact C.ends_binary rfl .mul opset
  | div => exact C.ends_binary rfl .div opset
  | sum => exact C.ends_sum rfl opset

end Coupling
end Lowering
end TensorGraph
