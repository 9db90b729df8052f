import TensorGraph.Proofs.Graph.ShapeRule
import TensorGraph.Proofs.Graph.Operation

/-! # Node constructors on nodes that are there

Some errors of a graph report broken assumptions: a handle without a node or a type, a position past
the end of a list. When all operands of a constructor stand for nodes that have types (`Graph.Has`),
and its type handles for types (`Graph.HasType`), none of these arises: every position that a rule
reads or fills lies within the list, because a check made before says so. Only a broadcast computes
positions by a sum that it does not check; its last position must be a size (`Constructor.Placed`).
Where every node of the graph has a type, operands that do not exist are refused as such, and the
other errors do not arise whatever the operands are.

No rule allocates memory. A batch normalization does, for parameters with one float for each
channel, and it fails for want of memory only if these take `Size.allocatable` bytes or more. -/

namespace TensorGraph

/-- The errors that report a broken assumption: handles and positions are valid, where nodes are
`expected` all handles of nodes stand for one, and where there is `room` memory can be allocated. -/
inductive GraphError.Broken (expected room : Prop) : GraphError → Prop
  | unknownNode (id : NodeId) (h : expected) : Broken expected room (.unknownNode id)
  | staleType (ref : TypeRef) : Broken expected room (.staleType ref)
  | outOfRange (index length : Nat) : Broken expected room (.outOfRange index length)
  | capacity (h : room) : Broken expected room (.tensor .capacity)

/-- What is broken whatever the operands are is a fault. -/
theorem GraphError.broken_of_isFault {e : GraphError} (h : e.isFault = true) :
    e.Broken False True := by
  cases e with
  | staleType ref => exact .staleType ref
  | outOfRange index length => exact .outOfRange index length
  | tensor cause =>
    cases cause with
    | capacity => exact .capacity trivial
    | _ => cases h
  | _ => cases h

open GraphError (Broken)

/-! ### Handles that stand for something -/

namespace Graph

/-- The handle stands for a node that has a type, `g.typeOf id`. -/
def Has (g : Graph) (id : NodeId) : Prop := ∃ type, g.typeOf id = .ok type

/-- The handle stands for a type, `g.resolve ref`. -/
def HasType (g : Graph) (ref : TypeRef) : Prop := ∃ type, g.resolve ref = .ok type

variable {g h : Graph} {id : NodeId}

theorem Has.mono (hid : g.Has id) (hgh : g.Extends h) : h.Has id := by
  obtain ⟨type, htype⟩ := hid
  exact ⟨type, hgh.typeOf_eq htype⟩

theorem HasType.mono {ref : TypeRef} (href : g.HasType ref) (hgh : g.Extends h) :
    h.HasType ref := by
  obtain ⟨type, htype⟩ := href
  exact ⟨type, hgh.resolve_eq htype⟩

theorem Has.node (hid : g.Has id) : ∃ node, g.node id = .ok node ∧ g.HasType node.type := by
  obtain ⟨type, htype⟩ := hid
  obtain ⟨node, hnode, hresolve⟩ := typeOf_eq_ok.1 htype
  exact ⟨node, hnode, type, hresolve⟩

/-- The handle stands for a node if nodes are `expected`, and a node that it stands for has a
type. -/
structure Reads (expected : Prop) (g : Graph) (id : NodeId) : Prop where
  node : expected → ∃ node, g.node id = .ok node
  type : ∀ node, g.node id = .ok node → g.HasType node.type

theorem Has.reads {expected : Prop} (hid : g.Has id) : g.Reads expected id := by
  obtain ⟨node, hnode, htype⟩ := hid.node
  refine ⟨fun _ => ⟨node, hnode⟩, fun other hother => ?_⟩
  obtain rfl := Except.ok.inj (hnode.symm.trans hother)
  exact htype

/-- Where every node has a type, every handle may be read. -/
theorem Typed.reads (hg : g.Typed) (id : NodeId) : g.Reads False id where
  node := False.elim
  type := fun node hnode => hg node (List.mem_of_getElem? (found_eq_ok.1 hnode))

section Reads

variable {expected room : Prop}

theorem Reads.avoids_node (hid : g.Reads expected id) :
    Avoids (Broken expected room) (g.node id) := by
  intro e he hbroken
  obtain ⟨hnone, rfl⟩ := found_eq_error.1 he
  cases hbroken with
  | unknownNode _ hexpected =>
    obtain ⟨node, hnode⟩ := hid.node hexpected
    rw [found_eq_ok.1 hnode] at hnone
    cases hnone

theorem Reads.avoids_typeOf (hid : g.Reads expected id) :
    Avoids (Broken expected room) (g.typeOf id) := by
  refine hid.avoids_node.bind fun node hnode => ?_
  obtain ⟨type, htype⟩ := hid.type node hnode
  exact .of_ok htype

theorem Reads.avoids_dims (hid : g.Reads expected id) : Avoids (Broken expected room) (g.dims id) :=
  hid.avoids_typeOf.bind fun _ _ => .pure _

theorem Reads.avoids_kind (hid : g.Reads expected id) : Avoids (Broken expected room) (g.kind id) :=
  hid.avoids_typeOf.bind fun _ _ => .pure _

theorem Reads.avoids_imageDims (hid : g.Reads expected id) (name : String) :
    Avoids (Broken expected room) (g.imageDims name id) :=
  hid.avoids_dims.bind fun _ _ => .found nofun

theorem Reads.avoids_matrixDims (hid : g.Reads expected id) (name : String) :
    Avoids (Broken expected room) (g.matrixDims name id) := by
  refine hid.avoids_dims.bind fun dims _ => ?_
  split
  · exact .pure _
  · exact .error nofun

theorem Reads.avoids_vectorLength (hid : g.Reads expected id) (name : String) :
    Avoids (Broken expected room) (g.vectorLength name id) := by
  refine hid.avoids_dims.bind fun dims _ => ?_
  split
  · exact .pure _
  · exact .error nofun

end Reads
end Graph

theorem avoids_dimAt {expected room : Prop} {dims : List Nat} {axis : Nat}
    (h : axis < dims.length) : Avoids (Broken expected room) (dimAt dims axis) :=
  .of_ok (found_eq_ok.2 (List.getElem?_eq_getElem h))

/-! ### One rule after the other -/

namespace Draft

variable {expected room : Prop} {g : Graph} {input : NodeId}

theorem avoids_transpose (h : g.Reads expected input) (shuffle : List Nat) :
    Avoids (Broken expected room) (transpose g input shuffle) := by
  refine h.avoids_typeOf.bind fun type _ => ?_
  refine (Avoids.check nofun).bind fun _ hperm => ?_
  have hlt := (isPermutation_eq_true.1 (check_eq_ok.1 hperm)).2.2
  refine (Avoids.mapM fun axis haxis => ?_).bind fun dims _ => .pure _
  exact avoids_dimAt (hlt axis haxis)

theorem avoids_convolution {filter bias : NodeId} {out : TypeRef} (hinput : g.Reads expected input)
    (hfilter : g.Reads expected filter) (hbias : g.Reads expected bias) (hout : g.HasType out)
    (name : String) (window : Window) (group : Nat) :
    Avoids (Broken expected room) (convolution g name input filter bias out window group) := by
  obtain ⟨type, htype⟩ := hout
  refine (hinput.avoids_imageDims name).bind fun image _ => ?_
  refine (hfilter.avoids_imageDims name).bind fun filters _ => ?_
  refine (hbias.avoids_vectorLength name).bind fun biasLength _ => ?_
  refine (Avoids.check nofun).bind fun _ _ => (Avoids.check nofun).bind fun _ _ => ?_
  refine (Avoids.check nofun).bind fun _ _ => (Avoids.found nofun).bind fun size _ => ?_
  exact (Avoids.of_ok htype).bind fun _ _ => (Avoids.check nofun).bind fun _ _ => .pure _

theorem avoids_pool (h : g.Reads expected input) (name : String) (kind : PoolKind)
    (window : Window) : Avoids (Broken expected room) (pool g name kind input window) := by
  refine (h.avoids_imageDims name).bind fun image _ => h.avoids_kind.bind fun elements _ => ?_
  exact (Avoids.found nofun).bind fun size _ => .pure _

theorem avoids_axesBelow (name : String) (axes : List Nat) (rank : Nat) :
    Avoids (Broken expected room) (axesBelow name axes rank) :=
  (Avoids.check nofun).bind fun _ _ => .pure _

theorem avoids_squeeze (h : g.Reads expected input) (name : String) (axes : List Nat) :
    Avoids (Broken expected room) (squeeze g name input axes) := by
  refine h.avoids_typeOf.bind fun type _ => ?_
  refine (avoids_axesBelow name axes type.rank).bind fun sorted hsorted => ?_
  obtain ⟨-, hlt, rfl⟩ := axesBelow_eq_ok.1 hsorted
  refine (Avoids.forM fun axis haxis => ?_).bind fun _ _ => .pure _
  refine (avoids_dimAt (hlt axis (mem_sortAxes.1 haxis))).bind fun size _ => ?_
  exact .check nofun

theorem avoids_expandDims (h : g.Reads expected input) (name : String) (axes : List Nat) :
    Avoids (Broken expected room) (expandDims g name input axes) := by
  refine h.avoids_typeOf.bind fun type _ => ?_
  refine (avoids_axesBelow name axes _).bind fun sorted hsorted => ?_
  obtain ⟨hnodup, hlt, rfl⟩ := axesBelow_eq_ok.1 hsorted
  have hroom : ∀ axis ∈ sortAxes axes, axis < type.dims.length + (sortAxes axes).length := by
    intro axis haxis
    rw [length_sortAxes]
    exact hlt axis (mem_sortAxes.1 haxis)
  obtain ⟨long, hlong⟩ := exists_insertAxes GraphError.outOfRange (pairwise_sortAxes hnodup) hroom
  exact (Avoids.of_ok hlong).bind fun dims _ => .pure _

theorem avoids_channelCount (h : g.Reads expected input) (name : String) (channel : Nat) :
    Avoids (Broken expected room) (channelCount g name input channel) :=
  h.avoids_typeOf.bind fun _ _ => .found nofun

theorem avoids_batchNormalization (h : g.Reads expected input) (channel : Nat)
    (epsilon momentum : Binary32) (parameters : List NodeId) :
    Avoids (Broken expected room)
      (batchNormalization g input channel epsilon momentum parameters) :=
  h.avoids_node.bind fun _ _ => .pure _

theorem avoids_concat {inputs : List NodeId} (h : ∀ input ∈ inputs, g.Reads expected input)
    (name : String) (axis : Nat) : Avoids (Broken expected room) (concat g name inputs axis) := by
  refine (Avoids.found nofun).bind fun first hfirst => ?_
  have hmem : first ∈ inputs := List.mem_of_mem_head? (found_eq_ok.1 hfirst)
  refine (h first hmem).avoids_typeOf.bind fun firstType _ => ?_
  refine (Avoids.check nofun).bind fun _ haxis => ?_
  refine (Avoids.mapM fun input hinput => ?_).bind fun extents _ => .pure _
  refine (h input hinput).avoids_typeOf.bind fun type _ => ?_
  refine (Avoids.check nofun).bind fun _ hagree => avoids_dimAt ?_
  rw [(agree_of_set_eq (check_eq_ok.1 hagree).2).1]
  exact check_eq_ok.1 haxis

theorem avoids_matMul {lhs rhs : NodeId} (hl : g.Reads expected lhs) (hr : g.Reads expected rhs)
    (name : String) :
    Avoids (Broken expected room) (matMul g name lhs rhs) := by
  refine (hl.avoids_matrixDims name).bind fun left _ => ?_
  refine (hr.avoids_matrixDims name).bind fun right _ => ?_
  refine hl.avoids_kind.bind fun elements _ => hr.avoids_kind.bind fun actual _ => ?_
  exact (Avoids.check nofun).bind fun _ _ => (Avoids.check nofun).bind fun _ _ => .pure _

/-- The places of dimensions are looked at only where their sums are not reduced by `Size.add`. -/
theorem avoids_broadcast (h : g.Reads expected input) (name : String) {dims : List Nat} {axis : Nat}
    (hplaced : axis ≤ dims.length ∨
      ∀ type, g.typeOf input = .ok type → axis + type.rank < Size.bound) :
    Avoids (Broken expected room) (broadcast g name input dims axis) := by
  refine h.avoids_typeOf.bind fun type htype => ?_
  have hexact : fits type.dims dims axis = .ok (fitsAt type.dims dims axis) :=
    if_pos (hplaced.imp_right fun hsum => hsum type htype)
  exact (Avoids.of_ok hexact).bind fun _ _ => (Avoids.check nofun).bind fun _ _ => .pure _

theorem avoids_arithmetic {lhs rhs : NodeId} (hl : g.Reads expected lhs)
    (hr : g.Reads expected rhs) (name : String) (op : ArithmeticOp) :
    Avoids (Broken expected room) (arithmetic g name op lhs rhs) := by
  refine hl.avoids_node.bind fun left hleft => hr.avoids_node.bind fun right hright => ?_
  obtain ⟨leftType, hleftType⟩ := hl.type left hleft
  obtain ⟨rightType, hrightType⟩ := hr.type right hright
  show Avoids (Broken expected room) (if left.type = right.type then _ else _)
  split
  · exact .pure _
  · rw [hleftType, hrightType]
    exact .error nofun

theorem avoids_unary (h : g.Reads expected input) (op : UnaryOp) :
    Avoids (Broken expected room) (unary g op input) :=
  h.avoids_node.bind fun _ _ => .pure _

theorem avoids_softMax (h : g.Reads expected input) (name : String) (axis : Nat) :
    Avoids (Broken expected room) (softMax g name input axis) := by
  refine h.avoids_node.bind fun node hnode => ?_
  obtain ⟨type, htype⟩ := h.type node hnode
  exact (Avoids.of_ok htype).bind fun _ _ => (Avoids.check nofun).bind fun _ _ => .pure _

theorem avoids_reshape (h : g.Reads expected input) (name : String) (dims : List Nat) :
    Avoids (Broken expected room) (reshape g name input dims) := by
  refine h.avoids_typeOf.bind fun type _ => ?_
  have hcount : ∀ dims, Avoids (Broken expected room) ((countElements dims).mapError .tensor) :=
    fun dims => .mapError fun e he => by
      obtain ⟨-, rfl⟩ := found_eq_error.1 he
      nofun
  refine (hcount type.dims).bind fun before _ => (hcount dims).bind fun after _ => ?_
  exact (Avoids.check nofun).bind fun _ _ => .pure _

theorem avoids_save (h : g.Reads expected input) : Avoids (Broken expected room) (save g input) :=
  h.avoids_node.bind fun _ _ => .pure _

end Draft

/-! ### All constructors -/

namespace Graph

namespace Constructor

/-- The handles of nodes that a constructor is given. -/
def operands : Constructor → List NodeId
  | parameter _ => []
  | transpose input _ => [input]
  | convolution input filter bias _ _ _ => [input, filter, bias]
  | pool _ input _ => [input]
  | squeeze input _ => [input]
  | expandDims input _ => [input]
  | concat inputs _ => inputs
  | matMul lhs rhs => [lhs, rhs]
  | broadcast input _ _ => [input]
  | arithmetic _ lhs rhs => [lhs, rhs]
  | unary _ input => [input]
  | softMax input _ => [input]
  | reshape input _ => [input]
  | save input => [input]

/-- The handles of types that a constructor is given. -/
def typeRefs : Constructor → List TypeRef
  | convolution _ _ _ out _ _ => [out]
  | _ => []

/-- A broadcast begins at an axis of the new shape or at its end, or the place at which it ends is a
size. Then no place that it looks at is reduced modulo `Size.bound`. -/
def Placed (g : Graph) : Constructor → Prop
  | broadcast input dims axis =>
    axis ≤ dims.length ∨ ∀ type, g.typeOf input = .ok type → axis + type.rank < Size.bound
  | _ => True

variable {g : Graph}

/-- **A constructor on nodes that are there** is refused only for what the caller can be told:
`c.rule` does not meet a handle that stands for nothing or a position past the end of a list, and it
needs no memory. -/
theorem avoids_rule {expected room : Prop} {c : Constructor}
    (hops : ∀ id ∈ c.operands, g.Reads expected id) (hrefs : ∀ ref ∈ c.typeRefs, g.HasType ref)
    (hplaced : c.Placed g) (name : String) :
    Avoids (Broken expected room) (c.rule name g) := by
  cases c with
  | parameter tensor => exact .pure _
  | transpose input shuffle =>
    exact Draft.avoids_transpose (hops input (by simp [operands])) shuffle
  | convolution input filter bias out window group =>
    exact Draft.avoids_convolution (hops input (by simp [operands]))
      (hops filter (by simp [operands])) (hops bias (by simp [operands]))
      (hrefs out (by simp [typeRefs])) name window group
  | pool kind input window =>
    exact Draft.avoids_pool (hops input (by simp [operands])) name kind window
  | squeeze input axes => exact Draft.avoids_squeeze (hops input (by simp [operands])) name axes
  | expandDims input axes =>
    exact Draft.avoids_expandDims (hops input (by simp [operands])) name axes
  | concat inputs axis => exact Draft.avoids_concat hops name axis
  | matMul lhs rhs =>
    exact Draft.avoids_matMul (hops lhs (by simp [operands])) (hops rhs (by simp [operands])) name
  | broadcast input dims axis =>
    exact Draft.avoids_broadcast (hops input (by simp [operands])) name hplaced
  | arithmetic op lhs rhs =>
    exact Draft.avoids_arithmetic (hops lhs (by simp [operands])) (hops rhs (by simp [operands]))
      name op
  | unary op input => exact Draft.avoids_unary (hops input (by simp [operands])) op
  | softMax input axis => exact Draft.avoids_softMax (hops input (by simp [operands])) name axis
  | reshape input dims => exact Draft.avoids_reshape (hops input (by simp [operands])) name dims
  | save input => exact Draft.avoids_save (hops input (by simp [operands]))

/-- What is added for a constructor on operands that `g.Has` has a type. -/
theorem exists_resultType {c : Constructor} (hops : ∀ id ∈ c.operands, g.Has id) {name : String}
    {draft : Draft} (h : c.rule name g = .ok draft) :
    ∃ type, g.resultType draft.result = .ok type := by
  have hsound : draft.Sound g → ∃ type, g.resultType draft.result = .ok type := by
    rintro ⟨_, type, -, htype, -⟩
    exact ⟨type, htype⟩
  have hoperand : ∀ {input : NodeId} {node : Node}, g.Has input → g.node input = .ok node →
      g.HasType node.type := by
    intro input node hinput hnode
    obtain ⟨node', hnode', htype⟩ := hinput.node
    obtain rfl := Except.ok.inj (hnode.symm.trans hnode')
    exact htype
  cases c with
  | parameter tensor => cases h; exact ⟨_, rfl⟩
  | transpose input shuffle => exact hsound (Draft.sound_transpose h)
  | convolution input filter bias out window group => exact hsound (Draft.sound_convolution h)
  | pool kind input window => exact hsound (Draft.sound_pool h)
  | squeeze input axes => exact hsound (Draft.sound_squeeze h)
  | expandDims input axes => exact hsound (Draft.sound_expandDims h)
  | concat inputs axis => exact hsound (Draft.sound_concat h)
  | matMul lhs rhs => exact hsound (Draft.sound_matMul h)
  | broadcast input dims axis => exact hsound (Draft.sound_broadcast h)
  | arithmetic op lhs rhs =>
    simp only [rule, Draft.arithmetic, bind_eq_ok] at h
    obtain ⟨left, hleft, right, -, h⟩ := h
    split at h
    · cases h
      exact hoperand (hops lhs (by simp [operands])) hleft
    · simp only [bind_eq_ok] at h
      obtain ⟨_, _, _, _, h⟩ := h
      cases h
  | unary op input =>
    simp only [rule, Draft.unary, bind_eq_ok, pure_eq_ok] at h
    obtain ⟨node, hnode, rfl⟩ := h
    exact hoperand (hops input (by simp [operands])) hnode
  | softMax input axis => exact hsound (Draft.sound_softMax h)
  | reshape input dims => exact hsound (Draft.sound_reshape h)
  | save input =>
    simp only [rule, Draft.save, bind_eq_ok, pure_eq_ok] at h
    obtain ⟨node, hnode, rfl⟩ := h
    exact hoperand (hops input (by simp [operands])) hnode

end Constructor

theorem has_add {g : Graph} (hg : g.Indexed) (name : String) {draft : Draft} {type : ValueType}
    (h : g.resultType draft.result = .ok type) :
    (g.add name draft).2.Has ⟨g.nodes.length⟩ :=
  ⟨type, typeOf_add hg name draft h⟩

end Graph

/-! ### Steps on a graph -/

namespace Build

variable {expected room : Prop} {g h : Graph} {id : NodeId} {name : String}

theorem avoids_read {α : Type} {bad : GraphError → Prop} {query : Graph → Except GraphError α}
    (hquery : Avoids bad (query g)) : Step.Avoids bad (read query) g := by
  intro e t he
  unfold read at he
  cases hq : query g with
  | ok a => rw [hq] at he; cases he
  | error e' =>
    rw [hq] at he
    cases he
    exact hquery e hq

theorem avoids_create {bad : GraphError → Prop} {rule : Graph → Except GraphError Draft}
    (hrule : Avoids bad (rule g)) : Step.Avoids bad (create name rule) g := by
  intro e t he
  cases hr : rule g with
  | ok draft => rw [create_of_ok hr] at he; cases he
  | error e' =>
    rw [create_of_error hr] at he
    cases he
    exact hrule e hr

theorem has_of_create {c : Graph.Constructor} (hg : g.Indexed)
    (hops : ∀ id ∈ c.operands, g.Has id) (hok : create name (c.rule name) g = .ok id h) :
    h.Indexed ∧ g.Extends h ∧ h.Has id := by
  obtain ⟨draft, hdraft, rfl, rfl⟩ := create_eq_ok.1 hok
  obtain ⟨type, htype⟩ := Graph.Constructor.exists_resultType hops hdraft
  exact ⟨hg.add name draft, g.extends_add name draft, Graph.has_add hg name htype⟩

/-! ### Batch normalization -/

/-- Memory is needed for as many floats as there are `channels`. -/
theorem avoids_channelParameter {channels : Nat}
    (hroom : room → channels * ElementKind.float.width < Size.allocatable) (source : Tensor)
    (g : Graph) : Step.Avoids (Broken expected room) (channelParameter name channels source) g := by
  refine Step.Avoids.bind (avoids_read ?_) fun tensor _ _ => avoids_create (.pure _)
  refine .mapError fun e he hbroken => ?_
  cases hbroken with
  | capacity h =>
    rcases bind_eq_error.1 he with hzeros | ⟨zeros, -, hcopy⟩
    · rcases Tensor.eq_of_zeros_eq_error hzeros with hoverflow | ⟨-, hlarge⟩
      · cases hoverflow
      · exact absurd (hroom h) (Nat.not_lt.2 (by simpa using hlarge))
    · cases Tensor.eq_of_fitInto_eq_error hcopy

section BatchNormalization

variable {input : NodeId} {channel : Nat} {epsilon momentum : Binary32} {tensors : BatchParameters}

/-- Items that each only add nodes only make the graph grow. -/
theorem grows_mapM {α β : Type} {f : α → Build β} {items : List α} {results : List β}
    (hf : ∀ a, Step.MovesBy Adds (f a)) (hg : g.Indexed)
    (hok : items.mapM f g = .ok results h) : h.Indexed ∧ g.Extends h := by
  have hmoves : Step.MovesBy Adds (items.mapM f) := .mapM fun a _ => hf a
  rw [← Step.after_of_ok hok]
  exact ⟨indexed_of_movesBy hmoves hg, extends_of_movesBy hmoves g⟩

/-- A batch normalization on a node that is there needs memory for as many floats as there are
channels, and only for them may the program end in a fault (`Broken`). -/
theorem avoids_batchNormalization (hg : g.Indexed) (hinput : g.Reads expected input)
    (hroom : room → ∀ type channels, g.typeOf input = .ok type →
      type.dims[channel]? = some channels → channels * ElementKind.float.width < Size.allocatable) :
    Step.Avoids (Broken expected room)
      (batchNormalization name input channel epsilon momentum tensors) g := by
  refine Step.Avoids.bind (avoids_read (Draft.avoids_channelCount hinput name channel))
    fun channels r hr => ?_
  obtain ⟨hcount, rfl⟩ := read_eq_ok.1 hr
  -- the channel count was read, so the operand is there
  obtain ⟨type, htype, hchannels⟩ := bind_eq_ok.1 hcount
  have hfits := fun h => hroom h type channels htype (found_eq_ok.1 hchannels)
  refine Step.Avoids.bind (.mapM fun _ _ r => avoids_channelParameter hfits _ r) fun ids t ht => ?_
  have hhas : t.Has input :=
    Graph.Has.mono ⟨type, htype⟩ (grows_mapM (fun _ => movesBy_channelParameter _ _ _) hg ht).2
  exact avoids_create (Draft.avoids_batchNormalization hhas.reads channel epsilon momentum ids)

theorem has_of_batchNormalization (hg : g.Indexed) (hinput : g.Has input)
    (hok : batchNormalization name input channel epsilon momentum tensors g = .ok id h) :
    h.Indexed ∧ g.Extends h ∧ h.Has id := by
  unfold batchNormalization at hok
  simp only [Step.bind_eq_ok] at hok
  obtain ⟨channels, r, hr, ids, t, ht, hend⟩ := hok
  obtain ⟨-, rfl⟩ := read_eq_ok.1 hr
  obtain ⟨hindexed, hgrown⟩ := grows_mapM (fun _ => movesBy_channelParameter _ _ _) hg ht
  obtain ⟨draft, hdraft, rfl, rfl⟩ := create_eq_ok.1 hend
  simp only [Draft.batchNormalization, bind_eq_ok, pure_eq_ok] at hdraft
  obtain ⟨node, hnode, rfl⟩ := hdraft
  obtain ⟨node', hnode', type, htype⟩ := (hinput.mono hgrown).node
  obtain rfl := Except.ok.inj (hnode.symm.trans hnode')
  exact ⟨hindexed.add name _, hgrown.trans (t.extends_add name _),
    Graph.has_add hindexed name htype⟩

end BatchNormalization

end Build
end TensorGraph
