import TensorGraph.Proofs.Lowering.Axis
import TensorGraph.Proofs.Lowering.Convolution

/-! # Global pooling

A pooling takes the whole image when its operator says so, or when a flag among its attributes
does. In the second case the size of the kernel is not looked at. Both kinds of nodes are pooled by
the same window, which fits images that are as high as they are wide and leaves one pixel of each;
what they add differs at most in what is taken from the window. -/

namespace TensorGraph

open Onnx (NodeRecord)

/-- Neither the nodes that are there nor the kind of a new one have a part in its type, which
`Graph.add` gives. -/
theorem Graph.add_with (g : Graph) (nodes : List Node) (name : String) (kind kind' : NodeKind)
    (operands : List NodeId) (result : ResultType) :
    ({ g with nodes }.add name ⟨kind', operands, result⟩).2 =
      { (g.add name ⟨kind, operands, result⟩).2 with
        nodes := nodes ++ [⟨name, kind', operands, g.refOf result⟩] } := by
  cases result with
  | ofRef ref => rfl
  | ofType type =>
    simp only [add, intern, refOf]
    cases g.refs.get? type <;> rfl

/-! ### The window over the whole image -/

theorem Window.outputSize?_whole {extent rows columns : Nat} :
    (Window.mk extent 1 .zero).outputSize? extent extent = some (rows, columns) ↔
      (0 < extent ∧ extent < Size.bound) ∧ rows = 1 ∧ columns = 1 := by
  rw [Window.outputSize?_eq_some]
  constructor
  · rintro ⟨h, hheight, -⟩
    have hrows := h.rows
    have hcolumns := h.columns
    simp only [Pads.zero, Nat.add_zero, Nat.sub_self, Nat.zero_div, Nat.zero_add]
      at hrows hcolumns hheight
    exact ⟨⟨h.kernel, hheight⟩, hrows, hcolumns⟩
  · rintro ⟨⟨hpos, hbound⟩, rfl, rfl⟩
    refine ⟨⟨Nat.one_pos, hpos, Nat.le_refl _, Nat.le_refl _, ?_, ?_⟩, hbound, hbound⟩
    · simp [Pads.zero]
    · simp [Pads.zero]

theorem globalWindow_eq_ok {dims : List Nat} {window : Window} :
    globalWindow dims = .ok window ↔ ∃ count extent channels,
      dims = [count, extent, extent, channels] ∧ window = ⟨extent, 1, .zero⟩ := by
  unfold globalWindow
  simp only [bind_eq_ok, pure_eq_ok]
  constructor
  · rintro ⟨extent, hextent, rfl⟩
    unfold squareExtent at hextent
    split at hextent
    · next count height width channels =>
      simp only [bind_eq_ok, check_eq_ok, pure_eq_ok] at hextent
      obtain ⟨-, rfl, rfl⟩ := hextent
      exact ⟨count, height, channels, rfl, rfl⟩
    · cases hextent
  · rintro ⟨count, extent, channels, rfl, rfl⟩
    refine ⟨extent, ?_, rfl⟩
    simp only [squareExtent, bind_eq_ok, check_eq_ok, pure_eq_ok]
    exact ⟨(), trivial, trivial⟩

/-- The attributes ask for pooling over the whole image, in single steps and without padding. They
may say anything about `kernel_shape`. -/
structure Onnx.Attributes.Global (attrs : Onnx.Attributes) : Prop where
  flag : ∃ flag, attrs.int "global_pooling" = .ok flag ∧ flag ≠ 0
  strides : attrs.get? "strides" = none
  pads : attrs.get? "pads" = none
  autoPad : attrs.get? "auto_pad" = none

/-- Attributes that are `Global` stand for the window over the whole image, whatever they say of the
kernel. -/
theorem poolWindow_eq {attrs : Onnx.Attributes} (h : attrs.Global) (dims : List Nat) :
    poolWindow attrs dims = globalWindow dims := by
  obtain ⟨flag, hflag, hnonzero⟩ := h.flag
  have hread : attrs.intOr "global_pooling" 0 = .ok flag := by
    rw [Onnx.Attributes.intOr, Onnx.Attributes.contains_of_int hflag, if_pos rfl, hflag]
  have hstride : strideOf attrs = .ok 1 := by
    rw [strideOf, Onnx.Attributes.ints?_of_missing h.strides]
    rfl
  have hpads : padsOf attrs = .ok .zero := by
    have hmissing : attrs.contains "auto_pad" = false := by
      rw [Onnx.Attributes.contains, h.autoPad, Option.isSome_none]
    simp only [padsOf, Onnx.Attributes.ints?_of_missing h.pads, hmissing]
    rfl
  simp only [poolWindow, globalWindow, hread, hstride, hpads]
  -- The flag is set, so that the kernel is the extent of the images.
  exact (if_pos hnonzero).trans rfl

namespace Lowering

variable {s r t : Workspace} {node : NodeRecord} {kind kind' : PoolKind} {opset : Int64}

/-- The node pools over the whole image, by its operator or by attributes that are `Global`. -/
inductive PoolsGlobally (node : NodeRecord) : PoolKind → Prop
  | operator (h : node.operator? = some .globalAveragePool) : PoolsGlobally node .average
  | average (h : node.operator? = some .averagePool) (hattrs : node.view.Global) :
    PoolsGlobally node .average
  | max (h : node.operator? = some .maxPool) (hattrs : node.view.Global) : PoolsGlobally node .max

theorem lower_eq_ok_of_pools (h : PoolsGlobally node kind) :
    lower opset node s = .ok true t ↔ poolWith node kind globalWindow s = .ok () t := by
  cases h with
  | operator h => exact lower_eq_ok_true h
  | average h hattrs =>
    rw [← funext (poolWindow_eq hattrs)]
    exact lower_eq_ok_true h
  | max h hattrs =>
    rw [← funext (poolWindow_eq hattrs)]
    exact lower_eq_ok_true h

/-! ### What is added -/

/-- A batch of images that are as high as they are wide. -/
structure Squares where
  elements : ElementKind
  count : Nat
  channels : Nat
  extent : Nat

namespace Squares

variable (q : Squares) (node : NodeRecord) (kind : PoolKind) (g : Graph) (input : NodeId)

def type : ValueType := ⟨q.elements, [q.count, q.channels, q.extent, q.extent]⟩

/-- One pixel for each image and channel. -/
def pooled : ValueType := ⟨q.elements, [q.count, q.channels, 1, 1]⟩

/-- The images laid out channel-last. -/
def images : Graph :=
  (g.add (node.part "input_nhwc") {
    kind := .transpose toChannelLast
    operands := [input]
    result := .ofType ⟨q.elements, [q.count, q.extent, q.extent, q.channels]⟩ }).2

/-- The pooling of images that stand behind the nodes of a graph (`images`). -/
def poolDraft : Draft where
  kind := .pool kind ⟨q.extent, 1, .zero⟩
  operands := [⟨g.nodes.length⟩]
  result := .ofType ⟨q.elements, [q.count, 1, 1, q.channels]⟩

/-- Their pooling over the whole image. -/
def pool : Graph := ((q.images node g input).add node.title (q.poolDraft kind g)).2

/-- The pooling laid out channel-first. -/
def result : Graph :=
  ((q.pool node kind g input).add (node.part "output_nchw") {
    kind := .transpose toChannelFirst
    operands := [⟨g.nodes.length + 1⟩]
    result := .ofType q.pooled }).2

/-! Each of the three nodes stands behind those before it and has the type of its draft. -/

variable {q node kind g input}

theorem length_images : (q.images node g input).nodes.length = g.nodes.length + 1 := by
  rw [images, Graph.nodes_add, List.length_append, List.length_singleton]

theorem length_pool : (q.pool node kind g input).nodes.length = g.nodes.length + 2 := by
  rw [pool, Graph.nodes_add, List.length_append, List.length_singleton, length_images]

theorem indexed_images (hg : g.Indexed) : (q.images node g input).Indexed := hg.add _ _

theorem indexed_pool (hg : g.Indexed) : (q.pool node kind g input).Indexed :=
  (indexed_images hg).add _ _

theorem typeOf_images (hg : g.Indexed) : (q.images node g input).typeOf ⟨g.nodes.length⟩ =
    .ok ⟨q.elements, [q.count, q.extent, q.extent, q.channels]⟩ :=
  Graph.typeOf_add hg _ _ rfl

theorem typeOf_pool (hg : g.Indexed) : (q.pool node kind g input).typeOf ⟨g.nodes.length + 1⟩ =
    .ok ⟨q.elements, [q.count, 1, 1, q.channels]⟩ := by
  have himages : (q.images node g input).Indexed := indexed_images hg
  have htype := Graph.typeOf_add himages node.title (q.poolDraft kind g) rfl
  rwa [length_images] at htype

theorem typeOf_result (hg : g.Indexed) :
    (q.result node kind g input).typeOf ⟨g.nodes.length + 2⟩ = .ok q.pooled := by
  have hpool : (q.pool node kind g input).Indexed := indexed_pool hg
  have htype := Graph.typeOf_add hpool (node.part "output_nchw") {
      kind := .transpose toChannelFirst
      operands := [⟨g.nodes.length + 1⟩]
      result := .ofType q.pooled } rfl
  rwa [length_pool] at htype

end Squares

section Steps

variable {q : Squares} {input id : NodeId}

/-- The images are laid out channel-last (`images`), and are then found to be as high as they are
wide. -/
theorem images_eq_ok (hr : r.graph.Indexed) {window : Window} :
    (∃ dims, (liftM (Build.transpose (node.part "input_nhwc") input toChannelLast) :
        Lowering NodeId) r = .ok id t ∧ t.graph.dims id = .ok dims ∧
        globalWindow dims = .ok window) ↔
      ∃ q : Squares, r.graph.typeOf input = .ok q.type ∧ window = ⟨q.extent, 1, .zero⟩ ∧
        id = ⟨r.graph.nodes.length⟩ ∧ t = { r with graph := q.images node r.graph input } := by
  simp only [Build.transpose, create_eq_ok, Draft.transpose_eq_ok, globalWindow_eq_ok]
  constructor
  · rintro ⟨dims, ⟨_, ⟨type, htype, hperm, rfl⟩, rfl, rfl⟩, hdims, count, extent, channels, rfl,
      rfl⟩
    obtain ⟨elements, hlast⟩ := Graph.dims_eq_ok.1 hdims
    have hsame := Graph.eq_of_typeOf (Graph.typeOf_add hr _ _ rfl) hlast
    obtain ⟨kind, dims⟩ := type
    obtain ⟨rfl, hshape⟩ := ValueType.mk.inj hsame
    have hlayout : permuteDims dims toChannelLast =
        ImageDims.toList ⟨count, extent, extent, channels⟩ := hshape
    obtain rfl := dims_of_toChannelLast (isPermutation_eq_true.1 hperm).1.symm hlayout
    exact ⟨⟨kind, count, channels, extent⟩, htype, rfl, rfl, rfl⟩
  · rintro ⟨q, htype, rfl, rfl, rfl⟩
    have hperm : isPermutation toChannelLast 4 = true := by decide
    exact ⟨_, ⟨_, ⟨q.type, htype, hperm, rfl⟩, rfl, rfl⟩,
      Graph.dims_eq_ok.2 ⟨_, Squares.typeOf_images hr⟩, q.count, q.extent, q.channels, rfl, rfl⟩

theorem pool_eq_ok (hr : r.graph.Indexed) :
    (liftM (Build.pool node.title kind ⟨r.graph.nodes.length⟩ ⟨q.extent, 1, .zero⟩) :
        Lowering NodeId) { r with graph := q.images node r.graph input } = .ok id t ↔
      (0 < q.extent ∧ q.extent < Size.bound) ∧ id = ⟨r.graph.nodes.length + 1⟩ ∧
        t = { r with graph := q.pool node kind r.graph input } := by
  have htype : (q.images node r.graph input).typeOf ⟨r.graph.nodes.length⟩ = _ :=
    Squares.typeOf_images hr
  simp only [Build.pool, create_eq_ok, Draft.pool_eq_ok, Squares.length_images]
  constructor
  · rintro ⟨_, ⟨elements, image, rows, columns, himage, hsize, rfl⟩, rfl, rfl⟩
    obtain ⟨rfl, hdims⟩ := ValueType.mk.inj (Graph.eq_of_typeOf htype himage)
    obtain rfl : image = ⟨q.count, q.extent, q.extent, q.channels⟩ := by
      obtain ⟨count, height, width, channels⟩ := image
      cases hdims
      rfl
    obtain ⟨hextent, rfl, rfl⟩ := Window.outputSize?_whole.1 hsize
    exact ⟨hextent, rfl, rfl⟩
  · rintro ⟨hextent, rfl, rfl⟩
    exact ⟨_, ⟨q.elements, ⟨q.count, q.extent, q.extent, q.channels⟩, 1, 1, htype,
      Window.outputSize?_whole.2 ⟨hextent, rfl, rfl⟩, rfl⟩, rfl, rfl⟩

theorem result_eq_ok (hr : r.graph.Indexed) :
    (liftM (Build.transpose (node.part "output_nchw") ⟨r.graph.nodes.length + 1⟩ toChannelFirst) :
        Lowering NodeId) { r with graph := q.pool node kind r.graph input } = .ok id t ↔
      id = ⟨r.graph.nodes.length + 2⟩ ∧
        t = { r with graph := q.result node kind r.graph input } := by
  have htype : (q.pool node kind r.graph input).typeOf ⟨r.graph.nodes.length + 1⟩ = _ :=
    Squares.typeOf_pool hr
  simp only [Build.transpose, create_eq_ok, Draft.transpose_eq_ok, Squares.length_pool]
  constructor
  · rintro ⟨_, ⟨type, hlast, -, rfl⟩, rfl, rfl⟩
    obtain rfl := Graph.eq_of_typeOf htype hlast
    exact ⟨rfl, rfl⟩
  · rintro ⟨rfl, rfl⟩
    have hperm : isPermutation toChannelFirst 4 = true := by decide
    exact ⟨_, ⟨_, htype, hperm, rfl⟩, rfl, rfl⟩

end Steps

/-- The images that a node pools, from the workspace `s` on: `r` is the workspace in which they have
a value. -/
structure Pools (node : NodeRecord) (s r : Workspace) (input : NodeId) (q : Squares)
    (output : String) : Prop where
  resolved : inputValue node 0 s = .ok input r
  type : r.graph.typeOf input = .ok q.type
  pos : 0 < q.extent
  size : q.extent < Size.bound
  output : node.output = .ok output

namespace Pools

variable {input input' : NodeId} {q q' : Squares} {output output' : String} {r' : Workspace}

theorem hasShape (h : Pools node s r input q output) : ∃ name, node.input? 0 = some name ∧
    s.HasShape name [q.count, q.channels, q.extent, q.extent] := by
  obtain ⟨name, hname, hvalue⟩ := inputValue_eq_ok.1 h.resolved
  exact ⟨name, hname, input, r, hvalue, Graph.dims_eq_ok.2 ⟨q.elements, h.type⟩⟩

theorem unique (h : Pools node s r input q output) (h' : Pools node s r' input' q' output') :
    r' = r ∧ input' = input ∧ q' = q ∧ output' = output := by
  obtain ⟨rfl, rfl⟩ : input' = input ∧ r' = r := by
    have hresolved := h'.resolved
    rw [h.resolved] at hresolved
    cases hresolved
    exact ⟨rfl, rfl⟩
  have hsame := Graph.eq_of_typeOf h.type h'.type
  obtain ⟨elements, count, channels, extent⟩ := q
  obtain ⟨elements', count', channels', extent'⟩ := q'
  cases hsame
  exact ⟨rfl, rfl, rfl, Except.ok.inj (h'.output.symm.trans h.output)⟩

end Pools

/-- **When images are pooled globally** by `poolWith`, and by which nodes (`Pools`). -/
theorem poolWith_eq_ok (hs : s.graph.Indexed) :
    poolWith node kind globalWindow s = .ok () t ↔ ∃ r input q output,
      Pools node s r input q output ∧ t = {
        graph := q.result node kind r.graph input
        table := r.table.bind output ⟨r.graph.nodes.length + 2⟩ } := by
  unfold poolWith
  constructor
  · intro h
    obtain ⟨input, r, hinput, h₁⟩ := Step.bind_eq_ok.1 h
    obtain ⟨images, u, himages, h₂⟩ := Step.bind_eq_ok.1 h₁
    obtain ⟨dims, _, hdims, h₃⟩ := Step.bind_eq_ok.1 h₂
    obtain ⟨window, _, hwindow, h₄⟩ := Step.bind_eq_ok.1 h₃
    obtain ⟨pooled, v, hpooled, h₅⟩ := Step.bind_eq_ok.1 h₄
    obtain ⟨result, w, hresult, h₆⟩ := Step.bind_eq_ok.1 h₅
    obtain ⟨hshape, rfl⟩ := dims_eq_ok.1 hdims
    obtain ⟨hglobal, rfl⟩ := lift_eq_ok.1 hwindow
    have hr := indexed_of_inputValue hs hinput
    obtain ⟨q, htype, rfl, rfl, rfl⟩ := (images_eq_ok hr).1 ⟨dims, himages, hshape, hglobal⟩
    obtain ⟨⟨hpos, hsize⟩, rfl, rfl⟩ := (pool_eq_ok hr).1 hpooled
    obtain ⟨rfl, rfl⟩ := (result_eq_ok hr).1 hresult
    obtain ⟨output, houtput, rfl⟩ := bindOutput_eq_ok.1 h₆
    exact ⟨r, input, q, output, ⟨hinput, htype, hpos, hsize, houtput⟩, rfl⟩
  · rintro ⟨r, input, q, output, h, rfl⟩
    have hr := indexed_of_inputValue hs h.resolved
    obtain ⟨dims, himages, hdims, hwindow⟩ := (images_eq_ok hr).2 ⟨q, h.type, rfl, rfl, rfl⟩
    rw [Step.bind_of_ok h.resolved, Step.bind_of_ok himages,
      Step.bind_of_ok (dims_eq_ok.2 ⟨hdims, rfl⟩), Step.bind_of_ok (lift_eq_ok.2 ⟨hwindow, rfl⟩),
      Step.bind_of_ok ((pool_eq_ok hr).2 ⟨⟨h.pos, h.size⟩, rfl, rfl⟩),
      Step.bind_of_ok ((result_eq_ok hr).2 ⟨rfl, rfl⟩)]
    exact bindOutput_eq_ok.2 ⟨output, h.output, rfl⟩

/-! ### Two kinds of pooling -/

/-- The graphs differ in what one node, which was added after `added` others, takes from its
window. -/
def Repooled (added : Nat) (title : String) (kind kind' : PoolKind) (g h : Graph) : Prop :=
  ∃ before after window operands ref, added ≤ before.length ∧
    g.nodes = before ++ ⟨title, .pool kind window, operands, ref⟩ :: after ∧
    h = { g with nodes := before ++ ⟨title, .pool kind' window, operands, ref⟩ :: after }

theorem Repooled.mono {fewer added : Nat} {title : String} {g h : Graph}
    (hgh : Repooled added title kind kind' g h) (hle : fewer ≤ added) :
    Repooled fewer title kind kind' g h := by
  obtain ⟨before, after, window, operands, ref, hbefore, hnodes⟩ := hgh
  exact ⟨before, after, window, operands, ref, hle.trans hbefore, hnodes⟩

theorem repooled_result (q : Squares) (node : NodeRecord) (kind kind' : PoolKind) (g : Graph)
    (input : NodeId) : Repooled g.nodes.length node.title kind kind' (q.result node kind g input)
      (q.result node kind' g input) := by
  let images := q.images node g input
  let ref := images.refOf (q.poolDraft kind g).result
  have hpool : q.pool node kind' g input = { q.pool node kind g input with
      nodes := images.nodes ++
        [⟨node.title, .pool kind' ⟨q.extent, 1, .zero⟩, [⟨g.nodes.length⟩], ref⟩] } :=
    Graph.add_with images images.nodes node.title _ _ _ _
  let last : Node := ⟨node.part "output_nchw", .transpose toChannelFirst, [⟨g.nodes.length + 1⟩],
    (q.pool node kind g input).refOf (.ofType q.pooled)⟩
  refine ⟨images.nodes, [last], ⟨q.extent, 1, .zero⟩, [⟨g.nodes.length⟩], ref, ?_, ?_, ?_⟩
  · rw [Squares.length_images]
    exact Nat.le_succ _
  · rw [Squares.result, Graph.nodes_add, Squares.pool, Graph.nodes_add, List.append_assoc]
    rfl
  · rw [Squares.result, hpool, Graph.add_with _ _ _ (.transpose toChannelFirst),
      List.append_assoc]
    rfl

/-- Two nodes with the same name, inputs and outputs. -/
structure SameCall (node other : NodeRecord) : Prop where
  name : other.name = node.name
  inputs : other.inputs = node.inputs
  outputs : other.outputs = node.outputs

namespace SameCall

variable {other : NodeRecord} (h : SameCall node other)

include h

theorem symm : SameCall other node := ⟨h.name.symm, h.inputs.symm, h.outputs.symm⟩

theorem title_eq : other.title = node.title := NodeRecord.title_congr h.name h.outputs

theorem part_eq (suffix : String) : other.part suffix = node.part suffix := by
  rw [NodeRecord.part, NodeRecord.part, h.title_eq]

theorem result_eq (q : Squares) (g : Graph) (input : NodeId) :
    q.result other kind g input = q.result node kind g input := by
  simp only [Squares.result, Squares.pool, Squares.images, h.title_eq, h.part_eq]

/-- Both nodes pool the same images (`Pools`); only their errors could tell the operators apart. -/
theorem pools {input : NodeId} {q : Squares} {output : String}
    (hnode : Pools node s r input q output) : Pools other s r input q output where
  resolved := by
    obtain ⟨name, hname, hvalue⟩ := inputValue_eq_ok.1 hnode.resolved
    rw [NodeRecord.input?, ← h.inputs] at hname
    exact inputValue_eq_ok.2 ⟨name, hname, hvalue⟩
  type := hnode.type
  pos := hnode.pos
  size := hnode.size
  output := by
    have houtput := hnode.output
    rw [NodeRecord.output, found_eq_ok, ← h.outputs] at houtput
    rwa [NodeRecord.output, found_eq_ok]

end SameCall

/-- **All ways to pool globally agree.** A node pools globally (`PoolsGlobally`) exactly when the
value of its first input has the shape of images that are as high as they are wide, by a positive
size, and when it has an output. The output then stands for one pixel of each image and channel.
Another node with the same name, inputs and outputs (`SameCall`) is lowered from the same workspaces
on, and ends in the same one if it pools the same way; otherwise one of the nodes that were added
differs, in what it takes from its window (`Repooled`). -/
theorem global_pooling (opset : Int64) (hg : s.graph.Reachable) (hnode : PoolsGlobally node kind) :
    ((∃ t, lower opset node s = .ok true t) ↔
      (∃ name count channels extent, node.input? 0 = some name ∧
        s.HasShape name [count, channels, extent, extent] ∧ 1 ≤ extent ∧ extent < Size.bound) ∧
      ∃ output, node.output = .ok output) ∧
    (∀ t name count channels extent, lower opset node s = .ok true t →
      node.input? 0 = some name → s.HasShape name [count, channels, extent, extent] →
      ∃ output id, node.output = .ok output ∧ t.table.value? output = some id ∧
        t.graph.dims id = .ok [count, channels, 1, 1]) ∧
    ∀ other kind', PoolsGlobally other kind' → SameCall node other →
      ((∃ t, lower opset other s = .ok true t) ↔ ∃ t, lower opset node s = .ok true t) ∧
      ∀ t t', lower opset node s = .ok true t → lower opset other s = .ok true t' →
        (kind' = kind → t' = t) ∧ t'.table = t.table ∧
        Repooled s.graph.nodes.length node.title kind kind' t.graph t'.graph := by
  have hs := hg.indexed
  simp only [lower_eq_ok_of_pools hnode, poolWith_eq_ok hs]
  refine ⟨⟨?_, ?_⟩, ?_, fun other kind' hother hsame => ?_⟩
  · rintro ⟨t, r, input, q, output, h, rfl⟩
    obtain ⟨name, hname, hshape⟩ := h.hasShape
    exact ⟨⟨name, _, _, _, hname, hshape, h.pos, h.size⟩, output, h.output⟩
  · rintro ⟨⟨name, count, channels, extent, hname, ⟨id, r, hvalue, hdims⟩, hpos, hsize⟩, output,
      houtput⟩
    obtain ⟨elements, htype⟩ := Graph.dims_eq_ok.1 hdims
    have hresolved := inputValue_eq_ok.2 ⟨name, hname, hvalue⟩
    exact ⟨_, r, id, ⟨elements, count, channels, extent⟩, output,
      ⟨hresolved, htype, hpos, hsize, houtput⟩, rfl⟩
  · rintro t name count channels extent ⟨r, input, q, output, h, rfl⟩ hname hshape
    obtain ⟨_, hname', hvalue⟩ := inputValue_eq_ok.1 h.resolved
    obtain rfl := Option.some.inj (hname.symm.trans hname')
    have hfound := Graph.dims_eq_ok.2 ⟨_, h.type⟩
    have hsame := shape_of_value hshape hvalue (.refl _) hfound
    cases hsame
    have hr := indexed_of_inputValue hs h.resolved
    exact ⟨output, ⟨r.graph.nodes.length + 2⟩, h.output, by rw [Table.value?_bind, if_pos rfl],
      Graph.dims_eq_ok.2 ⟨_, Squares.typeOf_result hr⟩⟩
  · simp only [lower_eq_ok_of_pools hother, poolWith_eq_ok hs]
    refine ⟨⟨?_, ?_⟩, ?_⟩
    · rintro ⟨t, r, input, q, output, h, -⟩
      exact ⟨_, r, input, q, output, hsame.symm.pools h, rfl⟩
    · rintro ⟨t, r, input, q, output, h, -⟩
      exact ⟨_, r, input, q, output, hsame.pools h, rfl⟩
    · rintro t t' ⟨r, input, q, output, h, rfl⟩ ⟨r', input', q', output', h', rfl⟩
      obtain ⟨rfl, rfl, rfl, rfl⟩ := (hsame.pools h).unique h'
      obtain ⟨_, -, hvalue⟩ := inputValue_eq_ok.1 h.resolved
      simp only [hsame.result_eq]
      refine ⟨by rintro rfl; rfl, trivial, ?_⟩
      exact (repooled_result _ node kind kind' _ _).mono (extends_of_value hvalue).nodes.length_le

/-- A batch of two square images with three channels. -/
def squaresStart : Workspace where
  graph := .empty "g"
  table := Table.lendAll {} [("x", ⟨[2, 3, 4, 4], .zeros .float 96, rfl⟩)]

/-- A pooling over the whole image by its operator. -/
def wholeNode : NodeRecord :=
  { inputs := ["x"], outputs := ["y"], opType := "GlobalAveragePool" }

/-- A pooling over the whole image by a flag. What stands for the kernel is not even a list. -/
def flaggedNode : NodeRecord :=
  { inputs := ["x"], outputs := ["y"], opType := "MaxPool",
    attributes := [{ name := "global_pooling", type := 2, int := 1 },
      { name := "kernel_shape", type := 3 }] }

/-- Both nodes, `wholeNode` and `flaggedNode`, are lowered, and one added node differs. -/
theorem global_pooling_squares : ∃ t t', lower 7 wholeNode squaresStart = .ok true t ∧
    lower 7 flaggedNode squaresStart = .ok true t' ∧
    Repooled 0 "y" .average .max t.graph t'.graph := by
  have hflagged : PoolsGlobally flaggedNode .max := .max rfl ⟨⟨1, rfl, by decide⟩, rfl, rfl, rfl⟩
  have hwhole : PoolsGlobally wholeNode .average := .operator rfl
  have hg : squaresStart.graph.Reachable := .empty "g"
  obtain ⟨hmakes, -, hagrees⟩ := global_pooling 7 hg hwhole
  obtain ⟨t, ht⟩ := hmakes.2 ⟨⟨"x", 2, 3, 4, rfl, ⟨_, _, rfl, rfl⟩, by decide, by decide⟩, "y", rfl⟩
  obtain ⟨hboth, hends⟩ := hagrees flaggedNode .max hflagged ⟨rfl, rfl, rfl⟩
  obtain ⟨t', ht'⟩ := hboth.2 ⟨t, ht⟩
  exact ⟨t, t', ht, ht', (hends t t' ht ht').2.2⟩

end Lowering
end TensorGraph
