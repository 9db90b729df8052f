import TensorGraph.Proofs.Graph.Grouping
import TensorGraph.Proofs.Load.Atomic
import TensorGraph.Proofs.Load.Outputs
import TensorGraph.Proofs.Lowering.Convolution
import TensorGraph.Proofs.Lowering.Kinds

/-! # Grouped convolutions of a load

A load adds a convolution for a node of that operator only. The bias of what it adds is of floats,
and the result has the kind of the images, so such a convolution can be executed exactly when images
and filters are of floats as well and the groups divide the filters. Neither is checked. -/

namespace TensorGraph

open Onnx (NodeRecord floatCode)

/-! ### What is added -/

/-- The graph `h` is `g` with nodes added, in which every convolution has a bias of floats and a
result of the kind of its images. -/
structure Graph.Convolves (g h : Graph) : Prop where
  ext : g.Extends h
  types : ∀ place node, g.nodes.length ≤ place → h.nodes[place]? = some node →
    ∀ window group, node.kind = .convolution window group →
      ∃ t : ConvolutionTypes, t.Of h node ∧ t.bias.kind = .float ∧ t.result.kind = t.images.kind

/-- Whether nodes of a kind are no convolutions. -/
def NodeKind.Plain (kind : NodeKind) : Prop := ∀ window group, kind ≠ .convolution window group

/-- The other operators use no constructor of convolutions (`IsConvolution`). -/
theorem Graph.Constructor.UsedBy.plain {op : Operator} {c : Graph.Constructor} (h : c.UsedBy op)
    (hop : op ≠ .conv) : c.kind.Plain :=
  fun _ _ hkind => hop (h.eq_conv (isConvolution_of_kind hkind))

namespace Graph.Convolves

variable {g h k : Graph}

/-- Where only nodes of kinds that are `Plain` are added, no convolution is. -/
theorem of_addsOnly (hgh : g.AddsOnly NodeKind.Plain h) : g.Convolves h where
  ext := hgh.ext
  types place node hplace hnode window group hkind := by
    obtain ⟨more, hnodes, hplain⟩ := hgh.added
    rw [hnodes, List.getElem?_append_right hplace] at hnode
    exact absurd hkind (hplain node (List.mem_of_getElem? hnode) window group)

theorem refl (g : Graph) : g.Convolves g := of_addsOnly (.refl g)

theorem trans (hgk : g.Convolves k) (hkh : k.Convolves h) : g.Convolves h where
  ext := hgk.ext.trans hkh.ext
  types place node hplace hnode window group hkind := by
    rcases Nat.lt_or_ge place k.nodes.length with hlt | hge
    · -- The node was there already, and its types have not changed.
      have hold : k.nodes[place]? = some node := by
        obtain ⟨more, hmore⟩ := hkh.ext.nodes
        rwa [← hmore, List.getElem?_append_left hlt] at hnode
      obtain ⟨t, ht, hkinds⟩ := hgk.types place node hplace hold window group hkind
      exact ⟨t, ht.mono hkh.ext, hkinds⟩
    · exact hkh.types place node hge hnode window group hkind

end Graph.Convolves

/-! ### Nodes that are lowered -/

namespace Lowering

variable {s t : Workspace}

/-- The convolution among the five nodes that `convolution` adds has a bias of floats, and it makes
images of the kind that it reads. -/
theorem convolves_of_convolution {node : NodeRecord} (hs : s.graph.Reachable)
    (h : convolution node s = .ok () t) : s.graph.Convolves t.graph := by
  obtain ⟨c, u, filters, biases, hreads, hfreezes, hadds, hgraph⟩ := exists_convolution hs h
  have hstart : s.graph.Convolves c.start.graph := by
    have himages : Adding NodeKind.Plain (inputValue node 0) :=
      (movesBy_liftExcept _).bind fun name => adding_value (fun _ _ _ => nofun) name
    exact .of_addsOnly (himages.addsOnly_of_ok hreads.images)
  rw [hgraph]
  refine hstart.trans ?_
  obtain ⟨r₀, r₁, r₂, r₃, r₄, hadded⟩ := hadds.added
  -- The type of the fourth node is the type of its result.
  have htype : u.graph.resolve r₃ =
      .ok ⟨c.kind, [c.image.count, c.rows, c.columns, c.options.depth]⟩ := by
    obtain ⟨result, hresult, htype⟩ := Graph.typeOf_eq_ok.1 hadds.typeOf_result
    have hplace := found_eq_ok.1 hresult
    rw [hadded.nodes_eq] at hplace
    simp only [Convolution.added, List.getElem?_append_right, Nat.le_add_right,
      Nat.add_sub_cancel_left] at hplace
    cases hplace
    exact htype
  refine ⟨hadded.ext, fun place added hplace hnode window group hkind => ?_⟩
  rw [hadded.nodes_eq, List.getElem?_append_right hplace] at hnode
  have hmem := List.mem_of_getElem? hnode
  simp only [List.mem_cons, List.not_mem_nil, or_false] at hmem
  rcases hmem with rfl | rfl | rfl | rfl | rfl
  · cases hkind
  · cases hkind
  · cases hkind
  · let types : ConvolutionTypes := ⟨⟨c.kind, c.image.toList⟩, filters.type, biases.type,
      ⟨c.kind, [c.image.count, c.rows, c.columns, c.options.depth]⟩⟩
    refine ⟨types, ⟨?_, htype⟩, congrArg ValueType.kind hfreezes.biasType, rfl⟩
    exact .cons hadds.typeOf_channelLast (.cons hadds.typeOf_filters
      (.cons hadds.typeOf_biases .nil))
  · cases hkind

/-- Only the operator `Operator.conv` of convolutions adds one. -/
theorem convolves_of_lowerNode {opset : Int64} {node : NodeRecord} (hs : s.graph.Reachable)
    (h : lowerNode opset node s = .ok () t) : s.graph.Convolves t.graph := by
  obtain ⟨op, -, hstep⟩ := lowerNode_eq_ok.1 h
  by_cases hconv : op = .conv
  · subst hconv
    exact convolves_of_convolution hs hstep
  · have hplain : Adding NodeKind.Plain (step opset node op) :=
      adding_step (fun _ _ _ _ _ => nofun) (fun _ hused => hused.plain hconv) opset node
    exact .of_addsOnly (hplain.addsOnly_of_ok hstep)

/-- Binding the outputs by `bindResults` only adds nodes that save. -/
theorem convolves_of_bindResults {outputs : List Onnx.ValueRecord}
    {bound : List (String × NodeId)} (h : bindResults outputs s = .ok bound t) :
    s.graph.Convolves t.graph := by
  have hsave : Adding NodeKind.Plain (bindResults outputs) :=
    movesBy_bindResults (fun name id => adding_onGraph
      (Build.addsOnly_constructor name (c := .save id) fun _ _ => nofun)) outputs
  exact .of_addsOnly (hsave.addsOnly_of_ok h)

end Lowering

/-! ### Loads -/

section Load

variable {options : LoadOptions} {model : Description} {g h : Graph}

theorem ComesTo.convolves {place : Nat} {s : Workspace} (hg : g.Reachable)
    (hs : ComesTo options model g place s) : g.Convolves s.graph := by
  have hboth : s.graph.Reachable ∧ g.Convolves s.graph := by
    refine hs.induct (P := fun _ s => s.graph.Reachable ∧ g.Convolves s.graph) ?_ ?_
    · intro s hseed
      rw [(Lowering.fills_of_seed hseed).graph]
      exact ⟨hg, .refl g⟩
    · intro place node s t _ hl ⟨hreach, hgs⟩
      have hoperated := (Lowering.builds_lowerNode model.opsetVersion node).operated s
      rw [Step.after_of_ok hl.lowered] at hoperated
      exact ⟨hoperated.reachable hreach,
        hgs.trans (Lowering.convolves_of_lowerNode hreach hl.lowered)⟩
  exact hboth.2

/-- **A load adds convolutions of a known make** (`Graph.Convolves`). -/
theorem convolves_of_load_ok {loaded : Loaded} (hg : g.Reachable)
    (hload : load options model g = (.ok loaded, h)) : g.Convolves h := by
  obtain ⟨s, t, hs, hfinish, -, rfl⟩ := exists_finish_of_load hload
  refine (hs.comesTo.convolves hg).trans ?_
  unfold Lowering.finish at hfinish
  split at hfinish
  · exact Lowering.convolves_of_bindResults hfinish
  · obtain ⟨-, rfl⟩ := Step.pure_eq_ok.1 hfinish
    exact .refl _

end Load

/-! ### Sessions -/

/-- The graphs of a session, the present one first. All operations can be made and all models be
loaded; a rollback is to an earlier graph, and it keeps the types of the nodes that it keeps
(`Graph.KeepsTypes`). -/
inductive Session : List Graph → Prop
  | empty (name : String) : Session [.empty name]
  | operate {g : Graph} {past : List Graph} (h : Session (g :: past)) (op : Graph.Operation) :
      Session (op.run g :: g :: past)
  | rollback {g k : Graph} {past : List Graph} (h : Session (g :: past)) (hk : k ∈ g :: past)
      (hc : g.KeepsTypes k.checkpoint) : Session (g.rollback k.checkpoint :: g :: past)
  | load {g : Graph} {past : List Graph} (h : Session (g :: past)) (options : LoadOptions)
      (model : Description) : Session ((load options model g).2 :: g :: past)

namespace Graph

theorem Settled.operated {g h : Graph} (hg : g.Settled) (hgh : g.Operated h) : h.Settled := by
  induction hgh with
  | refl => exact hg
  | tail _ hlast ih =>
    obtain ⟨op, rfl⟩ := hlast
    exact ih.run op

end Graph

namespace Session

variable {g : Graph} {past : List Graph}

/-- A load makes its graph by operations or leaves the one there was, so all graphs are settled
(`Graph.Settled`). -/
theorem sound (h : Session past) : ∀ k ∈ past, k.Settled ∧ k.Reachable := by
  induction h with
  | empty name =>
    intro k hk
    obtain rfl := List.mem_singleton.1 hk
    exact ⟨.empty name, .empty name⟩
  | operate _ op ih =>
    obtain ⟨hsettled, hreach⟩ := ih _ List.mem_cons_self
    exact List.forall_mem_cons.2 ⟨⟨hsettled.run op, hreach.operate op⟩, ih⟩
  | @rollback g k past _ hk hc ih =>
    obtain ⟨hsettled, hreach⟩ := ih _ List.mem_cons_self
    exact List.forall_mem_cons.2 ⟨⟨hsettled.rollback hc, hreach.rollback k.checkpoint⟩, ih⟩
  | @load g past _ options model ih =>
    obtain ⟨hsettled, hreach⟩ := ih _ List.mem_cons_self
    refine List.forall_mem_cons.2 ⟨?_, ih⟩
    cases hload : TensorGraph.load options model g with
    | mk result k =>
      cases result with
      | ok loaded =>
        have hoperated := operated_of_load_ok hload
        exact ⟨hsettled.operated hoperated, hoperated.reachable hreach⟩
      | error e =>
        rw [graph_of_load_error hreach hload]
        exact ⟨hsettled, hreach⟩

/-- **In a session the shapes of all convolutions fit**, and a convolution is accepted exactly when
they do, its type included, and the padded images have sizes. A convolution that a load adds can be
executed (`ConvolutionTypes.Executable`) exactly when besides that the groups divide the filters,
images and filters are of floats, and the product of the filter channels and the groups is a
size. -/
theorem convolutions_fit (hg : Session (g :: past)) :
    (∀ node ∈ g.nodes, ∀ window group, node.kind = .convolution window group →
      ∃ (t : ConvolutionTypes) (image : ImageDims) (depth : Nat),
        t.Of g node ∧ t.Fits window group image depth) ∧
    (∀ name input filter bias out window group,
      (∃ draft, Draft.convolution g name input filter bias out window group = .ok draft) ↔
        ∃ (t : ConvolutionTypes) (image : ImageDims) (depth : Nat),
          t.Of g ⟨name, .convolution window group, [input, filter, bias], out⟩ ∧
          t.Fits window group image depth ∧
          image.height + window.pads.top + window.pads.bottom < Size.bound ∧
          image.width + window.pads.left + window.pads.right < Size.bound) ∧
    ∀ options model loaded h, TensorGraph.load options model g = (.ok loaded, h) →
      ∀ place node, g.nodes.length ≤ place → h.nodes[place]? = some node →
        ∀ window group, node.kind = .convolution window group →
          ∃ (t : ConvolutionTypes) (image : ImageDims) (depth : Nat),
            t.Of h node ∧ t.Fits window group image depth ∧
            (t.Executable window group image depth ↔
              group ∣ depth ∧ t.images.kind = .float ∧ t.filters.kind = .float ∧
                t.filters.dims.getD 3 0 * group < Size.bound) := by
  obtain ⟨hsettled, hreach⟩ := hg.sound g List.mem_cons_self
  refine ⟨fun node hnode window group => hsettled.valid.wellShaped.fits hnode,
    fun _ _ _ _ _ _ _ => Draft.exists_convolution_iff, ?_⟩
  intro options model loaded h hload place node hplace hnode window group hkind
  have hend := hsettled.operated (operated_of_load_ok hload)
  obtain ⟨t, image, depth, ht, hfits⟩ :=
    hend.valid.wellShaped.fits (List.mem_of_getElem? hnode) hkind
  obtain ⟨t', ht', hbias, hresult⟩ :=
    (convolves_of_load_ok hreach hload).types place node hplace hnode window group hkind
  obtain rfl := ht.unique ht'
  exact ⟨t, image, depth, ht, hfits, hfits.executable_iff hbias hresult⟩

end Session

/-! ### Groups of filters -/

/-- A model of a convolution in `group` groups, of images that have the given number of `channels`
and consist of single points. -/
def groupedModel (channels group : Int64) : Description where
  irVersion := 8
  opsetVersion := 13
  graph := {
    nodes := [{
      inputs := ["x", "w"]
      outputs := ["y"]
      opType := "Conv"
      attributes := [{ name := "group", int := group, type := 2 }] }]
    inputs := [{
      name := "x"
      type := some { tensorType := some {
        elementType := floatCode
        shape := some {
          dims := [1, channels, 1, 1].map fun size => { size := some (.fixed size) } } } } }] }

/-- A load of `groupedModel` into an empty graph, with `filters` that the caller lends. -/
def groupedLoad (filters : Tensor) (channels group : Int64) : Outcome :=
  load { lent := [("w", filters)] } (groupedModel channels group) (.empty "g")

/-- The window that covers a point. -/
def pointWindow : Window := ⟨1, 1, .zero⟩

/-- A load of `groupedModel` that succeeds adds its convolution behind four other nodes. -/
theorem exists_of_groupedLoad (filters : Tensor) (channels : Int64) (group : Nat)
    (t : ConvolutionTypes) (hok : (groupedLoad filters channels (.ofNat group)).1.isOk = true)
    (hnode : ∃ node ∈ (groupedLoad filters channels (.ofNat group)).2.nodes[4]?,
      node.kind = .convolution pointWindow group ∧
        t.Of (groupedLoad filters channels (.ofNat group)).2 node) :
    ∃ loaded h node, groupedLoad filters channels (.ofNat group) = (.ok loaded, h) ∧
      Session [h, .empty "g"] ∧ h.nodes[4]? = some node ∧
      node.kind = .convolution pointWindow group ∧ t.Of h node := by
  have hsession : Session [(groupedLoad filters channels (.ofNat group)).2, .empty "g"] :=
    (Session.empty "g").load _ _
  generalize groupedLoad filters channels (.ofNat group) = outcome at *
  obtain ⟨result, h⟩ := outcome
  cases result with
  | error e => cases hok
  | ok loaded =>
    obtain ⟨node, hplace, hkind, htypes⟩ := hnode
    exact ⟨loaded, h, node, rfl, hsession, hplace, hkind, htypes⟩

/-- Two filters of two channels. -/
def twoFilters : Tensor := .zero .float [2, 2, 1, 1]

/-- The types of the convolution by `twoFilters` of images with four channels. -/
def twoFilterTypes : ConvolutionTypes :=
  ⟨⟨.float, [1, 1, 1, 4]⟩, ⟨.float, [2, 1, 1, 2]⟩, ⟨.float, [2]⟩, ⟨.float, [1, 1, 1, 2]⟩⟩

/-- With a filter for each group the convolution can be executed (`ConvolutionTypes.Executable`). -/
theorem convolutions_fit_twoFilters : ∃ loaded h node image depth,
    groupedLoad twoFilters 4 2 = (.ok loaded, h) ∧ h.nodes[4]? = some node ∧
      node.kind = .convolution pointWindow 2 ∧ twoFilterTypes.Of h node ∧
      twoFilterTypes.Executable pointWindow 2 image depth := by
  obtain ⟨loaded, h, node, hload, -, hplace, hkind, htypes⟩ :=
    exists_of_groupedLoad twoFilters 4 2 twoFilterTypes (by decide +kernel) (by decide +kernel)
  obtain ⟨-, -, hfit⟩ := (Session.empty "g").convolutions_fit
  obtain ⟨t, image, depth, ht, hfits, hiff⟩ :=
    hfit _ _ loaded h hload 4 node (Nat.zero_le 4) hplace pointWindow 2 hkind
  obtain rfl := ht.unique htypes
  obtain ⟨channels, hdims, -⟩ := hfits.filters
  cases hdims
  exact ⟨loaded, h, node, image, 2, hload, hplace, hkind, htypes,
    hiff.2 ⟨by decide, rfl, rfl, by decide⟩⟩

/-- Three filters of one channel. -/
def threeFilters : Tensor := .zero .float [3, 1, 1, 1]

/-- The types of the convolution by `threeFilters` of images with two channels. -/
def threeFilterTypes : ConvolutionTypes :=
  ⟨⟨.float, [1, 1, 1, 2]⟩, ⟨.float, [3, 1, 1, 1]⟩, ⟨.float, [3]⟩, ⟨.float, [1, 1, 1, 3]⟩⟩

/-- A filter that consists of a whole number. -/
def wholeFilter : Tensor := ⟨[1, 1, 1, 1], .index #[5], rfl⟩

/-- The types of the convolution by `wholeFilter` of an image with one channel. -/
def wholeFilterTypes : ConvolutionTypes :=
  ⟨⟨.float, [1, 1, 1, 1]⟩, ⟨.index, [1, 1, 1, 1]⟩, ⟨.float, [1]⟩, ⟨.float, [1, 1, 1, 1]⟩⟩

/-- Filters of many channels, of which there is none. -/
def noFilters : Tensor := .zero .float [0, 4294967296, 1, 1]

/-- The types of the convolution by `noFilters` of images without channels. -/
def noFilterTypes : ConvolutionTypes :=
  ⟨⟨.float, [1, 1, 1, 0]⟩, ⟨.float, [0, 1, 1, 4294967296]⟩, ⟨.float, [0]⟩,
    ⟨.float, [1, 1, 1, 0]⟩⟩

/-- **Convolutions that cannot be executed are loaded**, of three filters in two groups, of a filter
of another kind than the image, and of filters whose channels times the groups are `Size.bound`,
with images that have no channels. -/
theorem not_executable_of_load :
    (∃ loaded h node, groupedLoad threeFilters 2 2 = (.ok loaded, h) ∧ Session [h, .empty "g"] ∧
      h.nodes[4]? = some node ∧ node.kind = .convolution pointWindow 2 ∧
      threeFilterTypes.Of h node ∧
      ∀ image depth, ¬ threeFilterTypes.Executable pointWindow 2 image depth) ∧
    (∃ loaded h node, groupedLoad wholeFilter 1 1 = (.ok loaded, h) ∧ Session [h, .empty "g"] ∧
      h.nodes[4]? = some node ∧ node.kind = .convolution pointWindow 1 ∧
      wholeFilterTypes.Of h node ∧
      ∀ image depth, ¬ wholeFilterTypes.Executable pointWindow 1 image depth) ∧
    ∃ loaded h node, groupedLoad noFilters 0 4294967296 = (.ok loaded, h) ∧
      Session [h, .empty "g"] ∧ h.nodes[4]? = some node ∧
      node.kind = .convolution pointWindow 4294967296 ∧ noFilterTypes.Of h node ∧
      ∀ image depth, ¬ noFilterTypes.Executable pointWindow 4294967296 image depth := by
  refine ⟨?_, ?_, ?_⟩
  · obtain ⟨loaded, h, node, hload, hsession, hplace, hkind, htypes⟩ :=
      exists_of_groupedLoad threeFilters 2 2 threeFilterTypes (by decide +kernel)
        (by decide +kernel)
    refine ⟨loaded, h, node, hload, hsession, hplace, hkind, htypes, fun image depth he => ?_⟩
    obtain ⟨channels, hdims, -⟩ := he.filters
    cases hdims
    exact absurd he.group_dvd (by decide)
  · obtain ⟨loaded, h, node, hload, hsession, hplace, hkind, htypes⟩ :=
      exists_of_groupedLoad wholeFilter 1 1 wholeFilterTypes (by decide +kernel)
        (by decide +kernel)
    refine ⟨loaded, h, node, hload, hsession, hplace, hkind, htypes, fun image depth he => ?_⟩
    cases he.filters_kind
  · obtain ⟨loaded, h, node, hload, hsession, hplace, hkind, htypes⟩ :=
      exists_of_groupedLoad noFilters 0 4294967296 noFilterTypes (by decide +kernel)
        (by decide +kernel)
    refine ⟨loaded, h, node, hload, hsession, hplace, hkind, htypes, fun image depth he => ?_⟩
    exact absurd (he.toFits.filter_channels_iff.1 he.filter_channels) (by decide)

end TensorGraph
