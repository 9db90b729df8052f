import TensorGraph.Proofs.Graph.History
import TensorGraph.Proofs.Graph.Kinds

/-! # Grouped convolutions

A convolution in groups can be executed when the groups divide the channels of the images as well as
the filters, each filter has the channels of one group, and all elements are of one kind
(`ConvolutionTypes.Executable`). The rule for convolutions checks the shapes only, and compares the
channels of all groups with those of the images modulo `Size.bound` (`ConvolutionTypes.Fits`). It
lets groups pass that do not divide the filters, any kinds of elements, and filters whose channels
times the groups are no size (`Draft.exists_convolution_iff`). The constructor of convolutions is
the only one that makes them (`Constructor.isConvolution_of_kind`). -/

namespace TensorGraph

/-! ### The types of a convolution -/

/-- The types of the operands of a convolution and of its result. -/
structure ConvolutionTypes where
  images : ValueType
  filters : ValueType
  bias : ValueType
  result : ValueType

namespace ConvolutionTypes

variable (t : ConvolutionTypes)

/-- The operands and the result of `node` have these types. -/
structure Of (g : Graph) (node : Node) : Prop where
  operands : List.Forall₂ (fun id type => g.typeOf id = .ok type) node.operands
    [t.images, t.filters, t.bias]
  result : g.resolve node.type = .ok t.result

instance (g : Graph) (node : Node) : Decidable (t.Of g node) :=
  decidable_of_iff (List.Forall₂ (fun id type => g.typeOf id = .ok type) node.operands
      [t.images, t.filters, t.bias] ∧ g.resolve node.type = .ok t.result)
    ⟨fun h => ⟨h.1, h.2⟩, fun h => ⟨h.operands, h.result⟩⟩

/-- The shapes fit: the groups divide the channels of the images, the filters of all groups have
these channels modulo `Size.bound`, there is a bias for each filter, and the result has a placement
of the window for each row and column. -/
structure Fits (window : Window) (group : Nat) (image : ImageDims) (depth : Nat) : Prop where
  pos : 0 < group
  dvd : group ∣ image.channels
  images : t.images.dims = image.toList
  filters : ∃ channels, t.filters.dims = [depth, window.kernel, window.kernel, channels] ∧
    channels * group % Size.bound = image.channels
  bias : t.bias.dims = [depth]
  result : ∃ rows columns, t.result.dims = [image.count, rows, columns, depth] ∧
    window.Covers image.height image.width rows columns

/-- The groups divide the filters too, each filter has the channels of one group, and all elements
are of one kind. -/
structure Executable (window : Window) (group : Nat) (image : ImageDims) (depth : Nat) : Prop
    extends t.Fits window group image depth where
  group_dvd : group ∣ depth
  filter_channels : ∃ channels, t.filters.dims = [depth, window.kernel, window.kernel, channels] ∧
    channels * group = image.channels
  filters_kind : t.filters.kind = t.images.kind
  bias_kind : t.bias.kind = t.images.kind
  result_kind : t.result.kind = t.images.kind

variable {t} {g h : Graph} {node : Node} {window : Window} {group depth : Nat} {image : ImageDims}

theorem Of.mono (ht : t.Of g node) (hgh : g.Extends h) : t.Of h node where
  operands := ht.operands.imp fun _ _ h => hgh.typeOf_eq h
  result := hgh.resolve_eq ht.result

/-- The types of a node, `ConvolutionTypes.Of` it, are determined by it. -/
theorem Of.unique {t' : ConvolutionTypes} (ht : t.Of g node) (ht' : t'.Of g node) : t = t' := by
  have hunique : Relator.RightUnique fun id type => g.typeOf id = .ok type :=
    fun _ _ _ => Graph.eq_of_typeOf
  have hoperands := hunique.forall₂ ht.operands ht'.operands
  have hresult := Except.ok.inj (ht.result.symm.trans ht'.result)
  cases t
  cases t'
  cases hoperands
  cases hresult
  rfl

/-- Each filter has the channels of one group exactly when the product is not reduced. -/
theorem Fits.filter_channels_iff (h : t.Fits window group image depth) :
    (∃ channels, t.filters.dims = [depth, window.kernel, window.kernel, channels] ∧
        channels * group = image.channels) ↔
      t.filters.dims.getD 3 0 * group < Size.bound := by
  obtain ⟨channels, hdims, hchannels⟩ := h.filters
  have hlast : t.filters.dims.getD 3 0 = channels := by rw [hdims]; rfl
  rw [hlast]
  constructor
  · rintro ⟨channels', hdims', hexact⟩
    obtain rfl : channels = channels' := by simpa using hdims.symm.trans hdims'
    rw [hexact, ← hchannels]
    exact Nat.mod_lt _ (by decide)
  · intro hlt
    exact ⟨channels, hdims, by rwa [Nat.mod_eq_of_lt hlt] at hchannels⟩

/-- When the bias is of floats and the result is of the kind of the images, the groups, the kinds of
images and filters and the size of the product decide. -/
theorem Fits.executable_iff (h : t.Fits window group image depth) (hbias : t.bias.kind = .float)
    (hresult : t.result.kind = t.images.kind) : t.Executable window group image depth ↔
      group ∣ depth ∧ t.images.kind = .float ∧ t.filters.kind = .float ∧
        t.filters.dims.getD 3 0 * group < Size.bound := by
  rw [← h.filter_channels_iff]
  constructor
  · intro he
    have himages : t.images.kind = .float := he.bias_kind.symm.trans hbias
    exact ⟨he.group_dvd, himages, he.filters_kind.trans himages, he.filter_channels⟩
  · rintro ⟨hdvd, himages, hfilters, hchannels⟩
    exact ⟨h, hdvd, hchannels, hfilters.trans himages.symm, hbias.trans himages.symm, hresult⟩

end ConvolutionTypes

/-! ### What is accepted -/

/-- **The rule for convolutions**, `Draft.convolution`, accepts exactly the operands and types of
results whose shapes fit (`ConvolutionTypes.Fits`), if the padded images have sizes. -/
theorem Draft.exists_convolution_iff {g : Graph} {name : String} {input filter bias : NodeId}
    {out : TypeRef} {window : Window} {group : Nat} :
    (∃ draft, Draft.convolution g name input filter bias out window group = .ok draft) ↔
      ∃ (t : ConvolutionTypes) (image : ImageDims) (depth : Nat),
        t.Of g ⟨name, .convolution window group, [input, filter, bias], out⟩ ∧
        t.Fits window group image depth ∧
        image.height + window.pads.top + window.pads.bottom < Size.bound ∧
        image.width + window.pads.left + window.pads.right < Size.bound := by
  simp only [Draft.convolution, bind_eq_ok, check_eq_ok, found_eq_ok, pure_eq_ok,
    Graph.imageDims_eq_ok, Graph.vectorLength_eq_ok]
  constructor
  · rintro ⟨draft, image, ⟨kind, himages⟩, filters, ⟨kind', hfilters⟩, length, ⟨kind'', hbias⟩, _,
      ⟨hgroup, hmod, hchannels⟩, _, ⟨hheight, hwidth⟩, _, rfl, ⟨rows, columns⟩, hsize, result,
      hresult, _, hdims, -⟩
    obtain ⟨hcovers, hrows, hcolumns⟩ := Window.outputSize?_eq_some.1 hsize
    have hfilterDims : filters.toList =
        [filters.count, window.kernel, window.kernel, filters.channels] := by
      simp only [ImageDims.toList, hheight, hwidth]
    refine ⟨⟨_, _, _, result⟩, image, filters.count,
      ⟨.cons himages (.cons hfilters (.cons hbias .nil)), hresult⟩, ?_, hrows, hcolumns⟩
    exact ⟨Nat.pos_of_ne_zero hgroup, Nat.dvd_of_mod_eq_zero hmod, rfl,
      ⟨_, hfilterDims, hchannels⟩, rfl, ⟨rows, columns, hdims, hcovers⟩⟩
  · rintro ⟨t, image, depth, ⟨htypes, hresult⟩, hfits, hrows, hcolumns⟩
    obtain ⟨himages, htypes⟩ := List.forall₂_cons.1 htypes
    obtain ⟨hfilters, htypes⟩ := List.forall₂_cons.1 htypes
    obtain ⟨hbias, -⟩ := List.forall₂_cons.1 htypes
    obtain ⟨channels, hfilterDims, hchannels⟩ := hfits.filters
    obtain ⟨rows, columns, hdims, hcovers⟩ := hfits.result
    have hwith : ∀ {id : NodeId} {type : ValueType} {dims : List Nat}, g.typeOf id = .ok type →
        type.dims = dims → ∃ kind, g.typeOf id = .ok ⟨kind, dims⟩ := by
      rintro id type _ htype rfl
      exact ⟨type.kind, htype⟩
    have hdvd : image.channels % group = 0 := Nat.mod_eq_zero_of_dvd hfits.dvd
    exact ⟨_, image, hwith himages hfits.images, ⟨depth, window.kernel, window.kernel, channels⟩,
      hwith hfilters hfilterDims, depth, hwith hbias hfits.bias, (),
      ⟨Nat.ne_of_gt hfits.pos, hdvd, hchannels⟩, (), ⟨rfl, rfl⟩, (), rfl, (rows, columns),
      Window.outputSize?_eq_some.2 ⟨hcovers, hrows, hcolumns⟩, t.result, hresult, (), hdims, rfl⟩

/-! ### Convolutions in a graph -/

namespace Graph

variable {g h : Graph}

/-- In a well-shaped graph the shapes of every convolution fit (`ConvolutionTypes.Fits`). -/
theorem WellShaped.fits (hg : g.WellShaped) {node : Node} (hnode : node ∈ g.nodes) {window : Window}
    {group : Nat} (hkind : node.kind = .convolution window group) :
    ∃ (t : ConvolutionTypes) (image : ImageDims) (depth : Nat), t.Of g node ∧
      t.Fits window group image depth := by
  obtain ⟨types, result, htypes, hresult, hrule⟩ := hg node hnode
  rw [hkind] at hrule
  cases hrule with
  | convolution _ _ input filter bias _ image depth channels rows columns hpos hdvd hinput hfilter
      hchannels hbias hdims hcovers =>
    refine ⟨⟨input, filter, bias, result⟩, image, depth, ⟨htypes, hresult⟩, ?_⟩
    exact ⟨hpos, hdvd, hinput, ⟨channels, hfilter, hchannels⟩, hbias,
      ⟨rows, columns, hdims, hcovers⟩⟩

/-! ### Nodes that are no convolutions -/

/-- Only a constructor of convolutions (`IsConvolution`) makes one. -/
theorem Constructor.isConvolution_of_kind {c : Constructor} {window : Window} {group : Nat}
    (hkind : c.kind = .convolution window group) : c.IsConvolution := by
  cases c with
  | convolution => trivial
  | _ => cases hkind

end Graph
end TensorGraph
