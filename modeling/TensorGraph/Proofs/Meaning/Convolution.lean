import TensorGraph.Proofs.Lowering.Convolution
import TensorGraph.Proofs.Meaning.Evaluation
import Mathlib.Algebra.BigOperators.Group.Finset.Sigma
import Mathlib.Algebra.Ring.Int.Defs

/-! # What a lowered convolution computes

A model describes a convolution of channel-first images: the images are zero outside of their
bounds, and the filters of a group are applied to the channels of that group. The graph computes it
on channel-last images, with filters that were rearranged when the node was lowered. The value that
the output of the node stands for is the convolution that the model describes. -/

namespace TensorGraph.Lowering

open Onnx (NodeRecord)
open Finset (range)

universe u

variable {R : Type u} [CommRing R]

/-! ### The convolution that a model describes -/

/-- An element of channel-first images of the dimensions `image`, zero outside of their bounds. -/
def imageAt (image : ImageDims) (x : List Nat → R) (n c : Nat) (i j : Int) : R :=
  if n < image.count ∧ c < image.channels ∧ (0 ≤ i ∧ i < image.height) ∧ 0 ≤ j ∧ j < image.width
  then x [n, c, i.toNat, j.toNat]
  else 0

namespace Convolution

variable (c : Convolution) (ρ : Reading R)

/-- The number that is added for the filter `d`, zero without a bias. -/
def biasAt (d : Nat) : R :=
  match c.bias with
  | some tensor => ρ.element tensor [d]
  | none => 0

/-- The result at the row `i` and the column `j`, for the image `n` and the filter `d`. -/
def resultAt (x : List Nat → R) (n d i j : Nat) : R :=
  c.biasAt ρ d + ∑ k ∈ range (c.image.channels / c.options.group),
    ∑ ky ∈ range c.options.window.kernel, ∑ kx ∈ range c.options.window.kernel,
      imageAt c.image x n (firstChannel c.image.channels c.options.depth c.options.group d + k)
        (i * c.options.window.stride + ky - c.options.window.pads.top)
        (j * c.options.window.stride + kx - c.options.window.pads.left) *
          ρ.element c.weight [d, k, ky, kx]

end Convolution

/-! ### Layouts and groups -/

theorem unshuffle_toChannelLast (n i j c : Nat) :
    unshuffle toChannelLast [n, i, j, c] = [n, c, i, j] := rfl

theorem unshuffle_toChannelFirst (n d i j : Nat) :
    unshuffle toChannelFirst [n, d, i, j] = [n, i, j, d] := rfl

/-- The channels that a filter is applied to, from `firstChannel` on, are channels of the image. -/
theorem firstChannel_add_lt {channels depth group d k : Nat} (hchannels : group ∣ channels)
    (hdepth : group ∣ depth) (hd : d < depth) (hk : k < channels / group) :
    firstChannel channels depth group d + k < channels := by
  obtain ⟨part, rfl⟩ := hchannels
  obtain ⟨filters, rfl⟩ := hdepth
  have hgroup : 0 < group := Nat.pos_of_ne_zero (by rintro rfl; simp at hd)
  rw [Nat.mul_div_cancel_left _ hgroup] at hk
  rw [firstChannel, Nat.mul_div_cancel_left _ hgroup, Nat.mul_div_cancel_left _ hgroup]
  have hlt : d / filters < group := Nat.div_lt_of_lt_mul (by rwa [Nat.mul_comm])
  calc d / filters * part + k
    _ < d / filters * part + part := Nat.add_lt_add_left hk _
    _ = (d / filters + 1) * part := by rw [Nat.succ_mul]
    _ ≤ group * part := Nat.mul_le_mul_right _ hlt

/-- Between its paddings a rearranged image (`paddedImage`) has the elements of the image, moved by
the padding. -/
theorem paddedImage_eq {pads : Pads} {image : ImageDims} {x : List Nat → R} {n i j c : Nat}
    (hn : n < image.count) (hc : c < image.channels) :
    paddedImage pads image (fun coords => x (unshuffle toChannelLast coords)) n i j c =
      imageAt image x n c (i - pads.top) (j - pads.left) := by
  unfold paddedImage imageAt
  by_cases hinside : (pads.top ≤ i ∧ i < pads.top + image.height) ∧
      (pads.left ≤ j ∧ j < pads.left + image.width)
  · have hi : ((i : Int) - pads.top).toNat = i - pads.top := by omega
    have hj : ((j : Int) - pads.left).toNat = j - pads.left := by omega
    rw [if_pos hinside, if_pos (by omega), hi, hj]
    exact congrArg x (unshuffle_toChannelLast _ _ _ _)
  · rw [if_neg hinside, if_neg (by omega)]

theorem sum_channels_first (rows columns channels : Nat) (f : Nat → Nat → Nat → R) :
    ∑ i ∈ range rows, ∑ j ∈ range columns, ∑ k ∈ range channels, f k i j =
      ∑ k ∈ range channels, ∑ i ∈ range rows, ∑ j ∈ range columns, f k i j := by
  calc ∑ i ∈ range rows, ∑ j ∈ range columns, ∑ k ∈ range channels, f k i j
    _ = ∑ i ∈ range rows, ∑ k ∈ range channels, ∑ j ∈ range columns, f k i j :=
      Finset.sum_congr rfl fun _ _ => Finset.sum_comm
    _ = ∑ k ∈ range channels, ∑ i ∈ range rows, ∑ j ∈ range columns, f k i j := Finset.sum_comm

/-! ### The added nodes -/

namespace Convolution

variable {c : Convolution} {node : NodeRecord} {s t : Workspace} {filters biases : Tensor}

@[simp] theorem count_filterDims : c.filterDims.count = c.options.depth := rfl

/-- The result is the convolution (`convolve`) of the rearranged images, rearranged. -/
theorem Adds.evaluate_output (h : c.Adds node t filters biases)
    (himages : c.images.index < c.start.graph.nodes.length) (ρ : Reading R)
    (given : NodeId → List Nat → R) (n d i j : Nat) :
    ρ.evaluate t.graph c.start.graph.nodes.length given c.output [n, d, i, j] =
      convolve c.options.window c.options.group c.image c.filterDims
        (fun coords => given c.images (unshuffle toChannelLast coords)) (ρ.element filters)
        (ρ.element biases) [n, i, j, d] := by
  obtain ⟨r₀, r₁, r₂, r₃, r₄, hadded⟩ := h.added
  have hnodes := hadded.nodes_eq
  -- operands come before the node, so each value is found from the ones above it
  have hfilters : ρ.evaluate t.graph c.start.graph.nodes.length given (c.added 0) =
      ρ.element filters := ρ.evaluate_append (i := 0) hnodes rfl (by simp)
  have hbiases : ρ.evaluate t.graph c.start.graph.nodes.length given (c.added 1) =
      ρ.element biases := ρ.evaluate_append (i := 1) hnodes rfl (by simp)
  have hlast : ρ.evaluate t.graph c.start.graph.nodes.length given (c.added 2) =
      fun coords => given c.images (unshuffle toChannelLast coords) := by
    have hoperand : ρ.evaluate t.graph c.start.graph.nodes.length given c.images =
        given c.images := ρ.evaluate_of_lt himages
    refine (ρ.evaluate_append (i := 2) hnodes rfl ?_).trans ?_
    · simp only [List.mem_singleton, forall_eq]
      exact Nat.lt_add_right 2 himages
    · funext coords
      exact congrFun hoperand _
  have hconvolution : ρ.evaluate t.graph c.start.graph.nodes.length given (c.added 3) =
      convolve c.options.window c.options.group c.image c.filterDims
        (fun coords => given c.images (unshuffle toChannelLast coords)) (ρ.element filters)
        (ρ.element biases) := by
    refine (ρ.evaluate_append (i := 3) hnodes rfl ?_).trans ?_
    · simp
    · simp only [Meaning.valueOf, Reading.value, List.map_cons, List.map_nil,
        Graph.shape_eq h.typeOf_channelLast, Graph.shape_eq h.typeOf_filters, Tensor.type,
        h.filterDims, hfilters, hbiases, hlast]
      rfl
  have houtput : ρ.evaluate t.graph c.start.graph.nodes.length given c.output = fun coords =>
      ρ.evaluate t.graph c.start.graph.nodes.length given (c.added 3)
        (unshuffle toChannelFirst coords) := ρ.evaluate_append (i := 4) hnodes rfl (by simp)
  rw [houtput, hconvolution]
  exact congrArg _ (unshuffle_toChannelFirst n d i j)

/-- The constants are read as the numbers of weight and bias (`biasAt`). -/
theorem Freezes.element_biases (h : c.Freezes filters biases) (ρ : Reading R) (d : Nat) :
    ρ.element biases [d] = c.biasAt ρ d := by
  have hbias := h.bias
  unfold biasAt
  cases hc : c.bias with
  | none =>
    rw [hc] at hbias
    exact ρ.element_zeros hbias [d]
  | some tensor =>
    rw [hc] at hbias
    rw [hbias]

theorem Freezes.element_filters (h : c.Freezes filters biases)
    (hadds : c.Adds node t filters biases) (ρ : Reading R) {d ky kx k : Nat}
    (hd : d < c.options.depth) (hky : ky < c.options.window.kernel)
    (hkx : kx < c.options.window.kernel) (hk : k < c.channels) :
    ρ.element filters [d, ky, kx, k] = ρ.element c.weight [d, k, ky, kx] := by
  have hin : InShape [d, ky, kx, k] filters.dims := by
    rw [hadds.filterDims]
    exact .cons hd (.cons hky (.cons hkx (.cons hk .nil)))
  rw [ρ.element_transpose h.weight hin, unshuffle_toChannelLast]

/-- **The result of a lowered convolution** is the convolution that the model describes
(`resultAt`), if the filters can be divided into the groups. -/
theorem Adds.evaluate_eq (h : c.Adds node t filters biases) (hfreezes : c.Freezes filters biases)
    (himages : c.images.index < c.start.graph.nodes.length) (ρ : Reading R)
    (given : NodeId → List Nat → R) (hdepth : c.options.group ∣ c.options.depth) {n d i j : Nat}
    (hn : n < c.image.count) (hd : d < c.options.depth) :
    ρ.evaluate t.graph c.start.graph.nodes.length given c.output [n, d, i, j] =
      c.resultAt ρ (given c.images) n d i j := by
  rw [h.evaluate_output himages, convolve, hfreezes.element_biases, resultAt]
  refine congrArg (c.biasAt ρ d + ·) (Eq.trans ?_ (sum_channels_first _ _ _ _))
  refine Finset.sum_congr rfl fun ky hky => ?_
  refine Finset.sum_congr rfl fun kx hkx => Finset.sum_congr rfl fun k hk => ?_
  rw [Finset.mem_range] at hky hkx hk
  have hchannel := firstChannel_add_lt h.group_dvd hdepth hd hk
  have hfilter := hfreezes.element_filters h ρ hd hky hkx (Nat.lt_of_lt_of_le hk h.div_le_channels)
  rw [count_filterDims, paddedImage_eq hn hchannel, hfilter]
  push_cast
  rfl

end Convolution

/-! ### The lowering of a node -/

/-- **Lowering a convolution preserves its meaning.** In every workspace that can arise, a node that
is lowered determines a convolution `c`, and the value that its first output is bound to is,
wherever it has an element, what the model describes (`resultAt`), if the groups divide the filters
evenly. The numbers that elements stand for and the values of all nodes before are arbitrary. -/
theorem evaluate_of_convolution {node : NodeRecord} {s t : Workspace} (hg : s.graph.Reachable)
    (hs : s.Closed) (h : convolution node s = .ok () t) :
    ∃ c : Convolution, c.Reads node s t ∧ ∀ {R : Type u} [CommRing R] (ρ : Reading R)
      (given : NodeId → List Nat → R), c.options.group ∣ c.options.depth →
        ∀ n < c.image.count, ∀ d < c.options.depth, ∀ i < c.rows, ∀ j < c.columns,
          ρ.evaluate t.graph c.start.graph.nodes.length given c.output [n, d, i, j] =
            c.resultAt ρ (given c.images) n d i j := by
  obtain ⟨c, u, filters, biases, hreads, hfreezes, hadds, hgraph⟩ := exists_convolution hg h
  have himages := index_lt_of_inputValue hs hreads.images
  refine ⟨c, hreads, fun ρ given hdepth n hn d hd i _ j _ => ?_⟩
  rw [hgraph]
  exact hadds.evaluate_eq hfreezes himages ρ given hdepth hn hd

/-- A convolution in two groups, padded above and to the right. -/
def groupedNode : NodeRecord where
  inputs := ["x", "w"]
  outputs := ["y"]
  opType := "Conv"
  attributes := [
    { name := "group", type := 2, int := 2 },
    { name := "pads", type := 7, ints := [1, 0, 0, 1] }]

/-- The filters of `groupedNode`. -/
def groupedFilters : Tensor := ⟨[2, 1, 2, 2], .index #[1, 2, 3, 4, 5, 6, 7, 8], rfl⟩

/-- A workspace in which the operands of `groupedNode` are known. -/
def groupedStart : Workspace where
  graph := .empty "g"
  table := Table.lendAll {} [("x", ⟨[1, 2, 2, 2], .zeros .float 8, rfl⟩), ("w", groupedFilters)]

/-- The numbers of indices are themselves, and any bits other than those of zero are read as 1. -/
def integerReading : Reading ℤ where
  float b := if b = .zero then 0 else 1
  index := Int64.toInt
  float_zero := rfl
  other _ _ _ := 0

/-- The filters of `groupedNode` can be divided into the groups, so it is computed as the model
describes (`resultAt`). -/
theorem evaluate_of_groupedNode : ∃ t, ∃ c : Convolution,
    convolution groupedNode groupedStart = .ok () t ∧ c.Reads groupedNode groupedStart t ∧
    ∀ given : NodeId → List Nat → ℤ,
      ∀ n < c.image.count, ∀ d < c.options.depth, ∀ i < c.rows, ∀ j < c.columns,
        integerReading.evaluate t.graph c.start.graph.nodes.length given c.output [n, d, i, j] =
          c.resultAt integerReading (given c.images) n d i j := by
  have hok : (match convolution groupedNode groupedStart with
      | .ok _ _ => true
      | .error _ _ => false) = true := by decide +kernel
  generalize hrun : convolution groupedNode groupedStart = outcome at hok
  cases outcome with
  | error e t => cases hok
  | ok _ t =>
    have hclosed : groupedStart.Closed := by
      intro name id h
      cases h
    obtain ⟨c, hreads, hvalue⟩ := evaluate_of_convolution (.empty "g") hclosed hrun
    have hdvd : c.options.group ∣ c.options.depth := by
      obtain ⟨name, hname, hweight⟩ := hreads.weight
      have hw : groupedNode.input? 1 = some "w" := by decide +kernel
      obtain rfl : "w" = name := Option.some.inj (hw.symm.trans hname)
      have hfilters : groupedStart.table.tensor? "w" = some groupedFilters := by decide +kernel
      have hoptions := hreads.options
      rw [← Option.some.inj (hfilters.symm.trans hweight)] at hoptions
      have hread : ConvOptions.read groupedNode.view (permuteDims groupedFilters.dims toChannelLast)
          = .ok ⟨2, ⟨2, 1, ⟨1, 0, 0, 1⟩⟩, 2⟩ := by decide +kernel
      rw [← Except.ok.inj (hread.symm.trans hoptions)]
    exact ⟨t, c, rfl, hreads, fun given => hvalue integerReading given hdvd⟩

end TensorGraph.Lowering
