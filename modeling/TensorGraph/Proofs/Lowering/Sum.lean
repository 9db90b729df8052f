import TensorGraph.Proofs.Load.Typing
import TensorGraph.Proofs.Lowering.Elementwise
import TensorGraph.Proofs.Shape.Join
import TensorGraph.Proofs.Tensor.Counting

/-! # Sums

A sum adds its inputs up from left to right, and each addition broadcasts what there is so far and
the next input to their common shape. Since joining shapes does not depend on an order, neither does
the sum: it is lowered exactly when its inputs agree in kind and have a common shape, and the result
is of that kind and shape. -/

namespace TensorGraph

open Onnx (NodeRecord)

/-! ### Common types -/

/-- The type to which values of `types` are brought: they are all of its kind, and it has their
common shape (`JoinedAll`). -/
structure CommonType (types : List ValueType) (type : ValueType) : Prop where
  kind : ∀ other ∈ types, other.kind = type.kind
  dims : JoinedAll (types.map ValueType.dims) type.dims

section CommonType

variable {types types' : List ValueType} {first second type type' : ValueType}

theorem CommonType.of_perm (h : CommonType types type) (hperm : types.Perm types') :
    CommonType types' type where
  kind other hother := h.kind other (hperm.mem_iff.2 hother)
  dims := h.dims.of_perm (hperm.map _)

theorem commonType_singleton : CommonType [first] type ↔ first = type := by
  constructor
  · rintro ⟨hkind, hdims⟩
    have hsame : first.kind = type.kind := hkind first List.mem_cons_self
    cases first
    cases type
    cases hsame
    cases joinedAll_singleton.1 hdims
    rfl
  · rintro rfl
    exact ⟨by simp, joinedAll_singleton.2 rfl⟩

/-- Two types give way to the type `common` to which they are brought. -/
theorem commonType_cons_cons : CommonType (first :: second :: types) type ↔
    ∃ common, CommonType [first, second] common ∧ CommonType (common :: types) type := by
  constructor
  · rintro ⟨hkind, hdims⟩
    simp only [List.forall_mem_cons] at hkind
    obtain ⟨hfirst, hsecond, hrest⟩ := hkind
    obtain ⟨dims, hjoined, hdims⟩ := joinedAll_cons_cons.1 hdims
    refine ⟨⟨type.kind, dims⟩, ⟨?_, joinedAll_pair.2 hjoined⟩, ⟨?_, hdims⟩⟩
    · simpa using ⟨hfirst, hsecond⟩
    · simpa using hrest
  · rintro ⟨common, ⟨hpair, hjoined⟩, ⟨hkind, hdims⟩⟩
    simp only [List.forall_mem_cons] at hpair hkind
    refine ⟨?_, joinedAll_cons_cons.2 ⟨common.dims, joinedAll_pair.1 hjoined, hdims⟩⟩
    simp only [List.forall_mem_cons]
    exact ⟨hpair.1.trans hkind.1, hpair.2.1.trans hkind.1, hkind.2⟩

/-- There is only one such type (`CommonType`). -/
theorem CommonType.eq (h : CommonType types type) (h' : CommonType types type')
    (hne : types ≠ []) : type = type' := by
  cases types with
  | nil => exact absurd rfl hne
  | cons first types =>
    have hkind : type.kind = type'.kind :=
      (h.kind first List.mem_cons_self).symm.trans (h'.kind first List.mem_cons_self)
    have hdims : type.dims = type'.dims := h.dims.eq h'.dims
    cases type
    cases type'
    cases hkind
    cases hdims
    rfl

end CommonType

/-- In the newer operator sets operands are always brought to their common shape (`Joined`). -/
theorem BroadcastMode.Aligns.joined {left right dims : List Nat} {a b : Nat}
    (h : Aligns .multidirectional left right dims a b) : Joined left right dims := by
  cases h with
  | same => exact joinShape?_eq_some.1 (partialJoin_joinShape?.idem left)
  | multidirectional hjoined => exact hjoined

namespace Lowering

variable {s t : Workspace} {id : NodeId} {types : List ValueType} {type : ValueType}

/-! ### One addition -/

section Addition

variable {name : String} {op : ArithmeticOp} {lhs rhs : NodeId} {left right : ValueType}
  (hg : s.graph.Indexed) (hl : s.graph.typeOf lhs = .ok left)
  (hr : s.graph.typeOf rhs = .ok right)
include hg hl hr

theorem commonType_of_elementwise (h : elementwise name op lhs rhs .multidirectional s = .ok id t) :
    ∃ common, CommonType [left, right] common ∧ t.graph.Indexed ∧ s.graph.Extends t.graph ∧
      t.graph.typeOf id = .ok common := by
  obtain ⟨c, ⟨hleft, hright, haligns⟩, lhs', rhs', u, v, hlhs, hrhs, hc⟩ := made_of_ok hg h
  obtain rfl := Graph.eq_of_typeOf hl hleft
  obtain rfl := Graph.eq_of_typeOf hr hright
  exact ⟨⟨c.kind, c.dims⟩, ⟨by simp, joinedAll_pair.2 haligns.joined⟩, hc.indexed,
    hlhs.ext.trans (hrhs.ext.trans hc.ext), hc.typeOf_node⟩

theorem exists_elementwise_of_commonType (h : CommonType [left, right] type) :
    ∃ id t, elementwise name op lhs rhs .multidirectional s = .ok id t := by
  obtain ⟨leftKind, left⟩ := left
  obtain ⟨rightKind, right⟩ := right
  have hleft : leftKind = type.kind := h.kind ⟨leftKind, left⟩ (by simp)
  have hright : rightKind = type.kind := h.kind ⟨rightKind, right⟩ (by simp)
  subst hleft
  subst hright
  exact exists_elementwise hg hl hr (exists_joined_iff.1 ⟨type.dims, joinedAll_pair.1 h.dims⟩)

end Addition

/-! ### All additions -/

section Additions

variable {title : Nat → String} {first : NodeId} {firstType : ValueType}
  {operands : List (NodeId × Nat)}

/-- The additions that go on from the value `first` have the common type of this value and the
operands (`CommonType`). -/
theorem commonType_of_foldlM (hg : s.graph.Indexed) (hfirst : s.graph.typeOf first = .ok firstType)
    (hoperands : List.Forall₂ (fun p type => s.graph.typeOf p.1 = .ok type) operands types)
    (h : operands.foldlM (fun total p =>
      elementwise (title p.2) .add total p.1 .multidirectional) first s = .ok id t) :
    ∃ type, CommonType (firstType :: types) type ∧ t.graph.typeOf id = .ok type := by
  induction operands generalizing s first firstType types with
  | nil =>
    cases hoperands
    obtain ⟨rfl, rfl⟩ := Step.pure_eq_ok.1 h
    exact ⟨firstType, commonType_singleton.2 rfl, hfirst⟩
  | cons operand operands ih =>
    obtain _ | ⟨hoperand, hrest⟩ := hoperands
    rw [List.foldlM_cons, Step.bind_eq_ok] at h
    obtain ⟨total, r, htotal, h⟩ := h
    obtain ⟨common, hcommon, hr, hext, htype⟩ :=
      commonType_of_elementwise hg hfirst hoperand htotal
    obtain ⟨type, htypes, hid⟩ := ih hr htype (hrest.imp fun _ _ h => hext.typeOf_eq h) h
    exact ⟨type, commonType_cons_cons.2 ⟨common, hcommon, htypes⟩, hid⟩

/-- The additions succeed if the value `first` and the operands have a common type
(`CommonType`). -/
theorem exists_foldlM_of_commonType (hg : s.graph.Indexed)
    (hfirst : s.graph.typeOf first = .ok firstType)
    (hoperands : List.Forall₂ (fun p type => s.graph.typeOf p.1 = .ok type) operands types)
    (h : CommonType (firstType :: types) type) :
    ∃ id t, operands.foldlM (fun total p =>
      elementwise (title p.2) .add total p.1 .multidirectional) first s = .ok id t := by
  induction operands generalizing s first firstType types with
  | nil => exact ⟨first, s, rfl⟩
  | cons operand operands ih =>
    obtain _ | ⟨hoperand, hrest⟩ := hoperands
    obtain ⟨common, hcommon, htypes⟩ := commonType_cons_cons.1 h
    obtain ⟨total, r, htotal⟩ := exists_elementwise_of_commonType hg hfirst hoperand hcommon
    obtain ⟨common', hcommon', hr, hext, htype⟩ :=
      commonType_of_elementwise hg hfirst hoperand htotal
    obtain rfl := hcommon.eq hcommon' (by simp)
    obtain ⟨id, t, hid⟩ := ih hr htype (hrest.imp fun _ _ h => hext.typeOf_eq h) htypes
    exact ⟨id, t, by rw [List.foldlM_cons]; exact Step.bind_eq_ok.2 ⟨total, r, htotal, hid⟩⟩

end Additions

/-! ### The inputs -/

/-- The graph values of `names` stand for what the names stand for (`typeOf?`). -/
theorem exists_mapM_value (hs : s.Sound) {names : List String}
    (hnames : List.Forall₂ (fun name type => s.typeOf? name = some type) names types) :
    ∃ ids t, names.mapM value s = .ok ids t ∧ t.graph.Indexed ∧ s.graph.Extends t.graph ∧
      List.Forall₂ (fun id type => t.graph.typeOf id = .ok type) ids types := by
  induction names generalizing s types with
  | nil =>
    cases hnames
    exact ⟨[], s, rfl, hs.indexed, .refl s.graph, .nil⟩
  | cons name names ih =>
    obtain _ | ⟨hname, hrest⟩ := hnames
    obtain ⟨id, r, hid, hext, htype, hsame⟩ := value_of_typeOf? hs hname
    have hrest' := hrest.imp fun other type h => (hsame.types other trivial).symm.trans h
    obtain ⟨ids, t, hids, ht, hext', htypes⟩ := ih hsame.right hrest'
    refine ⟨id :: ids, t, ?_, ht, hext.trans hext', .cons (hext'.typeOf_eq htype) htypes⟩
    rw [List.mapM_cons]
    exact Step.bind_eq_ok.2 ⟨id, r, hid, Step.bind_eq_ok.2 ⟨ids, t, hids, rfl⟩⟩

theorem typed_of_mapM_value (hs : s.Sound) {names : List String} {ids : List NodeId}
    (h : names.mapM value s = .ok ids t) :
    ∃ types, List.Forall₂ (fun name type => s.typeOf? name = some type) names types := by
  induction names generalizing s t ids with
  | nil => exact ⟨[], .nil⟩
  | cons name names ih =>
    rw [List.mapM_cons, Step.bind_eq_ok] at h
    obtain ⟨id, r, hid, h⟩ := h
    obtain ⟨rest, u, hrest, -⟩ := Step.bind_eq_ok.1 h
    obtain ⟨type, hname, -, -, hsame⟩ := typed_of_value hs hid
    obtain ⟨types, htypes⟩ := ih hsame.right hrest
    exact ⟨type :: types, .cons hname
      (htypes.imp fun other type h => (hsame.types other trivial).trans h)⟩

/-! ### Sums -/

/-- The type of the sum of what `names` stand for. -/
def SumType (s : Workspace) (names : List String) (type : ValueType) : Prop :=
  names ≠ [] ∧ ∃ types, List.Forall₂ (fun name type => s.typeOf? name = some type) names types ∧
    CommonType types type

theorem SumType.eq {names : List String} {type' : ValueType} (h : SumType s names type)
    (h' : SumType s names type') : type = type' := by
  obtain ⟨hne, types, htypes, hcommon⟩ := h
  obtain ⟨-, types', htypes', hcommon'⟩ := h'
  have hsame : types = types' := by
    refine List.right_unique_forall₂' (fun name type type' h h' => ?_) htypes htypes'
    exact Option.some.inj (h.symm.trans h')
  subst hsame
  refine hcommon.eq hcommon' fun hnil => hne ?_
  exact List.forall₂_nil_right_iff.1 (hnil ▸ htypes)

theorem SumType.of_perm {names names' : List String} (h : SumType s names type)
    (hperm : names.Perm names') : SumType s names' type := by
  obtain ⟨hne, types, htypes, hcommon⟩ := h
  obtain ⟨types', htypes', hperm'⟩ := List.perm_comp_forall₂ hperm.symm htypes
  refine ⟨fun hnil => hne ?_, types', htypes', hcommon.of_perm hperm'.symm⟩
  rw [hnil] at hperm
  exact hperm.eq_nil

/-- How the additions in `addAll` are named does not matter. -/
theorem exists_addAll_eq (node : NodeRecord) (mode : BroadcastMode) (others : List NodeId) :
    ∃ title : Nat → String, ∀ first, addAll node mode first others =
      others.zipIdx.foldlM (fun total p => elementwise (title p.2) .add total p.1 mode) first :=
  ⟨fun i => if i + 1 = others.length then node.title else node.part s!"partial{i}", fun _ => rfl⟩

variable {opset : Int64} {node : NodeRecord}

/-- The numbers that the additions are given do not matter for the types of the operands. -/
theorem forall₂_zipIdx_fst {R : NodeId → ValueType → Prop} {ids : List NodeId}
    (h : List.Forall₂ R ids types) : List.Forall₂ (fun p type => R p.1 type) ids.zipIdx types := by
  rw [← List.forall₂_map_left_iff, List.zipIdx_map_fst]
  exact h

theorem sumMode_eq (hopset : 6 < opset.toInt) : sumMode opset = .multidirectional := by
  unfold sumMode broadcastingOpset
  rw [if_pos (by omega)]

/-- A sum that `sum` lowers has the type of the sum of its inputs (`SumType`). -/
theorem sumType_of_sum (hopset : 6 < opset.toInt) (hs : s.Sound)
    (h : sum opset node s = .ok () t) : ∃ output id type, node.output = .ok output ∧
      SumType s node.inputs type ∧ t.table.value? output = some id ∧
      t.graph.typeOf id = .ok type := by
  obtain ⟨ids, r, hids, h⟩ := Step.bind_eq_ok.1 h
  obtain ⟨types, hnames⟩ := typed_of_mapM_value hs hids
  obtain ⟨ids', r', hids', hr, -, htypes⟩ := exists_mapM_value hs hnames
  have hsame := hids.symm.trans hids'
  cases hsame
  cases htypes with
  | nil => cases h
  | @cons first _ others _ hfirst hothers =>
    obtain ⟨title, htitle⟩ := exists_addAll_eq node (sumMode opset) others
    obtain ⟨id, u, hid, hend⟩ := Step.bind_eq_ok.1 h
    rw [htitle, sumMode_eq hopset] at hid
    obtain ⟨type, hcommon, htype⟩ := commonType_of_foldlM hr hfirst (forall₂_zipIdx_fst hothers) hid
    obtain ⟨output, houtput, rfl⟩ := bindOutput_eq_ok.1 hend
    refine ⟨output, id, type, houtput, ⟨fun hnil => ?_, _, hnames, hcommon⟩, ?_, htype⟩
    · cases List.forall₂_nil_left_iff.1 (hnil ▸ hnames)
    · rw [Table.value?_bind, if_pos rfl]

/-- Inputs whose sum has a type (`SumType`) can be summed. -/
theorem exists_sum (hopset : 6 < opset.toInt) (hs : s.Sound) {output : String}
    (houtput : node.output = .ok output) (h : SumType s node.inputs type) :
    ∃ t, sum opset node s = .ok () t := by
  obtain ⟨hne, types, hnames, hcommon⟩ := h
  obtain ⟨ids, r, hids, hr, -, htypes⟩ := exists_mapM_value hs hnames
  cases htypes with
  | nil => exact absurd (List.forall₂_nil_right_iff.1 hnames) hne
  | @cons first _ others _ hfirst hothers =>
    obtain ⟨title, htitle⟩ := exists_addAll_eq node (sumMode opset) others
    obtain ⟨id, t, hid⟩ : ∃ id t, addAll node (sumMode opset) first others r = .ok id t := by
      rw [htitle, sumMode_eq hopset]
      exact exists_foldlM_of_commonType hr hfirst (forall₂_zipIdx_fst hothers) hcommon
    exact ⟨_, Step.bind_eq_ok.2 ⟨_, r, hids, Step.bind_eq_ok.2 ⟨id, t, hid,
      bindOutput_eq_ok.2 ⟨output, houtput, rfl⟩⟩⟩⟩

/-! ### Nodes -/

/-- A sum is lowered exactly when its inputs agree in kind and have a common shape, so when they
have a `SumType`. -/
theorem exists_lower_sum_iff (hopset : 6 < opset.toInt) (hs : s.Sound)
    (hop : node.operator? = some .sum) : (∃ t, lower opset node s = .ok true t) ↔
      (∃ output, node.output = .ok output) ∧ ∃ type, SumType s node.inputs type := by
  simp only [lower_eq_ok_true hop]
  constructor
  · rintro ⟨t, h⟩
    obtain ⟨output, -, type, houtput, htype, -⟩ := sumType_of_sum hopset hs h
    exact ⟨⟨output, houtput⟩, type, htype⟩
  · rintro ⟨⟨output, houtput⟩, type, htype⟩
    exact exists_sum hopset hs houtput htype

/-- **A sum does not depend on the order of its inputs**: it is lowered exactly when they agree in
kind and have a common shape (`SumType`), so in every order of them or in none, and the result has
this kind and this shape. This is so because joining shapes is a partial operation in which neither
order nor grouping matters (`PartialJoin`). -/
theorem sum_permuted (hopset : 6 < opset.toInt) (hs : s.Sound) (hop : node.operator? = some .sum)
    {inputs : List String} (hperm : node.inputs.Perm inputs) :
    ((∃ t, lower opset node s = .ok true t) ↔
      (∃ output, node.output = .ok output) ∧ ∃ type, SumType s node.inputs type) ∧
    ((∃ t, lower opset { node with inputs } s = .ok true t) ↔
      ∃ t, lower opset node s = .ok true t) ∧
    (∀ t t', lower opset node s = .ok true t → lower opset { node with inputs } s = .ok true t' →
      ∃ output id id' type, node.output = .ok output ∧ SumType s node.inputs type ∧
        t.table.value? output = some id ∧ t.graph.typeOf id = .ok type ∧
        t'.table.value? output = some id' ∧ t'.graph.typeOf id' = .ok type) ∧
    PartialJoin joinShape? [] := by
  have hop' : NodeRecord.operator? { node with inputs } = some .sum := hop
  refine ⟨exists_lower_sum_iff hopset hs hop, ?_, fun t t' h h' => ?_, partialJoin_joinShape?⟩
  · rw [exists_lower_sum_iff hopset hs hop, exists_lower_sum_iff hopset hs hop']
    refine and_congr_right fun _ => exists_congr fun type => ?_
    exact ⟨fun h => h.of_perm hperm.symm, fun h => h.of_perm hperm⟩
  · obtain ⟨output, id, type, houtput, htype, hid, hnode⟩ :=
      sumType_of_sum hopset hs ((lower_eq_ok_true hop).1 h)
    obtain ⟨output', id', type', houtput', htype', hid', hnode'⟩ :=
      sumType_of_sum hopset hs ((lower_eq_ok_true hop').1 h')
    obtain rfl : output = output' := Except.ok.inj (houtput.symm.trans houtput')
    obtain rfl : type = type' := htype.eq (htype'.of_perm hperm.symm)
    exact ⟨output, id, id', type, houtput, htype, hid, hnode, hid', hnode'⟩

/-- A column, a row and the column again, to be added up. -/
def threeSummands : NodeRecord :=
  { inputs := ["column", "row", "column"], outputs := ["y"], opType := "Sum" }

/-- The workspace where this happens: two tensors and no node yet. -/
def summandsStart : Workspace where
  graph := .empty "g"
  table := Table.lendAll {} [("column", .zero .float [2, 1]), ("row", .zero .float [3])]

/-- The summands of `threeSummands` make a matrix, and so they do with the row in front. -/
theorem sum_permuted_threeSummands : ∃ t t' id id',
    lower 7 threeSummands summandsStart = .ok true t ∧
      lower 7 { threeSummands with inputs := ["row", "column", "column"] } summandsStart =
        .ok true t' ∧
      t.table.value? "y" = some id ∧ t.graph.typeOf id = .ok ⟨.float, [2, 3]⟩ ∧
      t'.table.value? "y" = some id' ∧ t'.graph.typeOf id' = .ok ⟨.float, [2, 3]⟩ := by
  have hs : summandsStart.Sound := ⟨Graph.Reachable.indexed (.empty "g"), nofun⟩
  have hop : threeSummands.operator? = some .sum := by decide +kernel
  have htype : SumType summandsStart threeSummands.inputs ⟨.float, [2, 3]⟩ := by
    refine ⟨by simp [threeSummands], [⟨.float, [2, 1]⟩, ⟨.float, [3]⟩, ⟨.float, [2, 1]⟩], ?_, ?_⟩
    · exact .cons (by decide +kernel) (.cons (by decide +kernel) (.cons (by decide +kernel) .nil))
    · exact ⟨by simp, foldlM_joinShape?_eq_some.1 rfl⟩
  have hopset : 6 < (7 : Int64).toInt := by decide
  obtain ⟨haccepts, hiff, hall, -⟩ :=
    sum_permuted hopset hs hop (.swap "row" "column" ["column"])
  obtain ⟨t, h⟩ := haccepts.2 ⟨⟨"y", rfl⟩, _, htype⟩
  obtain ⟨t', h'⟩ := hiff.2 ⟨t, h⟩
  obtain ⟨output, id, id', type, houtput, htype', hid, hnode, hid', hnode'⟩ := hall t t' h h'
  cases houtput
  obtain rfl := htype'.eq htype
  exact ⟨t, t', id, id', h, h', hid, hnode, hid', hnode'⟩

end Lowering
end TensorGraph
