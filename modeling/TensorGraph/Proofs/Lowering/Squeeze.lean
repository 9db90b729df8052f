import TensorGraph.Proofs.Lowering.Elementwise

/-! # Squeezing and unsqueezing

Both operators relate a long and a short shape: the long one has a 1 at each of the places that the
axes stand for, and is the short one without these places. The places are different and are counted
in the long shape, from its end if an axis is negative. A squeezing goes from the long shape to the
short one, and an unsqueezing back. As each of the two shapes determines the other, the operators
undo each other. -/

namespace TensorGraph

open Onnx (NodeRecord)

/-! ### Axes and the places that they stand for -/

/-- The place among `rank` dimensions that an axis stands for; a negative axis counts from the
end. -/
def StandsFor (rank : Nat) (axis : Int64) (place : Nat) : Prop :=
  place < rank ∧ (place : Int) = if axis.toInt < 0 then axis.toInt + rank else axis.toInt

theorem lt_of_standsFor {rank place : Nat} {axes : List Int64} {places : List Nat}
    (h : List.Forall₂ (StandsFor rank) axes places) (hplace : place ∈ places) : place < rank := by
  obtain ⟨axis, -, haxis⟩ := exists_of_forall₂ h.flip hplace
  exact haxis.1

/-- The shape `long` has a 1 at each of the different `places` that the `axes` stand for, and
`short` is what is left without them. -/
structure SqueezedAt (axes : List Int64) (places long short : List Nat) : Prop where
  standing : List.Forall₂ (StandsFor long.length) axes places
  nodup : places.Nodup
  ones : ∀ place ∈ places, long[place]? = some 1
  removed : removeAxes places long = short

namespace SqueezedAt

variable {axes : List Int64} {places long short : List Nat}

theorem squeezed (h : SqueezedAt axes places long short) :
    Squeezed (sortAxes places) long short where
  ascending := pairwise_sortAxes h.nodup
  ones a ha := h.ones a (mem_sortAxes.1 ha)
  removed := by rw [removeAxes_sortAxes, h.removed]

theorem length_eq (h : SqueezedAt axes places long short) :
    long.length = short.length + axes.length := by
  rw [h.squeezed.length_eq, length_sortAxes, h.standing.length_eq]

/-- The places among the dimensions of `long` can be told from `short`. -/
theorem iff_squeezed : SqueezedAt axes places long short ↔
    List.Forall₂ (StandsFor (short.length + axes.length)) axes places ∧ places.Nodup ∧
      Squeezed (sortAxes places) long short := by
  constructor
  · intro h
    exact ⟨h.length_eq ▸ h.standing, h.nodup, h.squeezed⟩
  · rintro ⟨hstanding, hnodup, hsqueezed⟩
    have hlength : long.length = short.length + axes.length := by
      rw [hsqueezed.length_eq, length_sortAxes, hstanding.length_eq]
    refine ⟨hlength ▸ hstanding, hnodup, fun place hplace => ?_, ?_⟩
    · exact hsqueezed.ones place (mem_sortAxes.2 hplace)
    · rw [← removeAxes_sortAxes, hsqueezed.removed]

/-- The shape `long` is squeezed at different places where it has a 1. -/
theorem exists_short_iff : (∃ places short, SqueezedAt axes places long short) ↔
    ∃ places, List.Forall₂ (StandsFor long.length) axes places ∧ places.Nodup ∧
      ∀ place ∈ places, long[place]? = some 1 := by
  constructor
  · rintro ⟨places, _, h⟩
    exact ⟨places, h.standing, h.nodup, h.ones⟩
  · rintro ⟨places, hstanding, hnodup, hones⟩
    exact ⟨places, _, hstanding, hnodup, hones, rfl⟩

theorem lt_of_sorted
    (hstanding : List.Forall₂ (StandsFor (short.length + axes.length)) axes places) :
    ∀ a ∈ sortAxes places, a < short.length + (sortAxes places).length := by
  intro a ha
  rw [length_sortAxes, ← hstanding.length_eq]
  exact lt_of_standsFor hstanding (mem_sortAxes.1 ha)

/-- The shape `short` is unsqueezed at different places. -/
theorem exists_long_iff : (∃ places long, SqueezedAt axes places long short) ↔
    ∃ places, List.Forall₂ (StandsFor (short.length + axes.length)) axes places ∧
      places.Nodup := by
  simp only [iff_squeezed]
  constructor
  · rintro ⟨places, _, hstanding, hnodup, -⟩
    exact ⟨places, hstanding, hnodup⟩
  · rintro ⟨places, hstanding, hnodup⟩
    obtain ⟨long, hlong⟩ :=
      Squeezed.exists_long (pairwise_sortAxes hnodup) (lt_of_sorted hstanding)
    exact ⟨places, long, hstanding, hnodup, hlong⟩

/-- When the `places` are filled in ascending order, none of them lies behind the end of what is
there by then. -/
theorem le_of_sorted (h : SqueezedAt axes places long short) {first rest : List Nat} {place : Nat}
    (hsorted : sortAxes places = first ++ place :: rest) : place ≤ short.length + first.length := by
  have hascending := pairwise_sortAxes h.nodup
  have hlt := lt_of_sorted (h.length_eq ▸ h.standing)
  rw [hsorted] at hascending hlt
  exact le_add_of_ascending hascending hlt

end SqueezedAt

/-! ### Type handles -/

/-- The node of the handle `id` has the type handle `ref`, which stands for `type`. -/
structure Graph.HasRef (g : Graph) (id : NodeId) (ref : TypeRef) (type : ValueType) : Prop where
  node : ∃ node, g.node id = .ok node ∧ node.type = ref
  type : g.resolve ref = .ok type

namespace Graph.HasRef

variable {g h : Graph} {id other : NodeId} {ref : TypeRef} {type : ValueType}

theorem typeOf (hid : g.HasRef id ref type) : g.typeOf id = .ok type := by
  obtain ⟨⟨node, hnode, rfl⟩, htype⟩ := hid
  exact typeOf_eq_ok.2 ⟨node, hnode, htype⟩

theorem mono (hid : g.HasRef id ref type) (hgh : g.Extends h) : h.HasRef id ref type := by
  obtain ⟨⟨node, hnode, href⟩, htype⟩ := hid
  exact ⟨⟨node, hgh.node_eq hnode, href⟩, hgh.resolve_eq htype⟩

/-- In a graph with an exact table of types (`Indexed`), equal types have equal handles. -/
theorem of_typeOf (hg : g.Indexed) (hid : g.HasRef id ref type)
    (hother : g.typeOf other = .ok type) : g.HasRef other ref type := by
  obtain ⟨node, hnode, htype⟩ := typeOf_eq_ok.1 hother
  exact ⟨⟨node, hnode, (hg.ref_eq_iff htype hid.type).2 rfl⟩, hid.type⟩

end Graph.HasRef

namespace Lowering

variable {s r t : Workspace} {node : NodeRecord} {axes : List Int64} {places : List Nat}
  {rank : Nat}

/-! ### The axes of a node -/

/-- The axes that a node gives: those of its attribute or, if it has none, the numbers of the index
tensor of its second input. -/
inductive GivesAxes (s : Workspace) (node : NodeRecord) : List Int64 → Prop
  | listed {axes : List Int64} (h : node.view.ints? "axes" = .ok (some axes)) :
    GivesAxes s node axes
  | input {name : String} {tensor : Tensor} {values : Array Int64}
      (hnone : node.view.ints? "axes" = .ok none) (hname : node.input? 1 = some name)
      (htensor : s.table.tensor? name = some tensor) (hvalues : tensor.indices? = some values) :
    GivesAxes s node values.toList

theorem GivesAxes.of_tensor?_eq (h : GivesAxes s node axes)
    (ht : ∀ name, t.table.tensor? name = s.table.tensor? name) : GivesAxes t node axes := by
  cases h with
  | listed h => exact .listed h
  | input hnone hname htensor hvalues => exact .input hnone hname ((ht _).trans htensor) hvalues

theorem axesOf_of_gives (h : GivesAxes s node axes) : axesOf node s = .ok axes s := by
  cases h with
  | listed h =>
    exact Step.bind_eq_ok.2 ⟨_, s, liftAttribute_eq_ok.2 ⟨h, rfl⟩, rfl⟩
  | input hnone hname htensor hvalues =>
    refine Step.bind_eq_ok.2 ⟨_, s, liftAttribute_eq_ok.2 ⟨hnone, rfl⟩, ?_⟩
    simp only [hname]
    exact constantIndices_eq_ok.2 ⟨⟨_, _, htensor, hvalues, rfl⟩, rfl⟩

theorem size_of_indices? {tensor : Tensor} {values : Array Int64}
    (h : tensor.indices? = some values) : tensor.size = values.size := by
  unfold Tensor.indices? at h
  unfold Tensor.size
  split at h
  · cases h
  · next helements =>
    cases h
    rw [helements]
    rfl

theorem axesCount_of_gives (h : GivesAxes s node axes) :
    axesCount node s = .ok axes.length s := by
  cases h with
  | listed h => exact Step.bind_eq_ok.2 ⟨_, s, liftAttribute_eq_ok.2 ⟨h, rfl⟩, rfl⟩
  | input hnone hname htensor hvalues =>
    refine Step.bind_eq_ok.2 ⟨_, s, liftAttribute_eq_ok.2 ⟨hnone, rfl⟩, ?_⟩
    refine Step.bind_eq_ok.2 ⟨_, s, table_eq_ok.2 ⟨rfl, rfl⟩, ?_⟩
    simp only [hname, Option.bind_some, htensor]
    rw [Array.length_toList, ← size_of_indices? hvalues]
    rfl

/-- The places of the axes that a node gives (`GivesAxes`). -/
theorem resolvedAxes_eq_ok (h : GivesAxes s node axes) :
    resolvedAxes node rank s = .ok places t ↔
      List.Forall₂ (StandsFor rank) axes places ∧ t = s := by
  unfold resolvedAxes
  rw [Step.bind_eq_ok]
  simp only [axesOf_of_gives h, EStateM.Result.ok.injEq]
  constructor
  · rintro ⟨_, _, ⟨rfl, rfl⟩, hresolved⟩
    obtain ⟨hplaces, rfl⟩ := mapM_liftAttribute_eq_ok.1 hresolved
    exact ⟨hplaces.imp fun _ _ hplace => axisOf_eq_ok.1 hplace, rfl⟩
  · rintro ⟨hstanding, rfl⟩
    refine ⟨_, _, ⟨rfl, rfl⟩, mapM_liftAttribute_eq_ok.2 ⟨?_, rfl⟩⟩
    exact hstanding.imp fun _ _ hplace => axisOf_eq_ok.2 hplace

/-! ### Lowering -/

/-- The workspace with a node for `draft`, bound to the name `output`. -/
def bound (r : Workspace) (title output : String) (draft : Draft) : Workspace where
  graph := (r.graph.add title draft).2
  table := r.table.bind output ⟨r.graph.nodes.length⟩

section Bound

variable {title output : String} {kind : NodeKind} {operands : List NodeId} {type : ValueType}

theorem createAndBind_eq_ok {rule : Graph → Except GraphError Draft}
    (houtput : node.output = .ok output) :
    ((liftM (Build.create title rule) : Lowering NodeId) >>= bindOutput node) r = .ok () t ↔
      ∃ draft, rule r.graph = .ok draft ∧ t = bound r title output draft := by
  simp only [Step.bind_eq_ok, create_eq_ok, bindOutput_eq_ok, houtput, Except.ok.injEq]
  constructor
  · rintro ⟨_, _, ⟨draft, hdraft, rfl, rfl⟩, _, rfl, rfl⟩
    exact ⟨draft, hdraft, rfl⟩
  · rintro ⟨draft, hdraft, rfl⟩
    exact ⟨_, _, ⟨draft, hdraft, rfl, rfl⟩, output, rfl, rfl⟩

theorem value?_bound (draft : Draft) :
    (bound r title output draft).table.value? output = some ⟨r.graph.nodes.length⟩ := by
  show (r.table.bind output _).value? output = _
  rw [Table.value?_bind, if_pos rfl]

theorem typeOf_bound (hr : r.graph.Indexed) :
    (bound r title output ⟨kind, operands, .ofType type⟩).graph.typeOf ⟨r.graph.nodes.length⟩ =
      .ok type :=
  Graph.typeOf_add hr title _ rfl

theorem indexed_bound (hr : r.graph.Indexed) (draft : Draft) :
    (bound r title output draft).graph.Indexed := hr.add title draft

end Bound

/-- The node applies an operator with some axes to a value and gives the result a name. The value is
the input of the node, which stands for it at the latest in the workspace `r`. -/
structure Applies (node : NodeRecord) (op : Operator) (axes : List Int64) (output : String)
    (id : NodeId) (ref : TypeRef) (type : ValueType) (s r : Workspace) : Prop where
  operator : node.operator? = some op
  input : inputValue node 0 s = .ok id r
  value : r.graph.HasRef id ref type
  axes : GivesAxes s node axes
  output : node.output = .ok output

section Applies

variable {output : String} {id : NodeId} {ref : TypeRef} {type : ValueType} {opset : Int64}

theorem tensor?_of_inputValue (h : inputValue node 0 s = .ok id r) (name : String) :
    r.table.tensor? name = s.table.tensor? name := by
  obtain ⟨input, -, hvalue⟩ := inputValue_eq_ok.1 h
  rcases value_eq_ok.1 hvalue with ⟨-, rfl⟩ | ⟨-, -, tensor, -, rfl⟩
  · rfl
  · rfl

theorem indexed_of_inputValue (hs : s.graph.Indexed) (h : inputValue node 0 s = .ok id r) :
    r.graph.Indexed := by
  obtain ⟨input, -, hvalue⟩ := inputValue_eq_ok.1 h
  rcases value_eq_ok.1 hvalue with ⟨-, rfl⟩ | ⟨-, -, tensor, -, rfl⟩
  · exact hs
  · exact hs.add input _

namespace Applies

theorem dims_eq {op : Operator} (h : Applies node op axes output id ref type s r) :
    dims id r = .ok type.dims r :=
  dims_eq_ok.2 ⟨Graph.dims_eq_ok.2 ⟨type.kind, h.value.typeOf⟩, rfl⟩

theorem givesAxes {op : Operator} (h : Applies node op axes output id ref type s r) :
    GivesAxes r node axes :=
  h.axes.of_tensor?_eq (tensor?_of_inputValue h.input)

/-- **When a squeezing is lowered**, and to which node (`SqueezedAt`). -/
theorem lower_squeeze_eq_ok (h : Applies node .squeeze axes output id ref type s r) :
    lower opset node s = .ok true t ↔ ∃ places short, SqueezedAt axes places type.dims short ∧
      t = bound r node.title output {
        kind := .squeeze (sortAxes places)
        operands := [id]
        result := .ofType ⟨type.kind, short⟩ } := by
  rw [lower_eq_ok_true h.operator]
  show squeeze node s = .ok () t ↔ _
  rw [squeeze, Step.bind_of_ok h.input, Step.bind_of_ok h.dims_eq, Step.bind_eq_ok]
  simp only [resolvedAxes_eq_ok h.givesAxes]
  constructor
  · rintro ⟨places, _, ⟨hstanding, rfl⟩, hcreate⟩
    obtain ⟨draft, hdraft, rfl⟩ := (createAndBind_eq_ok h.output).1 hcreate
    obtain ⟨type', htype', hnodup, hones, rfl⟩ := Draft.squeeze_eq_ok.1 hdraft
    obtain rfl := Graph.eq_of_typeOf h.value.typeOf htype'
    exact ⟨places, _, ⟨hstanding, hnodup, hones, rfl⟩, rfl⟩
  · rintro ⟨places, short, ⟨hstanding, hnodup, hones, rfl⟩, rfl⟩
    refine ⟨places, r, ⟨hstanding, rfl⟩, (createAndBind_eq_ok h.output).2 ⟨_, ?_, rfl⟩⟩
    exact Draft.squeeze_eq_ok.2 ⟨type, h.value.typeOf, hnodup, hones, rfl⟩

/-- **When an unsqueezing is lowered**, and to which node (`SqueezedAt`). -/
theorem lower_unsqueeze_eq_ok (h : Applies node .unsqueeze axes output id ref type s r) :
    lower opset node s = .ok true t ↔ ∃ places long, SqueezedAt axes places long type.dims ∧
      t = bound r node.title output {
        kind := .expandDims (sortAxes places)
        operands := [id]
        result := .ofType ⟨type.kind, long⟩ } := by
  rw [lower_eq_ok_true h.operator]
  show unsqueeze node s = .ok () t ↔ _
  rw [unsqueeze, Step.bind_of_ok h.input, Step.bind_of_ok h.dims_eq,
    Step.bind_of_ok (axesCount_of_gives h.givesAxes), Step.bind_eq_ok]
  simp only [resolvedAxes_eq_ok h.givesAxes, SqueezedAt.iff_squeezed]
  constructor
  · rintro ⟨places, _, ⟨hstanding, rfl⟩, hcreate⟩
    obtain ⟨draft, hdraft, rfl⟩ := (createAndBind_eq_ok h.output).1 hcreate
    obtain ⟨type', long, htype', hnodup, -, hsqueezed, rfl⟩ := Draft.expandDims_eq_ok.1 hdraft
    obtain rfl := Graph.eq_of_typeOf h.value.typeOf htype'
    exact ⟨places, long, ⟨hstanding, hnodup, hsqueezed⟩, rfl⟩
  · rintro ⟨places, long, ⟨hstanding, hnodup, hsqueezed⟩, rfl⟩
    refine ⟨places, r, ⟨hstanding, rfl⟩, (createAndBind_eq_ok h.output).2 ⟨_, ?_, rfl⟩⟩
    refine Draft.expandDims_eq_ok.2 ⟨type, long, h.value.typeOf, hnodup, ?_, hsqueezed, rfl⟩
    intro place hplace
    rw [← hstanding.length_eq]
    exact lt_of_standsFor hstanding hplace

end Applies

/-! ### Undoing -/

/-- Every node that applies the operator `op` with the `axes` to the value of `name` is lowered, and
its result has the type handle `ref`. -/
def UndoneBy (op : Operator) (axes : List Int64) (name : String) (ref : TypeRef)
    (type : ValueType) (t : Workspace) : Prop :=
  ∀ (opset : Int64) (back : NodeRecord) (output : String), back.operator? = some op →
    back.input? 0 = some name → GivesAxes t back axes → back.output = .ok output →
      ∃ u out, lower opset back t = .ok true u ∧ u.table.value? output = some out ∧
        u.graph.HasRef out ref type

/-- A value is undone when the operator leads from its type back to the one of `ref`. -/
theorem undoneBy_of_back {op : Operator} {name : String} {value : NodeId} {next : ValueType}
    (ht : t.graph.Indexed) (hid : t.graph.HasRef id ref type)
    (hvalue : t.table.value? name = some value) (hnext : t.graph.typeOf value = .ok next)
    (hback : ∀ {opset : Int64} {back : NodeRecord} {output : String} {known : TypeRef},
      Applies back op axes output value known next t t → ∃ kind, lower opset back t =
        .ok true (bound t back.title output ⟨kind, [value], .ofType type⟩)) :
    UndoneBy op axes name ref type t := by
  intro opset back output hop hinput haxes houtput
  obtain ⟨node, hnode, hresolve⟩ := Graph.typeOf_eq_ok.1 hnext
  have happlies : Applies back op axes output value node.type next t t := {
    operator := hop
    input := inputValue_eq_ok.2 ⟨name, hinput, value_eq_ok.2 (.inl ⟨hvalue, rfl⟩)⟩
    value := ⟨⟨node, hnode, rfl⟩, hresolve⟩
    axes := haxes
    output := houtput }
  obtain ⟨kind, hlower⟩ := hback happlies
  have hkept := hid.mono (t.graph.extends_add back.title ⟨kind, [value], .ofType type⟩)
  exact ⟨_, _, hlower, value?_bound _, hkept.of_typeOf (indexed_bound ht _) (typeOf_bound ht)⟩

namespace Applies

/-- What `op` has made is undone by `back` if this leads back from the new type (`UndoneBy`). -/
theorem undoneBy {op back : Operator} (hs : s.graph.Indexed)
    (h : Applies node op axes output id ref type s r) {draft : Draft} {next : ValueType}
    (hdraft : draft.result = .ofType next)
    (hback : ∀ {opset : Int64} {last : NodeRecord} {name : String} {value : NodeId}
      {known : TypeRef} {t : Workspace}, Applies last back axes name value known next t t →
        ∃ kind, lower opset last t =
          .ok true (bound t last.title name ⟨kind, [value], .ofType type⟩)) :
    UndoneBy back axes output ref type (bound r node.title output draft) := by
  obtain ⟨kind, operands, result⟩ := draft
  cases hdraft
  have hr := indexed_of_inputValue hs h.input
  exact undoneBy_of_back (indexed_bound hr _) (h.value.mono (Graph.extends_add _ _ _))
    (value?_bound _) (typeOf_bound hr) hback

end Applies

/-- **Squeezing and unsqueezing undo each other.** An unsqueezing (`Applies`) is lowered exactly
when its axes stand for different places among the dimensions of the result. The result has a 1 at
each of these places and is the operand without them (`SqueezedAt`), no dimension is inserted behind
the end, and a squeezing of the result with the same axes has the type handle of the operand
(`UndoneBy`). A squeezing is lowered exactly when its axes stand for different places where the
operand has a 1, and an unsqueezing of the result with the same axes has the type handle of the
operand. -/
theorem squeeze_unsqueeze_undone (opset : Int64) (hg : s.graph.Reachable) :
    (Applies node .unsqueeze axes output id ref type s r →
      ((∃ t, lower opset node s = .ok true t) ↔ ∃ places,
        List.Forall₂ (StandsFor (type.rank + axes.length)) axes places ∧ places.Nodup) ∧
      ∀ t, lower opset node s = .ok true t → ∃ places long value,
        SqueezedAt axes places long type.dims ∧
        (∀ first place rest, sortAxes places = first ++ place :: rest →
          place ≤ type.rank + first.length) ∧
        t.table.value? output = some value ∧ t.graph.typeOf value = .ok ⟨type.kind, long⟩ ∧
        UndoneBy .squeeze axes output ref type t) ∧
    (Applies node .squeeze axes output id ref type s r →
      ((∃ t, lower opset node s = .ok true t) ↔ ∃ places,
        List.Forall₂ (StandsFor type.rank) axes places ∧ places.Nodup ∧
          ∀ place ∈ places, type.dims[place]? = some 1) ∧
      ∀ t, lower opset node s = .ok true t → ∃ places short value,
        SqueezedAt axes places type.dims short ∧
        t.table.value? output = some value ∧ t.graph.typeOf value = .ok ⟨type.kind, short⟩ ∧
        UndoneBy .unsqueeze axes output ref type t) := by
  have hs := hg.indexed
  refine ⟨fun h => ⟨?_, fun t ht => ?_⟩, fun h => ⟨?_, fun t ht => ?_⟩⟩
  · refine Iff.trans ?_ SqueezedAt.exists_long_iff
    simp only [h.lower_unsqueeze_eq_ok]
    constructor
    · rintro ⟨t, places, long, hat, -⟩
      exact ⟨places, long, hat⟩
    · rintro ⟨places, long, hat⟩
      exact ⟨_, places, long, hat, rfl⟩
  · obtain ⟨places, long, hat, rfl⟩ := h.lower_unsqueeze_eq_ok.1 ht
    have hr := indexed_of_inputValue hs h.input
    exact ⟨places, long, _, hat, fun _ _ _ => hat.le_of_sorted, value?_bound _, typeOf_bound hr,
      h.undoneBy hs rfl fun hback =>
        ⟨_, hback.lower_squeeze_eq_ok.2 ⟨places, type.dims, hat, rfl⟩⟩⟩
  · refine Iff.trans ?_ SqueezedAt.exists_short_iff
    simp only [h.lower_squeeze_eq_ok]
    constructor
    · rintro ⟨t, places, short, hat, -⟩
      exact ⟨places, short, hat⟩
    · rintro ⟨places, short, hat⟩
      exact ⟨_, places, short, hat, rfl⟩
  · obtain ⟨places, short, hat, rfl⟩ := h.lower_squeeze_eq_ok.1 ht
    have hr := indexed_of_inputValue hs h.input
    exact ⟨places, short, _, hat, value?_bound _, typeOf_bound hr,
      h.undoneBy hs rfl fun hback =>
        ⟨_, hback.lower_unsqueeze_eq_ok.2 ⟨places, type.dims, hat, rfl⟩⟩⟩

end Applies

/-- A vector, an image with one row and one channel, and the axes between their shapes. -/
def axesStart : Workspace where
  graph := .empty "g"
  table := Table.lendAll {} [("x", ⟨[3], .zeros .float 3, rfl⟩),
    ("w", ⟨[1, 3, 1], .zeros .float 3, rfl⟩), ("axes", ⟨[2], .index #[0, -1], rfl⟩)]

/-- An unsqueezing that reads its axes from a tensor. -/
def unsqueezeNode : NodeRecord :=
  { inputs := ["x", "axes"], outputs := ["y"], opType := "Unsqueeze" }

/-- A squeezing with the same axes as an attribute. -/
def squeezeNode : NodeRecord :=
  { inputs := ["w"], outputs := ["y"], opType := "Squeeze",
    attributes := [{ name := "axes", type := 7, ints := [0, -1] }] }

/-- Each of the two nodes, `unsqueezeNode` and `squeezeNode`, is lowered, and the other one undoes
it. -/
theorem squeeze_unsqueeze_undone_vector :
    (∃ t u out, lower 13 unsqueezeNode axesStart = .ok true t ∧
      lower 13 { squeezeNode with inputs := ["y"], outputs := ["z"] } t = .ok true u ∧
      u.table.value? "z" = some out ∧ u.graph.HasRef out ⟨0⟩ ⟨.float, [3]⟩) ∧
    ∃ t u out, lower 13 squeezeNode axesStart = .ok true t ∧
      lower 13 { unsqueezeNode with inputs := ["y", "axes"], outputs := ["z"] } t = .ok true u ∧
      u.table.value? "z" = some out ∧ u.graph.HasRef out ⟨0⟩ ⟨.float, [1, 3, 1]⟩ := by
  have hg : axesStart.graph.Reachable := .empty "g"
  have hplaces : List.Forall₂ (StandsFor 3) [0, -1] [0, 2] :=
    .cons ⟨by decide, rfl⟩ (.cons ⟨by decide, rfl⟩ .nil)
  have hunsqueeze : Applies unsqueezeNode .unsqueeze [0, -1] "y" ⟨0⟩ ⟨0⟩ ⟨.float, [3]⟩ axesStart
      (Step.after (inputValue unsqueezeNode 0) axesStart) :=
    ⟨rfl, rfl, ⟨⟨_, rfl, rfl⟩, rfl⟩, .input rfl rfl rfl rfl, rfl⟩
  have hsqueeze : Applies squeezeNode .squeeze [0, -1] "y" ⟨0⟩ ⟨0⟩ ⟨.float, [1, 3, 1]⟩ axesStart
      (Step.after (inputValue squeezeNode 0) axesStart) :=
    ⟨rfl, rfl, ⟨⟨_, rfl, rfl⟩, rfl⟩, .listed rfl, rfl⟩
  obtain ⟨hmakes, hundone⟩ := (squeeze_unsqueeze_undone 13 hg).1 hunsqueeze
  obtain ⟨hmakes', hundone'⟩ := (squeeze_unsqueeze_undone 13 hg).2 hsqueeze
  obtain ⟨t, ht⟩ := hmakes.2 ⟨[0, 2], hplaces, by decide⟩
  obtain ⟨t', ht'⟩ := hmakes'.2 ⟨[0, 2], hplaces, by decide, by decide⟩
  obtain ⟨-, -, -, -, -, -, -, hback⟩ := hundone t ht
  obtain ⟨-, -, -, -, -, -, hback'⟩ := hundone' t' ht'
  obtain ⟨u, out, hu⟩ := hback 13 { squeezeNode with inputs := ["y"], outputs := ["z"] } "z" rfl rfl
    (.listed rfl) rfl
  -- The tensor of the axes is still there after the squeezing.
  have haxes : t'.table.tensor? "axes" = axesStart.table.tensor? "axes" := by
    obtain ⟨places, short, -, rfl⟩ := hsqueeze.lower_squeeze_eq_ok.1 ht'
    rfl
  obtain ⟨u', out', hu'⟩ := hback' 13
    { unsqueezeNode with inputs := ["y", "axes"], outputs := ["z"] } "z" rfl rfl
    (.input rfl rfl haxes rfl) rfl
  exact ⟨⟨t, u, out, ht, hu⟩, t', u', out', ht', hu'⟩

end Lowering
end TensorGraph
