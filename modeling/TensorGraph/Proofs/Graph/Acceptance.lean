import TensorGraph.Proofs.Graph.ShapeRule
import TensorGraph.Proofs.Shape.Broadcast

/-! # What the rules accept

For the rules of transpositions, poolings, squeezings and expansions, products, broadcasts and
element-wise operations: for which types of the operands there is a draft, and which draft it is.
An operation on two operands compares the handles of their types; as every type has one place, it
accepts operands of equal types. -/

namespace TensorGraph.Draft

variable {g : Graph} {name : String} {draft : Draft}

theorem fitsAt_eq_true {dims into : List Nat} {axis : Nat} :
    fitsAt dims into axis = true ↔ FitsInto dims into axis := by
  simp only [fitsAt, Bool.and_eq_true, decide_eq_true_eq, List.all_eq_true, Bool.or_eq_true,
    beq_iff_eq]
  constructor
  · rintro ⟨hrank, hall⟩
    refine ⟨hrank, fun i d hd => ?_⟩
    obtain ⟨hi, rfl⟩ := List.getElem?_eq_some_iff.1 hd
    have hbound : axis + i < into.length := by omega
    have hmem : (dims[i], into[axis + i]) ∈ dims.zip (into.drop axis) := by
      refine List.mem_of_getElem? (i := i) ?_
      simp [List.getElem?_zip_eq_some, hi, hbound]
    rcases hall _ hmem with hone | heq
    · exact .inl hone
    · exact .inr (by rw [List.getElem?_eq_getElem hbound]; exact congrArg some heq.symm)
  · rintro ⟨hrank, hdim⟩
    refine ⟨hrank, ?_⟩
    rintro ⟨d, e⟩ hmem
    obtain ⟨i, hi⟩ := List.mem_iff_getElem?.1 hmem
    obtain ⟨hd, he⟩ := List.getElem?_zip_eq_some.1 hi
    rw [List.getElem?_drop] at he
    rcases hdim i d hd with hone | hsame
    · exact .inl hone
    · exact .inr (Option.some.inj (hsame.symm.trans he))

/-- A permutation picks a dimension for each of its entries, the ones of `permuteDims`. -/
theorem mapM_dimAt_permutation {dims shuffle : List Nat}
    (h : isPermutation shuffle dims.length = true) :
    shuffle.mapM (dimAt dims) = .ok (permuteDims dims shuffle) := by
  obtain ⟨-, -, hlt⟩ := isPermutation_eq_true.1 h
  rw [mapM_eq_ok, permuteDims, List.forall₂_map_right_iff, List.forall₂_same]
  intro axis haxis
  rw [dimAt, found_eq_ok, List.getD_eq_getElem _ _ (hlt axis haxis), List.getElem?_eq_getElem]

/-- **A transposition** is accepted for the permutations of the axes of its operand. -/
theorem transpose_eq_ok {input : NodeId} {shuffle : List Nat} :
    transpose g input shuffle = .ok draft ↔ ∃ type, g.typeOf input = .ok type ∧
      isPermutation shuffle type.rank = true ∧ draft = {
        kind := .transpose shuffle
        operands := [input]
        result := .ofType ⟨type.kind, permuteDims type.dims shuffle⟩ } := by
  simp only [transpose, bind_eq_ok, check_eq_ok, pure_eq_ok]
  constructor
  · rintro ⟨type, htype, _, hperm, dims, hdims, rfl⟩
    have hsame := (mapM_dimAt_permutation hperm).symm.trans hdims
    exact ⟨type, htype, hperm, by rw [Except.ok.inj hsame]⟩
  · rintro ⟨type, htype, hperm, rfl⟩
    exact ⟨type, htype, (), hperm, _, mapM_dimAt_permutation hperm, rfl⟩

/-- **A pooling** is accepted for images that have a result size (`Window.outputSize?`). -/
theorem pool_eq_ok {kind : PoolKind} {input : NodeId} {window : Window} :
    pool g name kind input window = .ok draft ↔ ∃ elements image rows columns,
      g.typeOf input = .ok ⟨elements, ImageDims.toList image⟩ ∧
      window.outputSize? image.height image.width = some (rows, columns) ∧ draft = {
        kind := .pool kind window
        operands := [input]
        result := .ofType ⟨elements, [image.count, rows, columns, image.channels]⟩ } := by
  simp only [pool, bind_eq_ok, found_eq_ok, pure_eq_ok, Prod.exists, Graph.imageDims_eq_ok,
    Graph.kind_eq_ok]
  constructor
  · rintro ⟨image, ⟨elements, htype⟩, elements', ⟨_, htype'⟩, rows, columns, hsize, rfl⟩
    obtain rfl := Graph.kind_eq_of_typeOf htype htype'
    exact ⟨elements, image, rows, columns, htype, hsize, rfl⟩
  · rintro ⟨elements, image, rows, columns, htype, hsize, rfl⟩
    exact ⟨image, ⟨elements, htype⟩, elements, ⟨_, htype⟩, rows, columns, hsize, rfl⟩

/-- **A squeezing** is accepted for different `axes` at which the operand has a 1. -/
theorem squeeze_eq_ok {input : NodeId} {axes : List Nat} :
    squeeze g name input axes = .ok draft ↔ ∃ type, g.typeOf input = .ok type ∧ axes.Nodup ∧
      (∀ a ∈ axes, type.dims[a]? = some 1) ∧ draft = {
        kind := .squeeze (sortAxes axes)
        operands := [input]
        result := .ofType ⟨type.kind, removeAxes axes type.dims⟩ } := by
  simp only [squeeze, bind_eq_ok, axesBelow_eq_ok, forM_eq_ok, dimAt, found_eq_ok, check_eq_ok,
    pure_eq_ok]
  constructor
  · rintro ⟨type, htype, _, ⟨hnodup, -, rfl⟩, _, hones, rfl⟩
    refine ⟨type, htype, hnodup, fun a ha => ?_, by rw [removeAxes_sortAxes]⟩
    obtain ⟨size, hsize, rfl⟩ := hones a (mem_sortAxes.2 ha)
    exact hsize
  · rintro ⟨type, htype, hnodup, hones, rfl⟩
    have hlt : ∀ a ∈ axes, a < type.rank := fun a ha =>
      (List.getElem?_eq_some_iff.1 (hones a ha)).1
    refine ⟨type, htype, _, ⟨hnodup, hlt, rfl⟩, (), fun a ha => ?_, by rw [removeAxes_sortAxes]⟩
    exact ⟨1, hones a (mem_sortAxes.1 ha), rfl⟩

/-- **An expansion** is accepted for different `axes` among those of the result, `long`, which is
the shape that has a 1 at each of them and is the shape of the operand without them (`Squeezed`). -/
theorem expandDims_eq_ok {input : NodeId} {axes : List Nat} :
    expandDims g name input axes = .ok draft ↔ ∃ type long, g.typeOf input = .ok type ∧
      axes.Nodup ∧ (∀ a ∈ axes, a < type.rank + axes.length) ∧
      Squeezed (sortAxes axes) long type.dims ∧ draft = {
        kind := .expandDims (sortAxes axes)
        operands := [input]
        result := .ofType ⟨type.kind, long⟩ } := by
  simp only [expandDims, bind_eq_ok, axesBelow_eq_ok, pure_eq_ok]
  constructor
  · rintro ⟨type, htype, _, ⟨hnodup, hlt, rfl⟩, long, hlong, rfl⟩
    have haxes := (Squeezed.nil type.dims).insertAxes (pairwise_sortAxes hnodup) hlong
    exact ⟨type, long, htype, hnodup, hlt, haxes, rfl⟩
  · rintro ⟨type, long, htype, hnodup, hlt, haxes, rfl⟩
    have hroom : ∀ a ∈ sortAxes axes, a < type.dims.length + (sortAxes axes).length := by
      intro a ha
      rw [length_sortAxes]
      exact hlt a (mem_sortAxes.1 ha)
    obtain ⟨made, hmade⟩ := exists_insertAxes GraphError.outOfRange haxes.ascending hroom
    have hsqueezed := (Squeezed.nil type.dims).insertAxes haxes.ascending hmade
    obtain rfl := hsqueezed.long_eq haxes
    exact ⟨type, htype, _, ⟨hnodup, hlt, rfl⟩, made, hmade, rfl⟩

/-- **A product** is accepted for two matrices of one kind that have as many columns and rows. -/
theorem matMul_eq_ok {lhs rhs : NodeId} : matMul g name lhs rhs = .ok draft ↔
    ∃ kind rows inner columns, g.typeOf lhs = .ok ⟨kind, [rows, inner]⟩ ∧
      g.typeOf rhs = .ok ⟨kind, [inner, columns]⟩ ∧ draft = {
        kind := .matMul
        operands := [lhs, rhs]
        result := .ofType ⟨kind, [rows, columns]⟩ } := by
  simp only [matMul, bind_eq_ok, check_eq_ok, pure_eq_ok, Prod.exists, Graph.matrixDims_eq_ok,
    Graph.kind_eq_ok]
  constructor
  · rintro ⟨rows, inner, ⟨kind, hl⟩, inner', columns, ⟨kind', hr⟩, elements, ⟨_, hk⟩, actual,
      ⟨_, ha⟩, _, hkinds, _, hinner, rfl⟩
    obtain rfl := Graph.kind_eq_of_typeOf hl hk
    obtain rfl := Graph.kind_eq_of_typeOf hr ha
    subst hkinds hinner
    exact ⟨_, _, _, _, hl, hr, rfl⟩
  · rintro ⟨kind, rows, inner, columns, hl, hr, rfl⟩
    exact ⟨rows, inner, ⟨kind, hl⟩, inner, columns, ⟨kind, hr⟩, kind, ⟨_, hl⟩, kind, ⟨_, hr⟩, (),
      rfl, (), rfl, rfl⟩

/-- **A broadcast** at an `axis` of the new shape, or at its end, is accepted where the shape of its
operand fits into the new one (`FitsInto`). -/
theorem broadcast_eq_ok {input : NodeId} {dims : List Nat} {axis : Nat}
    (haxis : axis ≤ dims.length) : broadcast g name input dims axis = .ok draft ↔
    ∃ type, g.typeOf input = .ok type ∧
      FitsInto type.dims dims axis ∧ draft = {
        kind := .broadcast axis
        operands := [input]
        result := .ofType ⟨type.kind, dims⟩ } := by
  simp only [broadcast, fits, haxis, true_or, if_true, bind_eq_ok, Except.ok.injEq, check_eq_ok,
    pure_eq_ok, exists_eq_left', fitsAt_eq_true]
  constructor
  · rintro ⟨type, htype, _, hfits, rfl⟩
    exact ⟨type, htype, hfits, rfl⟩
  · rintro ⟨type, htype, hfits, rfl⟩
    exact ⟨type, htype, (), hfits, rfl⟩

/-- **An element-wise operation** is accepted for two operands of one type. -/
theorem arithmetic_eq_ok (hg : g.Indexed) {op : ArithmeticOp} {lhs rhs : NodeId}
    {left right : ValueType} (hl : g.typeOf lhs = .ok left) (hr : g.typeOf rhs = .ok right) :
    arithmetic g name op lhs rhs = .ok draft ↔ left = right ∧ ∃ ref, g.resolve ref = .ok left ∧
      draft = { kind := .arithmetic op, operands := [lhs, rhs], result := .ofRef ref } := by
  obtain ⟨l, hnode, hleft⟩ := Graph.typeOf_eq_ok.1 hl
  obtain ⟨r, hnode', hright⟩ := Graph.typeOf_eq_ok.1 hr
  simp only [arithmetic, bind_eq_ok, hnode, hnode', Except.ok.injEq, exists_eq_left',
    hg.ref_eq_iff hleft hright]
  constructor
  · intro h
    split at h
    · next heq =>
      cases h
      exact ⟨heq, l.type, hleft, rfl⟩
    · simp only [bind_eq_ok] at h
      obtain ⟨_, -, _, -, h⟩ := h
      cases h
  · rintro ⟨rfl, ref, href, rfl⟩
    obtain rfl := (hg.ref_eq_iff hleft href).2 rfl
    rw [if_pos rfl]
    rfl

end TensorGraph.Draft
