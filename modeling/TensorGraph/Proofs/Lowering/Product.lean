import TensorGraph.Proofs.Load.Typing
import TensorGraph.Proofs.Lowering.Elementwise
import TensorGraph.Proofs.Lowering.Options

/-! # Lowered products

A general product of matrices is lowered to a product of its two operands, each of them transposed
first if its flag says so, and to a sum of this product and the addend, if there is one. The names
of the operands are resolved before anything else is added. So the product can be lowered exactly
when the types of what the names stand for fit together, and the nodes that are added are known. -/

namespace TensorGraph

open Onnx (NodeRecord)

namespace Lowering

/-! ### The products that can be lowered -/

/-- The shape of a matrix that has `rows` and `columns` once it is transposed, if `flip` asks for
it. -/
def oriented (flip : Bool) (rows columns : Nat) : List Nat :=
  if flip then [columns, rows] else [rows, columns]

/-- The addend of a product has its shape, or may be broadcast to it if `broadcast` is on: it has at
most as many dimensions, and each of them is 1 or that of the product at the same place from the
end. -/
def FitsProduct (broadcast : Bool) (dims : List Nat) (rows columns : Nat) : Prop :=
  dims = [rows, columns] ∨ broadcast = true ∧ dims.length ≤ 2 ∧
    ∀ place, dimFromEnd dims place = 1 ∨ dimFromEnd dims place = dimFromEnd [rows, columns] place

/-- A general product: the names of its operands and its dimensions. -/
structure GeneralProduct where
  kind : ElementKind
  lhs : String
  rhs : String
  rows : Nat
  inner : Nat
  columns : Nat
  /-- The name and the shape of the addend. -/
  addend : Option (String × List Nat)

/-- The names are the inputs of the `node`, and what they stand for (`typeOf?`) has the dimensions
of the product. -/
structure GeneralProduct.Reads (p : GeneralProduct) (options : GemmOptions) (node : NodeRecord)
    (s : Workspace) : Prop where
  lhs : node.input? 0 = some p.lhs
  rhs : node.input? 1 = some p.rhs
  addend : node.input? 2 = p.addend.map Prod.fst
  typeOf_lhs : s.typeOf? p.lhs = some ⟨p.kind, oriented options.transA p.rows p.inner⟩
  typeOf_rhs : s.typeOf? p.rhs = some ⟨p.kind, oriented options.transB p.inner p.columns⟩
  typeOf_addend : ∀ name dims, p.addend = some (name, dims) →
    s.typeOf? name = some ⟨p.kind, dims⟩ ∧ FitsProduct options.broadcast dims p.rows p.columns

variable {s t u : Workspace} {node : NodeRecord} {name : String} {id : NodeId}

theorem oriented_injective {flip : Bool} {rows columns rows' columns' : Nat}
    (h : oriented flip rows columns = oriented flip rows' columns') :
    rows = rows' ∧ columns = columns' := by
  cases flip <;> cases h <;> exact ⟨rfl, rfl⟩

/-- A node reads one product at most. -/
theorem GeneralProduct.Reads.eq {p q : GeneralProduct} {options : GemmOptions}
    (hp : p.Reads options node s) (hq : q.Reads options node s) : p = q := by
  obtain ⟨kind, lhs, rhs, rows, inner, columns, addend⟩ := p
  obtain ⟨kind', lhs', rhs', rows', inner', columns', addend'⟩ := q
  obtain rfl : lhs = lhs' := Option.some.inj (hp.lhs.symm.trans hq.lhs)
  obtain rfl : rhs = rhs' := Option.some.inj (hp.rhs.symm.trans hq.rhs)
  obtain ⟨rfl, hl⟩ := ValueType.mk.inj (Option.some.inj (hp.typeOf_lhs.symm.trans hq.typeOf_lhs))
  obtain ⟨-, hr⟩ := ValueType.mk.inj (Option.some.inj (hp.typeOf_rhs.symm.trans hq.typeOf_rhs))
  obtain ⟨rfl, rfl⟩ := oriented_injective hl
  obtain ⟨-, rfl⟩ := oriented_injective hr
  obtain rfl : addend = addend' := by
    have hnames : addend.map Prod.fst = addend'.map Prod.fst := hp.addend.symm.trans hq.addend
    cases addend with
    | none => exact (Option.map_eq_none_iff.1 hnames.symm).symm
    | some third =>
      obtain ⟨⟨_, dims'⟩, hthird', rfl⟩ := Option.map_eq_some_iff.1 hnames.symm
      have htype := (hp.typeOf_addend _ _ rfl).1.symm.trans (hq.typeOf_addend _ _ hthird').1
      cases htype
      exact hthird'.symm
  rfl

/-! ### Matrix operands -/

/-- A value, transposed if asked for: the value itself, or a transposition of it by `orient`. -/
inductive Oriented (name : String) (source : NodeId) (type : ValueType) :
    Bool → NodeId → Workspace → Workspace → Prop
  | kept {s : Workspace} : Oriented name source type false source s s
  | flipped {id : NodeId} {s t : Workspace} (hrank : type.dims.length = 2)
      (hc : Created (⟨name, .transpose [1, 0], [source], ·⟩)
        ⟨type.kind, permuteDims type.dims [1, 0]⟩ id s t) :
      Oriented name source type true id s t

section Oriented

variable {source : NodeId} {type : ValueType} {kind : ElementKind} {rows columns : Nat}
  {flip : Bool}

theorem oriented_of_ok (hg : s.graph.Indexed) (hsource : s.graph.typeOf source = .ok type)
    (h : orient flip name source s = .ok id t) : Oriented name source type flip id s t := by
  cases flip with
  | false =>
    obtain ⟨rfl, rfl⟩ := Step.pure_eq_ok.1 h
    exact .kept
  | true =>
    obtain ⟨type', hc, htype, hrank⟩ := created_transpose hg h
    obtain rfl := Graph.eq_of_typeOf hsource htype
    exact .flipped hrank hc

namespace Oriented

variable (h : Oriented name source type flip id s t)
include h

theorem ext : s.graph.Extends t.graph := by
  cases h with
  | kept => exact .refl _
  | flipped _ hc => exact hc.ext

theorem indexed (hg : s.graph.Indexed) : t.graph.Indexed := by
  cases h with
  | kept => exact hg
  | flipped _ hc => exact hc.indexed

theorem has (hsource : s.graph.typeOf source = .ok type) : t.graph.Has id := by
  cases h with
  | kept => exact ⟨type, hsource⟩
  | flipped _ hc => exact ⟨_, hc.typeOf_node⟩

/-- The result has given dimensions exactly when the value has them in the order asked for
(`oriented`). -/
theorem typeOf_iff (hsource : s.graph.typeOf source = .ok type) :
    t.graph.typeOf id = .ok ⟨kind, [rows, columns]⟩ ↔
      type = ⟨kind, oriented flip rows columns⟩ := by
  cases h with
  | kept => rw [hsource, Except.ok.injEq]; rfl
  | flipped hrank hc =>
    obtain ⟨kind', dims⟩ := type
    match dims, hrank with
    | [d, e], _ =>
      rw [hc.typeOf_node]
      simp only [permuteDims, oriented, Except.ok.injEq, ValueType.mk.injEq, if_true]
      simp [and_comm]

end Oriented

/-- A matrix can be transposed by `orient`, so it can be brought to the orientation that is asked
for. -/
theorem exists_orient (name : String)
    (hsource : s.graph.typeOf source = .ok ⟨kind, oriented flip rows columns⟩) :
    ∃ id t, orient flip name source s = .ok id t := by
  cases flip with
  | false => exact ⟨source, s, rfl⟩
  | true =>
    exact exists_create name (Draft.transpose · source [1, 0])
      (Draft.transpose_eq_ok.2 ⟨_, hsource, rfl, rfl⟩)

end Oriented

/-! ### The addend -/

section Addend

variable {product addend : NodeId} {kind kind' : ElementKind} {rows columns : Nat}
  {dims : List Nat} {broadcast : Bool}

theorem fitsProduct_iff : FitsProduct broadcast dims rows columns ↔ dims = [rows, columns] ∨
    broadcast = true ∧ FitsInto dims [rows, columns] (2 - dims.length) := by
  have hends : dims.length ≤ 2 → (FitsInto dims [rows, columns] (2 - dims.length) ↔ ∀ place,
      dimFromEnd dims place = 1 ∨ dimFromEnd dims place = dimFromEnd [rows, columns] place) :=
    fun hrank => fitsInto_end_iff hrank
  unfold FitsProduct
  constructor
  · rintro (hsame | ⟨hbroadcast, hrank, hall⟩)
    · exact .inl hsame
    · exact .inr ⟨hbroadcast, (hends hrank).2 hall⟩
  · rintro (hsame | ⟨hbroadcast, hfits⟩)
    · exact .inl hsame
    · have hrank : dims.length ≤ 2 := by
        have hle := hfits.rank
        simp only [List.length_cons, List.length_nil] at hle
        omega
      exact .inr ⟨hbroadcast, hrank, (hends hrank).1 hfits⟩

/-- An addend that fits (`FitsProduct`) is brought to the shape of the product by `fitAddend`. -/
theorem exists_fitAddend (node : NodeRecord) (hg : s.graph.Indexed)
    (hproduct : s.graph.typeOf product = .ok ⟨kind', [rows, columns]⟩)
    (haddend : s.graph.typeOf addend = .ok ⟨kind, dims⟩)
    (hfits : FitsProduct broadcast dims rows columns) :
    ∃ id t, fitAddend node broadcast product addend s = .ok id t ∧
      Fitted (node.part "c_broadcast") addend ⟨kind, dims⟩ [rows, columns] (2 - dims.length)
        id s t := by
  simp only [fitAddend, Step.bind_eq_ok, dims_eq_ok, Graph.dims_eq_ok]
  by_cases hsame : dims = [rows, columns]
  · exact ⟨addend, s, ⟨_, _, ⟨⟨kind', hproduct⟩, rfl⟩, _, _, ⟨⟨kind, haddend⟩, rfl⟩,
      by rw [if_neg (by simp [hsame])]; rfl⟩, .same hsame⟩
  · obtain ⟨hbroadcast, hinto⟩ := (fitsProduct_iff.1 hfits).resolve_left hsame
    obtain ⟨id, t, hid⟩ := exists_create (node.part "c_broadcast")
      (Draft.broadcast · (node.part "c_broadcast") addend [rows, columns] (2 - dims.length))
      ((Draft.broadcast_eq_ok hinto.axis_le).2 ⟨_, haddend, hinto, rfl⟩)
    obtain ⟨-, hc⟩ := created_broadcast hinto.axis_le hg haddend hid
    refine ⟨id, t, ⟨_, _, ⟨⟨kind', hproduct⟩, rfl⟩, _, _, ⟨⟨kind, haddend⟩, rfl⟩, ?_⟩,
      .stretched hsame hc⟩
    rw [if_pos ⟨hbroadcast, hsame⟩]
    simp only [Step.bind_eq_ok, lift_eq_ok, mapError_eq_ok, alignment_eq_ok]
    have hrank := hinto.rank
    simp only [List.length_cons, List.length_nil] at hrank
    exact ⟨_, s, ⟨⟨by simp only [List.length_cons, List.length_nil]; omega, rfl⟩, rfl⟩, hid⟩

/-- What becomes of the addend has its kind; if it has the shape of the product, the addend fitted
(`FitsProduct`). -/
theorem fitted_of_fitAddend (hg : s.graph.Indexed)
    (hproduct : s.graph.typeOf product = .ok ⟨kind', [rows, columns]⟩)
    (haddend : s.graph.typeOf addend = .ok ⟨kind, dims⟩)
    (h : fitAddend node broadcast product addend s = .ok id t) :
    t.graph.Indexed ∧ s.graph.Extends t.graph ∧ ∃ into, t.graph.typeOf id = .ok ⟨kind, into⟩ ∧
      (into = [rows, columns] → FitsProduct broadcast dims rows columns ∧
        Fitted (node.part "c_broadcast") addend ⟨kind, dims⟩ into (2 - dims.length) id s t) := by
  simp only [fitAddend, Step.bind_eq_ok, dims_eq_ok, Graph.dims_eq_ok] at h
  obtain ⟨_, _, ⟨⟨_, hproduct'⟩, rfl⟩, _, r, ⟨⟨_, haddend'⟩, rfl⟩, h⟩ := h
  cases Graph.eq_of_typeOf hproduct hproduct'
  cases Graph.eq_of_typeOf haddend haddend'
  by_cases hbroadcast : broadcast = true ∧ dims ≠ [rows, columns]
  · rw [if_pos hbroadcast] at h
    simp only [Step.bind_eq_ok, lift_eq_ok, mapError_eq_ok, alignment_eq_ok] at h
    obtain ⟨_, _, ⟨⟨-, rfl⟩, rfl⟩, h⟩ := h
    obtain ⟨hfits, hc⟩ := created_broadcast (Nat.sub_le _ _) hg haddend h
    exact ⟨hc.indexed, hc.ext, _, hc.typeOf_node, fun _ =>
      ⟨fitsProduct_iff.2 (.inr ⟨hbroadcast.1, hfits⟩), .stretched hbroadcast.2 hc⟩⟩
  · rw [if_neg hbroadcast] at h
    obtain ⟨rfl, rfl⟩ := Step.pure_eq_ok.1 h
    exact ⟨hg, .refl _, dims, haddend, fun hsame => ⟨.inl hsame, .same rfl⟩⟩

end Addend

/-! ### Products -/

/-- The nodes that a product adds, for operands that have graph values: a product of two matrices
that were transposed if asked for (`Oriented`), and a sum if there is an addend. -/
inductive GeneralProduct.Made (p : GeneralProduct) (options : GemmOptions) (node : NodeRecord)
    (a b : NodeId) : Option NodeId → NodeId → Workspace → Workspace → Prop
  | plain {a' b' id : NodeId} {s u v t : Workspace} (haddend : p.addend = none)
      (hl : Oriented (node.part "a_transposed") a ⟨p.kind, oriented options.transA p.rows p.inner⟩
        options.transA a' s u)
      (hr : Oriented (node.part "b_transposed") b
        ⟨p.kind, oriented options.transB p.inner p.columns⟩ options.transB b' u v)
      (hc : Created (⟨node.title, .matMul, [a', b'], ·⟩) ⟨p.kind, [p.rows, p.columns]⟩ id v t) :
      Made p options node a b none id s t
  | sum {a' b' c product addend id : NodeId} {s u v w x t : Workspace} {name : String}
      {dims : List Nat} (haddend : p.addend = some (name, dims))
      (hl : Oriented (node.part "a_transposed") a ⟨p.kind, oriented options.transA p.rows p.inner⟩
        options.transA a' s u)
      (hr : Oriented (node.part "b_transposed") b
        ⟨p.kind, oriented options.transB p.inner p.columns⟩ options.transB b' u v)
      (hp : Created (⟨node.part "matmul", .matMul, [a', b'], ·⟩) ⟨p.kind, [p.rows, p.columns]⟩
        product v w)
      (hf : Fitted (node.part "c_broadcast") c ⟨p.kind, dims⟩ [p.rows, p.columns] (2 - dims.length)
        addend w x)
      (hc : Created (⟨node.title, .arithmetic .add, [product, addend], ·⟩)
        ⟨p.kind, [p.rows, p.columns]⟩ id x t) :
      Made p options node a b (some c) id s t

theorem GeneralProduct.Made.typeOf_id {p : GeneralProduct} {options : GemmOptions} {a b : NodeId}
    {c : Option NodeId} (h : p.Made options node a b c id s t) :
    t.graph.typeOf id = .ok ⟨p.kind, [p.rows, p.columns]⟩ := by
  cases h with
  | plain _ _ _ hc => exact hc.typeOf_node
  | sum _ _ _ _ _ hc => exact hc.typeOf_node

theorem GeneralProduct.Made.ext {p : GeneralProduct} {options : GemmOptions} {a b : NodeId}
    {c : Option NodeId} (h : p.Made options node a b c id s t) : s.graph.Extends t.graph := by
  cases h with
  | plain _ hl hr hc => exact hl.ext.trans (hr.ext.trans hc.ext)
  | sum _ hl hr hp hf hc => exact hl.ext.trans (hr.ext.trans (hp.ext.trans (hf.ext.trans hc.ext)))

/-- The names `lhs` and `rhs`, and `third` if it is given, are resolved one after the other. -/
def Resolved (lhs rhs : String) (third : Option String) (a b : NodeId) (c : Option NodeId)
    (s u : Workspace) : Prop :=
  ∃ r r', value lhs s = .ok a r ∧ value rhs r = .ok b r' ∧ third.mapM value r' = .ok c u

section Resolved

variable {lhs rhs : String} {third : Option String} {a b : NodeId} {c : Option NodeId}

/-- What names are resolved to (`Resolved`) has the types of what they stood for. -/
theorem Resolved.typed (h : Resolved lhs rhs third a b c s u) (hs : s.Sound) :
    u.Sound ∧ (∃ type, s.typeOf? lhs = some type ∧ u.graph.typeOf a = .ok type) ∧
      (∃ type, s.typeOf? rhs = some type ∧ u.graph.typeOf b = .ok type) ∧
      ((third = none ∧ c = none) ∨ ∃ name id type, third = some name ∧ c = some id ∧
        s.typeOf? name = some type ∧ u.graph.typeOf id = .ok type) := by
  obtain ⟨r, r', ha, hb, hc⟩ := h
  obtain ⟨left, hleft, -, hl, hsr⟩ := typed_of_value hs ha
  obtain ⟨right, hright, hext, hr, hrr'⟩ := typed_of_value hsr.right hb
  have hsr' := hsr.trans hrr'
  have hright' := (hsr.types rhs trivial).trans hright
  rcases mapM_value_eq_ok.1 hc with ⟨rfl, rfl, rfl⟩ | ⟨name, id, rfl, rfl, hid⟩
  · exact ⟨hrr'.right, ⟨left, hleft, hext.typeOf_eq hl⟩, ⟨right, hright', hr⟩, .inl ⟨rfl, rfl⟩⟩
  · obtain ⟨type, htype, hext', hid', hr'u⟩ := typed_of_value hrr'.right hid
    exact ⟨hr'u.right, ⟨left, hleft, hext'.typeOf_eq (hext.typeOf_eq hl)⟩,
      ⟨right, hright', hext'.typeOf_eq hr⟩,
      .inr ⟨name, id, type, rfl, rfl, (hsr'.types name trivial).trans htype, hid'⟩⟩

/-- Names that stand for something (`typeOf?`) can be resolved. -/
theorem exists_resolved (hs : s.Sound) {left right : ValueType} (hleft : s.typeOf? lhs = some left)
    (hright : s.typeOf? rhs = some right)
    (hthird : ∀ name, third = some name → ∃ type, s.typeOf? name = some type) :
    ∃ a b c u, Resolved lhs rhs third a b c s u := by
  obtain ⟨a, r, ha, -, -, hsr⟩ := value_of_typeOf? hs hleft
  obtain ⟨b, r', hb, -, -, hrr'⟩ :=
    value_of_typeOf? hsr.right ((hsr.types rhs trivial).symm.trans hright)
  cases third with
  | none => exact ⟨a, b, none, r', r, r', ha, hb, mapM_value_eq_ok.2 (.inl ⟨rfl, rfl, rfl⟩)⟩
  | some name =>
    obtain ⟨type, htype⟩ := hthird name rfl
    obtain ⟨id, u, hid, -⟩ := value_of_typeOf? hrr'.right
      (((hsr.trans hrr').types name trivial).symm.trans htype)
    exact ⟨a, b, some id, u, r, r', ha, hb, mapM_value_eq_ok.2 (.inr ⟨name, id, rfl, rfl, hid⟩)⟩

end Resolved

/-- Two matrices are multiplied (`orient`, `matMul`), and an addend is added if there is one. -/
def Multiplied (options : GemmOptions) (node : NodeRecord) (a b : NodeId) (c : Option NodeId)
    (id : NodeId) (s t : Workspace) : Prop :=
  match c with
  | none => (liftM (Build.matMul node.title a b) : Lowering NodeId) s = .ok id t
  | some c => ∃ product u addend v,
      (liftM (Build.matMul (node.part "matmul") a b) : Lowering NodeId) s = .ok product u ∧
      fitAddend node options.broadcast product c u = .ok addend v ∧
      (liftM (Build.arithmetic node.title .add product addend) : Lowering NodeId) v = .ok id t

/-- The steps by which `gemm` lowers a product. -/
theorem gemm_eq_ok {opset : Int64} : gemm opset node s = .ok () t ↔
    ∃ options lhs rhs a b c u a' v b' w id x out,
      GemmOptions.read node.view opset = .ok options ∧
      (node.input? 0 = some lhs ∧ node.input? 1 = some rhs) ∧
      Resolved lhs rhs (node.input? 2) a b c s u ∧
      orient options.transA (node.part "a_transposed") a u = .ok a' v ∧
      orient options.transB (node.part "b_transposed") b v = .ok b' w ∧
      Multiplied options node a' b' c id w x ∧
      node.output = .ok out ∧ t = { x with table := x.table.bind out id } := by
  unfold gemm
  simp only [Step.bind_eq_ok, liftAttribute_eq_ok, inputValue_eq_ok]
  constructor
  · rintro ⟨options, _, ⟨hoptions, rfl⟩, a, r, ⟨lhs, hlhs, ha⟩, b, r', ⟨rhs, hrhs, hb⟩, c, u, hc,
      a', v, ha', b', w, hb', h⟩
    have hresolved : Resolved lhs rhs (node.input? 2) a b c _ u := ⟨r, r', ha, hb, hc⟩
    refine ⟨options, lhs, rhs, a, b, c, u, a', v, b', w, ?_⟩
    cases c with
    | none =>
      obtain ⟨id, x, hid, h⟩ := Step.bind_eq_ok.1 h
      obtain ⟨out, hout, rfl⟩ := bindOutput_eq_ok.1 h
      exact ⟨id, x, out, hoptions, ⟨hlhs, hrhs⟩, hresolved, ha', hb', hid, hout, rfl⟩
    | some c =>
      simp only [Step.bind_eq_ok, bindOutput_eq_ok] at h
      obtain ⟨product, y, hproduct, addend, z, haddend, id, x, hid, out, hout, rfl⟩ := h
      exact ⟨id, x, out, hoptions, ⟨hlhs, hrhs⟩, hresolved, ha', hb',
        ⟨product, y, addend, z, hproduct, haddend, hid⟩, hout, rfl⟩
  · rintro ⟨options, lhs, rhs, a, b, c, u, a', v, b', w, id, x, out, hoptions, ⟨hlhs, hrhs⟩,
      ⟨r, r', ha, hb, hc⟩, ha', hb', h, hout, rfl⟩
    refine ⟨options, s, ⟨hoptions, rfl⟩, a, r, ⟨lhs, hlhs, ha⟩, b, r', ⟨rhs, hrhs, hb⟩, c, u, hc,
      a', v, ha', b', w, hb', ?_⟩
    cases c with
    | none => exact Step.bind_eq_ok.2 ⟨id, x, h, bindOutput_eq_ok.2 ⟨out, hout, rfl⟩⟩
    | some c =>
      obtain ⟨product, y, addend, z, hproduct, haddend, hid⟩ := h
      simp only [Step.bind_eq_ok, bindOutput_eq_ok]
      exact ⟨product, y, hproduct, addend, z, haddend, id, x, hid, out, hout, rfl⟩

/-- **What a lowered product is made of**: the node reads a product (`Reads`), and its nodes are
added to the operands that the names are resolved to (`Made`). -/
theorem made_of_gemm {opset : Int64} {options : GemmOptions} (hs : s.Sound)
    (hoptions : GemmOptions.read node.view opset = .ok options) (h : gemm opset node s = .ok () t) :
    ∃ p : GeneralProduct, ∃ a b c u id v out, p.Reads options node s ∧
      Resolved p.lhs p.rhs (p.addend.map Prod.fst) a b c s u ∧ p.Made options node a b c id u v ∧
        node.output = .ok out ∧ t = { v with table := v.table.bind out id } := by
  obtain ⟨_, lhs, rhs, a, b, c, u, a', v, b', w, id, x, out, hread, ⟨hlhs, hrhs⟩, hresolved, ha',
    hb', hmul, hout, rfl⟩ := gemm_eq_ok.1 h
  cases hoptions.symm.trans hread
  obtain ⟨hu, ⟨left, hleft, hl⟩, ⟨right, hright, hr⟩, hthird⟩ := hresolved.typed hs
  have ho := oriented_of_ok hu.indexed hl ha'
  have hv := ho.indexed hu.indexed
  have ho' := oriented_of_ok hv (ho.ext.typeOf_eq hr) hb'
  have hw := ho'.indexed hv
  -- the matrices that are multiplied tell which dimensions the operands have
  have htypes : ∀ {kind rows inner columns}, w.graph.typeOf a' = .ok ⟨kind, [rows, inner]⟩ →
      w.graph.typeOf b' = .ok ⟨kind, [inner, columns]⟩ →
      left = ⟨kind, oriented options.transA rows inner⟩ ∧
        right = ⟨kind, oriented options.transB inner columns⟩ := by
    intro kind rows inner columns hl' hr'
    obtain ⟨type, htype⟩ := ho.has hl
    obtain rfl := Graph.eq_of_typeOf hl' (ho'.ext.typeOf_eq htype)
    exact ⟨(ho.typeOf_iff hl).1 htype, (ho'.typeOf_iff (ho.ext.typeOf_eq hr)).1 hr'⟩
  rcases hthird with ⟨hnone, rfl⟩ | ⟨name, c', ⟨kind', dims⟩, hsome, rfl, htype, hc'⟩
  · obtain ⟨kind, rows, inner, columns, hl', hr', hcreated⟩ := created_matMul hw hmul
    obtain ⟨rfl, rfl⟩ := htypes hl' hr'
    refine ⟨⟨kind, lhs, rhs, rows, inner, columns, none⟩, a, b, none, u, id, x, out,
      ⟨hlhs, hrhs, hnone, hleft, hright, nofun⟩, ?_, .plain rfl ho ho' hcreated, hout, rfl⟩
    rwa [hnone] at hresolved
  · obtain ⟨product, y, addend, z, hproduct, haddend, hid⟩ := hmul
    obtain ⟨kind, rows, inner, columns, hl', hr', hp⟩ := created_matMul hw hproduct
    obtain ⟨rfl, rfl⟩ := htypes hl' hr'
    have hc := hp.ext.typeOf_eq (ho'.ext.typeOf_eq (ho.ext.typeOf_eq hc'))
    obtain ⟨hz, hext, into, hinto, hfits⟩ :=
      fitted_of_fitAddend hp.indexed hp.typeOf_node hc haddend
    obtain ⟨heq, hcreated⟩ := created_arithmetic hz (hext.typeOf_eq hp.typeOf_node) hinto hid
    obtain ⟨rfl, rfl⟩ := ValueType.mk.inj heq
    obtain ⟨hfitsProduct, hfitted⟩ := hfits rfl
    refine ⟨⟨kind, lhs, rhs, rows, inner, columns, some (name, dims)⟩, a, b, some c', u, id, x, out,
      ⟨hlhs, hrhs, hsome, hleft, hright, ?_⟩, ?_, .sum rfl ho ho' hp hfitted hcreated, hout, rfl⟩
    · rintro _ _ ⟨⟩
      exact ⟨htype, hfitsProduct⟩
    · rwa [hsome] at hresolved

/-- Two matrices whose inner dimensions agree can be multiplied, and an addend that fits
(`FitsProduct`) can be added to their product. -/
theorem exists_multiplied (node : NodeRecord) {options : GemmOptions} {a b : NodeId}
    {kind : ElementKind} {rows inner columns : Nat} (hg : s.graph.Indexed)
    (ha : s.graph.typeOf a = .ok ⟨kind, [rows, inner]⟩)
    (hb : s.graph.typeOf b = .ok ⟨kind, [inner, columns]⟩) {c : Option NodeId}
    (hc : ∀ id, c = some id → ∃ dims, s.graph.typeOf id = .ok ⟨kind, dims⟩ ∧
      FitsProduct options.broadcast dims rows columns) :
    ∃ id t, Multiplied options node a b c id s t := by
  have hmul : ∀ name, ∃ id t, (liftM (Build.matMul name a b) : Lowering NodeId) s = .ok id t :=
    fun name => exists_create name (Draft.matMul · name a b)
      (Draft.matMul_eq_ok.2 ⟨_, _, _, _, ha, hb, rfl⟩)
  cases c with
  | none => exact hmul node.title
  | some c =>
    obtain ⟨dims, hdims, hfits⟩ := hc c rfl
    obtain ⟨product, u, hproduct⟩ := hmul (node.part "matmul")
    obtain ⟨_, _, _, _, ha', hb', hp⟩ := created_matMul hg hproduct
    cases Graph.eq_of_typeOf ha' ha
    cases Graph.eq_of_typeOf hb' hb
    have hdims' := hp.ext.typeOf_eq hdims
    obtain ⟨addend, v, haddend, hfitted⟩ :=
      exists_fitAddend node hp.indexed hp.typeOf_node hdims' hfits
    have hl := hfitted.ext.typeOf_eq hp.typeOf_node
    obtain ⟨found, -, hfound⟩ := Graph.typeOf_eq_ok.1 hl
    obtain ⟨id, t, hid⟩ := exists_create node.title
      (Draft.arithmetic · node.title .add product addend)
      ((Draft.arithmetic_eq_ok (hfitted.indexed hp.indexed) hl (hfitted.typeOf_id hdims')).2
        ⟨rfl, found.type, hfound, rfl⟩)
    exact ⟨id, t, product, u, addend, v, hproduct, haddend, hid⟩

/-- A product that the node reads (`Reads`) can be lowered by `gemm`. -/
theorem exists_gemm {opset : Int64} {options : GemmOptions} (hs : s.Sound)
    (hoptions : GemmOptions.read node.view opset = .ok options) {p : GeneralProduct}
    (hp : p.Reads options node s) {out : String} (hout : node.output = .ok out) :
    ∃ t, gemm opset node s = .ok () t := by
  have hthird : ∀ name, node.input? 2 = some name → ∃ dims, s.typeOf? name = some ⟨p.kind, dims⟩ ∧
      FitsProduct options.broadcast dims p.rows p.columns := by
    intro name hname
    rw [hp.addend, Option.map_eq_some_iff] at hname
    obtain ⟨⟨_, dims⟩, haddend, rfl⟩ := hname
    exact ⟨dims, hp.typeOf_addend _ _ haddend⟩
  obtain ⟨a, b, c, u, hresolved⟩ := exists_resolved hs hp.typeOf_lhs hp.typeOf_rhs fun name hname =>
    let ⟨_, htype, _⟩ := hthird name hname
    ⟨_, htype⟩
  obtain ⟨hu, ⟨left, hleft, hl⟩, ⟨right, hright, hr⟩, hc⟩ := hresolved.typed hs
  cases hp.typeOf_lhs.symm.trans hleft
  cases hp.typeOf_rhs.symm.trans hright
  obtain ⟨a', v, ha'⟩ := exists_orient (node.part "a_transposed") hl
  have ho := oriented_of_ok hu.indexed hl ha'
  have hv := ho.indexed hu.indexed
  have hr' := ho.ext.typeOf_eq hr
  obtain ⟨b', w, hb'⟩ := exists_orient (node.part "b_transposed") hr'
  have ho' := oriented_of_ok hv hr' hb'
  have hfits : ∀ id, c = some id → ∃ dims, w.graph.typeOf id = .ok ⟨p.kind, dims⟩ ∧
      FitsProduct options.broadcast dims p.rows p.columns := by
    rintro id rfl
    rcases hc with ⟨-, hnone⟩ | ⟨name, _, type, hname, hid, htype, hid'⟩
    · cases hnone
    · cases hid
      obtain ⟨dims, hdims, hfits⟩ := hthird name hname
      cases hdims.symm.trans htype
      exact ⟨dims, ho'.ext.typeOf_eq (ho.ext.typeOf_eq hid'), hfits⟩
  obtain ⟨id, x, hmul⟩ := exists_multiplied node (ho'.indexed hv)
    (ho'.ext.typeOf_eq ((ho.typeOf_iff hl).2 rfl)) ((ho'.typeOf_iff hr').2 rfl) hfits
  exact ⟨_, gemm_eq_ok.2 ⟨options, p.lhs, p.rhs, a, b, c, u, a', v, b', w, id, x, out, hoptions,
    ⟨hp.lhs, hp.rhs⟩, hresolved, ha', hb', hmul, hout, rfl⟩⟩

/-- **A product can be lowered** by `gemm` exactly when the node reads one and has an output. -/
theorem exists_gemm_iff {opset : Int64} {options : GemmOptions} (hs : s.Sound)
    (hoptions : GemmOptions.read node.view opset = .ok options) :
    (∃ t, gemm opset node s = .ok () t) ↔
      (∃ p : GeneralProduct, p.Reads options node s) ∧ ∃ out, node.output = .ok out := by
  constructor
  · rintro ⟨t, h⟩
    obtain ⟨p, _, _, _, _, _, _, out, hreads, -, -, hout, -⟩ := made_of_gemm hs hoptions h
    exact ⟨⟨p, hreads⟩, out, hout⟩
  · rintro ⟨⟨p, hp⟩, out, hout⟩
    exact exists_gemm hs hoptions hp hout

end Lowering
end TensorGraph
