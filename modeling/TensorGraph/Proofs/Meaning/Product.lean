import TensorGraph.Proofs.Lowering.Product
import TensorGraph.Proofs.Meaning.Elementwise
import Mathlib.Algebra.Ring.Int.Defs

/-! # What a lowered product computes

Over a commutative ring the product of two matrices has sums of products as its elements. A node
that describes a general product names its operands; these are values of the graph already, or
tensors. The value that its output stands for has, at every row and column, the sum of the products
of the elements of the first operand in that row and of the second one in that column, each of them
transposed if asked for, plus the element of the addend that broadcasting puts there. -/

namespace TensorGraph

open Onnx (NodeRecord)
open Finset (range)

universe u

variable {R : Type u} [CommRing R]

/-! ### Arithmetic of a ring -/

/-- Products of matrices, by sums of products of their elements. -/
def Meaning.products (other : Meaning R) : Meaning R
  | .matMul, [[_, inner], _], [x, y] => fun
    | [i, j] => ∑ k ∈ range inner, x [i, k] * y [k, j]
    | _ => 0
  | kind, shapes, values => other kind shapes values

/-- The operations of a ring, with any division `divide`. -/
def ringOperation (divide : R → R → R) : ArithmeticOp → R → R → R
  | .add => (· + ·)
  | .sub => (· - ·)
  | .mul => (· * ·)
  | .div => divide

/-- A reading with the products, broadcasts and element-wise operations of the ring
(`ringOperation`). -/
def Reading.algebra (ρ : Reading R) (divide : R → R → R) : Meaning R :=
  .elementwise (ringOperation divide) (.products ρ.value)

/-- What `name` stands for: the value of its node, or else the elements of its tensor. -/
def Workspace.valueOf (s : Workspace) (ρ : Reading R) (v : NodeId → List Nat → R) (name : String) :
    List Nat → R :=
  match s.table.value? name with
  | some id => v id
  | none =>
    match s.table.tensor? name with
    | some tensor => ρ.element tensor
    | none => fun _ => 0

namespace Lowering

variable {s t u : Workspace} {g : Graph} {node : NodeRecord} {name : String} {id : NodeId}
  {start : Nat} {given : NodeId → List Nat → R} (ρ : Reading R) (divide : R → R → R)

/-! ### Names -/

/-- **A name is resolved by `value` to what it stands for**, and all names go on to stand for the
same. -/
theorem valueOf_of_ok (h : value name s = .ok id t) (hg : t.graph.Extends g)
    (hstart : start ≤ s.graph.nodes.length) :
    let v := (ρ.algebra divide).evaluate g start given
    v id = s.valueOf ρ v name ∧ ∀ other, t.valueOf ρ v other = s.valueOf ρ v other := by
  intro v
  rcases value_eq_ok.1 h with ⟨hvalue, rfl⟩ | ⟨hvalue, rfl, tensor, htensor, rfl⟩
  · exact ⟨by simp only [Workspace.valueOf, hvalue], fun _ => rfl⟩
  · have hnode : g.nodes[s.graph.nodes.length]? = some ⟨name, .parameter tensor, [],
        s.graph.refOf (Draft.parameter tensor).result⟩ :=
      getElem?_of_prefix hg.nodes (by rw [Graph.nodes_add, List.getElem?_concat_length]; rfl)
    have hid : v ⟨s.graph.nodes.length⟩ = ρ.element tensor :=
      Meaning.evaluate_eq _ hnode hstart nofun
    refine ⟨by simp only [Workspace.valueOf, hvalue, htensor, hid], fun other => ?_⟩
    have htensors : (s.table.bind name ⟨s.graph.nodes.length⟩).tensor? other =
        s.table.tensor? other := rfl
    simp only [Workspace.valueOf, htensors, Table.value?_bind]
    by_cases hsame : name = other
    · subst hsame
      simp only [if_pos, hvalue, htensor, hid]
    · simp only [if_neg hsame]

/-- What names stand for in a sound workspace depends on the values before its end only, so
`evaluate` leaves it. -/
theorem valueOf_evaluate (hs : s.Sound) (name : String) :
    s.valueOf ρ ((ρ.algebra divide).evaluate g s.graph.nodes.length given) name =
      s.valueOf ρ given name := by
  unfold Workspace.valueOf
  cases hvalue : s.table.value? name with
  | none => rfl
  | some id =>
    obtain ⟨type, htype⟩ := hs.values hvalue
    exact Meaning.evaluate_of_lt _ (index_lt_of_typeOf htype)

theorem Resolved.valueOf_eq {lhs rhs : String} {third : Option String} {a b : NodeId}
    {c : Option NodeId} (given : NodeId → List Nat → R) (h : Resolved lhs rhs third a b c s u)
    (hg : u.graph.Extends g) (hstart : start ≤ s.graph.nodes.length) :
    let v := (ρ.algebra divide).evaluate g start given
    s.graph.Extends u.graph ∧ v a = s.valueOf ρ v lhs ∧ v b = s.valueOf ρ v rhs ∧
      ∀ name id, third = some name → c = some id → v id = s.valueOf ρ v name := by
  intro v
  obtain ⟨r, r', ha, hb, hc⟩ := h
  have hsr := extends_of_value ha
  have hrr' := extends_of_value hb
  have hr'u : r'.graph.Extends u.graph := by
    rcases mapM_value_eq_ok.1 hc with ⟨-, -, rfl⟩ | ⟨_, _, -, -, hid⟩
    · exact .refl _
    · exact extends_of_value hid
  have hr := hstart.trans hsr.nodes.length_le
  obtain ⟨hva, hother⟩ := valueOf_of_ok ρ divide ha (hrr'.trans (hr'u.trans hg)) hstart
  obtain ⟨hvb, hother'⟩ := valueOf_of_ok ρ divide hb (hr'u.trans hg) hr
  refine ⟨hsr.trans (hrr'.trans hr'u), hva, hvb.trans (hother rhs), ?_⟩
  rintro name id rfl rfl
  rcases mapM_value_eq_ok.1 hc with ⟨hnone, -⟩ | ⟨_, _, hname, hid', hid⟩
  · cases hnone
  · cases hname
    cases hid'
    obtain ⟨hvid, -⟩ := valueOf_of_ok ρ divide hid hg (hr.trans hrr'.nodes.length_le)
    exact hvid.trans ((hother' name).trans (hother name))

/-! ### The nodes of a product -/

/-- A matrix that was transposed if `flip` asks for it has the elements of the other one in that
order. -/
theorem Oriented.evaluate_eq {source : NodeId} {type : ValueType} {flip : Bool}
    (h : Oriented name source type flip id s t) (hsource : s.graph.typeOf source = .ok type)
    (hg : t.graph.Extends g) (hstart : start ≤ s.graph.nodes.length) (i j : Nat) :
    let v := (ρ.algebra divide).evaluate g start given
    v id [i, j] = v source (oriented flip i j) := by
  intro v
  cases h with
  | kept => rfl
  | flipped _ hc =>
    have hindex := index_lt_of_typeOf hsource
    have hid : v id = _ := hc.evaluate_eq hg _ hstart (by simpa using hindex)
    rw [hid]
    rfl

/-- The elements of a product (`matMul`) of two matrices that were transposed if asked for. -/
theorem evaluate_matMul {a b a' b' : NodeId} {kind : ElementKind} {rows inner columns : Nat}
    {flip flip' : Bool} {name' name'' : String} {v w : Workspace} {type : ValueType}
    (hl : Oriented name a ⟨kind, oriented flip rows inner⟩ flip a' s v)
    (hr : Oriented name' b ⟨kind, oriented flip' inner columns⟩ flip' b' v w)
    (h : Created (⟨name'', .matMul, [a', b'], ·⟩) type id w t)
    (ha : s.graph.typeOf a = .ok ⟨kind, oriented flip rows inner⟩)
    (hb : s.graph.typeOf b = .ok ⟨kind, oriented flip' inner columns⟩) (hg : t.graph.Extends g)
    (hstart : start ≤ s.graph.nodes.length) (i j : Nat) :
    let x := (ρ.algebra divide).evaluate g start given
    x id [i, j] = ∑ k ∈ range inner, x a (oriented flip i k) * x b (oriented flip' k j) := by
  intro x
  have hb' := hl.ext.typeOf_eq hb
  have hleft := hr.ext.typeOf_eq ((hl.typeOf_iff ha).2 rfl)
  have hright := (hr.typeOf_iff hb').2 rfl
  have hv := hstart.trans hl.ext.nodes.length_le
  have hw := hv.trans hr.ext.nodes.length_le
  have hid : x id = _ := h.evaluate_eq hg _ hw
    (by simp [index_lt_of_typeOf hleft, index_lt_of_typeOf hright])
  have hsum : x id [i, j] = ∑ k ∈ range inner, x a' [i, k] * x b' [k, j] := by
    rw [hid]
    simp only [List.map_cons, List.map_nil, Graph.shape_eq (hg.typeOf_eq (h.ext.typeOf_eq hleft)),
      Graph.shape_eq (hg.typeOf_eq (h.ext.typeOf_eq hright))]
    rfl
  rw [hsum]
  refine Finset.sum_congr rfl fun k _ => ?_
  exact congrArg₂ (· * ·) (hl.evaluate_eq ρ divide ha (hr.ext.trans (h.ext.trans hg)) hstart i k)
    (hr.evaluate_eq ρ divide hb' (h.ext.trans hg) hv k j)

theorem FitsProduct.fitsInto {broadcast : Bool} {dims : List Nat} {rows columns : Nat}
    (h : FitsProduct broadcast dims rows columns) :
    FitsInto dims [rows, columns] (2 - dims.length) := by
  rcases fitsProduct_iff.1 h with rfl | ⟨-, hfits⟩
  · exact .refl _
  · exact hfits

/-! ### The product that a node describes -/

/-- The element of a product in the row `i` and the column `j`, for what the names stand for. -/
def GeneralProduct.elementAt (p : GeneralProduct) (options : GemmOptions)
    (x : String → List Nat → R) (i j : Nat) : R :=
  (∑ k ∈ range p.inner,
      x p.lhs (oriented options.transA i k) * x p.rhs (oriented options.transB k j))
    + match p.addend with
      | none => 0
      | some (name, dims) => x name (stretch dims (2 - dims.length) [i, j])

/-- The nodes of a product have its elements (`elementAt`), for the values of its operands. -/
theorem GeneralProduct.Made.evaluate_eq {p : GeneralProduct} {options : GemmOptions} {a b : NodeId}
    {c : Option NodeId} (h : p.Made options node a b c id s t)
    (ha : s.graph.typeOf a = .ok ⟨p.kind, oriented options.transA p.rows p.inner⟩)
    (hb : s.graph.typeOf b = .ok ⟨p.kind, oriented options.transB p.inner p.columns⟩)
    (hc : ∀ name dims id, p.addend = some (name, dims) → c = some id →
      s.graph.typeOf id = .ok ⟨p.kind, dims⟩ ∧
        FitsProduct options.broadcast dims p.rows p.columns)
    (hg : t.graph.Extends g) (hstart : start ≤ s.graph.nodes.length) {x : String → List Nat → R}
    (hx : let v := (ρ.algebra divide).evaluate g start given
      v a = x p.lhs ∧ v b = x p.rhs ∧
        ∀ name id, p.addend.map Prod.fst = some name → c = some id → v id = x name)
    {i j : Nat} (hi : i < p.rows) (hj : j < p.columns) :
    (ρ.algebra divide).evaluate g start given id [i, j] = p.elementAt options x i j := by
  obtain ⟨hxa, hxb, hxc⟩ := hx
  cases h with
  | plain haddend hl hr hp =>
    rw [evaluate_matMul ρ divide hl hr hp ha hb hg hstart, hxa, hxb, elementAt, haddend, add_zero]
  | @sum a' b' c product addend _ _ u v w x' _ name dims haddend hl hr hp hf hsum =>
    obtain ⟨htype, hfits⟩ := hc name dims c haddend rfl
    have htype' := hp.ext.typeOf_eq (hr.ext.typeOf_eq (hl.ext.typeOf_eq htype))
    have hstart' := (hstart.trans hl.ext.nodes.length_le).trans
      (hr.ext.nodes.length_le.trans hp.ext.nodes.length_le)
    have hgx := hsum.ext.trans hg
    have hleft := index_lt_of_typeOf (hf.ext.typeOf_eq hp.typeOf_node)
    have hright := index_lt_of_typeOf (hf.typeOf_id htype')
    have hid : (ρ.algebra divide).evaluate g start given id = _ := hsum.evaluate_eq hg _
      (hstart'.trans hf.ext.nodes.length_le) (by simp [hleft, hright])
    rw [hid]
    show _ + _ = _
    rw [evaluate_matMul ρ divide hl hr hp ha hb (hf.ext.trans hgx) hstart, hxa, hxb]
    have hstretched : (ρ.algebra divide).evaluate g start given addend [i, j] =
        (ρ.algebra divide).evaluate g start given c (stretch dims (2 - dims.length) [i, j]) :=
      hf.evaluate_eq (ringOperation divide) (.products ρ.value) hfits.fitsInto htype' hgx hstart'
        (.cons hi (.cons hj .nil))
    have hvc := hxc name c (by rw [haddend]; rfl) rfl
    rw [hstretched, hvc, elementAt, haddend]

/-- **A general product means what it says.** In every sound workspace a node whose attributes have
their types and whose scales are 1 (`ProductAttributes`) is lowered by `gemm` exactly when it reads
a general product (`GeneralProduct.Reads`) and has an output. Its output then stands for a matrix of
the rows and columns of the product, and each element of this matrix is the sum of the products of
elements of the operands, plus the element of the addend that broadcasting puts there (`elementAt`).
The numbers that elements stand for, the division and the values of all nodes before are
arbitrary. -/
theorem gemm_exact (hs : s.Sound) (hattrs : ProductAttributes node.view) (opset : Int64) :
    ((∃ t, gemm opset node s = .ok () t) ↔
      (∃ p : GeneralProduct, p.Reads (.ofAttributes node.view opset) node s) ∧
        ∃ out, node.output = .ok out) ∧
    ∀ t, gemm opset node s = .ok () t → ∃ p : GeneralProduct, ∃ out id,
      p.Reads (.ofAttributes node.view opset) node s ∧ node.output = .ok out ∧
        t.table.value? out = some id ∧ t.graph.typeOf id = .ok ⟨p.kind, [p.rows, p.columns]⟩ ∧
          ∀ {R : Type u} [CommRing R] (ρ : Reading R) (divide : R → R → R)
            (given : NodeId → List Nat → R), ∀ i < p.rows, ∀ j < p.columns,
              (ρ.algebra divide).evaluate t.graph s.graph.nodes.length given id [i, j] =
                p.elementAt (.ofAttributes node.view opset) (s.valueOf ρ given) i j := by
  have hoptions : GemmOptions.read node.view opset = .ok (.ofAttributes node.view opset) :=
    GemmOptions.read_eq hattrs
  refine ⟨exists_gemm_iff hs hoptions, fun t h => ?_⟩
  obtain ⟨p, a, b, c, u, id, v, out, hreads, hresolved, hmade, hout, rfl⟩ :=
    made_of_gemm hs hoptions h
  refine ⟨p, out, id, hreads, hout, by rw [Table.value?_bind, if_pos rfl], hmade.typeOf_id,
    fun ρ divide given i hi j hj => ?_⟩
  obtain ⟨-, ⟨left, hleft, hl⟩, ⟨right, hright, hr⟩, hthird⟩ := hresolved.typed hs
  cases hreads.typeOf_lhs.symm.trans hleft
  cases hreads.typeOf_rhs.symm.trans hright
  obtain ⟨hext, hxa, hxb, hxc⟩ :=
    hresolved.valueOf_eq ρ divide given hmade.ext (Nat.le_refl _)
  simp only [valueOf_evaluate ρ divide hs] at hxa hxb hxc
  refine hmade.evaluate_eq ρ divide hl hr ?_ (.refl _) hext.nodes.length_le ⟨hxa, hxb, hxc⟩ hi hj
  rintro name dims id haddend rfl
  obtain ⟨htype, hfits⟩ := hreads.typeOf_addend name dims haddend
  rcases hthird with ⟨-, hnone⟩ | ⟨_, _, type, hname, hid, htype', hid'⟩
  · cases hnone
  · rw [haddend] at hname
    cases hname
    cases hid
    cases htype.symm.trans htype'
    exact ⟨hid', hfits⟩

/-- A product of a column and a transposed column, with a row as its addend. -/
def outerNode : NodeRecord where
  inputs := ["a", "b", "c"]
  outputs := ["y"]
  opType := "Gemm"
  attributes := [{ name := "transB", type := 2, int := 1 }]

/-- A workspace in which the operands of `outerNode` are known. -/
def outerStart : Workspace where
  graph := .empty "g"
  table := Table.lendAll {} [("a", .zero .float [2, 1]), ("b", .zero .float [3, 1]),
    ("c", .zero .float [3])]

def outerProduct : GeneralProduct := ⟨.float, "a", "b", 2, 1, 3, some ("c", [3])⟩

theorem outerNode_attributes : ProductAttributes outerNode.view := by
  have hmissing : ∀ name ∈ ["alpha", "beta", "transA", "broadcast"],
      outerNode.view.get? name = none := by decide +kernel
  exact {
    alpha := .of_missing (hmissing _ (by simp))
    beta := .of_missing (hmissing _ (by simp))
    transA := .of_missing (hmissing _ (by simp))
    transB := fun record hrecord => by cases hrecord; exact ⟨rfl, trivial⟩
    broadcast := .of_missing (hmissing _ (by simp)) }

theorem outerProduct_reads : outerProduct.Reads ⟨false, true, true⟩ outerNode outerStart := by
  refine ⟨by decide +kernel, by decide +kernel, by decide +kernel, by decide +kernel,
    by decide +kernel, ?_⟩
  rintro _ _ ⟨⟩
  refine ⟨by decide +kernel, .inr ⟨rfl, by decide, fun place => ?_⟩⟩
  cases place with
  | zero => exact .inr rfl
  | succ place => exact .inl (dimFromEnd_of_le (by simp))

/-- The elements of `outerNode` are products of one element of each column, plus those of the
row. -/
theorem gemm_exact_outerNode : ∃ t id, gemm 13 outerNode outerStart = .ok () t ∧
    t.table.value? "y" = some id ∧ t.graph.typeOf id = .ok ⟨.float, [2, 3]⟩ ∧
      ∀ (ρ : Reading Int) (divide : Int → Int → Int) (given : NodeId → List Nat → Int),
        ∀ i < 2, ∀ j < 3, (ρ.algebra divide).evaluate t.graph 0 given id [i, j] =
          outerStart.valueOf ρ given "a" [i, 0] * outerStart.valueOf ρ given "b" [j, 0] +
            outerStart.valueOf ρ given "c" [j] := by
  have hs : outerStart.Sound := ⟨.empty "g", nofun⟩
  have hoptions : GemmOptions.ofAttributes outerNode.view 13 = ⟨false, true, true⟩ := by
    decide +kernel
  obtain ⟨hiff, hall⟩ := gemm_exact.{0} hs outerNode_attributes 13
  rw [hoptions] at hiff hall
  obtain ⟨t, h⟩ := hiff.2 ⟨⟨_, outerProduct_reads⟩, "y", rfl⟩
  obtain ⟨p, out, id, hp, hout, hid, htype, hvalue⟩ := hall t h
  obtain rfl := hp.eq outerProduct_reads
  cases hout
  refine ⟨t, id, h, hid, htype, fun ρ divide given i hi j hj => ?_⟩
  refine (hvalue ρ divide given i hi j hj).trans ?_
  simp [GeneralProduct.elementAt, outerProduct, oriented, stretch]

end Lowering
end TensorGraph
