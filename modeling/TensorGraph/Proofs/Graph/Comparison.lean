import TensorGraph.Proofs.Graph.Order

/-! # Two graphs at a time

Handles of two graphs are comparable when they stand for nodes of the same type. On comparable
operands a rule is refused by both graphs, with the same error, or drafted the same for both: no
rule looks at the places of nodes, and at those of types only to compare them.

Which handles correspond to each other is left open. A **linking** says which pairs of graphs and
handles are meant and that adding drafts that are the same keeps them; construction steps on linked
graphs then agree. -/

namespace TensorGraph

open Step (Agree)

namespace Graph

/-- Type handles that stand for the same type in `g` and `h`. -/
def SameType (g h : Graph) (r r' : TypeRef) : Prop :=
  ∃ type, g.resolve r = .ok type ∧ h.resolve r' = .ok type

/-- Nodes of two graphs that are the same up to the places of operands, related by `ids`, and
types. -/
structure Relocated (ids : NodeId → NodeId → Prop) (g h : Graph) (a b : Node) : Prop where
  name : a.name = b.name
  kind : a.kind = b.kind
  operands : List.Forall₂ ids a.operands b.operands
  type : SameType g h a.type b.type

/-- Drafts for two graphs that are the same up to the places of operands, related by `ids`, and
types. -/
structure Draft.Relocated (ids : NodeId → NodeId → Prop) (g h : Graph) (d d' : Draft) : Prop where
  kind : d.kind = d'.kind
  operands : List.Forall₂ ids d.operands d'.operands
  type : ∃ type, g.resultType d.result = .ok type ∧ h.resultType d'.result = .ok type

section Growth

variable {g h g' h' : Graph}

theorem SameType.mono {r r' : TypeRef} (hr : SameType g h r r') (hg : g.Extends g')
    (hh : h.Extends h') : SameType g' h' r r' := by
  obtain ⟨type, hr, hr'⟩ := hr
  exact ⟨type, hg.resolve_eq hr, hh.resolve_eq hr'⟩

theorem Relocated.mono {ids ids' : NodeId → NodeId → Prop} {a b : Node}
    (hab : Relocated ids g h a b) (hids : ∀ i j, ids i j → ids' i j) (hg : g.Extends g')
    (hh : h.Extends h') : Relocated ids' g' h' a b where
  name := hab.name
  kind := hab.kind
  operands := hab.operands.imp hids
  type := hab.type.mono hg hh

end Growth

/-! ### Comparable handles -/

/-- The types of both graphs have their places, and handles related by `ids` stand for nodes of one
type. -/
structure Comparable (ids : NodeId → NodeId → Prop) (g h : Graph) : Prop where
  indexed_left : g.Indexed
  indexed_right : h.Indexed
  node : ∀ {i j}, ids i j → ∃ a c, g.node i = .ok a ∧ h.node j = .ok c ∧ SameType g h a.type c.type

section Drafts

variable {ids : NodeId → NodeId → Prop} {g h : Graph} {i j : NodeId} (hij : ids i j)
include hij

/-- A node that has the type of its first operand. -/
theorem relocated_ofRef {a c : Node} (hac : SameType g h a.type c.type) (kind : NodeKind)
    {is js : List NodeId} (hids : List.Forall₂ ids is js) :
    Draft.Relocated ids g h ⟨kind, i :: is, .ofRef a.type⟩ ⟨kind, j :: js, .ofRef c.type⟩ :=
  ⟨rfl, .cons hij hids, hac⟩

theorem relocated_ofType (kind : NodeKind) (type : ValueType) :
    Draft.Relocated ids g h ⟨kind, [i], .ofType type⟩ ⟨kind, [j], .ofType type⟩ :=
  ⟨rfl, .cons hij .nil, type, rfl, rfl⟩

end Drafts

namespace Comparable

variable {ids : NodeId → NodeId → Prop} {g h : Graph} (hgh : Comparable ids g h)
include hgh

theorem sameType_intern (type : ValueType) :
    SameType (g.intern type).2 (h.intern type).2 (g.intern type).1 (h.intern type).1 :=
  ⟨type, resolve_intern hgh.indexed_left type, resolve_intern hgh.indexed_right type⟩

/-! ### Reading -/

section Reading

variable {i j : NodeId} (hij : ids i j)
include hij

theorem typeOf_eq : g.typeOf i = h.typeOf j := by
  obtain ⟨a, c, ha, hc, hac⟩ := hgh.node hij
  obtain ⟨type, htype, htype'⟩ := hac
  rw [typeOf_eq_ok.2 ⟨a, ha, htype⟩, typeOf_eq_ok.2 ⟨c, hc, htype'⟩]

theorem dims_eq : g.dims i = h.dims j := by
  unfold dims
  rw [hgh.typeOf_eq hij]

theorem kind_eq : g.kind i = h.kind j := by
  unfold kind
  rw [hgh.typeOf_eq hij]

theorem imageDims_eq (name : String) : g.imageDims name i = h.imageDims name j := by
  unfold imageDims
  rw [hgh.dims_eq hij]

theorem matrixDims_eq (name : String) : g.matrixDims name i = h.matrixDims name j := by
  unfold matrixDims
  rw [hgh.dims_eq hij]

theorem vectorLength_eq (name : String) : g.vectorLength name i = h.vectorLength name j := by
  unfold vectorLength
  rw [hgh.dims_eq hij]

theorem channelCount_eq (name : String) (channel : Nat) :
    Draft.channelCount g name i channel = Draft.channelCount h name j channel := by
  unfold Draft.channelCount
  rw [hgh.typeOf_eq hij]

end Reading

/-! ### Rules -/

section Rules

variable {i j k l : NodeId} (hij : ids i j) (hkl : ids k l)
include hij

/-- A rule that only reads the type of its operand (`Graph.typeOf`) sees the same in both graphs. -/
theorem matches_typeOf {f f' : ValueType → Except GraphError Draft}
    (hf : ∀ type, Matches (Draft.Relocated ids g h) (f type) (f' type)) :
    Matches (Draft.Relocated ids g h) (g.typeOf i >>= f) (h.typeOf j >>= f') := by
  rw [hgh.typeOf_eq hij]
  exact .bind_same fun type _ => hf type

theorem matches_transpose (shuffle : List Nat) :
    Matches (Draft.Relocated ids g h) (Draft.transpose g i shuffle)
      (Draft.transpose h j shuffle) :=
  hgh.matches_typeOf hij fun _ => .bind_same fun _ _ => .bind_same fun _ _ =>
    .ok (relocated_ofType hij _ _)

theorem matches_pool (name : String) (kind : PoolKind) (window : Window) :
    Matches (Draft.Relocated ids g h) (Draft.pool g name kind i window)
      (Draft.pool h name kind j window) := by
  unfold Draft.pool
  rw [hgh.imageDims_eq hij, hgh.kind_eq hij]
  refine .bind_same fun image _ => .bind_same fun elements _ => .bind_same fun size _ => ?_
  exact .ok (relocated_ofType hij _ _)

theorem matches_squeeze (name : String) (axes : List Nat) :
    Matches (Draft.Relocated ids g h) (Draft.squeeze g name i axes)
      (Draft.squeeze h name j axes) :=
  hgh.matches_typeOf hij fun _ => .bind_same fun _ _ => .bind_same fun _ _ =>
    .ok (relocated_ofType hij _ _)

theorem matches_expandDims (name : String) (axes : List Nat) :
    Matches (Draft.Relocated ids g h) (Draft.expandDims g name i axes)
      (Draft.expandDims h name j axes) :=
  hgh.matches_typeOf hij fun _ => .bind_same fun _ _ => .bind_same fun _ _ =>
    .ok (relocated_ofType hij _ _)

theorem matches_broadcast (name : String) (dims : List Nat) (axis : Nat) :
    Matches (Draft.Relocated ids g h) (Draft.broadcast g name i dims axis)
      (Draft.broadcast h name j dims axis) :=
  hgh.matches_typeOf hij fun _ => .bind_same fun _ _ => .bind_same fun _ _ =>
    .ok (relocated_ofType hij _ _)

theorem matches_reshape (name : String) (dims : List Nat) :
    Matches (Draft.Relocated ids g h) (Draft.reshape g name i dims)
      (Draft.reshape h name j dims) :=
  hgh.matches_typeOf hij fun _ => .bind_same fun _ _ => .bind_same fun _ _ =>
    .bind_same fun _ _ => .ok (relocated_ofType hij _ _)

theorem matches_unary (op : UnaryOp) :
    Matches (Draft.Relocated ids g h) (Draft.unary g op i)
      (Draft.unary h op j) := by
  obtain ⟨a, c, ha, hc, hac⟩ := hgh.node hij
  simp only [Draft.unary, ha, hc]
  exact .ok (relocated_ofRef hij hac _ .nil)

theorem matches_save :
    Matches (Draft.Relocated ids g h) (Draft.save g i) (Draft.save h j) := by
  obtain ⟨a, c, ha, hc, hac⟩ := hgh.node hij
  simp only [Draft.save, ha, hc]
  exact .ok (relocated_ofRef hij hac _ .nil)

theorem matches_softMax (name : String) (axis : Nat) :
    Matches (Draft.Relocated ids g h) (Draft.softMax g name i axis)
      (Draft.softMax h name j axis) := by
  obtain ⟨a, c, ha, hc, hac⟩ := hgh.node hij
  have ⟨type, htype, htype'⟩ := hac
  simp only [Draft.softMax, ha, hc]
  show Matches _ (g.resolve a.type >>= _) (h.resolve c.type >>= _)
  rw [htype, htype']
  refine .bind_same fun type _ => .bind_same fun _ _ => ?_
  exact .ok (relocated_ofRef hij hac _ .nil)

theorem matches_batchNormalization (channel : Nat) (epsilon momentum : Binary32)
    {is js : List NodeId} (hids : List.Forall₂ ids is js) :
    Matches (Draft.Relocated ids g h)
      (Draft.batchNormalization g i channel epsilon momentum is)
      (Draft.batchNormalization h j channel epsilon momentum js) := by
  obtain ⟨a, c, ha, hc, hac⟩ := hgh.node hij
  simp only [Draft.batchNormalization, ha, hc]
  exact .ok (relocated_ofRef hij hac _ hids)

include hkl

theorem matches_matMul (name : String) :
    Matches (Draft.Relocated ids g h) (Draft.matMul g name i k)
      (Draft.matMul h name j l) := by
  unfold Draft.matMul
  rw [hgh.matrixDims_eq hij, hgh.matrixDims_eq hkl, hgh.kind_eq hij, hgh.kind_eq hkl]
  refine .bind_same fun left _ => .bind_same fun right _ => ?_
  refine .bind_same fun elements _ => .bind_same fun actual _ => ?_
  refine .bind_same fun _ _ => .bind_same fun _ _ => .ok ?_
  exact ⟨rfl, .cons hij (.cons hkl .nil), _, rfl, rfl⟩

/-- Arithmetic compares the places of types, which says the same in both graphs. -/
theorem matches_arithmetic (name : String) (op : ArithmeticOp) :
    Matches (Draft.Relocated ids g h) (Draft.arithmetic g name op i k)
      (Draft.arithmetic h name op j l) := by
  obtain ⟨a, c, ha, hc, hac⟩ := hgh.node hij
  obtain ⟨a', c', ha', hc', hac'⟩ := hgh.node hkl
  have ⟨left, hleft, hleft'⟩ := hac
  have ⟨right, hright, hright'⟩ := hac'
  have hsame : a.type = a'.type ↔ c.type = c'.type :=
    (hgh.indexed_left.ref_eq_iff hleft hright).trans
      (hgh.indexed_right.ref_eq_iff hleft' hright').symm
  simp only [Draft.arithmetic, ha, ha', hc, hc']
  by_cases heq : a.type = a'.type
  · simp only [bind, Except.bind, if_pos heq, if_pos (hsame.1 heq)]
    exact .ok (relocated_ofRef hij hac _ (.cons hkl .nil))
  · simp only [bind, Except.bind, if_neg heq, if_neg (mt hsame.2 heq), hleft, hleft', hright,
      hright']
    exact .error _

end Rules

theorem matches_convolution {i j filter filter' bias bias' : NodeId} {out out' : TypeRef}
    (hij : ids i j) (hfilter : ids filter filter')
    (hbias : ids bias bias') (hout : SameType g h out out') (name : String)
    (window : Window) (group : Nat) :
    Matches (Draft.Relocated ids g h)
      (Draft.convolution g name i filter bias out window group)
      (Draft.convolution h name j filter' bias' out' window group) := by
  obtain ⟨type, htype, htype'⟩ := hout
  unfold Draft.convolution
  rw [hgh.imageDims_eq hij, hgh.imageDims_eq hfilter, hgh.vectorLength_eq hbias, htype, htype']
  refine .bind_same fun image _ => .bind_same fun filters _ => .bind_same fun length _ => ?_
  refine .bind_same fun _ _ => .bind_same fun _ _ => .bind_same fun _ _ => ?_
  refine .bind_same fun size _ => .bind_same fun _ _ => .bind_same fun _ _ => ?_
  exact .ok ⟨rfl, .cons hij (.cons hfilter (.cons hbias .nil)), type, htype, htype'⟩

theorem matches_concat {is js : List NodeId} (hids : List.Forall₂ ids is js)
    (name : String) (axis : Nat) :
    Matches (Draft.Relocated ids g h) (Draft.concat g name is axis)
      (Draft.concat h name js axis) := by
  unfold Draft.concat
  cases hids with
  | nil => exact .error _
  | @cons i j is js hij hrest =>
    show Matches _ (g.typeOf i >>= _) (h.typeOf j >>= _)
    rw [hgh.typeOf_eq hij]
    refine .bind_same fun first _ => .bind_same fun _ _ => ?_
    rw [mapM_congr (P := ids) (fun k l hkl => by rw [hgh.typeOf_eq hkl])
      (.cons hij hrest)]
    exact .bind_same fun extents _ => .ok ⟨rfl, .cons hij hrest, _, rfl, rfl⟩

/-- **No rule depends on what was there before**: a constructor with corresponding operands
(`Constructor.Alike`) is refused by both graphs, with the same error, or drafted the same for
both. -/
theorem matches_rule {c c' : Constructor} (hc : c.Alike ids (SameType g h) c')
    (name : String) :
    Matches (Draft.Relocated ids g h) (c.rule name g) (c'.rule name h) := by
  cases hc with
  | parameter tensor => exact .ok ⟨rfl, .nil, tensor.type, rfl, rfl⟩
  | transpose hij shuffle => exact hgh.matches_transpose hij shuffle
  | convolution hij hfilter hbias hout window group =>
    exact hgh.matches_convolution hij hfilter hbias hout name window group
  | pool kind hij window => exact hgh.matches_pool hij name kind window
  | squeeze hij axes => exact hgh.matches_squeeze hij name axes
  | expandDims hij axes => exact hgh.matches_expandDims hij name axes
  | concat hids axis => exact hgh.matches_concat hids name axis
  | matMul hij hkl => exact hgh.matches_matMul hij hkl name
  | broadcast hij dims axis => exact hgh.matches_broadcast hij name dims axis
  | arithmetic op hij hkl => exact hgh.matches_arithmetic hij hkl name op
  | unary op hij => exact hgh.matches_unary hij op
  | softMax hij axis => exact hgh.matches_softMax hij name axis
  | reshape hij dims => exact hgh.matches_reshape hij name dims
  | save hij => exact hgh.matches_save hij

end Comparable

/-! ### Construction steps -/

/-- Pairs of graphs in `link`, with a relation `ids` between their handles, that stay related when
drafts that are the same (`Draft.Relocated`) are added to both. -/
structure Linking (link : Graph → Graph → Prop)
    (ids : Graph → Graph → NodeId → NodeId → Prop) : Prop where
  comparable : ∀ {g h : Graph}, link g h → Comparable (ids g h) g h
  mono : ∀ {g h g' h' : Graph} {i j : NodeId}, ids g h i j → g.Extends g' → h.Extends h' →
    ids g' h' i j
  intern : ∀ {g h : Graph}, link g h → ∀ type, link (g.intern type).2 (h.intern type).2
  add : ∀ {g h : Graph} {d d' : Draft}, link g h → Draft.Relocated (ids g h) g h d d' → ∀ name,
    link (g.add name d).2 (h.add name d').2
  added : ∀ {g h : Graph} {d d' : Draft}, link g h → Draft.Relocated (ids g h) g h d d' → ∀ name,
    ids (g.add name d).2 (h.add name d').2 ⟨g.nodes.length⟩ ⟨h.nodes.length⟩

/-- Graphs have grown on in the same way, from `g` and `h` to `g'` and `h'`, by steps whose results
are related by `rel`. -/
structure Onward {α : Type} (link : Graph → Graph → Prop) (g h : Graph)
    (rel : Graph → Graph → α → α → Prop) (g' h' : Graph) (x y : α) : Prop where
  linked : link g' h'
  left : g.Extends g'
  right : h.Extends h'
  rel : rel g' h' x y

theorem agree_read {link : Graph → Graph → Prop} {g h : Graph} (hgh : link g h) {α : Type}
    {query query' : Graph → Except GraphError α} (hquery : query g = query' h) :
    Agree (Onward link g h fun g' h' x y => g' = g ∧ h' = h ∧ x = y) (Build.read query g)
      (Build.read query' h) := by
  unfold Build.read
  rw [hquery]
  cases query' h with
  | ok a => exact .ok ⟨hgh, .refl g, .refl h, rfl, rfl, rfl⟩
  | error e => exact .error e g h

namespace Linking

variable {link : Graph → Graph → Prop} {ids : Graph → Graph → NodeId → NodeId → Prop}
  (hlink : Linking link ids) {g h : Graph} (hgh : link g h)
include hlink hgh

theorem agree_create {rule rule' : Graph → Except GraphError Draft}
    (hrule : Matches (Draft.Relocated (ids g h) g h) (rule g) (rule' h)) (name : String) :
    Agree (Onward link g h ids) (Build.create name rule g) (Build.create name rule' h) := by
  unfold Build.create
  revert hrule
  cases rule g <;> cases rule' h <;> intro hrule <;> cases hrule
  · exact .error _ g h
  · next d d' hd =>
    simp only [add_fst]
    refine .ok ⟨hlink.add hgh hd name, extends_add g name d, extends_add h name d', ?_⟩
    exact hlink.added hgh hd name

theorem agree_intern (type : ValueType) :
    Agree (Onward link g h SameType) (Build.intern type g) (Build.intern type h) :=
  .ok ⟨hlink.intern hgh type, extends_intern g type, extends_intern h type,
    (hlink.comparable hgh).sameType_intern type⟩

theorem agree_channelParameter (name : String) (channels : Nat) (source : Tensor) :
    Agree (Onward link g h ids) (Build.channelParameter name channels source g)
      (Build.channelParameter name channels source h) := by
  refine (agree_read hgh rfl).bind fun g₁ h₁ tensor tensor' hread => ?_
  obtain ⟨rfl, rfl, rfl⟩ := hread.rel
  exact hlink.agree_create hgh (.ok ⟨rfl, .nil, tensor.type, rfl, rfl⟩) name

theorem agree_channelParameters (name : String) (channels : Nat)
    (tensors : List (String × Tensor)) :
    Agree (Onward link g h fun g' h' => List.Forall₂ (ids g' h'))
      ((tensors.mapM fun (role, source) =>
        Build.channelParameter s!"{name}.{role}" channels source : Build (List NodeId)) g)
      ((tensors.mapM fun (role, source) =>
        Build.channelParameter s!"{name}.{role}" channels source : Build (List NodeId)) h) := by
  induction tensors generalizing g h with
  | nil => exact .ok ⟨hgh, .refl g, .refl h, .nil⟩
  | cons e tensors ih =>
    rw [List.mapM_cons]
    refine (hlink.agree_channelParameter hgh _ channels e.2).bind fun g₁ h₁ i j hone => ?_
    refine (ih hone.linked).bind fun g₂ h₂ is js hrest => ?_
    exact .ok ⟨hrest.linked, hone.left.trans hrest.left, hone.right.trans hrest.right,
      .cons (hlink.mono hone.rel hrest.left hrest.right) hrest.rel⟩

theorem agree_batchNormalization {i j : NodeId} (hij : ids g h i j) (name : String)
    (channel : Nat) (epsilon momentum : Binary32) (tensors : BatchParameters) :
    Agree (Onward link g h ids)
      (Build.batchNormalization name i channel epsilon momentum tensors g)
      (Build.batchNormalization name j channel epsilon momentum tensors h) := by
  have hcount := (hlink.comparable hgh).channelCount_eq hij name channel
  refine (agree_read hgh hcount).bind fun g₁ h₁ n n' hread => ?_
  obtain ⟨rfl, rfl, rfl⟩ := hread.rel
  refine (hlink.agree_channelParameters hgh name n tensors.named).bind fun g₂ h₂ is js hgrown => ?_
  have hij' := hlink.mono hij hgrown.left hgrown.right
  have hrule := (hlink.comparable hgrown.linked).matches_batchNormalization hij' channel epsilon
    momentum hgrown.rel
  refine (hlink.agree_create hgrown.linked hrule name).mono fun g₃ h₃ i' j' hend => ?_
  exact ⟨hend.linked, hgrown.left.trans hend.left, hgrown.right.trans hend.right, hend.rel⟩

end Linking

/-! ### Handles of nodes of one type -/

/-- Handles that stand for nodes of the same type in two graphs. -/
def SameNodeType (g h : Graph) (i j : NodeId) : Prop :=
  ∃ type, g.typeOf i = .ok type ∧ h.typeOf j = .ok type

/-- Whatever the rules look at, the types of operands decide it (`SameNodeType`). -/
theorem linking_sameNodeType :
    Linking (fun g h => g.Indexed ∧ h.Indexed) SameNodeType where
  comparable hgh := by
    refine ⟨hgh.1, hgh.2, ?_⟩
    rintro i j ⟨type, hi, hj⟩
    obtain ⟨a, ha, htype⟩ := typeOf_eq_ok.1 hi
    obtain ⟨c, hc, htype'⟩ := typeOf_eq_ok.1 hj
    exact ⟨a, c, ha, hc, type, htype, htype'⟩
  mono := by
    rintro g h g' h' i j ⟨type, hi, hj⟩ hg hh
    exact ⟨type, hg.typeOf_eq hi, hh.typeOf_eq hj⟩
  intern hgh type := ⟨hgh.1.intern type, hgh.2.intern type⟩
  add hgh _ name := ⟨hgh.1.add name _, hgh.2.add name _⟩
  added hgh hd name := by
    obtain ⟨type, htype, htype'⟩ := hd.type
    exact ⟨type, typeOf_add hgh.1 name _ htype, typeOf_add hgh.2 name _ htype'⟩

end Graph
end TensorGraph
