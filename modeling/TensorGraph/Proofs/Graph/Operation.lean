import TensorGraph.Proofs.Step
import TensorGraph.Proofs.Graph.TypeTable

/-! # Operations on graphs

A caller changes a graph by interning types, by constructing nodes and by rolling back. A node
constructor has a rule and adds the node that the rule drafts; only batch normalization adds
several nodes. A graph is **reachable** when it is made from an empty one by any operations,
failing ones included, and by any rolling back. Every reachable graph has an exact table of types,
and every operation extends the graph that it is applied to. -/

namespace TensorGraph

open Step (after MovesBy)

namespace Graph

/-! ### The operations -/

/-- The ways to construct one node, with their arguments. -/
inductive Constructor
  | parameter (tensor : Tensor)
  | transpose (input : NodeId) (shuffle : List Nat)
  | convolution (input filter bias : NodeId) (out : TypeRef) (window : Window) (group : Nat)
  | pool (kind : PoolKind) (input : NodeId) (window : Window)
  | squeeze (input : NodeId) (axes : List Nat)
  | expandDims (input : NodeId) (axes : List Nat)
  | concat (inputs : List NodeId) (axis : Nat)
  | matMul (lhs rhs : NodeId)
  | broadcast (input : NodeId) (dims : List Nat) (axis : Nat)
  | arithmetic (op : ArithmeticOp) (lhs rhs : NodeId)
  | unary (op : UnaryOp) (input : NodeId)
  | softMax (input : NodeId) (axis : Nat)
  | reshape (input : NodeId) (dims : List Nat)
  | save (input : NodeId)

/-- The rule, one of `Draft`, that drafts the node of a constructor. -/
def Constructor.rule (name : String) : Constructor → Graph → Except GraphError Draft
  | parameter tensor, _ => .ok (.parameter tensor)
  | transpose input shuffle, g => Draft.transpose g input shuffle
  | convolution input filter bias out window group, g =>
    Draft.convolution g name input filter bias out window group
  | pool kind input window, g => Draft.pool g name kind input window
  | squeeze input axes, g => Draft.squeeze g name input axes
  | expandDims input axes, g => Draft.expandDims g name input axes
  | concat inputs axis, g => Draft.concat g name inputs axis
  | matMul lhs rhs, g => Draft.matMul g name lhs rhs
  | broadcast input dims axis, g => Draft.broadcast g name input dims axis
  | arithmetic op lhs rhs, g => Draft.arithmetic g name op lhs rhs
  | unary op input, g => Draft.unary g op input
  | softMax input axis, g => Draft.softMax g name input axis
  | reshape input dims, g => Draft.reshape g name input dims
  | save input, g => Draft.save g input

/-- Whether the node of a constructor is a convolution. -/
def Constructor.IsConvolution : Constructor → Prop
  | convolution _ _ _ _ _ _ => True
  | _ => False

/-- Two constructors that are the same up to handles of nodes related by `ids` and handles of types
related by `refs`. -/
inductive Constructor.Alike (ids : NodeId → NodeId → Prop) (refs : TypeRef → TypeRef → Prop) :
    Constructor → Constructor → Prop
  | parameter (tensor : Tensor) : Alike ids refs (.parameter tensor) (.parameter tensor)
  | transpose {i j : NodeId} (h : ids i j) (shuffle : List Nat) :
    Alike ids refs (.transpose i shuffle) (.transpose j shuffle)
  | convolution {i j filter filter' bias bias' : NodeId} {out out' : TypeRef} (h : ids i j)
      (hfilter : ids filter filter') (hbias : ids bias bias') (hout : refs out out')
      (window : Window) (group : Nat) :
    Alike ids refs (.convolution i filter bias out window group)
      (.convolution j filter' bias' out' window group)
  | pool (kind : PoolKind) {i j : NodeId} (h : ids i j) (window : Window) :
    Alike ids refs (.pool kind i window) (.pool kind j window)
  | squeeze {i j : NodeId} (h : ids i j) (axes : List Nat) :
    Alike ids refs (.squeeze i axes) (.squeeze j axes)
  | expandDims {i j : NodeId} (h : ids i j) (axes : List Nat) :
    Alike ids refs (.expandDims i axes) (.expandDims j axes)
  | concat {is js : List NodeId} (h : List.Forall₂ ids is js) (axis : Nat) :
    Alike ids refs (.concat is axis) (.concat js axis)
  | matMul {i j k l : NodeId} (hl : ids i j) (hr : ids k l) :
    Alike ids refs (.matMul i k) (.matMul j l)
  | broadcast {i j : NodeId} (h : ids i j) (dims : List Nat) (axis : Nat) :
    Alike ids refs (.broadcast i dims axis) (.broadcast j dims axis)
  | arithmetic (op : ArithmeticOp) {i j k l : NodeId} (hl : ids i j) (hr : ids k l) :
    Alike ids refs (.arithmetic op i k) (.arithmetic op j l)
  | unary (op : UnaryOp) {i j : NodeId} (h : ids i j) : Alike ids refs (.unary op i) (.unary op j)
  | softMax {i j : NodeId} (h : ids i j) (axis : Nat) :
    Alike ids refs (.softMax i axis) (.softMax j axis)
  | reshape {i j : NodeId} (h : ids i j) (dims : List Nat) :
    Alike ids refs (.reshape i dims) (.reshape j dims)
  | save {i j : NodeId} (h : ids i j) : Alike ids refs (.save i) (.save j)

theorem Constructor.Alike.eq {c c' : Constructor} (h : c.Alike Eq Eq c') : c = c' := by
  cases h with
  | concat h axis => rw [List.forall₂_eq_eq_eq] at h; rw [h]
  | _ => grind

/-- What a caller can do to a graph besides rolling it back. -/
inductive Operation
  | intern (type : ValueType)
  | create (name : String) (constructor : Constructor)
  | batchNormalization (name : String) (input : NodeId) (channel : Nat)
      (epsilon momentum : Binary32) (tensors : BatchParameters)

/-- The graph after an operation (`Step.after`), whether it succeeds or fails. -/
def Operation.run : Operation → Graph → Graph
  | intern type, g => after (Build.intern type) g
  | create name constructor, g => after (Build.create name (constructor.rule name)) g
  | batchNormalization name input channel epsilon momentum tensors, g =>
    after (Build.batchNormalization name input channel epsilon momentum tensors) g

/-- A graph that is made from an empty one by operations (`Operation.run`) and by rolling back to
any checkpoint. -/
inductive Reachable : Graph → Prop
  | empty (name : String) : Reachable (.empty name)
  | operate {g : Graph} (hg : Reachable g) (op : Operation) : Reachable (op.run g)
  | rollback {g : Graph} (hg : Reachable g) (c : Checkpoint) : Reachable (g.rollback c)

/-- The graph `h` is `g` after finitely many operations. -/
def Operated : Graph → Graph → Prop := Relation.ReflTransGen fun g h => ∃ op, h = Operation.run op g

end Graph

/-! ### What single steps do -/

namespace Build

/-- The second graph is the first one with a node added. -/
def Adds (g h : Graph) : Prop := ∃ name draft, h = (g.add name draft).2

theorem create_of_ok {name : String} {rule : Graph → Except GraphError Draft} {g : Graph}
    {draft : Draft} (h : rule g = .ok draft) :
    create name rule g = .ok (g.add name draft).1 (g.add name draft).2 := by
  simp only [create, h]

theorem create_of_error {name : String} {rule : Graph → Except GraphError Draft} {g : Graph}
    {e : GraphError} (h : rule g = .error e) : create name rule g = .error e g := by
  simp only [create, h]

/-- **Creating a node** succeeds exactly when its `rule` makes a draft, which is then added by
`Graph.add`. -/
theorem create_eq_ok {name : String} {rule : Graph → Except GraphError Draft} {g h : Graph}
    {id : NodeId} :
    create name rule g = .ok id h ↔
      ∃ draft, rule g = .ok draft ∧ id = ⟨g.nodes.length⟩ ∧ h = (g.add name draft).2 := by
  cases hr : rule g with
  | ok draft =>
    rw [create_of_ok hr, Graph.add_fst]
    constructor
    · intro he; cases he; exact ⟨draft, rfl, rfl, rfl⟩
    · rintro ⟨_, hd, rfl, rfl⟩; cases hd; rfl
  | error e => simp [create_of_error hr]

/-- **A refused node**, for which `rule` fails, leaves the graph as it was. -/
theorem create_eq_error {name : String} {rule : Graph → Except GraphError Draft} {g h : Graph}
    {e : GraphError} : create name rule g = .error e h ↔ rule g = .error e ∧ h = g := by
  cases hr : rule g with
  | ok draft => simp [create_of_ok hr]
  | error e' =>
    rw [create_of_error hr]
    constructor
    · intro he; cases he; exact ⟨rfl, rfl⟩
    · rintro ⟨he, rfl⟩; cases he; rfl

theorem read_eq_ok {α : Type} {query : Graph → Except GraphError α} {g h : Graph} {a : α} :
    read query g = .ok a h ↔ query g = .ok a ∧ h = g := by
  unfold read
  cases query g with
  | ok b =>
    constructor
    · intro he; cases he; exact ⟨rfl, rfl⟩
    · rintro ⟨he, rfl⟩; cases he; rfl
  | error e => simp

theorem read_eq_error {α : Type} {query : Graph → Except GraphError α} {g h : Graph}
    {e : GraphError} : read query g = .error e h ↔ query g = .error e ∧ h = g := by
  unfold read
  cases query g with
  | ok b => simp
  | error e' =>
    constructor
    · intro he; cases he; exact ⟨rfl, rfl⟩
    · rintro ⟨he, rfl⟩; cases he; rfl

theorem after_read {α : Type} (query : Graph → Except GraphError α) (g : Graph) :
    after (read query) g = g := by
  unfold after read
  cases query g <;> rfl

theorem movesBy_read {α : Type} {M : Graph → Graph → Prop} (query : Graph → Except GraphError α) :
    MovesBy M (read query) := .of_still (after_read query)

theorem movesBy_create (name : String) (rule : Graph → Except GraphError Draft) :
    MovesBy Adds (create name rule) := by
  refine .of_move fun g => ?_
  cases h : rule g with
  | ok draft => exact .inr ⟨name, draft, Step.after_of_ok (create_of_ok h)⟩
  | error e => exact .inl (Step.after_of_error (create_of_error h))

theorem movesBy_channelParameter (name : String) (channels : Nat) (source : Tensor) :
    MovesBy Adds (channelParameter name channels source) :=
  (movesBy_read _).bind fun _ => movesBy_create _ _

theorem movesBy_batchNormalization (name : String) (input : NodeId) (channel : Nat)
    (epsilon momentum : Binary32) (tensors : BatchParameters) :
    MovesBy Adds (batchNormalization name input channel epsilon momentum tensors) := by
  refine (movesBy_read _).bind fun channels => ?_
  refine (MovesBy.mapM fun _ _ => movesBy_channelParameter _ _ _).bind fun parameters => ?_
  exact movesBy_create _ _

/-- A step that only adds nodes (`Adds`) extends the graph, whether it fails or not. -/
theorem extends_of_movesBy {α : Type} {x : Build α} (hx : MovesBy Adds x) (g : Graph) :
    g.Extends (after x g) := by
  refine hx.lift (P := Graph.Extends) .refl ?_ g
  rintro s t _ hst ⟨name, draft, rfl⟩
  exact hst.trans (t.extends_add name draft)

theorem indexed_of_movesBy {α : Type} {x : Build α} (hx : MovesBy Adds x) {g : Graph}
    (hg : g.Indexed) : (after x g).Indexed := by
  refine hx.lift (P := fun s t => s.Indexed → t.Indexed) (fun _ hs => hs) ?_ g hg
  rintro s t _ hst ⟨name, draft, rfl⟩ hs
  exact (hst hs).add name draft

end Build

/-! ### What every operation keeps -/

namespace Graph

/-- A property `P` that interning and adding a node keep is kept by every operation. -/
theorem run_induction {P : Graph → Prop} (hintern : ∀ g type, P g → P (g.intern type).2)
    (hadd : ∀ g name draft, P g → P (g.add name draft).2) {g : Graph} (hg : P g)
    (op : Operation) : P (op.run g) := by
  have hmoves : ∀ h, Relation.ReflTransGen Build.Adds g h → P h := by
    intro h hgh
    induction hgh with
    | refl => exact hg
    | tail _ hlast ih =>
      obtain ⟨name, draft, rfl⟩ := hlast
      exact hadd _ name draft ih
  cases op with
  | intern type => exact hintern g type hg
  | create name constructor => exact hmoves _ (Build.movesBy_create _ _ g)
  | batchNormalization name input channel epsilon momentum tensors =>
    exact hmoves _ (Build.movesBy_batchNormalization _ _ _ _ _ _ g)

/-- Every operation extends the graph, also when it fails. -/
theorem extends_run (g : Graph) (op : Operation) : g.Extends (op.run g) :=
  run_induction (P := g.Extends) (fun _ _ h => h.trans (extends_intern _ _))
    (fun _ _ _ h => h.trans (extends_add _ _ _)) (.refl g) op

theorem Indexed.run {g : Graph} (hg : g.Indexed) (op : Operation) : (op.run g).Indexed :=
  run_induction (P := Indexed) (fun _ _ h => h.intern _) (fun _ _ _ h => h.add _ _) hg op

/-- **Every reachable graph has an exact table of types**, as `Graph.Indexed` says. -/
theorem Reachable.indexed {g : Graph} (hg : g.Reachable) : g.Indexed := by
  induction hg with
  | empty name => exact .empty name
  | operate _ op ih => exact ih.run op
  | rollback _ c ih => exact ih.rollback c

namespace Operated

variable {g h : Graph}

theorem refl (g : Graph) : g.Operated g := Relation.ReflTransGen.refl

theorem single (op : Operation) (g : Graph) : g.Operated (op.run g) :=
  Relation.ReflTransGen.single ⟨op, rfl⟩

theorem toExtends (hgh : g.Operated h) : g.Extends h := by
  induction hgh with
  | refl => exact .refl g
  | tail _ hlast ih =>
    obtain ⟨op, rfl⟩ := hlast
    exact ih.trans (extends_run _ op)

theorem reachable (hgh : g.Operated h) (hg : g.Reachable) : h.Reachable := by
  induction hgh with
  | refl => exact hg
  | tail _ hlast ih =>
    obtain ⟨op, rfl⟩ := hlast
    exact ih.operate op

end Operated

end Graph
end TensorGraph
