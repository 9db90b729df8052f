import TensorGraph.Proofs.Load.Scope
import TensorGraph.Proofs.Load.Typing

/-! # The order of independent nodes

In a model in single-assignment form, two adjacent nodes may change places if neither takes the
first output of the other one. The graphs that the two loads make differ, as nodes and types are
added in another order and a tensor becomes a parameter for the node that takes it first; but names
keep their tensors and types, as each node reads only its inputs and changes only its output. By
such exchanges any order of the nodes in which no node comes before one that it takes from is turned
into any other one. -/

namespace TensorGraph

open Onnx
open Step (Agree)
open TensorGraph.Graph (SameNodeType)
open Workspace (SameOn)

/-! ### Orders of nodes -/

namespace Onnx.NodeRecord

/-- The node `b` takes the first output of `a`. -/
def Feeds (a b : NodeRecord) : Prop := ∃ name ∈ b.inputs, a.output = .ok name

instance (a b : NodeRecord) : Decidable (a.Feeds b) :=
  inferInstanceAs (Decidable (∃ name ∈ b.inputs, a.output = .ok name))

/-- The first outputs of two nodes are not the same name. -/
def Distinct (a b : NodeRecord) : Prop := ∀ name, a.output = .ok name → b.output ≠ .ok name

theorem Distinct.symm {a b : NodeRecord} (h : a.Distinct b) : b.Distinct a :=
  fun name hb ha => h name ha hb

end Onnx.NodeRecord

/-- No node comes before one that it takes from (`Feeds`). -/
def Topological (nodes : List NodeRecord) : Prop := nodes.Pairwise fun a b => ¬ b.Feeds a

instance (nodes : List NodeRecord) : Decidable (Topological nodes) :=
  inferInstanceAs (Decidable (nodes.Pairwise fun a b => ¬ b.Feeds a))

/-- The second list is the first one after exchanges of adjacent nodes that do not take from each
other (`Feeds`). -/
inductive Reordered : List NodeRecord → List NodeRecord → Prop
  | refl (nodes : List NodeRecord) : Reordered nodes nodes
  | swap (before after : List NodeRecord) {a b : NodeRecord} {nodes : List NodeRecord}
      (hab : ¬ a.Feeds b) (hba : ¬ b.Feeds a)
      (rest : Reordered (before ++ b :: a :: after) nodes) :
      Reordered (before ++ a :: b :: after) nodes

namespace Reordered

variable {nodes nodes' nodes'' : List NodeRecord}

theorem trans (h : Reordered nodes nodes') (h' : Reordered nodes' nodes'') :
    Reordered nodes nodes'' := by
  induction h with
  | refl => exact h'
  | swap before after hab hba _ ih => exact .swap before after hab hba (ih h')

theorem cons (node : NodeRecord) (h : Reordered nodes nodes') :
    Reordered (node :: nodes) (node :: nodes') := by
  induction h with
  | refl nodes => exact .refl (node :: nodes)
  | swap before after hab hba _ ih => exact .swap (node :: before) after hab hba ih

/-- A node moves to the front past nodes that it is independent of (`Reordered`). -/
theorem to_front {node : NodeRecord} {before after : List NodeRecord}
    (h : ∀ other ∈ before, ¬ other.Feeds node ∧ ¬ node.Feeds other) :
    Reordered (before ++ node :: after) (node :: (before ++ after)) := by
  induction before with
  | nil => exact .refl _
  | cons first before ih =>
    obtain ⟨hfirst, hnode⟩ := h first List.mem_cons_self
    have hrest := ih fun other hother => h other (List.mem_cons_of_mem first hother)
    exact (hrest.cons first).trans (.swap [] (before ++ after) hfirst hnode (.refl _))

/-- **Any two topological orders of the same nodes differ by exchanges of independent nodes**, so
they are `Reordered`. -/
theorem of_perm (hperm : nodes.Perm nodes') (h : Topological nodes) (h' : Topological nodes') :
    Reordered nodes nodes' := by
  induction nodes' generalizing nodes with
  | nil =>
    rw [List.perm_nil.1 hperm]
    exact .refl []
  | cons node nodes' ih =>
    obtain ⟨before, after, rfl⟩ := List.append_of_mem (hperm.mem_iff.2 List.mem_cons_self)
    have hrest : (before ++ after).Perm nodes' := (List.perm_middle.symm.trans hperm).cons_inv
    obtain ⟨hbefore, hafter, hacross⟩ := List.pairwise_append.1 h
    have hsub : (before ++ after).Sublist (before ++ node :: after) :=
      (List.sublist_cons_self node after).append_left before
    -- the nodes before come later in the other order
    have hfront : ∀ other ∈ before, ¬ other.Feeds node ∧ ¬ node.Feeds other := by
      intro other hother
      refine ⟨?_, hacross other hother node List.mem_cons_self⟩
      exact (List.pairwise_cons.1 h').1 other
        (hrest.mem_iff.1 (List.mem_append_left after hother))
    have hih := ih hrest (h.sublist hsub) (List.pairwise_cons.1 h').2
    exact (to_front hfront).trans (hih.cons node)

end Reordered

/-! ### Exchanging two nodes -/

namespace Lowering

variable {opset : Int64} {node a b : NodeRecord} {nodes : List NodeRecord} {s s' t : Workspace}

/-- The first outputs of `nodes` that are still to be lowered are distinct and stand for nothing. -/
structure Pending (nodes : List NodeRecord) (s : Workspace) : Prop where
  sound : s.Sound
  distinct : nodes.Pairwise NodeRecord.Distinct
  fresh : ∀ node ∈ nodes, ∀ name, node.output = .ok name → s.typeOf? name = none

namespace Pending

theorem next (h : Pending (node :: nodes) s) (hok : lowerNode opset node s = .ok () t) :
    Pending nodes t := by
  have hsame := sameOn_lowerNode h.sound hok
  obtain ⟨hdistinct, hrest⟩ := List.pairwise_cons.1 h.distinct
  refine ⟨hsame.right, hrest, fun other hother name hname => ?_⟩
  rw [← hsame.types name fun hout => hdistinct other hother name hout hname]
  exact h.fresh other (List.mem_cons_of_mem node hother) name hname

theorem after {before : List NodeRecord} (h : Pending (before ++ nodes) s)
    (hok : lowerNodes opset before s = .ok () t) : Pending nodes t := by
  induction before generalizing s with
  | nil =>
    cases hok
    exact h
  | cons node before ih =>
    obtain ⟨r, hr, hrest⟩ := forM_cons_eq_ok.1 hok
    exact ih (h.next hr) hrest

/-- Lowering nodes by `lowerNodes` depends only on what names stand for. -/
theorem exists_of_sameOn (h : Pending nodes s) (hst : SameOn (fun _ => True) s s')
    (hok : lowerNodes opset nodes s = .ok () t) :
    ∃ t', lowerNodes opset nodes s' = .ok () t' ∧ SameOn (fun _ => True) t t' := by
  induction nodes generalizing s s' with
  | nil =>
    cases hok
    exact ⟨s', rfl, hst⟩
  | cons node nodes ih =>
    obtain ⟨r, hr, hrest⟩ := forM_cons_eq_ok.1 hok
    have hfresh := h.fresh node List.mem_cons_self
    obtain ⟨r', hr', hsame⟩ := exists_lowerNode_of_sameOn hst
      (fun name hname => ⟨trivial, hfresh name hname⟩) (fun _ _ => trivial) hr
    obtain ⟨t', ht', hend⟩ := ih (h.next hr) hsame hrest
    exact ⟨t', forM_cons_eq_ok.2 ⟨r', hr', ht'⟩, hend⟩

/-- **Independent nodes change places.** If two nodes are lowered and neither `Feeds` the other one,
they are lowered in the other order, too, and names stand for the same. -/
theorem exists_exchanged (h : Pending [a, b] s) (hab : ¬ a.Feeds b) (hba : ¬ b.Feeds a)
    (hok : lowerNodes opset [a, b] s = .ok () t) :
    ∃ t', lowerNodes opset [b, a] s = .ok () t' ∧ SameOn (fun _ => True) t t' := by
  obtain ⟨sa, ha, hrest⟩ := forM_cons_eq_ok.1 hok
  obtain ⟨_, hb, hnil⟩ := forM_cons_eq_ok.1 hrest
  cases hnil
  have hdistinct : a.Distinct b := (List.pairwise_cons.1 h.distinct).1 b List.mem_cons_self
  have hsa := sameOn_lowerNode h.sound ha
  -- `b` reads nothing that `a` has changed, so it is lowered without `a`
  have hfresh := (h.next ha).fresh b List.mem_cons_self
  obtain ⟨sb, hb', htb⟩ := exists_lowerNode_of_sameOn hsa.symm
    (fun name hname => ⟨hdistinct.symm name hname, hfresh name hname⟩)
    (fun name hname hout => hab ⟨name, hname, hout⟩) hb
  have hsb := sameOn_lowerNode h.sound hb'
  -- likewise `a` is lowered after `b` as it is without
  obtain ⟨t', ha', hta⟩ := exists_lowerNode_of_sameOn hsb
    (fun name hname => ⟨hdistinct name hname, h.fresh a List.mem_cons_self name hname⟩)
    (fun name hname hout => hba ⟨name, hname, hout⟩) ha
  have hend := htb.trans (sameOn_lowerNode hsb.right ha')
  have hend' := (sameOn_lowerNode hsa.right hb).symm.trans hta
  refine ⟨t', forM_cons_eq_ok.2 ⟨sb, hb', forM_cons_eq_ok.2 ⟨t', ha', rfl⟩⟩,
    hend.union hend' fun name => ?_⟩
  by_cases hname : a.output = .ok name
  · exact .inr (hdistinct name hname)
  · exact .inl hname

end Pending

/-- The exchange of the nodes `a` and `b` among others. -/
theorem exists_of_exchanged {before after : List NodeRecord}
    (h : Pending (before ++ a :: b :: after) s) (hab : ¬ a.Feeds b) (hba : ¬ b.Feeds a)
    (hok : lowerNodes opset (before ++ a :: b :: after) s = .ok () t) :
    ∃ t', lowerNodes opset (before ++ b :: a :: after) s = .ok () t' ∧
      SameOn (fun _ => True) t t' := by
  obtain ⟨r, hbefore, hrest⟩ := lowerNodes_append.1 hok
  have hpending := h.after hbefore
  have hsplit : ∀ x y : NodeRecord, x :: y :: after = [x, y] ++ after := fun _ _ => rfl
  rw [hsplit] at hrest hpending
  obtain ⟨u, htwo, hafter⟩ := lowerNodes_append.1 hrest
  have hpair : Pending [a, b] r := ⟨hpending.sound, (List.pairwise_append.1 hpending.distinct).1,
    fun node hnode => hpending.fresh node (List.mem_append_left after hnode)⟩
  obtain ⟨u', htwo', hsame⟩ := hpair.exists_exchanged hab hba htwo
  obtain ⟨t', ht', hend⟩ := (hpending.after htwo).exists_of_sameOn hsame hafter
  refine ⟨t', lowerNodes_append.2 ⟨r, hbefore, ?_⟩, hend⟩
  rw [hsplit]
  exact lowerNodes_append.2 ⟨u', htwo', ht'⟩

/-! ### Values of names -/

/-- The same names have values, and what names stand for has the same tensors and types
(`typeOf?`). -/
structure SameValues (s t : Workspace) : Prop where
  same : SameOn (fun _ => True) s t
  valued : ∀ name, Valued s name ↔ Valued t name

theorem SameValues.rel (h : SameValues s t) (name : String) :
    Option.Rel (SameNodeType s.graph t.graph) (s.table.value? name) (t.table.value? name) := by
  have hvalued := h.valued name
  have htypes := h.same.types name trivial
  unfold Valued at hvalued
  cases hs : s.table.value? name with
  | none =>
    cases ht : t.table.value? name with
    | none => exact .none
    | some j => simp [hs, ht] at hvalued
  | some i =>
    cases ht : t.table.value? name with
    | none => simp [hs, ht] at hvalued
    | some j =>
      obtain ⟨type, hi⟩ := h.same.left.values hs
      obtain ⟨type', hj⟩ := h.same.right.values ht
      rw [Workspace.typeOf?_of_value hs, Workspace.typeOf?_of_value ht, hi, hj] at htypes
      cases htypes
      exact .some ⟨type, hi, hj⟩

theorem carries_sameValues : Carries SameValues fun g h => g.Indexed ∧ h.Indexed where
  linked hst := (carries_sameOn _).linked hst.same
  graph hst hgh hg hh := ⟨(carries_sameOn _).graph hst.same hgh hg hh, hst.valued⟩

theorem exists_finish_of_sameValues {options : LoadOptions} {model model' : Description}
    (houtputs : model.graph.outputs = model'.graph.outputs) (hst : SameValues s t)
    {outputs : List (String × NodeId)} {u : Workspace}
    (hok : finish options model s = .ok outputs u) :
    ∃ outputs' u', finish options model' t = .ok outputs' u' ∧ SameValues u u' := by
  have hfinish : Lockstep SameValues (s.graph, t.graph) (finish options model)
      (finish options model') _ :=
    lockstep_finish (R := fun w => SameNodeType w.1 w.2)
      (fun hw hij => Graph.linking_sameNodeType.mono hij hw.1 hw.2) (fun hst => hst.rel)
      (fun name hij =>
        lockstep_create carries_sameValues Graph.linking_sameNodeType (.save hij) name)
      rfl houtputs
  obtain ⟨outputs', u', hu', hend⟩ := (hfinish s t hst rfl).exists_of_ok hok
  exact ⟨outputs', u', hu', hend.paired⟩

end Lowering

/-! ### Loads -/

/-- The model with `nodes` in place of its own. -/
def Description.withNodes (model : Description) (nodes : List NodeRecord) : Description :=
  { model with graph := { model.graph with nodes } }

theorem Description.withNodes_self (model : Description) :
    model.withNodes model.graph.nodes = model := by
  obtain ⟨irVersion, opsetVersion, graph⟩ := model
  cases graph
  rfl

/-- Two loads fail, or they succeed and give the same names values, of the same types
(`Graph.typeOf`). -/
inductive Outcome.Alike : Outcome → Outcome → Prop
  | failed (e e' : LoadError) (g g' : Graph) : Alike (.error e, g) (.error e', g')
  | loaded {l l' : Loaded} {g g' : Graph} (h : ∀ name,
      Option.Rel (SameNodeType g g') (l.values.get? name) (l'.values.get? name)) :
    Alike (.ok l, g) (.ok l', g')

theorem Outcome.Alike.trans {o o' o'' : Outcome} (h : Alike o o') (h' : Alike o' o'') :
    Alike o o'' := by
  cases h with
  | failed e e' g g' =>
    cases h' with
    | failed _ e'' _ g'' => exact .failed e e'' g g''
  | @loaded l l' g g' h =>
    cases h' with
    | @loaded _ l'' _ g'' h' =>
      refine .loaded fun name => ?_
      have hname := h name
      have hname' := h' name
      revert hname hname'
      cases l.values.get? name <;> cases l'.values.get? name <;> cases l''.values.get? name <;>
        intro hname hname' <;> cases hname <;> cases hname'
      · exact .none
      · next hij hjk =>
        obtain ⟨type, hi, hj⟩ := hij
        obtain ⟨type', hj', hk⟩ := hjk
        rw [hj] at hj'
        cases hj'
        exact .some ⟨type, hi, hk⟩

section Load

variable {options : LoadOptions} {model : Description} {g : Graph}

theorem Description.SingleAssignment.withNodes (hsa : model.SingleAssignment options)
    {nodes : List NodeRecord} (hperm : model.graph.nodes.Perm nodes) :
    (model.withNodes nodes).SingleAssignment options where
  distinct := (hperm.filterMap _).nodup_iff.1 hsa.distinct
  fresh name hname hseeds := by
    refine hsa.fresh name ((hperm.filterMap _).mem_iff.2 hname) ?_
    cases hseeds with
    | lent tensor h => exact .lent tensor h
    | stored hon record h hname => exact .stored hon record h hname
    | declared record h hname => exact .declared record h hname

/-- When `Lowering.seed` has filled the table, all nodes are still to be lowered (`Pending`). -/
theorem Description.SingleAssignment.pending (hsa : model.SingleAssignment options)
    (hg : g.Reachable) {s : Workspace}
    (hseed : Lowering.seed options model { graph := g } = .ok () s) :
    Lowering.Pending model.graph.nodes s := by
  have hsafe : Lowering.Safe False (Lowering.seed options model) { graph := g } :=
    Lowering.safe_seed (sound_of_reachable hg) False.elim
  have hzero : ComesTo options model g 0 s :=
    ⟨Nat.zero_le _, Step.bind_eq_ok.2 ⟨(), s, hseed, rfl⟩⟩
  have hsound := (hsafe.of_ok hseed).1
  refine ⟨hsound, ?_, fun node hnode name hname => ?_⟩
  · refine (List.pairwise_filterMap.1 hsa.distinct).imp fun h name ha hb => ?_
    exact h name (toOption_eq_some.2 ha) name (toOption_eq_some.2 hb) rfl
  · refine (Workspace.typeOf?_eq_none hsound).2 ⟨?_, ?_⟩
    · have hvalues := (Lowering.fills_of_seed hseed).values.trans Table.values_lendAll
      rw [Table.value?, hvalues]
      rfl
    · refine Option.eq_none_iff_forall_ne_some.2 fun tensor htensor => ?_
      rcases (hzero.exists_tensor_iff name).1 ⟨tensor, htensor⟩ with hseeds | ⟨_, hmem, -⟩
      · exact hsa.not_seeds hnode hname hseeds
      · cases hmem

/-- If a model is lowered, it is lowered with two independent nodes exchanged, too. -/
theorem exists_lowerModel_exchanged (hg : g.Reachable) (hsa : model.SingleAssignment options)
    {before after : List NodeRecord} {a b : NodeRecord}
    (hnodes : model.graph.nodes = before ++ a :: b :: after) (hab : ¬ a.Feeds b)
    (hba : ¬ b.Feeds a) {loaded : Loaded} {u : Workspace}
    (hok : Lowering.lowerModel options model { graph := g } = .ok loaded u) :
    ∃ loaded' u', Lowering.lowerModel options (model.withNodes (before ++ b :: a :: after))
      { graph := g } = .ok loaded' u' ∧ Lowering.SameValues u u' := by
  obtain ⟨r, t, outputs, hseed, hlower, hfinish, -⟩ := Lowering.lowerModel_eq_ok.1 hok
  have hall : LowersAll options model g t := Step.bind_eq_ok.2 ⟨(), r, hseed, hlower⟩
  have hpending := hsa.pending hg hseed
  rw [hnodes] at hlower hpending
  obtain ⟨t', hlower', hsame⟩ := Lowering.exists_of_exchanged hpending hab hba hlower
  have hall' : LowersAll options (model.withNodes (before ++ b :: a :: after)) g t' :=
    Step.bind_eq_ok.2 ⟨(), r, hseed, hlower'⟩
  have hvalued : ∀ name, Lowering.Valued t name ↔ Lowering.Valued t' name := by
    intro name
    have hperm : model.graph.nodes.Perm (before ++ b :: a :: after) :=
      hnodes ▸ (List.Perm.swap b a after).append_left before
    rw [hall.sourced.valued, hall'.sourced.valued]
    exact exists_congr fun node => and_congr_left fun _ => hperm.mem_iff
  obtain ⟨outputs', u', hfinish', hend⟩ :=
    Lowering.exists_finish_of_sameValues rfl ⟨hsame, hvalued⟩ hfinish
  exact ⟨_, u', Lowering.lowerModel_eq_ok.2 ⟨r, t', outputs', hseed, hlower', hfinish', rfl⟩, hend⟩

theorem alike_of_sameValues {model' : Description} {loaded loaded' : Loaded} {u u' : Workspace}
    (hok : Lowering.lowerModel options model { graph := g } = .ok loaded u)
    (hok' : Lowering.lowerModel options model' { graph := g } = .ok loaded' u')
    (h : Lowering.SameValues u u') :
    Outcome.Alike (load options model g) (load options model' g) := by
  obtain ⟨-, -, _, -, -, -, rfl⟩ := Lowering.lowerModel_eq_ok.1 hok
  obtain ⟨-, -, _, -, -, -, rfl⟩ := Lowering.lowerModel_eq_ok.1 hok'
  unfold load
  rw [hok, hok']
  exact .loaded h.rel

theorem alike_self (hg : g.Reachable) (options : LoadOptions) (model : Description) :
    Outcome.Alike (load options model g) (load options model g) := by
  cases hok : Lowering.lowerModel options model { graph := g } with
  | ok loaded u =>
    have hsafe : Lowering.Safe False (Lowering.lowerModel options model) { graph := g } :=
      safe_load hg options model False.elim
    exact alike_of_sameValues hok hok ⟨.refl (hsafe.of_ok hok).1, fun _ => Iff.rfl⟩
  | error e u =>
    unfold load
    rw [hok]
    exact .failed _ _ _ _

theorem alike_of_exchanged (hg : g.Reachable) (hsa : model.SingleAssignment options)
    {before after : List NodeRecord} {a b : NodeRecord}
    (hnodes : model.graph.nodes = before ++ a :: b :: after) (hab : ¬ a.Feeds b)
    (hba : ¬ b.Feeds a) : Outcome.Alike (load options model g)
      (load options (model.withNodes (before ++ b :: a :: after)) g) := by
  have hperm : model.graph.nodes.Perm (before ++ b :: a :: after) :=
    hnodes ▸ (List.Perm.swap b a after).append_left before
  cases hok : Lowering.lowerModel options model { graph := g } with
  | ok loaded u =>
    obtain ⟨loaded', u', hok', hend⟩ := exists_lowerModel_exchanged hg hsa hnodes hab hba hok
    exact alike_of_sameValues hok hok' hend
  | error e u =>
    cases hok' : Lowering.lowerModel options (model.withNodes (before ++ b :: a :: after))
        { graph := g } with
    | ok loaded' u' =>
      -- exchanged once more, the nodes are as they were
      obtain ⟨loaded, v, hback, -⟩ :=
        exists_lowerModel_exchanged hg (hsa.withNodes hperm) rfl hba hab hok'
      have hsame : (model.withNodes (before ++ b :: a :: after)).withNodes
          (before ++ a :: b :: after) = model := by
        rw [← hnodes]
        exact model.withNodes_self
      rw [hsame, hok] at hback
      cases hback
    | error e' u' =>
      unfold load
      rw [hok, hok']
      exact .failed _ _ _ _

theorem alike_of_reordered (hg : g.Reachable) {nodes nodes' : List NodeRecord}
    (hr : Reordered nodes nodes') (hsa : (model.withNodes nodes).SingleAssignment options) :
    Outcome.Alike (load options (model.withNodes nodes) g)
      (load options (model.withNodes nodes') g) := by
  induction hr with
  | refl nodes => exact alike_self hg options _
  | @swap before after a b nodes' hab hba _ ih =>
    have hperm := (List.Perm.swap b a after).append_left before
    exact (alike_of_exchanged hg hsa rfl hab hba).trans (ih (hsa.withNodes hperm))

/-- **Independent nodes may be declared in either order.** In a model in single-assignment form,
whatever the graph is, two adjacent nodes of which neither takes the first output of the other one
(`Feeds`) may change places, and the nodes may be brought from one topological order (`Topological`)
to any other one: the load fails in both orders, or it succeeds in both; then the same names have
values, and the value of each name has the same element kind and the same shape
(`Outcome.Alike`). -/
theorem alike_of_independent (hg : g.Reachable) (hsa : model.SingleAssignment options) :
    (∀ before after a b, model.graph.nodes = before ++ a :: b :: after → ¬ a.Feeds b →
      ¬ b.Feeds a → Outcome.Alike (load options model g)
        (load options (model.withNodes (before ++ b :: a :: after)) g)) ∧
    ∀ nodes, model.graph.nodes.Perm nodes → Topological model.graph.nodes → Topological nodes →
      Outcome.Alike (load options model g) (load options (model.withNodes nodes) g) := by
  refine ⟨fun before after a b hnodes hab hba => alike_of_exchanged hg hsa hnodes hab hba,
    fun nodes hperm h h' => ?_⟩
  rw [← model.withNodes_self] at hsa
  have halike := alike_of_reordered hg (.of_perm hperm h h') hsa
  rwa [model.withNodes_self] at halike

end Load

/-! ### Branches -/

/-- An operator on `x`. -/
def branch (opType output : String) : NodeRecord := { inputs := ["x"], outputs := [output], opType }

/-- The sum of three branches. -/
def joined : NodeRecord := { inputs := ["u", "v", "w"], outputs := ["y"], opType := "Sum" }

/-- A model with three branches that take the same input, and their sum. -/
def branches : Description where
  irVersion := 8
  opsetVersion := 13
  graph := {
    nodes := [branch "Relu" "u", branch "Sigmoid" "v", branch "Tanh" "w", joined]
    inputs := [{
      name := "x"
      type := some { tensorType := some {
        elementType := floatCode
        shape := some { dims := [{ size := some (.fixed 2) }] } } } }]
    outputs := [{ name := "y" }] }

/-- Two of the branches change places, or all of them stand in the opposite order. What a name
stands for has the same type, but another place in the graph. The sum cannot come first. -/
theorem alike_of_branches :
    let exchanged := branches.withNodes
      [branch "Sigmoid" "v", branch "Relu" "u", branch "Tanh" "w", joined]
    let opposite := branches.withNodes
      [branch "Tanh" "w", branch "Sigmoid" "v", branch "Relu" "u", joined]
    Outcome.Alike (load .standalone branches (.empty "g"))
      (load .standalone exchanged (.empty "g")) ∧
    Outcome.Alike (load .standalone branches (.empty "g"))
      (load .standalone opposite (.empty "g")) ∧
    (load .standalone branches (.empty "g")).1.toOption.map (·.values.get? "u") =
      some (some ⟨1⟩) ∧
    (load .standalone opposite (.empty "g")).1.toOption.map (·.values.get? "u") =
      some (some ⟨3⟩) ∧
    ¬ Topological (joined :: branches.graph.nodes) := by
  intro exchanged opposite
  have hsa : branches.SingleAssignment .standalone := by
    refine ⟨by decide, fun name hname hseeds => ?_⟩
    cases hseeds with
    | lent tensor h => cases h
    | stored _ record h _ => cases h
    | declared record h hx =>
      rw [show record.name = "x" by rw [List.mem_singleton.1 h]] at hx
      subst hx
      exact absurd hname (by decide)
  have hperm : branches.graph.nodes.Perm opposite.graph.nodes :=
    (List.reverse_perm (branches.graph.nodes.take 3)).symm.append_right [joined]
  obtain ⟨hexchange, horders⟩ := alike_of_independent (.empty "g") hsa
  exact ⟨hexchange [] [branch "Tanh" "w", joined] _ _ rfl (by decide) (by decide),
    horders opposite.graph.nodes hperm (by decide) (by decide), by decide +kernel,
    by decide +kernel, by decide⟩

end TensorGraph
