import TensorGraph.Load.Loader
import TensorGraph.Proofs.Graph.Comparison
import TensorGraph.Proofs.Lowering.Coupling

/-! # Two runs in lockstep

Two runs of parts of a load, from workspaces that are alike, are in lockstep when they fail with the
same error or both succeed: their workspaces are then alike again, their graphs have grown, and
their results are related. Runs in lockstep are put together from runs in lockstep; what being alike
means is left open. If it is about linked graphs, then lockstep is a coupling as soon as looking up
the operands of a node and binding its output are in lockstep. -/

namespace TensorGraph

open Onnx (NodeRecord)
open Step (Agree)
open TensorGraph.Graph (Linking Onward SameType)

/-- In both tables `name` stands for the same tensor, or for none and then for a graph value in both
or in neither. -/
structure Table.SameFor (t t' : Table) (name : String) : Prop where
  tensor : t.tensor? name = t'.tensor? name
  value : t'.tensor? name = none → (t.value? name).isSome = (t'.value? name).isSome

theorem Table.SameFor.constant_eq {t t' : Table} {name : String} (h : t.SameFor t' name) :
    t.constant name = t'.constant name := by
  have hvalue := h.value
  unfold constant
  rw [h.tensor]
  cases htensor : t'.tensor? name with
  | some tensor => rfl
  | none =>
    have hsame := hvalue htensor
    revert hsame
    cases t.value? name <;> cases t'.value? name <;> intro hsame <;> cases hsame <;> rfl

namespace Lowering

/-- What two runs are after parts with related results: the workspaces are `alike`, and the results
are related by `post`. -/
structure Forth {α : Type} (alike : Workspace → Workspace → Prop) (w : Graph × Graph)
    (post : Graph × Graph → α → α → Prop) (s t : Workspace) (x y : α) : Prop where
  paired : alike s t
  grown : w ≤ (s.graph, t.graph)
  rel : post (s.graph, t.graph) x y

/-- Two parts of loads agree from workspaces on that are alike and have the graphs of `w`. -/
def Lockstep {α : Type} (alike : Workspace → Workspace → Prop) (w : Graph × Graph)
    (x y : Lowering α) (post : Graph × Graph → α → α → Prop) : Prop :=
  ∀ s t, alike s t → w = (s.graph, t.graph) → Agree (Forth alike w post) (x s) (y t)

variable {alike : Workspace → Workspace → Prop} {w : Graph × Graph} {α β : Type}

/-! ### Sequences -/

theorem lockstep_pure {x y : α} {post : Graph × Graph → α → α → Prop} (h : post w x y) :
    Lockstep alike w (pure x) (pure y) post := by
  rintro s t hst rfl
  exact .ok ⟨hst, le_refl _, h⟩

theorem Lockstep.bind {x y : Lowering α} {f g : α → Lowering β}
    {mid : Graph × Graph → α → α → Prop} {post : Graph × Graph → β → β → Prop}
    (h : Lockstep alike w x y mid)
    (hf : ∀ w' c d, w ≤ w' → mid w' c d → Lockstep alike w' (f c) (g d) post) :
    Lockstep alike w (x >>= f) (y >>= g) post := by
  rintro s t hst hw
  refine (h s t hst hw).bind fun s₁ t₁ c d hmid => ?_
  refine (hf _ c d hmid.grown hmid.rel s₁ t₁ hmid.paired rfl).mono fun s₂ t₂ _ _ hend => ?_
  exact ⟨hend.paired, hmid.grown.trans hend.grown, hend.rel⟩

theorem Lockstep.mono {x y : Lowering α} {mid post : Graph × Graph → α → α → Prop}
    (h : Lockstep alike w x y mid) (hpost : ∀ w' c d, mid w' c d → post w' c d) :
    Lockstep alike w x y post := fun s t hst hw =>
  (h s t hst hw).mono fun _ _ _ _ hend => ⟨hend.paired, hend.grown, hpost _ _ _ hend.rel⟩

theorem lockstep_forM {l : List α} {f : α → Lowering Unit}
    (hf : ∀ w, ∀ a ∈ l, Lockstep alike w (f a) (f a) fun _ _ _ => True) :
    Lockstep alike w (l.forM f) (l.forM f) fun _ _ _ => True := by
  induction l generalizing w with
  | nil => exact lockstep_pure trivial
  | cons a l ih =>
    show Lockstep alike w (f a >>= fun _ => l.forM f) (f a >>= fun _ => l.forM f) _
    refine (hf w a List.mem_cons_self).bind fun w' _ _ _ _ => ?_
    exact ih fun w c hc => hf w c (List.mem_cons_of_mem _ hc)

theorem lockstep_mapM {γ : Type} {l : List γ} {f : γ → Lowering α}
    {rel : Graph × Graph → α → α → Prop}
    (hmono : ∀ {w w' c d}, w ≤ w' → rel w c d → rel w' c d)
    (hf : ∀ w, ∀ a ∈ l, Lockstep alike w (f a) (f a) rel) :
    Lockstep alike w (l.mapM f) (l.mapM f) fun w' => List.Forall₂ (rel w') := by
  induction l generalizing w with
  | nil => exact lockstep_pure .nil
  | cons a l ih =>
    rw [List.mapM_cons]
    refine (hf w a List.mem_cons_self).bind fun w₁ c d _ hcd => ?_
    refine (ih fun w e he => hf w e (List.mem_cons_of_mem _ he)).bind fun w₂ cs ds h₂ hrest => ?_
    exact lockstep_pure (.cons (hmono h₂ hcd) hrest)

/-! ### The smallest parts -/

theorem lockstep_ofExcept (result : Except LoadError α) :
    Lockstep alike w (ofExcept result) (ofExcept result) fun w' c d =>
      w' = w ∧ c = d ∧ result = .ok c := by
  rintro s t hst rfl
  cases result with
  | ok c => exact .ok ⟨hst, le_refl _, rfl, rfl, rfl⟩
  | error e => exact .error e s t

theorem lockstep_lift (result : Except LoadError α) {f g : α → Lowering β}
    {post : Graph × Graph → β → β → Prop}
    (hf : ∀ c, result = .ok c → Lockstep alike w (f c) (g c) post) :
    Lockstep alike w ((liftM result : Lowering α) >>= f) ((liftM result : Lowering α) >>= g)
      post := by
  refine (lockstep_ofExcept result).bind fun w' c d _ h => ?_
  obtain ⟨rfl, rfl, hresult⟩ := h
  exact hf c hresult

/-- The tables of the two runs, with what being `alike` says of them. -/
theorem lockstep_table (rel : Table → Table → Prop)
    (h : ∀ s t, alike s t → w = (s.graph, t.graph) → rel s.table t.table) :
    Lockstep alike w table table fun w' t t' => w' = w ∧ rel t t' := by
  rintro s t hst rfl
  exact .ok ⟨hst, le_refl _, rfl, h s t hst rfl⟩

theorem lockstep_updateTable {update update' : Table → Except LoadError Table}
    (h : ∀ s t, alike s t → w = (s.graph, t.graph) →
      Matches (fun known known' => alike { s with table := known } { t with table := known' })
        (update s.table) (update' t.table)) :
    Lockstep alike w (updateTable update) (updateTable update') fun _ _ _ => True := by
  rintro s t hst rfl
  have hend := h s t hst rfl
  unfold updateTable
  revert hend
  cases update s.table <;> cases update' t.table <;> intro hend <;> cases hend
  · exact .error _ s t
  · next hend => exact .ok ⟨hend, le_refl _, trivial⟩

/-- A transposition and a look at its dimensions, `channelLast`, are in lockstep if both parts
are. -/
theorem lockstep_channelLast {rel : Graph × Graph → NodeId → NodeId → Prop} {name : String}
    {i j : NodeId}
    (hcreate : Lockstep alike w (liftM (Build.transpose name i toChannelLast) : Lowering NodeId)
      (liftM (Build.transpose name j toChannelLast) : Lowering NodeId) rel)
    (hdims : ∀ {w i j}, rel w i j → Lockstep alike w (dims i) (dims j) fun w' c d =>
      w' = w ∧ c = d) :
    Lockstep alike w (channelLast name i) (channelLast name j) fun w' c d =>
      rel w' c.1 d.1 ∧ c.2 = d.2 := by
  refine hcreate.bind fun w₁ images images' _ hlast => ?_
  have himage : Lockstep alike w₁ (imageDims images) (imageDims images') fun w' c d =>
      w' = w₁ ∧ c = d := by
    refine (hdims hlast).bind fun w₂ dims dims' _ h => ?_
    obtain ⟨rfl, rfl⟩ := h
    exact (lockstep_ofExcept _).mono fun _ _ _ h => ⟨h.1, h.2.1⟩
  refine himage.bind fun w₂ image image' _ h => ?_
  obtain ⟨rfl, rfl⟩ := h
  exact lockstep_pure ⟨hlast, rfl⟩

/-! ### Looking tensors up -/

section Names

variable {name : String}
  (h : ∀ s t, alike s t → w = (s.graph, t.graph) → s.table.SameFor t.table name)
include h

theorem lockstep_constant :
    Lockstep alike w (constant name) (constant name) fun w' c d => w' = w ∧ c = d := by
  refine (lockstep_table (Table.SameFor · · name) h).bind fun w' t t' _ htable => ?_
  obtain ⟨rfl, hname⟩ := htable
  rw [hname.constant_eq]
  exact (lockstep_ofExcept _).mono fun _ _ _ h => ⟨h.1, h.2.1⟩

theorem lockstep_tensorOf :
    Lockstep alike w (tensorOf name) (tensorOf name) fun w' c d => w' = w ∧ c = d := by
  refine (lockstep_table (Table.SameFor · · name) h).bind fun w' t t' _ htable => ?_
  obtain ⟨rfl, hname⟩ := htable
  exact lockstep_pure ⟨rfl, hname.tensor⟩

theorem lockstep_constantIndices (role : String) :
    Lockstep alike w (constantIndices role name) (constantIndices role name) fun w' c d =>
      w' = w ∧ c = d := by
  refine (lockstep_table (Table.SameFor · · name) h).bind fun w' t t' _ htable => ?_
  obtain ⟨rfl, hname⟩ := htable
  have hthrow : ∀ e : LoadError, Lockstep alike w' (throw e : Lowering (List Int64)) (throw e)
      fun w'' c d => w'' = w' ∧ c = d :=
    fun e => (lockstep_ofExcept (.error e)).mono fun _ _ _ h => ⟨h.1, h.2.1⟩
  have hvalue := hname.value
  unfold Table.lookup?
  rw [hname.tensor]
  cases htensor : t'.tensor? name with
  | some tensor => exact lockstep_lift _ fun indices _ => lockstep_pure ⟨rfl, rfl⟩
  | none =>
    have hsame := hvalue htensor
    revert hsame
    cases t.value? name <;> cases t'.value? name <;> intro hsame <;> cases hsame
    · exact hthrow (.unresolved name)
    · exact hthrow (.notConstant name)

end Names

/-! ### Steps on graphs -/

/-- Being `alike` is about graphs in `link`, and is kept when these grow and stay linked. -/
structure Carries (alike : Workspace → Workspace → Prop) (link : Graph → Graph → Prop) : Prop where
  linked : ∀ {s t : Workspace}, alike s t → link s.graph t.graph
  graph : ∀ {s t : Workspace} {g h : Graph}, alike s t → link g h → s.graph.Extends g →
    t.graph.Extends h → alike { s with graph := g } { t with graph := h }

section Graphs

variable {link : Graph → Graph → Prop} {ids : Graph → Graph → NodeId → NodeId → Prop}
  (hcarries : Carries alike link)
include hcarries

theorem lockstep_onGraph (rel : Graph → Graph → α → α → Prop) {x y : Build α}
    (h : ∀ g g', link g g' → w = (g, g') → Agree (Onward link g g' rel) (x g) (y g')) :
    Lockstep alike w (onGraph x) (onGraph y) fun w' => rel w'.1 w'.2 := by
  rintro s t hst rfl
  have hend := h _ _ (hcarries.linked hst) rfl
  unfold onGraph
  revert hend
  cases x s.graph <;> cases y t.graph <;> intro hend <;> cases hend
  · next hend =>
    refine .ok ⟨?_, ⟨hend.left, hend.right⟩, hend.rel⟩
    exact hcarries.graph hst hend.linked hend.left hend.right
  · exact .error _ _ _

theorem lockstep_read {query query' : Graph → Except GraphError α}
    (h : link w.1 w.2 → query w.1 = query' w.2) :
    Lockstep alike w (onGraph (.read query)) (onGraph (.read query')) fun w' c d =>
      w' = w ∧ c = d := by
  refine Lockstep.mono (lockstep_onGraph hcarries (fun g g' c d => (g, g') = w ∧ c = d)
    fun g g' hgg' hw => ?_) fun _ _ _ h => h
  subst hw
  refine (Graph.agree_read hgg' (h hgg')).mono fun g₁ g₁' c d hend => ?_
  obtain ⟨rfl, rfl, rfl⟩ := hend.rel
  exact ⟨hend.linked, hend.left, hend.right, rfl, rfl⟩

variable (hlink : Linking link ids)
include hlink

theorem lockstep_dims {i j : NodeId} (hij : ids w.1 w.2 i j) :
    Lockstep alike w (dims i) (dims j) fun w' c d => w' = w ∧ c = d :=
  lockstep_read hcarries fun hw => (hlink.comparable hw).dims_eq hij

theorem lockstep_kind {i j : NodeId} (hij : ids w.1 w.2 i j) :
    Lockstep alike w (onGraph (.read (·.kind i))) (onGraph (.read (·.kind j))) fun w' c d =>
      w' = w ∧ c = d :=
  lockstep_read hcarries fun hw => (hlink.comparable hw).kind_eq hij

theorem lockstep_create {c c' : Graph.Constructor}
    (hc : c.Alike (ids w.1 w.2) (SameType w.1 w.2) c') (name : String) :
    Lockstep alike w (onGraph (.create name (c.rule name))) (onGraph (.create name (c'.rule name)))
      fun w' => ids w'.1 w'.2 := by
  refine lockstep_onGraph hcarries ids fun g g' hgg' hw => ?_
  subst hw
  exact hlink.agree_create hgg' ((hlink.comparable hgg').matches_rule hc name) name

/-- Lockstep as a coupling, given what becomes of the operands (`value`) and of the output of the
node. -/
def lockstepping {node : NodeRecord} {op : Operator}
    (hvalue : ∀ {w : Graph × Graph} {name : String}, name ∈ node.valueInputs op →
      Lockstep alike w (value name) (value name) fun w' => ids w'.1 w'.2)
    (hsame : ∀ {s t : Workspace} {name : String}, name ∈ node.constantInputs op → alike s t →
      s.table.SameFor t.table name)
    (hbind : ∀ {w : Graph × Graph} {i j : NodeId}, ids w.1 w.2 i j →
      Lockstep alike w (bindOutput node i) (bindOutput node j) fun _ _ _ => True) :
    Coupling (Graph × Graph) node op where
  ids w := ids w.1 w.2
  refs w := SameType w.1 w.2
  seen _ _ := True
  ids_mono hw hij := hlink.mono hij hw.1 hw.2
  refs_mono hw hr := hr.mono hw.1 hw.2
  seen_mono _ _ := trivial
  Couples w x y post := Lockstep alike w x y post
  Ends w x y := Lockstep alike w x y fun _ _ _ => True
  couples_pure := lockstep_pure
  couples_bind := Lockstep.bind
  ends_bind := Lockstep.bind
  couples_ofExcept _ := lockstep_ofExcept _
  couples_value h := (hvalue h).mono fun _ _ _ hij => ⟨hij, trivial⟩
  couples_constant h := lockstep_constant fun _ _ hst _ => hsame h hst
  couples_constantIndices role _ h := lockstep_constantIndices (fun _ _ hst _ => hsame h hst) role
  couples_tensorOf h := lockstep_tensorOf fun _ _ hst _ => hsame h hst
  couples_dims hij := lockstep_dims hcarries hlink hij
  couples_kind hij := lockstep_kind hcarries hlink hij
  couples_create name hc _ := lockstep_create hcarries hlink hc name
  couples_channelLast name hij := lockstep_channelLast
    (lockstep_create hcarries hlink (.transpose hij toChannelLast) name)
    (lockstep_dims hcarries hlink)
  couples_intern type := lockstep_onGraph hcarries SameType fun _ _ hgg' _ =>
    hlink.agree_intern hgg' type
  couples_batchNormalization name channel epsilon momentum tensors _ hij :=
    lockstep_onGraph hcarries ids fun g g' hgg' hw => by
      subst hw
      exact hlink.agree_batchNormalization hgg' hij name channel epsilon momentum tensors
  ends_bindOutput hij _ := hbind hij

end Graphs

/-! ### Nodes -/

/-- Errors are reported by `lowerNode` for a node in the same way. -/
theorem agree_lowerNode {opset : Int64} {node : NodeRecord} {s t : Workspace}
    {post : Workspace → Workspace → Unit → Unit → Prop}
    (h : ∀ op, node.operator? = some op →
      Agree post (step opset node op s) (step opset node op t)) :
    Agree post (lowerNode opset node s) (lowerNode opset node t) := by
  unfold lowerNode lower
  cases hop : node.operator? with
  | none => exact .error _ s t
  | some op =>
    have hstep := h op hop
    simp only [Step.bind_apply]
    revert hstep
    cases step opset node op s <;> cases step opset node op t <;> intro hstep <;> cases hstep
    · next hend => exact .ok hend
    · exact .error _ _ _

theorem lockstep_lowerNode {opset : Int64} {node : NodeRecord}
    (h : ∀ op, node.operator? = some op →
      Lockstep alike w (step opset node op) (step opset node op) fun _ _ _ => True) :
    Lockstep alike w (lowerNode opset node) (lowerNode opset node) fun _ _ _ => True :=
  fun s t hst hw => agree_lowerNode fun op hop => h op hop s t hst hw

/-! ### Outputs -/

/-- Declared outputs are ended by `finish` in lockstep if names have related values and ending these
is in lockstep. -/
theorem lockstep_finish {R : Graph × Graph → NodeId → NodeId → Prop}
    (hmono : ∀ {w w' : Graph × Graph} {i j : NodeId}, w ≤ w' → R w i j → R w' i j)
    (hvalue : ∀ {s t : Workspace}, alike s t → ∀ name,
      Option.Rel (R (s.graph, t.graph)) (s.table.value? name) (t.table.value? name))
    (hsave : ∀ {w : Graph × Graph} {i j : NodeId} (name : String), R w i j →
      Lockstep alike w (liftM (Build.save name i) : Lowering NodeId)
        (liftM (Build.save name j) : Lowering NodeId) R)
    {options options' : LoadOptions} (hon : options.outputs = options'.outputs)
    {model model' : Description} (houtputs : model.graph.outputs = model'.graph.outputs) :
    Lockstep alike w (finish options model) (finish options' model') fun w' =>
      List.Forall₂ fun c d => c.1 = d.1 ∧ R w' c.2 d.2 := by
  have hbind : ∀ w, ∀ output ∈ model'.graph.outputs, Lockstep alike w (bindResult output)
      (bindResult output) fun w' c d => c.1 = d.1 ∧ R w' c.2 d.2 := by
    intro w output _
    have htable : Lockstep alike w table table fun w' t t' => w' = w ∧
        Option.Rel (R w) (t.value? output.name) (t'.value? output.name) := by
      refine lockstep_table (fun t t' => Option.Rel (R w) (t.value? output.name)
        (t'.value? output.name)) fun s t hst hw => ?_
      rw [hw]
      exact hvalue hst output.name
    refine htable.bind fun w' t t' _ h => ?_
    obtain ⟨rfl, hrel⟩ := h
    revert hrel
    cases t.value? output.name <;> cases t'.value? output.name <;> intro hrel <;> cases hrel
    · exact lockstep_lift (.error _) fun _ h => by cases h
    · next hij =>
      exact (hsave (resultName output.name) hij).bind fun w' _ _ _ hsave =>
        lockstep_pure ⟨rfl, hsave⟩
  unfold finish
  rw [hon, houtputs]
  split
  · refine (lockstep_ofExcept _).bind fun w₁ _ _ _ _ => ?_
    exact lockstep_mapM (fun hw hcd => ⟨hcd.1, hmono hw hcd.2⟩) hbind
  · exact lockstep_pure .nil

end Lowering
end TensorGraph
