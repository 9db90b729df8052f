import TensorGraph.Proofs.Load.Origins
import TensorGraph.Proofs.Load.Safety
import TensorGraph.Proofs.Lowering.Lockstep

/-! # What lowering a node depends on

What a name stands for has a type, whether it is a graph value or a tensor; that a tensor becomes a
parameter does not change the type. Lowering a node depends on the tensors and the types of its
inputs only: from workspaces that say the same about these names it succeeds in both or fails with
the same error in both. It changes what its first output stands for and nothing else. -/

namespace TensorGraph

open Onnx (NodeRecord)
open Step (Agree after)
open TensorGraph.Graph (SameNodeType linking_sameNodeType)

/-! ### Types of names -/

namespace Workspace

variable {s t u : Workspace} {name other : String} {type : ValueType}

/-- If the name has a graph value (`value?`), this stands for a node with a type. -/
def HasValue (s : Workspace) (name : String) : Prop :=
  ∀ id, s.table.value? name = some id → s.graph.Has id

theorem isSome_typeOf? (hs : s.Sound) : (s.typeOf? name).isSome =
    ((s.table.value? name).isSome || (s.table.tensor? name).isSome) := by
  cases hvalue : s.table.value? name with
  | none => simp [typeOf?_of_tensor hvalue]
  | some id =>
    obtain ⟨type, htype⟩ := hs.values hvalue
    rw [typeOf?_of_value hvalue, htype]
    rfl

theorem typeOf?_eq_none (hs : s.Sound) : s.typeOf? name = none ↔
    s.table.value? name = none ∧ s.table.tensor? name = none := by
  rw [← Option.isNone_iff_eq_none, ← Option.not_isSome, isSome_typeOf? hs]
  simp

/-! ### What becomes of them -/

theorem typeOf?_of_extends (hname : s.HasValue name) {g : Graph} (hg : s.graph.Extends g) :
    typeOf? { s with graph := g } name = s.typeOf? name := by
  unfold typeOf?
  cases hvalue : s.table.value? name with
  | none => rfl
  | some id =>
    obtain ⟨type, htype⟩ := hname id hvalue
    simp only [htype, hg.typeOf_eq htype]

theorem typeOf?_bind {id : NodeId} : typeOf? { s with table := s.table.bind name id } other =
    if name = other then (s.graph.typeOf id).toOption else s.typeOf? other := by
  unfold typeOf?
  rw [Table.value?_bind]
  by_cases h : name = other
  · rw [if_pos h, if_pos h]
  · rw [if_neg h, if_neg h]
    rfl

theorem typeOf?_insert_of_ne {tensor : Tensor} (h : name ≠ other) :
    typeOf? { s with table := s.table.insert name tensor } other = s.typeOf? other := by
  have htensor : (s.table.insert name tensor).tensor? other = s.table.tensor? other := by
    rw [Table.tensor?, Table.get?_insert_of_ne h, Table.tensor?]
  unfold typeOf?
  rw [htensor, Table.value?, Table.values_insert, Table.value?]

theorem typeOf?_insert {tensor : Tensor} (hvalue : s.table.value? name = none)
    (hlent : s.table.isLent name = false) :
    typeOf? { s with table := s.table.insert name tensor } name = some tensor.type := by
  have hnone : (s.table.insert name tensor).value? name = none := by
    rwa [Table.value?, Table.values_insert]
  rw [typeOf?_of_tensor hnone, Table.tensor?_insert hlent, if_pos rfl]
  rfl

/-- A parameter has the type of its tensor, so adopting it changes no `typeOf?`. -/
theorem typeOf?_adopt (hs : s.graph.Indexed) (hother : s.HasValue other)
    (hvalue : s.table.value? name = none) {tensor : Tensor}
    (htensor : s.table.tensor? name = some tensor) :
    typeOf? {
      graph := (s.graph.add name (.parameter tensor)).2
      table := s.table.bind name ⟨s.graph.nodes.length⟩ } other = s.typeOf? other := by
  have hgrown := s.graph.extends_add name (.parameter tensor)
  let grown : Workspace := { s with graph := (s.graph.add name (.parameter tensor)).2 }
  show typeOf? { grown with table := grown.table.bind name ⟨s.graph.nodes.length⟩ } other = _
  rw [typeOf?_bind, typeOf?_of_extends hother hgrown]
  split
  · next heq =>
    subst heq
    rw [Graph.typeOf_add hs name (.parameter tensor) rfl, typeOf?_of_tensor hvalue, htensor]
    rfl
  · rfl

/-! ### Workspaces that say the same about names -/

/-- Both workspaces are sound, and they say the same about the `names`: which tensors these have and
who owns them, and which types they stand for (`typeOf?`). -/
structure SameOn (names : String → Prop) (s t : Workspace) : Prop where
  left : s.Sound
  right : t.Sound
  slots : ∀ name, names name → s.table.tensors.get? name = t.table.tensors.get? name
  types : ∀ name, names name → s.typeOf? name = t.typeOf? name

namespace SameOn

variable {names names' : String → Prop}

theorem refl (hs : s.Sound) : SameOn names s s := ⟨hs, hs, fun _ _ => rfl, fun _ _ => rfl⟩

theorem symm (h : SameOn names s t) : SameOn names t s :=
  ⟨h.right, h.left, fun name hname => (h.slots name hname).symm,
    fun name hname => (h.types name hname).symm⟩

theorem trans (hst : SameOn names s t) (htu : SameOn names t u) : SameOn names s u :=
  ⟨hst.left, htu.right, fun name hname => (hst.slots name hname).trans (htu.slots name hname),
    fun name hname => (hst.types name hname).trans (htu.types name hname)⟩

theorem mono (h : SameOn names s t) (hnames : ∀ name, names' name → names name) :
    SameOn names' s t :=
  ⟨h.left, h.right, fun name hname => h.slots name (hnames name hname),
    fun name hname => h.types name (hnames name hname)⟩

theorem union (h : SameOn names s t) (h' : SameOn names' s t)
    (hall : ∀ name, names name ∨ names' name) : SameOn (fun _ => True) s t :=
  ⟨h.left, h.right, fun name _ => (hall name).elim (h.slots name) (h'.slots name),
    fun name _ => (hall name).elim (h.types name) (h'.types name)⟩

variable (h : SameOn names s t)
include h

/-- A name stands for the same tensor in both workspaces, or for a graph value in both. -/
theorem sameFor (hname : names name) : s.table.SameFor t.table name where
  tensor := by rw [Table.tensor?, Table.tensor?, h.slots name hname]
  value hnone := by
    have hsome := congrArg Option.isSome (h.types name hname)
    rw [isSome_typeOf? h.left, isSome_typeOf? h.right, Table.tensor?, h.slots name hname,
      ← Table.tensor?, hnone] at hsome
    simpa using hsome

theorem of_extends {g g' : Graph} (hg : g.Indexed) (hg' : g'.Indexed) (hgrown : s.graph.Extends g)
    (hgrown' : t.graph.Extends g') :
    SameOn names { s with graph := g } { t with graph := g' } where
  left := h.left.of_graph hg hgrown
  right := h.right.of_graph hg' hgrown'
  slots := h.slots
  types name hname := by
    rw [typeOf?_of_extends (fun _ => h.left.values) hgrown,
      typeOf?_of_extends (fun _ => h.right.values) hgrown', h.types name hname]

theorem bind {i j : NodeId} (hij : SameNodeType s.graph t.graph i j) (out : String) :
    SameOn names { s with table := s.table.bind out i } { t with table := t.table.bind out j } := by
  obtain ⟨type, hi, hj⟩ := hij
  refine ⟨h.left.of_table (h.left.has_bind ⟨type, hi⟩ out),
    h.right.of_table (h.right.has_bind ⟨type, hj⟩ out), h.slots, fun name hname => ?_⟩
  rw [typeOf?_bind, typeOf?_bind, hi, hj, h.types name hname]

/-- The same tensor is stored for a name `out` that stands for nothing. -/
theorem insert {out : String} (hout : names out) (hnone : s.typeOf? out = none) (tensor : Tensor) :
    SameOn names { s with table := s.table.insert out tensor }
      { t with table := t.table.insert out tensor } := by
  obtain ⟨hvalue, htensor⟩ := (typeOf?_eq_none h.left).1 hnone
  obtain ⟨hvalue', htensor'⟩ := (typeOf?_eq_none h.right).1 (h.types out hout ▸ hnone)
  have hlent := Table.isLent_of_tensor?_eq_none htensor
  have hlent' := Table.isLent_of_tensor?_eq_none htensor'
  have hsound : ∀ {r : Workspace}, r.Sound →
      Workspace.Sound { r with table := r.table.insert out tensor } := by
    refine fun {r} hr => hr.of_table fun name id hid => ?_
    refine hr.values (?_ : r.table.value? name = some id)
    rwa [Table.value?, Table.values_insert] at hid
  refine ⟨hsound h.left, hsound h.right, fun name hname => ?_, fun name hname => ?_⟩
  · simp only [Table.insert, hlent, hlent', Bool.false_eq_true, if_false, KeyMap.get?_insert]
    rw [h.slots name hname]
  · by_cases heq : out = name
    · subst heq
      rw [typeOf?_insert hvalue hlent, typeOf?_insert hvalue' hlent']
    · rw [typeOf?_insert_of_ne heq, typeOf?_insert_of_ne heq, h.types name hname]

end SameOn

end Workspace

namespace Lowering

open Workspace (SameOn typeOf?_of_value typeOf?_of_tensor typeOf?_eq_none typeOf?_of_extends
  typeOf?_bind typeOf?_insert_of_ne typeOf?_adopt)

variable {node : NodeRecord} {op : Operator} {opset : Int64} {s t : Workspace} {name : String}

/-! ### What lowering a node leaves alone -/

/-- From the workspace `s` to `t` the `name` keeps its tensor and its type. -/
structure Leaves (name : String) (s t : Workspace) : Prop where
  indexed : t.graph.Indexed
  value : t.HasValue name
  slot : s.table.tensors.get? name = t.table.tensors.get? name
  type : s.typeOf? name = t.typeOf? name

theorem Move.leaves (h : Move op node s t) (hs : s.graph.Indexed) (hname : s.HasValue name)
    (hout : node.output ≠ .ok name) : Leaves name s t := by
  have hne : ∀ {out}, node.output = .ok out → out ≠ name := by
    rintro out hout' rfl
    exact hout hout'
  cases h with
  | operate o =>
    have hgrown := s.graph.extends_run o
    exact ⟨hs.run o, fun id hid => (hname id hid).mono hgrown, rfl,
      (typeOf?_of_extends hname hgrown).symm⟩
  | adopt other tensor _ hvalue htensor =>
    refine ⟨hs.add other _, fun id hid => ?_, rfl, (typeOf?_adopt hs hname hvalue htensor).symm⟩
    rw [Table.value?_bind] at hid
    split at hid
    · cases hid
      exact Graph.has_add hs other rfl
    · exact (hname id hid).mono (s.graph.extends_add other _)
  | bind out id hout' =>
    refine ⟨hs, fun id hid => ?_, rfl, ?_⟩
    · rw [Table.value?_bind, if_neg (hne hout')] at hid
      exact hname id hid
    · rw [typeOf?_bind, if_neg (hne hout')]
  | store out record tensor _ hout' _ _ =>
    have hslot : (s.table.insert out tensor).tensors.get? name = s.table.tensors.get? name :=
      Table.get?_insert_of_ne (hne hout')
    refine ⟨hs, fun id hid => hname id ?_, hslot.symm, (typeOf?_insert_of_ne (hne hout')).symm⟩
    rwa [Table.value?, Table.values_insert] at hid

/-- **A node changes only what its first output stands for** (`SameOn`). -/
theorem sameOn_lowerNode (hs : s.Sound) (hok : lowerNode opset node s = .ok () t) :
    SameOn (fun name => node.output ≠ .ok name) s t := by
  have hsafe : Safe False (lowerNode opset node) s := .lowerNode (safe_lower hs False.elim)
  obtain ⟨op, -, hstep⟩ := lowerNode_eq_ok.1 hok
  have hleaves : ∀ name, node.output ≠ .ok name → Leaves name s t := by
    intro name hout
    have hlift := (movesBy_step opset node op).lift
      (P := fun s t => s.graph.Indexed → s.HasValue name → Leaves name s t)
      (fun s hs hname => ⟨hs, hname, rfl, rfl⟩)
      (fun s t u hst hmove hs hname => by
        have hkept := hst hs hname
        have hlast := hmove.leaves hkept.indexed hkept.value hout
        exact ⟨hlast.indexed, hlast.value, hkept.slot.trans hlast.slot,
          hkept.type.trans hlast.type⟩) s
    rw [Step.after_of_ok hstep] at hlift
    exact hlift hs.indexed fun _ => hs.values
  exact ⟨hs, (hsafe.of_ok hok).1, fun name hout => (hleaves name hout).slot,
    fun name hout => (hleaves name hout).type⟩

/-! ### What lowering a node looks at -/

/-- A name that stands for something of a type (`typeOf?`) has a graph value of this type, which is
made if it is not there. -/
theorem value_of_typeOf? (hs : s.Sound) {type : ValueType} (h : s.typeOf? name = some type) :
    ∃ id t, value name s = .ok id t ∧ s.graph.Extends t.graph ∧ t.graph.typeOf id = .ok type ∧
      SameOn (fun _ => True) s t := by
  cases hvalue : s.table.value? name with
  | some id =>
    obtain ⟨type', htype⟩ := hs.values hvalue
    rw [typeOf?_of_value hvalue, htype] at h
    cases h
    exact ⟨id, s, value_eq_ok.2 (.inl ⟨hvalue, rfl⟩), .refl s.graph, htype, .refl hs⟩
  | none =>
    rw [typeOf?_of_tensor hvalue, Option.map_eq_some_iff] at h
    obtain ⟨tensor, htensor, rfl⟩ := h
    refine ⟨⟨s.graph.nodes.length⟩, _, value_eq_ok.2 (.inr ⟨hvalue, rfl, tensor, htensor, rfl⟩),
      s.graph.extends_add name _, Graph.typeOf_add hs.indexed name (.parameter tensor) rfl, hs,
      hs.adopt name tensor, fun _ _ => rfl, fun other _ => ?_⟩
    exact (typeOf?_adopt hs.indexed (fun _ => hs.values) hvalue htensor).symm

theorem value_of_typeOf?_none (hs : s.Sound) (h : s.typeOf? name = none) :
    value name s = .error (.unresolved name) s := by
  obtain ⟨hvalue, htensor⟩ := (Workspace.typeOf?_eq_none hs).1 h
  simp only [value, hvalue, htensor]

/-- A name that has a graph value, or is given one by `value`, stands for something of the type of
this value (`typeOf?`). -/
theorem typed_of_value (hs : s.Sound) {id : NodeId} (h : value name s = .ok id t) :
    ∃ type, s.typeOf? name = some type ∧ s.graph.Extends t.graph ∧ t.graph.typeOf id = .ok type ∧
      SameOn (fun _ => True) s t := by
  cases htype : s.typeOf? name with
  | none => rw [value_of_typeOf?_none hs htype] at h; cases h
  | some type =>
    obtain ⟨_, _, h', hext, hid, hsame⟩ := value_of_typeOf? hs htype
    rw [h] at h'
    cases h'
    exact ⟨type, rfl, hext, hid, hsame⟩

section Look

variable {names : String → Prop} {w : Graph × Graph}

theorem carries_sameOn (names : String → Prop) :
    Carries (SameOn names) fun g h => g.Indexed ∧ h.Indexed where
  linked hst := ⟨hst.left.indexed, hst.right.indexed⟩
  graph hst hgh hg hh := hst.of_extends hgh.1 hgh.2 hg hh

theorem sameOn_value (hname : names name) :
    Lockstep (SameOn names) w (value name) (value name) fun w' => SameNodeType w'.1 w'.2 := by
  rintro s t hst rfl
  have htype' := hst.types name hname
  cases htype : s.typeOf? name with
  | none =>
    rw [htype] at htype'
    rw [value_of_typeOf?_none hst.left htype, value_of_typeOf?_none hst.right htype'.symm]
    exact .error _ s t
  | some type =>
    rw [htype] at htype'
    obtain ⟨i, s', hs, hgrown, hi, hss'⟩ := value_of_typeOf? hst.left htype
    obtain ⟨j, t', ht, hgrown', hj, htt'⟩ := value_of_typeOf? hst.right htype'.symm
    rw [hs, ht]
    have hend := (hss'.symm.mono fun _ _ => trivial).trans
      (hst.trans (htt'.mono fun _ _ => trivial))
    exact .ok ⟨hend, ⟨hgrown, hgrown'⟩, type, hi, hj⟩

theorem sameOn_bindOutput {i j : NodeId} (hij : SameNodeType w.1 w.2 i j) :
    Lockstep (SameOn names) w (bindOutput node i) (bindOutput node j) fun _ _ _ => True := by
  refine lockstep_lift _ fun out _ => lockstep_updateTable fun s t hst hw => .ok ?_
  subst hw
  exact hst.bind hij out

/-- The coupling of two runs that read `names` about which their workspaces say the same
(`SameOn`). -/
def reading (names : String → Prop) (node : NodeRecord) (op : Operator)
    (hinputs : ∀ name ∈ node.inputs, names name) : Coupling (Graph × Graph) node op :=
  lockstepping (carries_sameOn names) linking_sameNodeType
    (fun hname => sameOn_value (hinputs _ (NodeRecord.valueInputs_subset op hname)))
    (fun hname hst => hst.sameFor (hinputs _ (NodeRecord.constantInputs_subset op hname)))
    sameOn_bindOutput

variable (hst : SameOn names s t)
  (hout : ∀ out, node.output = .ok out → names out ∧ s.typeOf? out = none)
include hst hout

/-- Constants read nothing but who owns the tensor of their output. -/
theorem agree_storeConstant :
    Agree (fun s' t' _ _ => SameOn names s' t') (storeConstant node s) (storeConstant node t) := by
  have hread : ∀ {α : Type} (result : Except LoadError α),
      Agree (fun s' t' a b => s = s' ∧ t = t' ∧ a = b ∧ result = .ok a) (ofExcept result s)
        (ofExcept result t) := by
    intro α result
    cases result with
    | ok a => exact .ok ⟨rfl, rfl, rfl, rfl⟩
    | error e => exact .error e s t
  refine (hread node.output).bind ?_
  rintro _ _ out _ ⟨rfl, rfl, rfl, hname⟩
  obtain ⟨hmem, hnone⟩ := hout out hname
  have hlent := Table.isLent_of_tensor?_eq_none ((typeOf?_eq_none hst.left).1 hnone).2
  have hnone' := hst.types out hmem ▸ hnone
  have hlent' := Table.isLent_of_tensor?_eq_none ((typeOf?_eq_none hst.right).1 hnone').2
  have htables : Agree (fun s' t' known known' => s = s' ∧ t = t' ∧ known = s.table ∧
      known' = t.table) (table s) (table t) := .ok ⟨rfl, rfl, rfl, rfl⟩
  refine htables.bind ?_
  rintro _ _ _ _ ⟨rfl, rfl, rfl, rfl⟩
  simp only [hlent, hlent', Bool.false_eq_true, if_false]
  refine (hread _).bind ?_
  rintro _ _ record _ ⟨rfl, rfl, rfl, -⟩
  refine (hread _).bind ?_
  rintro _ _ tensor _ ⟨rfl, rfl, rfl, -⟩
  exact .ok (hst.insert hmem hnone tensor)

variable (hinputs : ∀ name ∈ node.inputs, names name)
include hinputs

/-- **A node reads only its inputs.** From workspaces that say the same about the inputs of a node
(`SameOn`), and whose tables have nothing under its first output, the node is lowered in both or
fails in both with the same error. -/
theorem agree_lowerNode_of_sameOn :
    Agree (fun s' t' _ _ => SameOn names s' t') (lowerNode opset node s)
      (lowerNode opset node t) := by
  refine agree_lowerNode fun op _ => ?_
  by_cases hop : op = .constant
  · subst hop
    exact agree_storeConstant hst hout
  · have hstep := (reading names node op hinputs).ends_step (w := (s.graph, t.graph)) hop opset
    exact (hstep s t hst rfl).mono fun _ _ _ _ hend => hend.paired

theorem exists_lowerNode_of_sameOn {s' : Workspace} (hok : lowerNode opset node s = .ok () s') :
    ∃ t', lowerNode opset node t = .ok () t' ∧ SameOn names s' t' := by
  obtain ⟨_, t', ht', hend⟩ := (agree_lowerNode_of_sameOn hst hout hinputs).exists_of_ok hok
  exact ⟨t', ht', hend⟩

end Look

end Lowering
end TensorGraph
