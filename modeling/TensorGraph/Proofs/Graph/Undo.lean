import TensorGraph.Graph.Text
import TensorGraph.Proofs.Graph.Operation

/-! # Rolling back undoes

A caller runs a **script** on a graph: operations, which may fail, and rollbacks. As long as no
rollback of the script goes below the lengths of the graph, whatever the script does is added beyond
them: the lists begin with the old ones, and no handle of an old type is given to another type.
Rolling back to the lengths then gives the graph as it was, and no later script can tell the
difference. -/

namespace TensorGraph

/-- A checkpoint is below another one if both its lengths, `nodes` and `types`, are. -/
instance : LE Checkpoint := ⟨fun c d => c.nodes ≤ d.nodes ∧ c.types ≤ d.types⟩

instance (c d : Checkpoint) : Decidable (c ≤ d) :=
  inferInstanceAs (Decidable (c.nodes ≤ d.nodes ∧ c.types ≤ d.types))

theorem Checkpoint.le_refl (c : Checkpoint) : c ≤ c := ⟨Nat.le_refl _, Nat.le_refl _⟩

namespace Graph

variable {g h : Graph} {c d : Checkpoint}

/-! ### Two rollbacks -/

/-- Rolling back to `d` first makes no difference to rolling back to a lower checkpoint `c`. -/
theorem rollback_rollback (h : Graph) (hcd : c ≤ d) : (h.rollback d).rollback c = h.rollback c := by
  obtain ⟨hnodes, htypes⟩ := hcd
  have hrefs : (h.refs.entries.filter fun e => e.2.index < d.types).filter
      (fun e => e.2.index < c.types) = h.refs.entries.filter fun e => e.2.index < c.types := by
    rw [List.filter_filter]
    refine List.filter_congr fun e _ => ?_
    by_cases he : e.2.index < c.types
    · simp [he, he.trans_le htypes]
    · simp [he]
  unfold rollback KeyMap.retain
  simp only [List.take_take, Nat.min_eq_left hnodes, Nat.min_eq_left htypes, hrefs]

/-- A rollback to `d`, not below the lengths of `g`, keeps what the graph `g` has. -/
theorem Extends.rollback (hg : g.RefsBelow) (hgh : g.Extends h) (hd : g.checkpoint ≤ d) :
    g.Extends (h.rollback d) where
  name := hgh.name
  nodes := List.prefix_take_iff.2 ⟨hgh.nodes, hd.1⟩
  types := List.prefix_take_iff.2 ⟨hgh.types, hd.2⟩
  refs := by
    obtain ⟨added, hentries, hadded⟩ := hgh.refs
    have hkept : g.refs.entries.filter (fun e => e.2.index < d.types) = g.refs.entries := by
      refine List.filter_eq_self.2 fun e he => ?_
      have hlt : e.2.index < g.types.length := hg e he
      have hle : g.types.length ≤ d.types := hd.2
      simpa using hlt.trans_le hle
    refine ⟨added.filter fun e => e.2.index < d.types, ?_, fun e he => ?_⟩
    · show h.refs.entries.filter (fun e => e.2.index < d.types) = _
      rw [hentries, List.filter_append, hkept]
    · exact hadded e (List.mem_filter.1 he).1

/-- What a graph was grown from has lower lengths. -/
theorem Extends.checkpoint_le (hgh : g.Extends h) : g.checkpoint ≤ h.checkpoint :=
  ⟨hgh.nodes.length_le, hgh.types.length_le⟩

/-! ### Scripts -/

/-- What a caller can do to a graph. -/
inductive Command
  | operate (op : Operation)
  | rollback (c : Checkpoint)

namespace Command

/-- The graph after a command, whether it succeeds or fails. -/
def run : Command → Graph → Graph
  | operate op, g => op.run g
  | rollback c, g => g.rollback c

/-- The command does not roll back to a checkpoint below `c`. -/
def StaysAbove (c : Checkpoint) : Command → Prop
  | operate _ => True
  | rollback d => c ≤ d

end Command

/-- The graph after a script. -/
def runScript : List Command → Graph → Graph
  | [], g => g
  | command :: script, g => runScript script (command.run g)

/-- A command that `StaysAbove` the lengths of a graph keeps what the graph has. -/
theorem Extends.command (hg : g.RefsBelow) (hgh : g.Extends h) {command : Command}
    (hcommand : command.StaysAbove g.checkpoint) : g.Extends (command.run h) := by
  cases command with
  | operate op => exact hgh.trans (extends_run h op)
  | rollback d => exact hgh.rollback hg hcommand

/-- And so does a script. -/
theorem Extends.script (hg : g.RefsBelow) (hgh : g.Extends h) {script : List Command}
    (hscript : ∀ command ∈ script, command.StaysAbove g.checkpoint) :
    g.Extends (runScript script h) := by
  induction script generalizing h with
  | nil => exact hgh
  | cons command script ih =>
    rw [List.forall_mem_cons] at hscript
    exact ih (hgh.command hg hscript.1) hscript.2

/-! ### What a caller sees -/

/-- What an operation gives: the handle of a type or of a node, or the reason why it fails. -/
def Operation.answer : Operation → Graph → Except GraphError (TypeRef ⊕ NodeId)
  | intern type, g => (Step.verdict (Build.intern type) g).map .inl
  | create name constructor, g =>
    (Step.verdict (Build.create name (constructor.rule name)) g).map .inr
  | batchNormalization name input channel epsilon momentum tensors, g =>
    (Step.verdict (Build.batchNormalization name input channel epsilon momentum tensors) g).map .inr

/-- What a caller sees after a command: what the command gave, unless it rolled back, the nodes with
their type handles, the lengths and the listing. -/
structure Sight where
  answer : Option (Except GraphError (TypeRef ⊕ NodeId))
  nodes : List Node
  checkpoint : Checkpoint
  listing : Except GraphError String

/-- The `Sight` after a command. -/
def Command.sight (command : Command) (g : Graph) : Sight where
  answer := match command with
    | operate op => some (op.answer g)
    | rollback _ => none
  nodes := (command.run g).nodes
  checkpoint := (command.run g).checkpoint
  listing := (command.run g).listing

/-- The sights during a script. -/
def sights : List Command → Graph → List Sight
  | [], _ => []
  | command :: script, g => command.sight g :: sights script (command.run g)

/-! ### Undoing -/

/-- **A rollback is an exact undo.** Let a script run on a reachable graph, and let every command in
it stay above the lengths of the graph (`StaysAbove`). Rolling back to them gives the graph as it
was, with its lengths, and every later script sees what it would have seen then (`sights`). Rolling
back twice is the same as once. All checkpoints during the script are above the lengths of the
graph, and to roll back to such a checkpoint first makes no difference. -/
theorem rollback_undoes (hg : g.Reachable) {script : List Command}
    (hscript : ∀ command ∈ script, command.StaysAbove g.checkpoint) :
    (runScript script g).rollback g.checkpoint = g ∧
    ((runScript script g).rollback g.checkpoint).checkpoint = g.checkpoint ∧
    (∀ later, sights later ((runScript script g).rollback g.checkpoint) = sights later g) ∧
    ((runScript script g).rollback g.checkpoint).rollback g.checkpoint =
      (runScript script g).rollback g.checkpoint ∧
    (∀ first rest, script = first ++ rest → g.checkpoint ≤ (runScript first g).checkpoint) ∧
    ∀ d, g.checkpoint ≤ d → ((runScript script g).rollback d).rollback g.checkpoint =
      (runScript script g).rollback g.checkpoint := by
  have hbelow : g.RefsBelow := hg.indexed.refsBelow
  have hback : (runScript script g).rollback g.checkpoint = g :=
    rollback_of_extends hbelow ((Extends.refl g).script hbelow hscript)
  refine ⟨hback, congrArg checkpoint hback, fun later => congrArg (sights later) hback,
    rollback_rollback _ (Checkpoint.le_refl _), ?_, fun d hd => rollback_rollback _ hd⟩
  rintro first rest rfl
  have hfirst := fun command hcommand => hscript command (List.mem_append_left rest hcommand)
  exact ((Extends.refl g).script hbelow hfirst).checkpoint_le

/-- A graph with one parameter. -/
def oneParameter : Graph :=
  (Operation.create "x" (.parameter ⟨[2, 1], .float #[.zero, .one], rfl⟩)).run (.empty "g")

/-- A reshaping, a node that is refused, a rollback that keeps the reshaping, and another shape. -/
def detour : List Command :=
  [.operate (.create "r" (.reshape ⟨0⟩ [1, 2])), .operate (.create "s" (.save ⟨7⟩)),
    .rollback ⟨2, 2⟩, .operate (.create "t" (.squeeze ⟨1⟩ [0]))]

theorem oneParameter_undoes_detour :
    (runScript detour oneParameter).checkpoint = ⟨3, 3⟩ ∧
    (runScript detour oneParameter).rollback oneParameter.checkpoint = oneParameter ∧
    ((runScript detour oneParameter).rollback ⟨2, 2⟩).rollback oneParameter.checkpoint =
      oneParameter := by
  have hg : oneParameter.Reachable := .operate (.empty "g") _
  have hinside : oneParameter.checkpoint ≤ ⟨2, 2⟩ := by decide +kernel
  have habove : ∀ command ∈ detour, command.StaysAbove oneParameter.checkpoint := by
    simp [detour, Command.StaysAbove, hinside]
  obtain ⟨hback, -, -, -, -, hinner⟩ := rollback_undoes hg habove
  exact ⟨by decide +kernel, hback, (hinner ⟨2, 2⟩ hinside).trans hback⟩

end Graph
end TensorGraph
