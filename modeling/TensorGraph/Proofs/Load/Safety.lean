import TensorGraph.Proofs.Graph.WellShaped
import TensorGraph.Proofs.Load.Seeding
import TensorGraph.Proofs.Lowering.Safety
import TensorGraph.Proofs.Shape.Window
import TensorGraph.Proofs.Tensor.Coordinates

/-! # Safe loads

Every phase of a load is safe from every sound workspace on (`Lowering.Safe`), and the workspace in
which a load into a reachable graph begins is sound: its table is empty. So whatever bytes are
loaded, a load meets no handle without a node, no type handle without a type and no place outside a
list. It ends with a result or with an error that tells something about the model or the caller,
unless memory is missing for zeros that the model asks for (`Affordable`). -/

namespace TensorGraph

open Onnx
open Step (after)

/-! ### Memory -/

/-- Memory can be allocated for the tensor that a record declares, if it keeps to `limit`. -/
def Onnx.ValueRecord.Allocatable (record : ValueRecord) (limit : Nat) : Prop :=
  ∀ {kind dims}, record.Declares kind dims → volume dims * kind.width ≤ limit →
    volume dims * kind.width < Size.allocatable

/-- A load finds memory for all zeros that it asks for: those of the declared inputs
(`Allocatable`), and those of each node that it comes to (`zeroCount`). -/
structure Affordable (options : LoadOptions) (model : Description) (g : Graph) : Prop where
  inputs : ∀ record ∈ model.graph.inputs, record.Allocatable options.limit
  nodes : ∀ {place node s}, ComesTo options model g place s →
    model.graph.nodes[place]? = some node → Lowering.Affords node s

theorem avoids_placeholder {record : ValueRecord} {limit : Nat} {room : Prop}
    (hroom : room → record.Allocatable limit) :
    Avoids (LoadError.Foreign room) (record.placeholder limit) := by
  refine (Avoids.found nofun).bind fun type htype => (avoids_ofCode _ _).bind fun kind hkind => ?_
  refine (Avoids.found nofun).bind fun shape hshape => ?_
  refine (Avoids.mapM fun d _ => .found nofun).bind fun dims hdims => ?_
  refine (avoids_tensor record.name (avoids_countBytes kind dims)).bind fun size hsize => ?_
  refine (Avoids.check nofun).bind fun _ hlimit => avoids_zeros record.name fun h => ?_
  have hdeclares : record.Declares kind dims := ⟨type, shape, found_eq_ok.1 htype,
    ElementKind.ofCode_eq_ok.1 hkind, found_eq_ok.1 hshape, ShapeRecord.fixed_eq_ok.1 hdims⟩
  refine hroom h hdeclares ?_
  rw [← eq_volume_of_countBytes (mapError_eq_ok.1 hsize)]
  exact check_eq_ok.1 hlimit

theorem Table.Puts.avoids {t : Table} {name : String} {made : Except LoadError Tensor}
    {result : Except LoadError Table} {bad : LoadError → Prop} (h : t.Puts name made result)
    (hmade : Avoids bad made) : Avoids bad result := by
  cases h with
  | skip => exact .pure _
  | put => exact hmade.bind fun _ _ => .pure _

namespace Lowering

/-! ### The phases of a load -/

section Phases

variable {room : Prop} {α β : Type} {s : Workspace} (hs : s.Sound)
include hs

theorem safe_forM {l : List α} {f : α → Lowering Unit}
    (hf : ∀ a ∈ l, ∀ t : Workspace, t.Sound → Safe room (f a) t) : Safe room (l.forM f) s := by
  induction l generalizing s with
  | nil => exact safe_pure hs ()
  | cons a l ih =>
    have ha := hf a List.mem_cons_self s hs
    show Safe room (f a >>= fun _ => l.forM f) s
    exact .bind ha fun u t ht => ih (ha.of_ok ht).1 fun b hb => hf b (List.mem_cons_of_mem _ hb)

theorem safe_mapM {l : List α} {f : α → Lowering β}
    (hf : ∀ a ∈ l, ∀ t : Workspace, t.Sound → Safe room (f a) t) : Safe room (l.mapM f) s := by
  induction l generalizing s with
  | nil => exact safe_pure hs []
  | cons a l ih =>
    have ha := hf a List.mem_cons_self s hs
    rw [List.mapM_cons]
    refine .bind ha fun b t ht => ?_
    have hrest := ih (ha.of_ok ht).1 fun b hb => hf b (List.mem_cons_of_mem _ hb)
    exact .bind hrest fun bs r hr => safe_pure (hrest.of_ok hr).1 _

/-- With one more record (`Table.Puts`) the graph values stay. -/
theorem safe_record {name : String} {made : Except LoadError Tensor}
    {update : Table → Except LoadError Table} (hputs : s.table.Puts name made (update s.table))
    (hmade : Avoids (LoadError.Foreign room) made) : Safe room (updateTable update) s := by
  refine safe_updateTensors hs ?_ fun t ht => ?_
  · exact (hputs.avoids hmade).mono fun _ hbroken => hbroken.foreign id
  · rcases hputs.cases_of_ok ht with rfl | ⟨tensor, -, rfl⟩
    · rfl
    · exact Table.values_insert

theorem safe_declareInputs {limit : Nat} {records : List ValueRecord}
    (hroom : room → ∀ record ∈ records, record.Allocatable limit) :
    Safe room (declareInputs limit records) s :=
  safe_forM hs fun record hrecord t ht => safe_record ht (t.table.puts_declareInput limit record)
    (avoids_placeholder fun h => hroom h record hrecord)

theorem safe_seed {options : LoadOptions} {model : Description}
    (hroom : room → ∀ record ∈ model.graph.inputs, record.Allocatable options.limit) :
    Safe room (seed options model) s := by
  have hlend : Safe room (updateTable fun t => .ok (t.lendAll options.lent)) s := by
    refine safe_updateTensors hs (.pure _) fun t ht => ?_
    cases ht
    exact Table.values_lendAll
  refine .bind hlend fun u t ht => ?_
  have hsound := (hlend.of_ok ht).1
  split
  · have hstore : Safe room (storeInitializers model.graph.initializers) t :=
      safe_forM hsound fun record _ r hr => safe_record hr (r.table.puts_storeInitializer record)
        (avoids_materialize record)
    exact .bind hstore fun u r hr => safe_declareInputs (hstore.of_ok hr).1 hroom
  · exact safe_declareInputs hsound hroom

theorem safe_lower {opset : Int64} {node : NodeRecord} (hroom : room → Affords node s) :
    Safe room (lower opset node) s := by
  unfold lower
  cases hop : node.operator? with
  | none => exact safe_pure hs false
  | some op =>
    have hstep := safe_step hs opset node op fun h => hroom h op hop
    exact .bind hstep fun u t ht => safe_pure (hstep.of_ok ht).1 true

/-- Where there is `room`, every node that is reached must find memory for its zeros. -/
theorem safe_lowerNodes {opset : Int64} {nodes : List NodeRecord}
    (hroom : room → ∀ {place node t}, nodes[place]? = some node →
      lowerNodes opset (nodes.take place) s = .ok () t → Affords node t) :
    Safe room (lowerNodes opset nodes) s := by
  induction nodes generalizing s with
  | nil => exact safe_pure hs ()
  | cons node nodes ih =>
    have hnode : Safe room (lowerNode opset node) s :=
      .lowerNode (safe_lower hs fun h => @hroom h 0 node s rfl rfl)
    show Safe room (lowerNode opset node >>= fun _ => lowerNodes opset nodes) s
    refine .bind hnode fun u t ht => ih (hnode.of_ok ht).1 fun h place other r hother hr => ?_
    exact @hroom h (place + 1) other r hother (forM_cons_eq_ok.2 ⟨t, ht, hr⟩)

theorem safe_bindResult (output : ValueRecord) : Safe room (bindResult output) s := by
  refine .bind (.table hs) fun t r hr => ?_
  obtain ⟨rfl, rfl⟩ := table_eq_ok.1 hr
  refine .bind (.ofExcept hs (.found (by nofun))) fun id r hr => ?_
  obtain ⟨hvalue, rfl⟩ := ofExcept_eq_ok.1 hr
  have hid := hs.values (found_eq_ok.1 hvalue)
  have hsave : Safe room (onGraph (.create (resultName output.name) (Draft.save · id))) r :=
    .create (c := .save id) (resultName output.name) hs (by simpa [Graph.Constructor.operands])
      (by simp [Graph.Constructor.typeRefs]) trivial
  exact .bind hsave fun save r hr => safe_pure (hsave.of_ok hr).1 _

theorem safe_finish (options : LoadOptions) (model : Description) :
    Safe room (finish options model) s := by
  unfold finish
  split
  · refine .bind (.ofExcept hs (.check nofun)) fun u r hr => ?_
    obtain ⟨-, rfl⟩ := ofExcept_eq_ok.1 hr
    exact safe_mapM hs fun output _ t ht => safe_bindResult ht output
  · exact safe_pure hs []

/-- **Loading a model is safe** from every sound workspace on, as `Safe` says. -/
theorem safe_lowerModel {options : LoadOptions} {model : Description}
    (hinputs : room → ∀ record ∈ model.graph.inputs, record.Allocatable options.limit)
    (hnodes : room → ∀ {place node t}, model.graph.nodes[place]? = some node →
      (seed options model >>= fun _ =>
        lowerNodes model.opsetVersion (model.graph.nodes.take place)) s = .ok () t →
          Affords node t) :
    Safe room (lowerModel options model) s := by
  have hseed := safe_seed hs hinputs
  refine .bind hseed fun u t ht => ?_
  have hlower := safe_lowerNodes (hseed.of_ok ht).1 fun h place node r hnode hr =>
    hnodes h hnode (Step.bind_eq_ok.2 ⟨(), t, ht, hr⟩)
  refine .bind hlower fun u r hr => ?_
  have hfinish : Safe room (finish options model) r :=
    safe_finish (hlower.of_ok hr).1 options model
  refine .bind hfinish fun outputs q hq => ?_
  have hend := (hfinish.of_ok hq).1
  refine .bind (.table hend) fun known q hq => ?_
  obtain ⟨rfl, rfl⟩ := table_eq_ok.1 hq
  exact safe_pure hend _

end Phases

end Lowering

/-! ### Loads -/

section Load

variable {g : Graph}

theorem sound_of_reachable (hg : g.Reachable) : Workspace.Sound { graph := g } where
  indexed := hg.indexed
  values h := by cases h

/-- On a built graph, names that stand for nodes stand for values with types, so the workspace is
`Sound`. -/
theorem Workspace.Closed.sound {s : Workspace} (hs : s.Closed) (hg : s.graph.Built) : s.Sound where
  indexed := hg.valid.indexed
  values := by
    intro name id hid
    have hlt := hs name id hid
    have hnode : s.graph.node id = .ok s.graph.nodes[id.index] :=
      found_eq_ok.2 (List.getElem?_eq_getElem hlt)
    obtain ⟨type, -, htype⟩ := hg.valid.wellShaped.typed.typeOf hnode
    exact ⟨type, htype⟩

theorem safe_load {room : Prop} (hg : g.Reachable) (options : LoadOptions) (model : Description)
    (hroom : room → Affordable options model g) :
    Lowering.Safe room (Lowering.lowerModel options model) { graph := g } :=
  Lowering.safe_lowerModel (sound_of_reachable hg) (fun h => (hroom h).inputs)
    fun h _ _ _ hnode ht => (hroom h).nodes
      ⟨Nat.le_of_lt (List.getElem?_eq_some_iff.1 hnode).1, ht⟩ hnode

end Load
end TensorGraph
