import TensorGraph.Graph.Text
import TensorGraph.Proofs.Graph.Order
import TensorGraph.Proofs.Graph.Safety

/-! # Runs with many checkpoints

A checkpoint is two lengths. It may be used again after an older one was rolled back to, and then it
cuts the nodes and the types that were made since, each list at a length that belonged to another
graph. What is kept is a graph again exactly when no kept node has a type that is cut. Runs that
roll back in this way only stay settled: every node is shaped by its rule and comes after its
operands. On such a graph no operation reads past the end of a list, whatever node handles it is
given. -/

namespace TensorGraph

namespace Graph

variable {g : Graph} {c : Checkpoint}

/-! ### What a rollback keeps -/

/-- Every node that a rollback to `c` keeps has one of the types that are kept. -/
def KeepsTypes (g : Graph) (c : Checkpoint) : Prop :=
  ∀ node ∈ g.nodes.take c.nodes, node.type.index < c.types

instance (g : Graph) (c : Checkpoint) : Decidable (g.KeepsTypes c) :=
  inferInstanceAs (Decidable (∀ node ∈ g.nodes.take c.nodes, node.type.index < c.types))

theorem hasType_iff {ref : TypeRef} : g.HasType ref ↔ ref.index < g.types.length := by
  simp only [HasType, resolve, found_eq_ok, ← Option.isSome_iff_exists, isSome_getElem?]

theorem typed_iff : g.Typed ↔ ∀ node ∈ g.nodes, node.type.index < g.types.length :=
  forall₂_congr fun _ _ => hasType_iff

/-- **A rollback leaves every node with a type** exactly when it keeps the types of the nodes that
it keeps (`KeepsTypes`). -/
theorem typed_rollback_iff (hg : g.Typed) : (g.rollback c).Typed ↔ g.KeepsTypes c := by
  rw [typed_iff] at hg ⊢
  refine forall₂_congr fun node hnode => ?_
  have hbelow := hg node (List.mem_of_mem_take hnode)
  show node.type.index < (g.types.take c.types).length ↔ _
  rw [List.length_take]
  omega

theorem node_rollback {id : NodeId} (h : id.index < c.nodes) :
    (g.rollback c).node id = g.node id := by
  unfold node rollback
  rw [List.getElem?_take_of_lt h]

theorem resolve_rollback {ref : TypeRef} (h : ref.index < c.types) :
    (g.rollback c).resolve ref = g.resolve ref := by
  unfold resolve rollback
  rw [List.getElem?_take_of_lt h]

/-- A kept node, one below `c.nodes`, has the type that it had. -/
theorem typeOf_rollback (hc : g.KeepsTypes c) {id : NodeId} (h : id.index < c.nodes)
    {type : ValueType} (htype : g.typeOf id = .ok type) : (g.rollback c).typeOf id = .ok type := by
  obtain ⟨node, hnode, hresolve⟩ := typeOf_eq_ok.1 htype
  have hkept : node ∈ g.nodes.take c.nodes := by
    refine List.mem_of_getElem? (i := id.index) ?_
    rw [List.getElem?_take_of_lt h]
    exact found_eq_ok.1 hnode
  refine typeOf_eq_ok.2 ⟨node, (node_rollback h).trans hnode, ?_⟩
  exact (resolve_rollback (hc node hkept)).trans hresolve

/-! ### Settled graphs -/

theorem Ordered.rollback (hg : g.Ordered) (c : Checkpoint) : (g.rollback c).Ordered := by
  intro place node hnode
  have hold := getElem?_of_prefix (List.take_prefix _ _) hnode
  exact hg place node hold

/-- Every node is shaped by its rule and comes after its operands. -/
structure Settled (g : Graph) : Prop where
  valid : g.Valid
  ordered : g.Ordered

namespace Settled

theorem empty (name : String) : (Graph.empty name).Settled :=
  ⟨.empty name, fun _ _ h => by cases h⟩

theorem run (hg : g.Settled) (op : Operation) : (op.run g).Settled where
  valid := hg.valid.run op
  ordered := hg.valid.run_induction (fun _ type h => h.intern type)
    (fun _ name _ hd h => h.add name hd) hg.ordered op

theorem typed (hg : g.Settled) : g.Typed := hg.valid.wellShaped.typed

/-- The operands of a kept node are kept with their types (`KeepsTypes`), so its rule still
holds. -/
theorem rollback (hg : g.Settled) (hc : g.KeepsTypes c) : (g.rollback c).Settled where
  valid.indexed := hg.valid.indexed.rollback c
  valid.wellShaped := by
    intro node hnode
    obtain ⟨place, hplace⟩ := List.mem_iff_getElem?.1 hnode
    have hbelow : place < c.nodes := by
      have hlt := (List.getElem?_eq_some_iff.1 hplace).1
      exact lt_of_lt_of_le hlt (List.length_take_le _ _)
    have hold := getElem?_of_prefix (List.take_prefix _ _) hplace
    obtain ⟨types, result, htypes, hresult, hrule⟩ :=
      hg.valid.wellShaped node (List.mem_of_getElem? hold)
    have hkept := ((List.forall₂_and_left _ _).2 ⟨hg.ordered place node hold, htypes⟩).imp
      fun id type h => typeOf_rollback hc (h.1.trans hbelow) h.2
    exact ⟨types, result, hkept, (resolve_rollback (hc node hnode)).trans hresult, hrule⟩
  ordered := hg.ordered.rollback c

end Settled

/-! ### Runs -/

/-- The handles of nodes that an operation is given. -/
def Operation.operands : Operation → List NodeId
  | intern _ => []
  | create _ constructor => constructor.operands
  | batchNormalization _ input _ _ _ _ => [input]

/-- The handles of types that an operation is given. -/
def Operation.typeRefs : Operation → List TypeRef
  | intern _ => []
  | create _ constructor => constructor.typeRefs
  | batchNormalization _ _ _ _ _ _ => []

/-- The graphs of a run on one graph, the present one first. Every handle that an operation is given
was given out by the graph, now or earlier, and so was every checkpoint that is rolled back to; a
rollback has to be `allowed` besides. -/
inductive History (allowed : Graph → Checkpoint → Prop) : List Graph → Prop
  | empty (name : String) : History allowed [.empty name]
  | operate {g : Graph} {past : List Graph} (h : History allowed (g :: past)) (op : Operation)
      (hids : ∀ id ∈ op.operands, ∃ k ∈ g :: past, id.index < k.nodes.length)
      (hrefs : ∀ ref ∈ op.typeRefs, ∃ k ∈ g :: past, ref.index < k.types.length) :
      History allowed (op.run g :: g :: past)
  | rollback {g k : Graph} {past : List Graph} (h : History allowed (g :: past))
      (hk : k ∈ g :: past) (hc : allowed g k.checkpoint) :
      History allowed (g.rollback k.checkpoint :: g :: past)

/-- A parameter is made without any handle. -/
theorem History.parameter {allowed : Graph → Checkpoint → Prop} {past : List Graph}
    (h : History allowed (g :: past)) (name : String) (tensor : Tensor) :
    History allowed ((Operation.create name (.parameter tensor)).run g :: g :: past) :=
  h.operate _ (fun _ hid => absurd hid List.not_mem_nil)
    fun _ href => absurd href List.not_mem_nil

theorem History.mono {allowed freely : Graph → Checkpoint → Prop} {past : List Graph}
    (h : History allowed past) (hall : ∀ g c, allowed g c → freely g c) : History freely past := by
  induction h with
  | empty name => exact .empty name
  | operate _ op hids hrefs ih => exact ih.operate op hids hrefs
  | rollback _ hk hc ih => exact ih.rollback hk (hall _ _ hc)

/-- All graphs of a run that only rolls back to what `KeepsTypes` are settled (`Settled`). -/
theorem History.settled {past : List Graph} (h : History KeepsTypes past) :
    ∀ k ∈ past, k.Settled := by
  induction h with
  | empty name =>
    intro k hk
    obtain rfl := List.mem_singleton.1 hk
    exact .empty name
  | operate _ op _ _ ih =>
    rw [List.forall_mem_cons]
    exact ⟨(ih _ List.mem_cons_self).run op, ih⟩
  | rollback _ _ hc ih =>
    rw [List.forall_mem_cons]
    exact ⟨(ih _ List.mem_cons_self).rollback hc, ih⟩

/-- A checkpoint of an earlier graph `k` that is still in place keeps its types. -/
theorem keepsTypes_of_prefix {k : Graph} (hk : k.Typed) (hnodes : k.nodes <+: g.nodes) :
    g.KeepsTypes k.checkpoint := by
  intro node hnode
  have htake : g.nodes.take k.nodes.length = k.nodes := List.prefix_iff_eq_take.1 hnodes |>.symm
  rw [checkpoint, htake] at hnode
  exact typed_iff.1 hk node hnode

/-! ### What is read never lies past the end -/

/-- The `listing` of a graph is made exactly when every node has a type. -/
theorem exists_listing_iff : (∃ text, g.listing = .ok text) ↔ g.Typed := by
  have hlisting : (∃ text, g.listing = .ok text) ↔
      ∃ lines, (g.entries.mapM fun entry => g.nodeLine entry.1 entry.2) = .ok lines := by
    simp only [listing, bind_eq_ok, pure_eq_ok]
    constructor
    · rintro ⟨_, lines, h, -⟩
      exact ⟨lines, h⟩
    · rintro ⟨lines, h⟩
      exact ⟨_, lines, h, rfl⟩
  have hline : ∀ id node, (∃ line, g.nodeLine id node = .ok line) ↔ g.HasType node.type := by
    intro id node
    simp only [nodeLine, bind_eq_ok, pure_eq_ok]
    constructor
    · rintro ⟨_, type, h, -⟩
      exact ⟨type, h⟩
    · rintro ⟨type, h⟩
      exact ⟨_, type, h, rfl⟩
  rw [hlisting, exists_mapM_eq_ok]
  simp only [hline, Typed]
  constructor
  · intro h node hnode
    obtain ⟨place, hplace⟩ := List.mem_iff_getElem?.1 hnode
    have hentry : ((⟨place⟩, node) : NodeId × Node) ∈ g.entries := by
      refine List.mem_map.2 ⟨(node, place), ?_, rfl⟩
      exact List.mem_zipIdx_iff_getElem?.2 hplace
    exact h _ hentry
  · intro h entry hentry
    obtain ⟨⟨node, place⟩, hmem, rfl⟩ := List.mem_map.1 hentry
    exact h node (List.mem_of_getElem? (List.mem_zipIdx_iff_getElem?.1 hmem))

/-- The sums and products of sizes that a constructor takes are sizes, so that none is reduced
modulo `Size.bound`: the product of the filter channels and the groups of a convolution, the sum of
the extents of a concatenation, and the place at which a broadcast ends. -/
def Constructor.Exact (g : Graph) : Constructor → Prop
  | convolution _ filter _ _ _ group =>
    ∀ type, g.typeOf filter = .ok type → type.dims.getD 3 0 * group < Size.bound
  | concat inputs axis =>
    ∀ types, inputs.mapM g.typeOf = .ok types →
      (types.map fun type => type.dims.getD axis 0).sum < Size.bound
  | broadcast input dims axis =>
    axis ≤ dims.length ∨ ∀ type, g.typeOf input = .ok type → axis + type.rank < Size.bound
  | _ => True

theorem Constructor.Exact.placed {c : Constructor} (h : c.Exact g) : c.Placed g := by
  cases c with
  | broadcast input dims axis => exact h
  | _ => trivial

/-- **No run that rolls back to what keeps its types reads past the end of a list.** Every node has
a type of the graph and operands of the graph. Looking up the type of a handle, listing the graph
and constructing a node do not run into a type or a place that is not there, whatever handles of
nodes they are given; only the type handles have to be in range, and the constructor
`Constructor.Exact`. A batch normalization does not either, and finds memory for its parameters if
the channels take fewer than `Size.allocatable` bytes. A further rollback is followed by a listing
exactly when it keeps its types, as it does back to every graph whose nodes are all there. -/
theorem safe_of_history {past : List Graph} (h : History KeepsTypes (g :: past)) :
    (∀ node ∈ g.nodes, node.type.index < g.types.length ∧
      ∀ id ∈ node.operands, id.index < g.nodes.length) ∧
    (∀ id, Avoids (·.isFault) (g.typeOf id) ∧ Avoids (·.isFault) (g.dims id) ∧
      Avoids (·.isFault) (g.kind id)) ∧
    (∃ text, g.listing = .ok text) ∧
    (∀ name (c : Constructor), (∀ ref ∈ c.typeRefs, ref.index < g.types.length) → c.Exact g →
      Step.Avoids (·.isFault) (Build.create name (c.rule name)) g) ∧
    (∀ name input channel epsilon momentum tensors,
      (∀ type channels, g.typeOf input = .ok type → type.dims[channel]? = some channels →
        channels * ElementKind.float.width < Size.allocatable) →
      Step.Avoids (·.isFault)
        (Build.batchNormalization name input channel epsilon momentum tensors) g) ∧
    (∀ c, (∃ text, (g.rollback c).listing = .ok text) ↔ g.KeepsTypes c) ∧
    (∀ k ∈ past, k.nodes <+: g.nodes → g.KeepsTypes k.checkpoint) := by
  have hg := h.settled g List.mem_cons_self
  have htyped := hg.typed
  have hreads := htyped.reads
  have hfault : ∀ e : GraphError, e.isFault = true → e.Broken False True :=
    fun _ => GraphError.broken_of_isFault
  refine ⟨fun node hnode => ⟨typed_iff.1 htyped node hnode, fun id hid => ?_⟩, fun id => ?_,
    exists_listing_iff.2 htyped, fun name c hrefs hexact => ?_,
    fun name input channel _ _ _ hroom => ?_, fun c => ?_, fun k hk => ?_⟩
  · obtain ⟨place, hplace⟩ := List.mem_iff_getElem?.1 hnode
    have hlt := (List.getElem?_eq_some_iff.1 hplace).1
    exact (hg.ordered place node hplace id hid).trans hlt
  · exact ⟨(hreads id).avoids_typeOf.mono hfault, (hreads id).avoids_dims.mono hfault,
      (hreads id).avoids_kind.mono hfault⟩
  · refine (Build.avoids_create ?_).mono hfault
    exact Constructor.avoids_rule (fun id _ => hreads id)
      (fun ref href => hasType_iff.2 (hrefs ref href)) hexact.placed name
  · refine Step.Avoids.mono ?_ hfault
    exact Build.avoids_batchNormalization hg.valid.indexed (hreads input) fun _ => hroom
  · exact exists_listing_iff.trans (typed_rollback_iff htyped)
  · exact keepsTypes_of_prefix (h.settled k (List.mem_cons_of_mem _ hk)).typed

/-! ### A checkpoint that is used after an older one -/

/-- A parameter and an operation on it, in a graph of two nodes and one type. -/
def activated : Graph :=
  (Operation.create "y" (.unary .relu ⟨0⟩)).run
    ((Operation.create "x" (.parameter (.zero .float [1]))).run (.empty "g"))

/-- Everything is rolled back, and two parameters are made, the second one of the shape `dims`. -/
def renewed (dims : List Nat) : Graph :=
  (Operation.create "b" (.parameter (.zero .float dims))).run
    ((Operation.create "a" (.parameter (.zero .float [1]))).run
      (activated.rollback (Graph.empty "g").checkpoint))

theorem history_renewed (dims : List Nat) :
    ∃ past, History KeepsTypes (renewed dims :: past) ∧ activated ∈ past := by
  have hempty : History KeepsTypes [.empty "g"] := .empty "g"
  have hx := hempty.parameter "x" (.zero .float [1])
  have hy := hx.operate (.create "y" (.unary .relu ⟨0⟩)) (by decide +kernel) (by decide +kernel)
  have hback := hy.rollback (k := Graph.empty "g") (by simp) (by decide +kernel)
  have hb := (hback.parameter "a" (.zero .float [1])).parameter "b" (.zero .float dims)
  exact ⟨_, hb, by simp [activated]⟩

/-- A rollback that keeps other nodes than those of the graph the checkpoint was taken of. -/
theorem safe_of_history_renewed :
    let g := (renewed [1]).rollback activated.checkpoint
    g.nodes ≠ activated.nodes ∧ (∃ text, g.listing = .ok text) ∧
      ∀ node ∈ g.nodes, node.type.index < g.types.length := by
  obtain ⟨past, hpast, hmem⟩ := history_renewed [1]
  have hback := hpast.rollback (List.mem_cons_of_mem _ hmem) (by decide +kernel)
  obtain ⟨hnodes, -, hlisting, -⟩ := safe_of_history hback
  exact ⟨by decide +kernel, hlisting, fun node hnode => (hnodes node hnode).1⟩

/-- The same rollback after a parameter of a second type, which is cut. -/
def overdrawn : Graph := (renewed [2]).rollback activated.checkpoint

/-- An image, which also serves as a filter, and a bias. -/
def imaged : Graph :=
  (Operation.create "b" (.parameter (.zero .float [1]))).run
    ((Operation.create "x" (.parameter (.zero .float [1, 1, 1, 1]))).run (.empty "g"))

/-- They are kept, and a third type is made and cut again. -/
def withdrawn : Graph :=
  ((Operation.intern ⟨.float, [1, 1, 1, 2]⟩).run imaged).rollback imaged.checkpoint

/-- A vector, and a tensor without elements that has as many channels as do not fit into memory. -/
def crowded : Graph :=
  (Operation.create "e" (.parameter (.zero .float [0, 2305843009213693952]))).run
    ((Operation.create "x" (.parameter (.zero .float [2]))).run (.empty "g"))

/-- Four tensors of one float. -/
def unitParameters : BatchParameters where
  scale := .zero .float [1]
  bias := .zero .float [1]
  mean := .zero .float [1]
  variance := .zero .float [1]

/-- **Checkpoints and type handles that the graph gave out lead past the end of its types.** After a
rollback to an older checkpoint a newer one keeps two nodes and one type, and the second node is
left without a type. After any rollback a convolution asks for the type of a handle that was cut.
Without any rollback, a broadcast at the last axis that is a size begins at a place past the end of
the new shape, since the place at which it ends is reduced to 0, and a batch normalization over
`2 ^ 61` channels asks for more memory than can be allocated. -/
theorem stale_overdrawn :
    (∃ past, History (fun _ _ => True) (overdrawn :: past)) ∧
      overdrawn.nodes.length = 2 ∧ overdrawn.types.length = 1 ∧
      overdrawn.typeOf ⟨1⟩ = .error (.staleType ⟨1⟩) ∧
      overdrawn.listing = .error (.staleType ⟨1⟩) ∧
      ∃ past, let op := Operation.create "c" (.convolution ⟨0⟩ ⟨0⟩ ⟨1⟩ ⟨2⟩ ⟨1, 1, .zero⟩ 1)
        History KeepsTypes (op.run withdrawn :: withdrawn :: past) ∧
        (Constructor.convolution ⟨0⟩ ⟨0⟩ ⟨1⟩ ⟨2⟩ ⟨1, 1, .zero⟩ 1).rule "c" withdrawn =
          .error (.staleType ⟨2⟩) ∧
      (∃ past, History KeepsTypes (crowded :: past)) ∧
      Build.broadcast "b" ⟨0⟩ [5] (Size.bound - 1) crowded =
        .error (.outOfRange (Size.bound - 1) 1) crowded ∧
      Build.batchNormalization "n" ⟨1⟩ 1 .zero .zero unitParameters crowded =
        .error (.tensor .capacity) crowded := by
  obtain ⟨past, hpast, hmem⟩ := history_renewed [2]
  have hfree : History (fun _ _ => True) (renewed [2] :: past) := hpast.mono fun _ _ _ => trivial
  refine ⟨⟨_, hfree.rollback (List.mem_cons_of_mem _ hmem) trivial⟩, by decide +kernel,
    by decide +kernel, by decide +kernel, by decide +kernel, ?_⟩
  have hempty : History KeepsTypes [.empty "g"] := .empty "g"
  have hb := (hempty.parameter "x" (.zero .float [1, 1, 1, 1])).parameter "b" (.zero .float [1])
  have ht := hb.operate (.intern ⟨.float, [1, 1, 1, 2]⟩) (by decide) (by decide)
  have hback := ht.rollback (List.mem_cons_of_mem _ List.mem_cons_self) (by decide +kernel)
  have hcrowded := (hempty.parameter "x" (.zero .float [2])).parameter "e"
    (.zero .float [0, 2305843009213693952])
  exact ⟨_, hback.operate _ (by decide +kernel) (by decide +kernel), by decide +kernel,
    ⟨_, hcrowded⟩, rfl, rfl⟩

end Graph
end TensorGraph
