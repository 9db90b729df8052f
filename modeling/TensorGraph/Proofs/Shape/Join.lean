import TensorGraph.Proofs.Shape.Broadcast
import Mathlib.Data.List.Perm.Basic

/-! # Common shapes of any number of shapes

To bring two shapes to a common one is a partial operation. The common shape of any number of shapes
is described without an order: it is as long as the longest of them, and at every place from the end
it has the dimension that is not 1, if there is one; there may be only one such dimension. Joining
the shapes one after the other finds it in every order (`foldlM_joinShape?_eq_some`), and the laws
of the operation follow (`partialJoin_joinShape?`). -/

namespace TensorGraph

variable {a b c m : List Nat} {shapes shapes' : List (List Nat)}

/-- The laws of a partial operation `join`: neither the order of the operands nor their grouping
matters, for the result and for whether there is one, and `unit` joins with everything. -/
structure PartialJoin {α : Type} (join : α → α → Option α) (unit : α) : Prop where
  comm : ∀ a b, join a b = join b a
  assoc : ∀ a b c, ((join a b).bind fun ab => join ab c) = (join b c).bind fun bc => join a bc
  idem : ∀ a, join a a = some a
  unit_join : ∀ a, join unit a = some a

/-! ### The common shape -/

theorem eq_of_dimFromEnd (hlen : a.length = c.length)
    (h : ∀ place, dimFromEnd a place = dimFromEnd c place) : a = c := by
  refine List.reverse_injective (List.ext_getElem (by simpa using hlen) fun i hi hi' => ?_)
  have hdim := h i
  rwa [dimFromEnd, dimFromEnd, List.getD_eq_getElem _ _ hi, List.getD_eq_getElem _ _ hi'] at hdim

/-- A common shape `c` of some `shapes`, none of which comes first. -/
structure JoinedAll (shapes : List (List Nat)) (c : List Nat) : Prop where
  /-- No shape is longer. -/
  length_le : ∀ a ∈ shapes, a.length ≤ c.length
  /-- One of them is as long, or there is nothing to be that long. -/
  length_eq : c.length = 0 ∨ ∃ a ∈ shapes, a.length = c.length
  /-- At every place each shape has the common dimension or 1. -/
  dim : ∀ place, ∀ a ∈ shapes, dimFromEnd a place = 1 ∨ dimFromEnd a place = dimFromEnd c place
  /-- The common dimension is that of one of them, or 1. -/
  attained : ∀ place,
    dimFromEnd c place = 1 ∨ ∃ a ∈ shapes, dimFromEnd a place = dimFromEnd c place

theorem JoinedAll.of_perm (h : JoinedAll shapes c) (hperm : shapes.Perm shapes') :
    JoinedAll shapes' c where
  length_le a ha := h.length_le a (hperm.mem_iff.2 ha)
  length_eq := h.length_eq.imp_right fun ⟨a, ha, hlen⟩ => ⟨a, hperm.mem_iff.1 ha, hlen⟩
  dim place a ha := h.dim place a (hperm.mem_iff.2 ha)
  attained place :=
    (h.attained place).imp_right fun ⟨a, ha, hdim⟩ => ⟨a, hperm.mem_iff.1 ha, hdim⟩

theorem joinedAll_perm (hperm : shapes.Perm shapes') : JoinedAll shapes c ↔ JoinedAll shapes' c :=
  ⟨fun h => h.of_perm hperm, fun h => h.of_perm hperm.symm⟩

theorem joinedAll_singleton : JoinedAll [a] c ↔ a = c := by
  constructor
  · intro h
    have hle := h.length_le a List.mem_cons_self
    have hlen : a.length = c.length := by
      rcases h.length_eq with hzero | ⟨_, ha, hlen⟩
      · omega
      · rwa [List.mem_singleton.1 ha] at hlen
    refine eq_of_dimFromEnd hlen fun place => ?_
    rcases h.dim place a List.mem_cons_self with hone | hdim
    · rcases h.attained place with hone' | ⟨_, ha, hdim⟩
      · rw [hone, hone']
      · rwa [List.mem_singleton.1 ha] at hdim
    · exact hdim
  · rintro rfl
    exact ⟨by simp, .inr ⟨a, by simp⟩, fun place => by simp, fun place => .inr ⟨a, by simp⟩⟩

/-! ### Two shapes at a time -/

theorem meetAt_iff {x y z : Nat} :
    MeetAt x y z ↔ (x = 1 ∨ x = z) ∧ (y = 1 ∨ y = z) ∧ (x = z ∨ y = z) := by
  unfold MeetAt
  omega

/-- Shapes have the common shape of `m` and the others if they have it with `a` and `b`, which `m`
joins. -/
theorem Joined.joinedAll (hm : Joined a b m) (h : JoinedAll (m :: shapes) c) :
    JoinedAll (a :: b :: shapes) c := by
  have hrank := hm.rank
  have hlong := h.length_le m List.mem_cons_self
  refine ⟨?_, ?_, fun place => ?_, fun place => ?_⟩
  · simp only [List.forall_mem_cons]
    exact ⟨by omega, by omega, fun d hd => h.length_le d (List.mem_cons_of_mem _ hd)⟩
  · have hlen := h.length_eq
    simp only [List.exists_mem_cons_iff] at hlen ⊢
    rcases hlen with hzero | hlen | hlen
    · exact .inl hzero
    · have hor : a.length = c.length ∨ b.length = c.length := by omega
      exact .inr (hor.imp_right .inl)
    · exact .inr (.inr (.inr hlen))
  · have hdim := h.dim place
    have hmeet := meetAt_iff.1 (hm.dim place)
    simp only [List.forall_mem_cons] at hdim ⊢
    exact ⟨by omega, by omega, hdim.2⟩
  · have hdim := h.attained place
    have hmeet := meetAt_iff.1 (hm.dim place)
    simp only [List.exists_mem_cons_iff] at hdim ⊢
    rcases hdim with hone | hdim | hdim
    · exact .inl hone
    · rw [← hdim]
      exact .inr (hmeet.2.2.imp_right .inl)
    · exact .inr (.inr (.inr hdim))

/-- Of shapes that have a common shape, the first two have one, `m`, which takes their place. -/
theorem JoinedAll.exists_joined (h : JoinedAll (a :: b :: shapes) c) :
    ∃ m, Joined a b m ∧ JoinedAll (m :: shapes) c := by
  obtain ⟨hlenA, hlenB, hlenRest⟩ : a.length ≤ c.length ∧ b.length ≤ c.length ∧
      ∀ other ∈ shapes, other.length ≤ c.length := by
    simpa only [List.forall_mem_cons] using h.length_le
  have hdim : ∀ place, (dimFromEnd a place = 1 ∨ dimFromEnd a place = dimFromEnd c place) ∧
      (dimFromEnd b place = 1 ∨ dimFromEnd b place = dimFromEnd c place) ∧ ∀ other ∈ shapes,
        dimFromEnd other place = 1 ∨ dimFromEnd other place = dimFromEnd c place := by
    simpa only [List.forall_mem_cons] using h.dim
  obtain ⟨m, hm⟩ : ∃ m, Joined a b m := by
    refine exists_joined_iff.2 fun place => ?_
    obtain ⟨hdimA, hdimB, -⟩ := hdim place
    unfold Meet
    omega
  have hrank := hm.rank
  refine ⟨m, hm, ?_, ?_, fun place => ?_, fun place => ?_⟩
  · simp only [List.forall_mem_cons]
    exact ⟨by omega, hlenRest⟩
  · have hlen := h.length_eq
    simp only [List.exists_mem_cons_iff] at hlen ⊢
    rcases hlen with hzero | hlen | hlen | hlen
    · exact .inl hzero
    · exact .inr (.inl (by omega))
    · exact .inr (.inl (by omega))
    · exact .inr (.inr hlen)
  · obtain ⟨hdimA, hdimB, hrest⟩ := hdim place
    have hmeet := meetAt_iff.1 (hm.dim place)
    simp only [List.forall_mem_cons]
    exact ⟨by omega, hrest⟩
  · obtain ⟨hdimA, hdimB, -⟩ := hdim place
    have hmeet := meetAt_iff.1 (hm.dim place)
    have hattained := h.attained place
    simp only [List.exists_mem_cons_iff] at hattained ⊢
    rcases hattained with hone | hc | hc | hc
    · exact .inl hone
    · have hor : dimFromEnd c place = 1 ∨ dimFromEnd m place = dimFromEnd c place := by omega
      exact hor.imp_right .inl
    · have hor : dimFromEnd c place = 1 ∨ dimFromEnd m place = dimFromEnd c place := by omega
      exact hor.imp_right .inl
    · exact .inr (.inr hc)

theorem joinedAll_cons_cons :
    JoinedAll (a :: b :: shapes) c ↔ ∃ m, Joined a b m ∧ JoinedAll (m :: shapes) c :=
  ⟨fun h => h.exists_joined, fun ⟨_, hm, h⟩ => hm.joinedAll h⟩

/-- A common shape of two shapes is one with no order (`Joined`). -/
theorem joinedAll_pair : JoinedAll [a, b] c ↔ Joined a b c := by
  simp only [joinedAll_cons_cons, joinedAll_singleton, exists_eq_right]

/-- **Joining shapes one after the other** by `joinShape?` finds their common shape. -/
theorem foldlM_joinShape?_eq_some :
    shapes.foldlM joinShape? a = some c ↔ JoinedAll (a :: shapes) c := by
  induction shapes generalizing a with
  | nil => simp [joinedAll_singleton]
  | cons b shapes ih =>
    simp only [List.foldlM_cons, Option.bind_eq_bind, Option.bind_eq_some_iff, joinShape?_eq_some,
      ih, joinedAll_cons_cons]

/-- There is only one common shape. -/
theorem JoinedAll.eq (h : JoinedAll (a :: shapes) b) (h' : JoinedAll (a :: shapes) c) : b = c := by
  rw [← foldlM_joinShape?_eq_some] at h h'
  exact Option.some.inj (h.symm.trans h')

/-- **The laws of joining shapes** by `joinShape?`, with the shape `[]` as unit. -/
theorem partialJoin_joinShape? : PartialJoin joinShape? [] where
  comm a b := by
    refine Option.ext fun c => ?_
    rw [joinShape?_eq_some, joinShape?_eq_some]
    exact ⟨.symm, .symm⟩
  assoc a b c := by
    refine Option.ext fun d => ?_
    have hleft : ((joinShape? a b).bind fun ab => joinShape? ab c) = some d ↔
        JoinedAll [a, b, c] d := by
      simp only [Option.bind_eq_some_iff, joinShape?_eq_some, joinedAll_cons_cons (a := a),
        joinedAll_pair]
    have hright : ((joinShape? b c).bind fun bc => joinShape? a bc) = some d ↔
        JoinedAll [b, c, a] d := by
      simp only [Option.bind_eq_some_iff, joinShape?_eq_some, joinedAll_cons_cons (a := b),
        joinedAll_pair]
      exact exists_congr fun m => and_congr_right fun _ => ⟨.symm, .symm⟩
    rw [hleft, hright]
    exact joinedAll_perm (List.perm_append_singleton a [b, c]).symm
  idem a := joinShape?_eq_some.2 ⟨(Nat.max_self _).symm, fun _ => .inl ⟨rfl, rfl⟩⟩
  unit_join a := joinShape?_eq_some.2 ⟨by simp, fun _ => .inr (.inl ⟨rfl, rfl⟩)⟩

end TensorGraph
