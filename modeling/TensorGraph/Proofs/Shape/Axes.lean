import TensorGraph.Shape.Axes
import TensorGraph.Proofs.Check
import Mathlib.Data.List.Pairwise

/-! # Shapes with dimensions of size 1 taken out

Removing and inserting axes of size 1 are told by one relation between a long and a short shape.
Inserting in ascending order gives a shape that is so related to the one it started from: an axis
inserted later lies behind the earlier ones and does not move them. -/

namespace TensorGraph

/-! ### Ascending axes -/

theorem mem_sortAxes {axes : List Nat} {axis : Nat} : axis ∈ sortAxes axes ↔ axis ∈ axes :=
  (List.mergeSort_perm axes _).mem_iff

@[simp] theorem length_sortAxes (axes : List Nat) : (sortAxes axes).length = axes.length :=
  (List.mergeSort_perm axes _).length_eq

/-- Axes sorted by `sortAxes` ascend strictly when none occurs twice. -/
theorem pairwise_sortAxes {axes : List Nat} (h : axes.Nodup) :
    (sortAxes axes).Pairwise (· < ·) := by
  have hle : (sortAxes axes).Pairwise (· ≤ ·) := by
    have hsorted : (sortAxes axes).Pairwise fun a b => decide (a ≤ b) = true := by
      refine List.pairwise_mergeSort (fun a b c hab hbc => ?_) (fun a b => ?_) axes
      · simp only [decide_eq_true_eq] at *
        omega
      · simp only [Bool.or_eq_true, decide_eq_true_eq]
        omega
    exact hsorted.imp fun h => by simpa using h
  have hne : (sortAxes axes).Pairwise (· ≠ ·) :=
    (List.mergeSort_perm axes _).nodup_iff.2 h
  exact hle.imp₂ (fun _ _ hab hne => Nat.lt_of_le_of_ne hab hne) hne

/-- The first of some ascending numbers leaves room for the others below their `bound`. -/
theorem add_length_lt_of_ascending {a : Nat} {l : List Nat} {bound : Nat}
    (h : (a :: l).Pairwise (· < ·)) (hlt : ∀ b ∈ a :: l, b < bound) : a + l.length < bound := by
  induction l generalizing a with
  | nil => simpa using hlt a List.mem_cons_self
  | cons b l ih =>
    have hab : a < b := (List.pairwise_cons.1 h).1 b List.mem_cons_self
    have hrest := ih (List.pairwise_cons.1 h).2 fun c hc => hlt c (List.mem_cons_of_mem _ hc)
    simp only [List.length_cons]
    omega

/-- Among ascending numbers below a bound, those before `a` and those behind it leave room. -/
theorem le_add_of_ascending {a bound : Nat} {first rest : List Nat}
    (h : (first ++ a :: rest).Pairwise (· < ·))
    (hlt : ∀ b ∈ first ++ a :: rest, b < bound + (first ++ a :: rest).length) :
    a ≤ bound + first.length := by
  have hbehind := add_length_lt_of_ascending (List.pairwise_append.1 h).2.1 fun b hb =>
    hlt b (List.mem_append_right first hb)
  rw [List.length_append, List.length_cons] at hbehind
  omega

/-! ### Removed and inserted axes -/

/-- The shape `short` is `long` without the dimensions at `axes`, which are of size 1. -/
structure Squeezed (axes long short : List Nat) : Prop where
  ascending : axes.Pairwise (· < ·)
  ones : ∀ a ∈ axes, long[a]? = some 1
  removed : removeAxes axes long = short

/-- Removing axes that all lie in `front` leaves `back` as it is. -/
theorem removeAxes_append {axes front : List Nat} (h : ∀ a ∈ axes, a < front.length)
    (back : List Nat) : removeAxes axes (front ++ back) = removeAxes axes front ++ back := by
  unfold removeAxes
  rw [List.zipIdx_append, List.filter_append, List.map_append]
  congr 1
  have hkept : (back.zipIdx (0 + front.length)).filter (fun d => !axes.contains d.2) =
      back.zipIdx (0 + front.length) := by
    rw [List.filter_eq_self]
    rintro ⟨d, i⟩ hd
    have hi := List.le_snd_of_mem_zipIdx hd
    simp only [Bool.not_eq_true', List.contains_eq_mem, decide_eq_false_iff_not]
    intro hmem
    have := h i hmem
    simp only at hi
    omega
  rw [hkept, List.zipIdx_map_fst]

/-- Removing axes that lie in `front` and the one that comes next after it. -/
theorem removeAxes_concat {axes front : List Nat} (h : ∀ a ∈ axes, a < front.length)
    (d : Nat) (back : List Nat) :
    removeAxes (axes ++ [front.length]) (front ++ d :: back) = removeAxes axes front ++ back := by
  have hall : ∀ a ∈ axes ++ [front.length], a < (front ++ [d]).length := by
    intro a ha
    rw [List.length_append, List.length_singleton]
    rcases List.mem_append.1 ha with ha | ha
    · exact Nat.lt_succ_of_lt (h a ha)
    · simp [List.mem_singleton.1 ha]
  rw [List.append_cons front d back, removeAxes_append hall]
  congr 1
  unfold removeAxes
  rw [List.zipIdx_append, List.filter_append, List.map_append]
  have hlast : ([d].zipIdx (0 + front.length)).filter
      (fun e => !(axes ++ [front.length]).contains e.2) = [] := by simp
  rw [hlast, List.map_nil, List.append_nil]
  congr 1
  refine List.filter_congr fun e he => ?_
  have hlt := List.snd_lt_of_mem_zipIdx he
  have hne : e.2 ≠ front.length := by omega
  simp [hne]

/-- Ascending axes below the rank of the result are inserted in range, so `insertAxes` succeeds. -/
theorem exists_insertAxes {ε : Type} (fault : Nat → Nat → ε) {axes dims : List Nat}
    (h : axes.Pairwise (· < ·)) (hlt : ∀ a ∈ axes, a < dims.length + axes.length) :
    ∃ long, insertAxes fault axes dims = .ok long := by
  induction axes generalizing dims with
  | nil => exact ⟨dims, rfl⟩
  | cons axis axes ih =>
    have hroom := add_length_lt_of_ascending h hlt
    simp only [List.length_cons] at hroom hlt
    have hle : axis ≤ dims.length := by omega
    have hrest : ∀ a ∈ axes, a < (dims.insertIdx axis 1).length + axes.length := by
      intro a ha
      have hbelow := hlt a (List.mem_cons_of_mem _ ha)
      rw [List.length_insertIdx_of_le_length hle]
      omega
    obtain ⟨long, hlong⟩ := ih (List.pairwise_cons.1 h).2 hrest
    refine ⟨long, ?_⟩
    simp only [insertAxes, List.foldlM_cons, bind_eq_ok, check_eq_ok]
    exact ⟨_, ⟨(), hle, rfl⟩, hlong⟩

/-- Only which axes there are matters for `removeAxes`. -/
theorem removeAxes_sortAxes (axes dims : List Nat) :
    removeAxes (sortAxes axes) dims = removeAxes axes dims := by
  have hsame : ∀ axis, (sortAxes axes).contains axis = axes.contains axis := by
    intro axis
    rw [List.contains_eq_mem, List.contains_eq_mem]
    exact decide_eq_decide.2 mem_sortAxes
  simp only [removeAxes, hsame]

/-- Each axis takes one dimension away. -/
theorem length_removeAxes {axes dims : List Nat} (hnodup : axes.Nodup)
    (hlt : ∀ a ∈ axes, a < dims.length) :
    (removeAxes axes dims).length + axes.length = dims.length := by
  have hplaces : (removeAxes axes dims).length =
      (List.range dims.length).countP fun i => !axes.contains i := by
    rw [removeAxes, List.length_map, ← List.countP_eq_length_filter, List.range_eq_range',
      ← List.zipIdx_map_snd 0 dims, List.countP_map]
    rfl
  have haxes : ((List.range dims.length).filter axes.contains).Perm axes := by
    refine (List.perm_ext_iff_of_nodup (List.nodup_range.filter _) hnodup).2 fun a => ?_
    rw [List.mem_filter, List.mem_range, List.contains_iff_mem]
    exact ⟨fun h => h.2, fun h => ⟨hlt a h, h⟩⟩
  have hsplit := List.length_eq_countP_add_countP axes.contains (l := List.range dims.length)
  rw [List.length_range, List.countP_eq_length_filter, haxes.length_eq] at hsplit
  simp only [Bool.not_eq_true, Bool.decide_eq_false] at hsplit
  omega

/-- The dimensions that do not stand at one of the axes, when the first one stands at `start`. -/
def removeAxesFrom (start : Nat) (axes dims : List Nat) : List Nat :=
  ((dims.zipIdx start).filter fun d => !axes.contains d.2).map Prod.fst

section From

variable {start d : Nat} {axes dims : List Nat}

theorem removeAxesFrom_of_mem (h : start ∈ axes) :
    removeAxesFrom start axes (d :: dims) = removeAxesFrom (start + 1) axes dims := by
  rw [removeAxesFrom, List.zipIdx_cons, List.filter_cons_of_neg (by simpa using h)]
  rfl

theorem removeAxesFrom_of_not_mem (h : start ∉ axes) :
    removeAxesFrom start axes (d :: dims) = d :: removeAxesFrom (start + 1) axes dims := by
  rw [removeAxesFrom, List.zipIdx_cons, List.filter_cons_of_pos (by simpa using h), List.map_cons]
  rfl

/-- A shape that has a 1 at each of the axes from `start` on. -/
def OnesFrom (start : Nat) (axes dims : List Nat) : Prop :=
  ∀ a ∈ axes, start ≤ a → dims[a - start]? = some 1

theorem OnesFrom.tail (h : OnesFrom start axes (d :: dims)) : OnesFrom (start + 1) axes dims := by
  intro a ha hle
  have hone := h a ha (by omega)
  have hplace : a - start = a - (start + 1) + 1 := by omega
  rwa [hplace, List.getElem?_cons_succ] at hone

theorem OnesFrom.head (h : OnesFrom start axes (d :: dims)) (hstart : start ∈ axes) : d = 1 := by
  have hone := h start hstart (Nat.le_refl _)
  rwa [Nat.sub_self, List.getElem?_cons_zero, Option.some_inj] at hone

theorem OnesFrom.not_mem (h : OnesFrom start axes []) : start ∉ axes := fun hstart =>
  absurd (h start hstart (Nat.le_refl _)) nofun

/-- A shape is determined by what `removeAxesFrom` leaves of it, if it has a 1 at each of the
axes. -/
theorem eq_of_removeAxesFrom {long long' : List Nat} (hones : OnesFrom start axes long)
    (hones' : OnesFrom start axes long')
    (h : removeAxesFrom start axes long = removeAxesFrom start axes long') : long = long' := by
  induction long generalizing start long' with
  | nil =>
    cases long' with
    | nil => rfl
    | cons d' long' =>
      rw [removeAxesFrom_of_not_mem hones.not_mem] at h
      cases h
  | cons d long ih =>
    cases long' with
    | nil =>
      rw [removeAxesFrom_of_not_mem hones'.not_mem] at h
      cases h
    | cons d' long' =>
      by_cases hstart : start ∈ axes
      · rw [removeAxesFrom_of_mem hstart, removeAxesFrom_of_mem hstart] at h
        rw [hones.head hstart, hones'.head hstart, ih hones.tail hones'.tail h]
      · rw [removeAxesFrom_of_not_mem hstart, removeAxesFrom_of_not_mem hstart] at h
        obtain ⟨rfl, hrest⟩ := List.cons.inj h
        rw [ih hones.tail hones'.tail hrest]

end From

theorem eq_of_removeAxes {axes long long' : List Nat} (hones : ∀ a ∈ axes, long[a]? = some 1)
    (hones' : ∀ a ∈ axes, long'[a]? = some 1)
    (h : removeAxes axes long = removeAxes axes long') : long = long' :=
  eq_of_removeAxesFrom (fun a ha _ => hones a ha) (fun a ha _ => hones' a ha) h

theorem insertIdx_length {α : Type} (front back : List α) (a : α) :
    (front ++ back).insertIdx front.length a = front ++ a :: back := by
  induction front with
  | nil => simp
  | cons b front ih => simp [ih]

namespace Squeezed

theorem nil (dims : List Nat) : Squeezed [] dims dims where
  ascending := .nil
  ones := by simp
  removed := by simp [removeAxes]

theorem length_eq {axes long short : List Nat} (h : Squeezed axes long short) :
    long.length = short.length + axes.length := by
  have hnodup : axes.Nodup := h.ascending.imp Nat.ne_of_lt
  have hlt : ∀ a ∈ axes, a < long.length := fun a ha =>
    (List.getElem?_eq_some_iff.1 (h.ones a ha)).1
  rw [← length_removeAxes hnodup hlt, h.removed]

/-- The shape `long` is determined by `short`. -/
theorem long_eq {axes long long' short : List Nat} (h : Squeezed axes long short)
    (h' : Squeezed axes long' short) : long = long' :=
  eq_of_removeAxes h.ones h'.ones (h.removed.trans h'.removed.symm)

/-- Inserting behind all the axes inserted so far. -/
theorem insertIdx {axes long short : List Nat} (h : Squeezed axes long short) {axis : Nat}
    (hbehind : ∀ a ∈ axes, a < axis) (haxis : axis ≤ long.length) :
    Squeezed (axes ++ [axis]) (long.insertIdx axis 1) short := by
  obtain ⟨front, back, rfl, rfl⟩ : ∃ front back, long = front ++ back ∧ axis = front.length :=
    ⟨long.take axis, long.drop axis, (List.take_append_drop axis long).symm,
      (List.length_take_of_le haxis).symm⟩
  rw [insertIdx_length]
  refine ⟨?_, ?_, ?_⟩
  · refine List.pairwise_append.2 ⟨h.ascending, List.pairwise_singleton _ _, ?_⟩
    simpa using hbehind
  · intro a ha
    rcases List.mem_append.1 ha with ha | ha
    · have hone := h.ones a ha
      rw [List.getElem?_append_left (hbehind a ha)] at hone ⊢
      exact hone
    · obtain rfl : a = front.length := by simpa using ha
      simp
  · rw [removeAxes_concat hbehind, ← removeAxes_append hbehind]
    exact h.removed

/-- **Inserting at ascending axes** (`insertAxes`) gives a shape from which removing the axes
(`removeAxes`) gives back the shape, whatever was inserted before in front of them. -/
theorem insertAxes {ε : Type} {fault : Nat → Nat → ε} {done axes dims long short : List Nat}
    (h : Squeezed done dims short) (hp : (done ++ axes).Pairwise (· < ·))
    (hok : TensorGraph.insertAxes fault axes dims = .ok long) :
    Squeezed (done ++ axes) long short := by
  induction axes generalizing done dims with
  | nil =>
    rw [List.append_nil]
    cases hok
    exact h
  | cons axis axes ih =>
    simp only [TensorGraph.insertAxes, List.foldlM_cons, bind_eq_ok, check_eq_ok] at hok
    obtain ⟨next, ⟨_, hle, hnext⟩, hrest⟩ := hok
    cases hnext
    have hbehind : ∀ a ∈ done, a < axis := fun a ha =>
      (List.pairwise_append.1 hp).2.2 a ha axis (by simp)
    rw [List.append_cons]
    rw [List.append_cons] at hp
    exact ih (h.insertIdx hbehind hle) hp hrest

/-- Ascending axes among those of the result can be inserted into `short`. -/
theorem exists_long {axes short : List Nat} (h : axes.Pairwise (· < ·))
    (hlt : ∀ a ∈ axes, a < short.length + axes.length) : ∃ long, Squeezed axes long short := by
  obtain ⟨long, hlong⟩ := exists_insertAxes Prod.mk h hlt
  exact ⟨long, (Squeezed.nil short).insertAxes h hlong⟩

end Squeezed
end TensorGraph
