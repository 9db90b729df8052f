import TensorGraph.Tensor.Transpose
import TensorGraph.Proofs.Graph.Acceptance
import TensorGraph.Proofs.Graph.Operation
import Mathlib.Data.List.TakeWhile

/-! # Counting elements

The elements of a shape are counted by multiplying its dimensions from the first one on, and every
product on the way must be a size. A product never shrinks before a dimension of size 0 is met, and
is 0 from there on. So the count is found exactly when the dimensions before the first 0 have a
product that is a size (`countElements_eq_ok`), and it is then the volume.

The count is **exact** when it is found whenever the volume is a size. A shape without a 0 is
counted exactly. A shape with a 0 has no elements, and its dimensions are counted exactly in every
order only if the other dimensions have a product that is a size. -/

namespace TensorGraph

variable {dims : List Nat}

/-! ### Dimensions of size 0 -/

/-- The dimensions before the first one of size 0. -/
def leadingDims (dims : List Nat) : List Nat := dims.takeWhile (· != 0)

/-- The dimensions that are not of size 0. -/
def properDims (dims : List Nat) : List Nat := dims.filter (· != 0)

theorem leadingDims_zero (dims : List Nat) : leadingDims (0 :: dims) = [] := rfl

theorem leadingDims_cons {d : Nat} (hd : d ≠ 0) (dims : List Nat) :
    leadingDims (d :: dims) = d :: leadingDims dims :=
  List.takeWhile_cons_of_pos (by simpa using hd)

theorem volume_eq_zero : volume dims = 0 ↔ 0 ∈ dims := by
  induction dims with
  | nil => simp
  | cons d dims ih => simp [ih, eq_comm]

theorem volume_pos (h : 0 ∉ dims) : 0 < volume dims :=
  Nat.pos_of_ne_zero fun hzero => h (volume_eq_zero.1 hzero)

theorem volume_leadingDims_pos (dims : List Nat) : 0 < volume (leadingDims dims) := by
  refine volume_pos fun hmem => ?_
  have hne := List.mem_takeWhile_imp hmem
  simp at hne

/-- The dimensions before the first 0 (`leadingDims`) are some of those that are not 0
(`properDims`). -/
theorem volume_leadingDims_le (dims : List Nat) :
    volume (leadingDims dims) ≤ volume (properDims dims) := by
  induction dims with
  | nil => exact Nat.le_refl _
  | cons d dims ih =>
    by_cases hd : d = 0
    · subst hd
      rw [leadingDims_zero, volume_nil]
      refine volume_pos fun hmem => ?_
      simp [properDims] at hmem
    · have hproper : properDims (d :: dims) = d :: properDims dims :=
        List.filter_cons_of_pos (by simpa using hd)
      rw [leadingDims_cons hd, hproper, volume_cons, volume_cons]
      exact Nat.mul_le_mul_left d ih

theorem leadingDims_of_not_mem (h : 0 ∉ dims) : leadingDims dims = dims := by
  rw [leadingDims, List.takeWhile_eq_self_iff]
  intro d hd
  simp only [bne_iff_ne, ne_eq]
  rintro rfl
  exact h hd

/-! ### When the count is found -/

/-- Before a 0 is met, the products only grow; then they are 0. -/
theorem foldlM_mul?_eq_some_iff_leadingDims {a n : Nat} (ha : a < Size.bound) :
    dims.foldlM Size.mul? a = some n ↔
      n = a * volume dims ∧ a * volume (leadingDims dims) < Size.bound := by
  induction dims generalizing a with
  | nil => simp [leadingDims, ha, eq_comm]
  | cons d dims ih =>
    simp only [List.foldlM_cons, Option.bind_eq_bind, Option.bind_eq_some_iff, Size.mul?_eq_some,
      volume_cons]
    by_cases hd : d = 0
    · subst hd
      have hpos : 0 < Size.bound := by decide
      rw [leadingDims_zero, volume_nil, Nat.mul_one]
      constructor
      · rintro ⟨_, ⟨-, rfl⟩, hrest⟩
        obtain ⟨rfl, -⟩ := (ih hpos).1 hrest
        exact ⟨by simp, ha⟩
      · rintro ⟨rfl, -⟩
        exact ⟨0, ⟨hpos, rfl⟩, (ih hpos).2 ⟨by simp, by simpa using hpos⟩⟩
    · rw [leadingDims_cons hd, volume_cons, ← Nat.mul_assoc, ← Nat.mul_assoc]
      constructor
      · rintro ⟨_, ⟨hlt, rfl⟩, hrest⟩
        exact (ih hlt).1 hrest
      · rintro ⟨hn, hlt⟩
        have hfirst : a * d < Size.bound :=
          Nat.lt_of_le_of_lt (Nat.le_mul_of_pos_right _ (volume_leadingDims_pos dims)) hlt
        exact ⟨a * d, ⟨hfirst, rfl⟩, (ih hfirst).2 ⟨hn, hlt⟩⟩

theorem volume?_eq_some_iff_leadingDims {n : Nat} :
    volume? dims = some n ↔ n = volume dims ∧ volume (leadingDims dims) < Size.bound := by
  have hfold : dims.foldlM Size.mul? 1 = some n ↔
      n = 1 * volume dims ∧ 1 * volume (leadingDims dims) < Size.bound :=
    foldlM_mul?_eq_some_iff_leadingDims (by decide)
  rwa [Nat.one_mul, Nat.one_mul] at hfold

/-- **The count is found** by `countElements` exactly when the dimensions before the first 0
(`leadingDims`) have a product that is a size. -/
theorem countElements_eq_ok {n : Nat} : countElements dims = .ok n ↔
    n = volume dims ∧ volume (leadingDims dims) < Size.bound := by
  rw [countElements, found_eq_ok, volume?_eq_some_iff_leadingDims]

/-- A positive number is found as the count of just the shapes that have this `volume`. -/
theorem countElements_eq_ok_of_pos {n : Nat} (hpos : 0 < n) (hbound : n < Size.bound) :
    countElements dims = .ok n ↔ volume dims = n := by
  rw [countElements_eq_ok]
  constructor
  · rintro ⟨rfl, -⟩
    rfl
  · rintro rfl
    have hzero : 0 ∉ dims := fun h => Nat.lt_irrefl 0 (volume_eq_zero.2 h ▸ hpos)
    exact ⟨rfl, by rwa [leadingDims_of_not_mem hzero]⟩

theorem countElements_eq_error {e : TensorError} : countElements dims = .error e ↔
    e = .overflow dims ∧ Size.bound ≤ volume (leadingDims dims) := by
  rw [countElements, found_eq_error, Option.eq_none_iff_forall_not_mem]
  simp only [Option.mem_def, volume?_eq_some_iff_leadingDims, not_and, forall_eq, Nat.not_lt]
  exact ⟨fun h => ⟨h.2.symm, h.1⟩, fun h => ⟨h.2, h.1.symm⟩⟩

/-- Zeros are made exactly for a shape whose elements can be counted and take fewer bytes than
`Size.allocatable`. -/
theorem Tensor.zeros_eq_ok {kind : ElementKind} {tensor : Tensor} :
    Tensor.zeros kind dims = .ok tensor ↔ volume (leadingDims dims) < Size.bound ∧
      volume dims * kind.width < Size.allocatable ∧ tensor = .zero kind dims := by
  simp only [Tensor.zeros, bind_eq_ok, countElements_eq_ok, check_eq_ok, pure_eq_ok]
  constructor
  · rintro ⟨_, ⟨rfl, hlt⟩, _, hroom, rfl⟩
    exact ⟨hlt, hroom, rfl⟩
  · rintro ⟨hlt, hroom, rfl⟩
    exact ⟨_, ⟨rfl, hlt⟩, (), hroom, rfl⟩

/-- A list of zeros is made when it takes fewer bytes than `Size.allocatable`. -/
theorem Tensor.zeros_singleton_eq_ok {kind : ElementKind} {d : Nat} {tensor : Tensor} :
    Tensor.zeros kind [d] = .ok tensor ↔
      d * kind.width < Size.allocatable ∧ tensor = .zero kind [d] := by
  have hvolume : volume [d] = d := Nat.mul_one d
  have hcount : d * kind.width < Size.allocatable → volume (leadingDims [d]) < Size.bound := by
    intro hroom
    have hwidth : 0 < kind.width := by cases kind <;> decide
    by_cases hd : d = 0
    · subst hd
      decide
    · rw [leadingDims_of_not_mem (by simpa [eq_comm] using hd), hvolume]
      calc d
        _ ≤ d * kind.width := Nat.le_mul_of_pos_right d hwidth
        _ < Size.allocatable := hroom
        _ < Size.bound := by decide
  rw [zeros_eq_ok, hvolume]
  exact ⟨fun h => h.2, fun h => ⟨hcount h.1, h⟩⟩

/-! ### Exact counts -/

/-- The count is the `volume` whenever this is a size, and otherwise an overflow is reported. -/
def CountsExactly (dims : List Nat) : Prop :=
  (volume dims < Size.bound → countElements dims = .ok (volume dims)) ∧
    (Size.bound ≤ volume dims → countElements dims = .error (.overflow dims))

/-- The dimensions that are not 0 (`properDims`) have a product that is a size, if there is a 0
among them. -/
def Countable (dims : List Nat) : Prop := 0 ∈ dims → volume (properDims dims) < Size.bound

theorem countsExactly_iff : CountsExactly dims ↔
    (0 ∈ dims → volume (leadingDims dims) < Size.bound) := by
  unfold CountsExactly
  rw [countElements_eq_ok, countElements_eq_error]
  by_cases hzero : 0 ∈ dims
  · have hvolume : volume dims = 0 := volume_eq_zero.2 hzero
    have hpos : 0 < Size.bound := by decide
    simp only [hvolume, hzero, true_and, forall_const]
    exact ⟨fun h => h.1 hpos, fun h => ⟨fun _ => h, fun hle => absurd hle (Nat.not_le.2 hpos)⟩⟩
  · rw [leadingDims_of_not_mem hzero]
    simp [hzero]

/-- Rearranging keeps the dimensions that are not 0. -/
theorem Countable.perm {order : List Nat} (h : Countable dims) (hperm : order.Perm dims) :
    Countable order := by
  intro hzero
  have hproper : (properDims order).Perm (properDims dims) := hperm.filter _
  rw [volume_perm hproper]
  exact h (hperm.mem_iff.1 hzero)

theorem Countable.countsExactly (h : Countable dims) : CountsExactly dims :=
  countsExactly_iff.2 fun hzero => Nat.lt_of_le_of_lt (volume_leadingDims_le dims) (h hzero)

/-- Dimensions are counted exactly in every order just when they are `Countable`, which is what the
order with all the zeros at the end asks for. -/
theorem forall_countsExactly_iff :
    (∀ order : List Nat, order.Perm dims → CountsExactly order) ↔ Countable dims := by
  constructor
  · intro h hzero
    let zeros := dims.filter fun d => !(d != 0)
    have hperm : (properDims dims ++ zeros).Perm dims := List.filter_append_perm _ dims
    have hleading : leadingDims (properDims dims ++ zeros) = properDims dims := by
      have hproper : ∀ d ∈ properDims dims, (d != 0) = true := fun d hd => (List.mem_filter.1 hd).2
      have hzeros : leadingDims zeros = [] := by
        cases hz : zeros with
        | nil => rfl
        | cons d rest =>
          have hd : d ∈ zeros := by simp [hz]
          obtain rfl : d = 0 := by simpa [zeros] using (List.mem_filter.1 hd).2
          exact leadingDims_zero rest
      rw [leadingDims, List.takeWhile_append_of_pos hproper]
      rw [leadingDims] at hzeros
      rw [hzeros, List.append_nil]
    have hexact := countsExactly_iff.1 (h _ hperm) (hperm.mem_iff.2 hzero)
    rwa [hleading] at hexact
  · intro h order hperm
    exact (h.perm hperm).countsExactly

/-- A rearranged shape has the same `countElements`. -/
theorem Countable.countElements_eq {order : List Nat} (h : Countable dims)
    (hperm : order.Perm dims) {n : Nat} (hn : countElements dims = .ok n) :
    countElements order = .ok n := by
  obtain ⟨rfl, -⟩ := countElements_eq_ok.1 hn
  have hvolume : volume order = volume dims := volume_perm hperm
  have hlt : volume dims < Size.bound := by
    by_contra hge
    rw [h.countsExactly.2 (Nat.not_lt.1 hge)] at hn
    cases hn
  rw [← hvolume]
  exact (h.perm hperm).countsExactly.1 (by rwa [hvolume])

/-! ### Transposed shapes -/

theorem permuteDims_perm {shuffle : List Nat} (h : isPermutation shuffle dims.length = true) :
    (permuteDims dims shuffle).Perm dims := by
  have hperm := (perm_range_of_isPermutation h).map fun axis => dims.getD axis 0
  have hrange : (List.range dims.length).map (fun axis => dims.getD axis 0) = dims :=
    permuteDims_range dims
  rwa [hrange] at hperm

theorem perm_of_tensor_transpose {t u : Tensor} {shuffle : List Nat}
    (h : t.transpose shuffle = .ok u) : u.dims.Perm t.dims := by
  unfold Tensor.transpose at h
  split at h
  · next hperm =>
    cases h
    exact permuteDims_perm hperm
  · cases h

/-- The node of a transposition (`Build.transpose`) has the rearranged shape of its operand. -/
theorem Graph.perm_of_transpose {g h : Graph} (hg : g.Indexed) {name : String} {input id : NodeId}
    {shuffle : List Nat} {type : ValueType} (htype : g.typeOf input = .ok type)
    (hid : Build.transpose name input shuffle g = .ok id h) :
    ∃ order, h.typeOf id = .ok ⟨type.kind, order⟩ ∧ order.Perm type.dims := by
  obtain ⟨draft, hdraft, rfl, rfl⟩ := Build.create_eq_ok.1 hid
  obtain ⟨type', htype', hperm, rfl⟩ := Draft.transpose_eq_ok.1 hdraft
  obtain rfl := Graph.eq_of_typeOf htype htype'
  exact ⟨permuteDims type.dims shuffle, typeOf_add hg name _ rfl, permuteDims_perm hperm⟩

/-! ### The count of a shape -/

/-- **When the count of elements is exact.** The count is found by `countElements` exactly when the
dimensions before the first 0 (`leadingDims`) have a product that is a size; then it is the
`volume`, and otherwise an overflow of the shape is reported. It is exact in every order of the
dimensions just when there is no 0 among them or the other ones have a product that is a size
(`Countable`). For such a shape, what a transposition of a tensor or a graph makes of it has the
same count. -/
theorem countElements_exact (dims : List Nat) :
    (∀ n, countElements dims = .ok n ↔
      n = volume dims ∧ volume (leadingDims dims) < Size.bound) ∧
    (∀ e, countElements dims = .error e ↔
      e = .overflow dims ∧ Size.bound ≤ volume (leadingDims dims)) ∧
    ((∀ order : List Nat, order.Perm dims → CountsExactly order) ↔ Countable dims) ∧
    (Countable dims → ∀ n, countElements dims = .ok n →
      (∀ order : List Nat, order.Perm dims → countElements order = .ok n) ∧
      (∀ (t u : Tensor) (shuffle : List Nat), t.dims = dims → t.transpose shuffle = .ok u →
        countElements u.dims = .ok n) ∧
      ∀ (g h : Graph) (name : String) (input id : NodeId) (shuffle : List Nat) (kind : ElementKind),
        g.Reachable → g.typeOf input = .ok ⟨kind, dims⟩ →
          Build.transpose name input shuffle g = .ok id h →
            ∃ order, h.typeOf id = .ok ⟨kind, order⟩ ∧ countElements order = .ok n) := by
  refine ⟨fun n => countElements_eq_ok, fun e => countElements_eq_error, forall_countsExactly_iff,
    fun hcountable n hn => ⟨fun order hperm => hcountable.countElements_eq hperm hn, ?_, ?_⟩⟩
  · rintro t u shuffle rfl htranspose
    exact hcountable.countElements_eq (perm_of_tensor_transpose htranspose) hn
  · intro g h name input id shuffle kind hg htype hid
    obtain ⟨order, horder, hperm⟩ := Graph.perm_of_transpose hg.indexed htype hid
    exact ⟨order, horder, hcountable.countElements_eq hperm hn⟩

/-- A tensor without elements, with its dimension of size 0 in front. -/
def frontEmpty : Tensor := ⟨[0, 4294967296, 4294967296], .float #[], rfl⟩

/-- The elements of `frontEmpty` are counted, but when the dimension of size 0 is moved to the end
the two others are multiplied first, and their product is no size. -/
theorem frontEmpty_overflows :
    countElements frontEmpty.dims = .ok 0 ∧
    volume [4294967296, 4294967296, 0] = 0 ∧
    countElements [4294967296, 4294967296, 0] = .error (.overflow [4294967296, 4294967296, 0]) ∧
    ¬ CountsExactly [4294967296, 4294967296, 0] ∧
    (frontEmpty.transpose [1, 2, 0]).map (fun u => countElements u.dims) =
      .ok (.error (.overflow [4294967296, 4294967296, 0])) := by
  refine ⟨rfl, rfl, rfl, fun hexact => ?_, rfl⟩
  cases hexact.1 (by decide)

end TensorGraph
