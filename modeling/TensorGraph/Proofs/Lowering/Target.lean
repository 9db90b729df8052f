import TensorGraph.Lowering.Reshaping
import TensorGraph.Proofs.Graph.WellShaped
import TensorGraph.Proofs.Tensor.Counting
import Mathlib.Data.List.NodupEquivFin

/-! # Target shapes

A target shape asks for a shape by positive entries, entries 0, which copy a dimension of the
input, and at most one entry -1, which stands for what is left. A shape **answers** a target when
its dimensions are positive, agree with the target and have as many elements as the input. The
product of the known dimensions decides whether there is such a shape: the dimension for -1 is the
quotient of the two numbers of elements if the division leaves nothing.

An input with elements is reshaped to a target exactly when the target is admissible and one shape
answers it. -/

namespace TensorGraph

variable {dims : List Nat} {target : List Int64} {known into : List Nat}

/-! ### Targets and the shapes that answer them -/

/-- At most one entry of `target` stands for what is left, there is no other negative entry, and
entries 0 copy dimensions of `dims` that are there. -/
structure Admissible (dims : List Nat) (target : List Int64) : Prop where
  count : target.count (-1) ≤ 1
  signs : ∀ entry ∈ target, entry = -1 ∨ 0 ≤ entry.toInt
  copies : ∀ place : Nat, target[place]? = some 0 → place < dims.length

/-- The dimensions `into` are those that the entries of `target` ask for; an entry -1 asks for
none. -/
structure Agrees (dims : List Nat) (target : List Int64) (into : List Nat) : Prop where
  length : into.length = target.length
  given : ∀ (place : Nat) entry, target[place]? = some entry → 0 < entry.toInt →
    into[place]? = some entry.toInt.toNat
  copied : ∀ place : Nat, target[place]? = some 0 → into[place]? = dims[place]?

/-- A shape `into` of positive dimensions that agrees with `target` and has as many elements as the
input. -/
structure Answers (dims : List Nat) (target : List Int64) (into : List Nat) : Prop where
  agrees : Agrees dims target into
  positive : ∀ d ∈ into, 0 < d
  volume_eq : volume into = volume dims

/-! ### Single entries -/

theorem targetDim_eq_ok {place d : Nat} {entry : Int64} :
    targetDim dims target place entry = .ok d ↔
      (entry = -1 ∧ target.idxOf (-1) = place ∧ d = 1) ∨ (entry = 0 ∧ dims[place]? = some d) ∨
        (0 < entry.toInt ∧ d = entry.toInt.toNat) := by
  have hminus : (-1 : Int64).toInt = -1 := by decide
  have hzero : (0 : Int64).toInt = 0 := by decide
  unfold targetDim
  by_cases hfree : entry = -1 ∧ target.idxOf (-1) = place
  · obtain ⟨rfl, hplace⟩ := hfree
    rw [if_pos ⟨rfl, hplace⟩]
    simp [hplace, hminus, eq_comm]
  · have hfirst : ¬ (entry = -1 ∧ target.idxOf (-1) = place ∧ d = 1) :=
      fun h => hfree ⟨h.1, h.2.1⟩
    rw [if_neg hfree, or_iff_right hfirst]
    by_cases hcopy : entry = 0
    · subst hcopy
      simp [hzero]
    · rw [if_neg hcopy]
      by_cases hpos : 0 < entry.toInt
      · simp [hcopy, hpos, eq_comm]
      · simp [hcopy, hpos]

/-- An entry occurs at most once if the first place where it stands is the only one. -/
theorem count_le_one_iff {l : List Int64} {entry : Int64} :
    l.count entry ≤ 1 ↔ ∀ place : Nat, l[place]? = some entry → l.idxOf entry = place := by
  rw [← not_iff_not, Nat.not_le, ← Nat.succ_le_iff, ← List.duplicate_iff_two_le_count,
    List.duplicate_iff_exists_distinct_get]
  constructor
  · rintro ⟨i, j, hij, hi, hj⟩ hall
    have hfirst := hall i (List.getElem?_eq_some_iff.2 ⟨i.2, hi.symm⟩)
    have hsecond := hall j (List.getElem?_eq_some_iff.2 ⟨j.2, hj.symm⟩)
    have hlt : i.val < j.val := hij
    omega
  · intro h
    simp only [not_forall] at h
    obtain ⟨place, hplace, hne⟩ := h
    obtain ⟨hlt, heq⟩ := List.getElem?_eq_some_iff.1 hplace
    have hmem : entry ∈ l := List.mem_of_getElem? hplace
    have hfirst : l.idxOf entry < l.length := List.idxOf_lt_length_of_mem hmem
    rcases Nat.lt_or_gt_of_ne hne with hbelow | habove
    · exact ⟨⟨_, hfirst⟩, ⟨place, hlt⟩, hbelow, (List.getElem_idxOf hfirst).symm, heq.symm⟩
    · exact ⟨⟨place, hlt⟩, ⟨_, hfirst⟩, habove, heq.symm, (List.getElem_idxOf hfirst).symm⟩

/-- **The known dimensions** of a target, each by `targetDim`, with 1 for what is left. -/
theorem known_eq_ok :
    (target.zipIdx.mapM fun (entry, place) => targetDim dims target place entry) = .ok known ↔
      Admissible dims target ∧ Agrees dims target known ∧
        ∀ place : Nat, target[place]? = some (-1) → known[place]? = some 1 := by
  have hminus : (-1 : Int64).toInt = -1 := by decide
  have hzero : (0 : Int64).toInt = 0 := by decide
  have hpointwise : (target.zipIdx.mapM fun (entry, place) => targetDim dims target place entry) =
      .ok known ↔ known.length = target.length ∧ ∀ (place : Nat) entry,
        target[place]? = some entry → ∃ d, known[place]? = some d ∧
          targetDim dims target place entry = .ok d := by
    have hlengths : target.zipIdx.length = known.length ↔ known.length = target.length := by
      rw [List.length_zipIdx, eq_comm]
    rw [mapM_eq_ok, List.forall₂_iff_get, hlengths]
    refine and_congr_right fun hlength => ⟨fun h place entry hentry => ?_, fun h place hi hj => ?_⟩
    · obtain ⟨hlt, rfl⟩ := List.getElem?_eq_some_iff.1 hentry
      have hdim := h place (by simpa using hlt) (hlength ▸ hlt)
      exact ⟨_, List.getElem?_eq_getElem _, by simpa using hdim⟩
    · have hlt : place < target.length := by simpa using hi
      obtain ⟨d, hd, hdim⟩ := h place _ (List.getElem?_eq_getElem hlt)
      obtain ⟨_, rfl⟩ := List.getElem?_eq_some_iff.1 hd
      simpa using hdim
  rw [hpointwise]
  simp only [targetDim_eq_ok]
  constructor
  · rintro ⟨hlength, hall⟩
    refine ⟨⟨count_le_one_iff.2 fun place h => ?_, fun entry h => ?_, fun place h => ?_⟩,
      ⟨hlength, fun place entry h hpos => ?_, fun place h => ?_⟩, fun place h => ?_⟩
    · obtain ⟨d, -, ⟨-, hplace, -⟩ | ⟨h, -⟩ | ⟨h, -⟩⟩ := hall place _ h
      · exact hplace
      · cases h
      · omega
    · obtain ⟨place, hplace⟩ := List.mem_iff_getElem?.1 h
      obtain ⟨d, -, ⟨h, -⟩ | ⟨h, -⟩ | ⟨h, -⟩⟩ := hall place _ hplace
      · exact .inl h
      · exact .inr (by rw [h, hzero])
      · exact .inr (by omega)
    · obtain ⟨d, -, ⟨h, -⟩ | ⟨-, hd⟩ | ⟨h, -⟩⟩ := hall place _ h
      · cases h
      · exact (List.getElem?_eq_some_iff.1 hd).1
      · omega
    · obtain ⟨d, hd, ⟨rfl, -⟩ | ⟨rfl, -⟩ | ⟨-, rfl⟩⟩ := hall place _ h
      · omega
      · omega
      · exact hd
    · obtain ⟨d, hd, ⟨h, -⟩ | ⟨-, hcopy⟩ | ⟨h, -⟩⟩ := hall place _ h
      · cases h
      · exact hd.trans hcopy.symm
      · omega
    · obtain ⟨d, hd, ⟨-, -, rfl⟩ | ⟨h, -⟩ | ⟨h, -⟩⟩ := hall place _ h
      · exact hd
      · cases h
      · omega
  · rintro ⟨⟨hcount, hsigns, hcopies⟩, ⟨hlength, hgiven, hcopied⟩, hfree⟩
    refine ⟨hlength, fun place entry h => ?_⟩
    rcases hsigns entry (List.mem_of_getElem? h) with rfl | hsign
    · exact ⟨1, hfree place h, .inl ⟨rfl, count_le_one_iff.1 hcount place h, rfl⟩⟩
    · by_cases hpos : 0 < entry.toInt
      · exact ⟨_, hgiven place entry h hpos, .inr (.inr ⟨hpos, rfl⟩)⟩
      · obtain rfl : entry = 0 := Int64.toInt_inj.1 (by omega)
        have hlt := hcopies place h
        exact ⟨dims[place], (hcopied place h).trans (List.getElem?_eq_getElem hlt),
          .inr (.inl ⟨rfl, List.getElem?_eq_getElem hlt⟩)⟩

/-! ### What is left for the free dimension -/

/-- Another dimension at a place changes the `volume` in proportion. -/
theorem volume_set {place d : Nat} (h : dims[place]? = some d) (size : Nat) :
    volume (dims.set place size) * d = volume dims * size := by
  induction dims generalizing place with
  | nil => cases h
  | cons first dims ih =>
    cases place with
    | zero =>
      cases h
      simp only [List.set_cons_zero, volume_cons]
      rw [Nat.mul_comm size, Nat.mul_comm _ d, ← Nat.mul_assoc]
    | succ place =>
      simp only [List.set_cons_succ, volume_cons, Nat.mul_assoc, ih h]

theorem positive_of_volume_pos (h : 0 < volume dims) : ∀ d ∈ dims, 0 < d := by
  intro d hd
  refine Nat.pos_of_ne_zero ?_
  rintro rfl
  rw [volume_eq_zero.2 hd] at h
  exact Nat.lt_irrefl 0 h

/-- A target is resolved by `resolveTarget` from its known dimensions; for a free dimension, their
product must divide the number of elements, and the quotient takes the free place. -/
theorem resolveTarget_eq_ok (hpos : 0 < volume dims) (hbound : volume dims < Size.bound) :
    resolveTarget dims target = .ok into ↔ ∃ known, Admissible dims target ∧
      Agrees dims target known ∧
      (∀ place : Nat, target[place]? = some (-1) → known[place]? = some 1) ∧
      if (-1) ∈ target then volume known ∣ volume dims ∧
          into = known.set (target.idxOf (-1)) (volume dims / volume known)
        else into = known := by
  unfold resolveTarget
  rw [bind_eq_ok]
  simp only [known_eq_ok, and_assoc]
  refine exists_congr fun known => and_congr_right fun _ => and_congr_right fun hagrees =>
    and_congr_right fun _ => ?_
  by_cases hfree : (-1) ∈ target
  · have hplace : target.idxOf (-1) < known.length := by
      rw [hagrees.length]
      exact List.idxOf_lt_length_of_mem hfree
    have htotal : countElements dims = .ok (volume dims) :=
      (countElements_eq_ok_of_pos hpos hbound).2 rfl
    simp only [hfree, if_true, countOf, bind_eq_ok, mapError_eq_ok, check_eq_ok, replaceDim, htotal,
      hplace, pure_eq_ok, Except.ok.injEq, exists_eq_left', exists_const, true_and]
    constructor
    · rintro ⟨count, hcount, ⟨-, hdvd⟩, rfl⟩
      obtain rfl := eq_volume_of_countElements hcount
      exact ⟨Nat.dvd_of_mod_eq_zero hdvd, rfl⟩
    · rintro ⟨hdvd, rfl⟩
      have hknown : 0 < volume known := Nat.pos_of_dvd_of_pos hdvd hpos
      have hcount : countElements known = .ok (volume known) :=
        (countElements_eq_ok_of_pos hknown ((Nat.le_of_dvd hpos hdvd).trans_lt hbound)).2 rfl
      exact ⟨_, hcount, ⟨hknown.ne', Nat.mod_eq_zero_of_dvd hdvd⟩, rfl⟩
  · rw [if_neg hfree, if_neg hfree, pure_eq_ok, eq_comm]

/-- The dimension at a place where nothing is asked for may be any (`Agrees`). -/
theorem Agrees.set (h : Agrees dims target into) {place : Nat}
    (hfree : target[place]? = some (-1)) (size : Nat) :
    Agrees dims target (into.set place size) where
  length := by rw [List.length_set, h.length]
  given := by
    intro other entry hentry hpos
    have hne : place ≠ other := by
      rintro rfl
      rw [hfree] at hentry
      cases hentry
      exact absurd hpos (by decide)
    rw [List.getElem?_set_ne hne]
    exact h.given other entry hentry hpos
  copied := by
    intro other hentry
    have hne : place ≠ other := by
      rintro rfl
      rw [hfree] at hentry
      cases hentry
    rw [List.getElem?_set_ne hne]
    exact h.copied other hentry

/-- **An admissible target is resolved to a shape with as many elements** exactly when that shape
answers it (`Answers`). -/
theorem resolveTarget_and_volume_iff (hpos : 0 < volume dims) (hbound : volume dims < Size.bound) :
    (resolveTarget dims target = .ok into ∧ volume into = volume dims) ↔
      Admissible dims target ∧ Answers dims target into := by
  rw [resolveTarget_eq_ok hpos hbound]
  constructor
  · rintro ⟨⟨known, hadmissible, hagrees, hones, hinto⟩, hvolume⟩
    refine ⟨hadmissible, ?_, positive_of_volume_pos (hvolume ▸ hpos), hvolume⟩
    split at hinto
    · next hfree =>
      obtain ⟨-, rfl⟩ := hinto
      exact hagrees.set (List.getElem?_idxOf hfree) _
    · rw [hinto]
      exact hagrees
  · rintro ⟨hadmissible, hagrees, hpositive, hvolume⟩
    refine ⟨?_, hvolume⟩
    by_cases hfree : (-1) ∈ target
    · let place := target.idxOf (-1)
      have hplace : target[place]? = some (-1) := List.getElem?_idxOf hfree
      have hlt : place < into.length := by
        rw [hagrees.length]
        exact List.idxOf_lt_length_of_mem hfree
      -- the known dimensions are those of the answer, with 1 at the free place
      have hknown : volume (into.set place 1) * into[place] = volume dims := by
        rw [volume_set (List.getElem?_eq_getElem hlt), Nat.mul_one, hvolume]
      have hknownPos : 0 < volume (into.set place 1) :=
        Nat.pos_of_mul_pos_right (hknown ▸ hpos)
      refine ⟨into.set place 1, hadmissible, hagrees.set hplace 1, fun other hother => ?_, ?_⟩
      · obtain rfl := count_le_one_iff.1 hadmissible.count other hother
        rw [List.getElem?_set_self hlt]
      · rw [if_pos hfree, ← hknown, Nat.mul_div_cancel_left _ hknownPos, List.set_set,
          List.set_getElem_self]
        exact ⟨Nat.dvd_mul_right _ _, rfl⟩
    · refine ⟨into, hadmissible, hagrees, fun other hother => ?_, by rw [if_neg hfree]⟩
      exact absurd (List.mem_of_getElem? hother) hfree

/-! ### Reshaping -/

/-- **A reshaping** is accepted for a shape with as many elements, if both are counted
(`countElements`). -/
theorem Draft.reshape_eq_ok {g : Graph} {name : String} {input : NodeId} {draft : Draft} :
    reshape g name input into = .ok draft ↔ ∃ type n, g.typeOf input = .ok type ∧
      countElements type.dims = .ok n ∧ countElements into = .ok n ∧ draft = {
        kind := .reshape
        operands := [input]
        result := .ofType ⟨type.kind, into⟩ } := by
  simp only [reshape, bind_eq_ok, mapError_eq_ok, check_eq_ok, pure_eq_ok]
  constructor
  · rintro ⟨type, htype, before, hbefore, after, hafter, _, rfl, rfl⟩
    exact ⟨type, before, htype, hbefore, hafter, rfl⟩
  · rintro ⟨type, n, htype, hbefore, hafter, rfl⟩
    exact ⟨type, htype, n, hbefore, n, hafter, (), rfl, rfl⟩

section Reshaping

variable {g : Graph} {input : NodeId} {kind : ElementKind}

/-- For an input with elements only the number of elements, the `volume`, decides. -/
theorem exists_reshape_iff (htype : g.typeOf input = .ok ⟨kind, dims⟩) (hpos : 0 < volume dims)
    (hbound : volume dims < Size.bound) {name : String} :
    (∃ id h, Build.reshape name input into g = .ok id h) ↔ volume into = volume dims := by
  have hiff : (∃ id h, Build.reshape name input into g = .ok id h) ↔
      ∃ draft, Draft.reshape g name input into = .ok draft :=
    ⟨fun ⟨id, h, hid⟩ => by
      obtain ⟨draft, hdraft, -⟩ := Build.create_eq_ok.1 hid
      exact ⟨draft, hdraft⟩,
    fun ⟨draft, hdraft⟩ => ⟨_, _, Build.create_eq_ok.2 ⟨draft, hdraft, rfl, rfl⟩⟩⟩
  rw [hiff, ← countElements_eq_ok_of_pos hpos hbound]
  simp only [Draft.reshape_eq_ok]
  constructor
  · rintro ⟨_, type, n, htype', hbefore, hafter, -⟩
    obtain rfl := Graph.eq_of_typeOf htype htype'
    rw [hafter, eq_volume_of_countElements hbefore]
  · intro hafter
    exact ⟨_, _, _, htype, (countElements_eq_ok_of_pos hpos hbound).2 rfl, hafter, rfl⟩

/-- **Reshaping resolves a target to the one shape that answers it.** An input that has elements, as
many as a size can tell, is reshaped to a target exactly when the target is admissible
(`Admissible`) and just one shape answers it (`Answers`); the result has that shape and the kind of
the input. -/
theorem reshape_exact (hg : g.Indexed) (htype : g.typeOf input = .ok ⟨kind, dims⟩)
    (hpos : 0 < volume dims) (hbound : volume dims < Size.bound) (name : String)
    (target : List Int64) :
    ((∃ into, resolveTarget dims target = .ok into ∧
        ∃ id h, Build.reshape name input into g = .ok id h) ↔
      Admissible dims target ∧ ∃! into, Answers dims target into) ∧
    ∀ into id h, resolveTarget dims target = .ok into →
      Build.reshape name input into g = .ok id h →
        Answers dims target into ∧ h.typeOf id = .ok ⟨kind, into⟩ := by
  have hiff : ∀ into, (resolveTarget dims target = .ok into ∧
      ∃ id h, Build.reshape name input into g = .ok id h) ↔
        Admissible dims target ∧ Answers dims target into := by
    intro into
    rw [exists_reshape_iff htype hpos hbound, resolveTarget_and_volume_iff hpos hbound]
  refine ⟨⟨?_, ?_⟩, fun into id h hinto hid => ?_⟩
  · rintro ⟨into, hboth⟩
    obtain ⟨hadmissible, hanswers⟩ := (hiff into).1 hboth
    refine ⟨hadmissible, into, hanswers, fun other hother => ?_⟩
    -- every answer is what the target is resolved to
    exact Except.ok.inj (((hiff other).2 ⟨hadmissible, hother⟩).1.symm.trans hboth.1)
  · rintro ⟨hadmissible, into, hanswers, -⟩
    exact ⟨into, (hiff into).2 ⟨hadmissible, hanswers⟩⟩
  · refine ⟨((hiff into).1 ⟨hinto, id, h, hid⟩).2, ?_⟩
    obtain ⟨draft, hdraft, rfl, rfl⟩ := Build.create_eq_ok.1 hid
    obtain ⟨type, n, htype', -, -, rfl⟩ := Draft.reshape_eq_ok.1 hdraft
    obtain rfl := Graph.eq_of_typeOf htype htype'
    exact Graph.typeOf_add hg name _ rfl

/-- A batch of two matrices is flattened by the target that keeps the first dimension and leaves
the second one open, to the only shape that answers it. -/
theorem reshape_exact_batch :
    let g := (Graph.Operation.create "x" (.parameter (.zero .float [2, 3, 4]))).run (.empty "g")
    (∃! into, Answers [2, 3, 4] [0, -1] into) ∧ ∃ id h,
      Build.reshape "y" ⟨0⟩ [2, 12] g = .ok id h ∧ h.typeOf id = .ok ⟨.float, [2, 12]⟩ := by
  intro g
  have hg : g.Reachable := .operate (.empty "g") _
  have htype : g.typeOf ⟨0⟩ = .ok ⟨.float, [2, 3, 4]⟩ := rfl
  obtain ⟨hiff, hall⟩ := reshape_exact hg.indexed htype (by decide) (by decide) "y" [0, -1]
  have hinto : resolveTarget [2, 3, 4] [0, -1] = .ok [2, 12] := rfl
  obtain ⟨-, hunique⟩ := hiff.1 ⟨[2, 12], hinto, _, _, rfl⟩
  exact ⟨hunique, _, _, rfl, (hall [2, 12] _ _ hinto rfl).2⟩

end Reshaping

end TensorGraph
