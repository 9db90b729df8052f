import TensorGraph.Check
import Mathlib.Data.List.Forall2

/-! # Checks of lists, and checks that match

A computation that is repeated for the entries of a list succeeds exactly when it does for every
entry, and gives the results in order.

Two computations **match** when both fail with the same error or both succeed with related
results. A computation **avoids** errors of some kind when it does not fail with any of them. -/

namespace TensorGraph

variable {ε α β γ : Type}

theorem pure_eq_ok {a b : α} : (pure a : Except ε α) = .ok b ↔ a = b := by
  show Except.ok a = .ok b ↔ _
  simp

/-- A list of computations, `l.mapM f`, succeeds exactly when each of them gives the entry of `m` at
its place. -/
theorem mapM_eq_ok {f : α → Except ε β} {l : List α} {m : List β} :
    l.mapM f = .ok m ↔ List.Forall₂ (fun a b => f a = .ok b) l m := by
  induction l generalizing m with
  | nil => cases m <;> simp [pure_eq_ok]
  | cons a l ih =>
    simp only [List.mapM_cons, bind_eq_ok, pure_eq_ok]
    constructor
    · rintro ⟨b, hb, n, hn, rfl⟩
      exact .cons hb (ih.1 hn)
    · rintro (_ | ⟨hb, hm⟩)
      exact ⟨_, hb, _, ih.2 hm, rfl⟩

/-- A list of computations succeeds exactly when all of them do. -/
theorem exists_mapM_eq_ok {f : α → Except ε β} {l : List α} :
    (∃ m, l.mapM f = .ok m) ↔ ∀ a ∈ l, ∃ b, f a = .ok b := by
  induction l with
  | nil => exact ⟨fun _ _ h => absurd h List.not_mem_nil, fun _ => ⟨[], rfl⟩⟩
  | cons a l ih =>
    rw [List.forall_mem_cons, ← ih]
    simp only [List.mapM_cons, bind_eq_ok, pure_eq_ok]
    constructor
    · rintro ⟨_, b, hb, n, hn, rfl⟩
      exact ⟨⟨b, hb⟩, n, hn⟩
    · rintro ⟨⟨b, hb⟩, n, hn⟩
      exact ⟨b :: n, b, hb, n, hn, rfl⟩

/-- A list of checks, `l.forM f`, succeeds exactly when all of them do. -/
theorem forM_eq_ok {f : α → Except ε Unit} {l : List α} {u : Unit} :
    l.forM f = .ok u ↔ ∀ a ∈ l, f a = .ok () := by
  induction l with
  | nil => exact ⟨fun _ _ h => absurd h List.not_mem_nil, fun _ => rfl⟩
  | cons a l ih =>
    show (f a >>= fun _ => l.forM f) = .ok u ↔ _
    rw [bind_eq_ok, List.forall_mem_cons]
    constructor
    · rintro ⟨_, ha, hl⟩
      exact ⟨ha, ih.1 hl⟩
    · rintro ⟨ha, hl⟩
      exact ⟨(), ha, ih.2 hl⟩

theorem mapError_eq_ok {δ : Type} {f : ε → δ} {x : Except ε α} {a : α} :
    x.mapError f = .ok a ↔ x = .ok a := by
  cases x <;> simp [Except.mapError]

theorem toOption_eq_some {x : Except ε α} {a : α} : x.toOption = some a ↔ x = .ok a := by
  cases x <;> simp [Except.toOption]

/-- An entry of the first list is related to some entry of the second one. -/
theorem exists_of_forall₂ {P : α → β → Prop} {l : List α} {m : List β} (h : List.Forall₂ P l m)
    {a : α} (ha : a ∈ l) : ∃ b ∈ m, P a b := by
  induction h with
  | nil => cases ha
  | cons hab _ ih =>
    rcases List.mem_cons.1 ha with rfl | ha
    · exact ⟨_, List.mem_cons_self, hab⟩
    · obtain ⟨b, hb, hab⟩ := ih ha
      exact ⟨b, List.mem_cons_of_mem _ hb, hab⟩

/-- A relation between two lists that goes through a third kind of entries goes through a list `k`
of them. -/
theorem forall₂_exists {P : α → β → Prop} {Q : β → γ → Prop} {l : List α} {m : List γ} :
    List.Forall₂ (fun a c => ∃ b, P a b ∧ Q b c) l m →
      ∃ k, List.Forall₂ P l k ∧ List.Forall₂ Q k m := by
  intro h
  induction h with
  | nil => exact ⟨[], .nil, .nil⟩
  | cons hac _ ih =>
    obtain ⟨b, hab, hbc⟩ := hac
    obtain ⟨k, hk, hm⟩ := ih
    exact ⟨b :: k, .cons hab hk, .cons hbc hm⟩

/-! ### Two computations at a time -/

/-- Two computations fail with the same error, or succeed with related results. -/
inductive Matches (R : α → α → Prop) : Except ε α → Except ε α → Prop
  | ok {a b : α} (h : R a b) : Matches R (.ok a) (.ok b)
  | error (e : ε) : Matches R (.error e) (.error e)

/-- Two computations that begin with the same `x` match when they do after each of its results. -/
theorem Matches.bind_same {R : β → β → Prop} {x : Except ε α} {f g : α → Except ε β}
    (h : ∀ a, x = .ok a → Matches R (f a) (g a)) : Matches R (x >>= f) (x >>= g) := by
  cases x with
  | ok a => exact h a rfl
  | error e => exact .error e

/-- A computation that gives the same for entries related by `P` gives the same for lists related by
it. -/
theorem mapM_congr {P : α → α → Prop} {f g : α → Except ε β} (hf : ∀ a b, P a b → f a = g b)
    {l m : List α} (h : List.Forall₂ P l m) : l.mapM f = m.mapM g := by
  induction h with
  | nil => rfl
  | cons hab _ ih => rw [List.mapM_cons, List.mapM_cons, hf _ _ hab, ih]

/-! ### The first error -/

/-- The error of the first computation of `results` that fails. -/
def firstError? (results : List (Except ε α)) : Option ε :=
  results.findSome? fun result =>
    match result with
    | .ok _ => none
    | .error e => some e

@[simp] theorem firstError?_nil : firstError? ([] : List (Except ε α)) = none := rfl

@[simp] theorem firstError?_ok (a : α) (results : List (Except ε α)) :
    firstError? (.ok a :: results) = firstError? results := rfl

@[simp] theorem firstError?_error (e : ε) (results : List (Except ε α)) :
    firstError? (.error e :: results) = some e := rfl

theorem firstError?_append (first rest : List (Except ε α)) :
    firstError? (first ++ rest) = (firstError? first).or (firstError? rest) :=
  List.findSome?_append

/-- There is no `firstError?` exactly when all computations succeed. -/
theorem firstError?_eq_none {results : List (Except ε α)} :
    firstError? results = none ↔ ∀ result ∈ results, ∃ a, result = .ok a := by
  simp only [firstError?, List.findSome?_eq_none_iff]
  refine forall₂_congr fun result _ => ?_
  cases result <;> simp

/-! ### Errors that do not arise -/

/-- The computation does not fail with an error that is `bad`. -/
def Avoids (bad : ε → Prop) (x : Except ε α) : Prop := ∀ e, x = .error e → ¬ bad e

namespace Avoids

variable {bad : ε → Prop} {x : Except ε α} {e : ε}

theorem of_ok {a : α} (h : x = .ok a) : Avoids bad x := by
  intro e he
  rw [h] at he
  cases he

theorem mono {worse : ε → Prop} (h : Avoids worse x) (hbad : ∀ e, bad e → worse e) :
    Avoids bad x :=
  fun e he hbad' => h e he (hbad e hbad')

theorem pure (a : α) : Avoids bad (Pure.pure a : Except ε α) := of_ok rfl

theorem error (h : ¬ bad e) : Avoids bad (.error e : Except ε α) := by
  intro e' he
  cases he
  exact h

theorem check {p : Prop} [Decidable p] (h : ¬ bad e) : Avoids bad (check p e) := by
  intro e' he
  rw [← (check_eq_error.1 he).2]
  exact h

theorem found {value : Option α} (h : ¬ bad e) : Avoids bad (found value e) := by
  intro e' he
  rw [← (found_eq_error.1 he).2]
  exact h

/-- Only the results that `x` can have matter for `f`. -/
theorem bind {f : α → Except ε β} (hx : Avoids bad x) (hf : ∀ a, x = .ok a → Avoids bad (f a)) :
    Avoids bad (x >>= f) := by
  intro e he
  rcases bind_eq_error.1 he with he | ⟨a, ha, he⟩
  · exact hx e he
  · exact hf a ha e he

theorem mapM {f : α → Except ε β} {l : List α} (h : ∀ a ∈ l, Avoids bad (f a)) :
    Avoids bad (l.mapM f) := by
  induction l with
  | nil => exact pure []
  | cons a l ih =>
    rw [List.mapM_cons]
    refine (h a List.mem_cons_self).bind fun b _ => ?_
    exact (ih fun c hc => h c (List.mem_cons_of_mem _ hc)).bind fun bs _ => pure (b :: bs)

theorem forM {f : α → Except ε Unit} {l : List α} (h : ∀ a ∈ l, Avoids bad (f a)) :
    Avoids bad (l.forM f) := by
  induction l with
  | nil => exact pure ()
  | cons a l ih =>
    show Avoids bad (f a >>= fun _ => l.forM f)
    exact (h a List.mem_cons_self).bind fun _ _ => ih fun c hc => h c (List.mem_cons_of_mem _ hc)

theorem mapError {δ : Type} {worse : δ → Prop} {f : ε → δ}
    (h : ∀ e, x = .error e → ¬ worse (f e)) : Avoids worse (x.mapError f) := by
  cases x with
  | ok a => exact of_ok rfl
  | error e => exact error (h e rfl)

end Avoids
end TensorGraph
