/-! # Checks

A check is a condition together with the error that reports its failure; a lookup is an optional
value together with the error that reports its absence. Both are values of `Except`, and the
lemmas say exactly when they succeed. -/

namespace TensorGraph

/-- Succeeds exactly when `p` holds, and fails with `error` otherwise. -/
def check {ε : Type} (p : Prop) [Decidable p] (error : ε) : Except ε Unit :=
  if p then .ok () else .error error

/-- The value of an option, with `error` for its absence. -/
def found {ε α : Type} (value : Option α) (error : ε) : Except ε α :=
  match value with
  | some a => .ok a
  | none => .error error

variable {ε α β : Type}

@[simp] theorem check_eq_ok {p : Prop} [Decidable p] {error : ε} {u : Unit} :
    check p error = .ok u ↔ p := by
  unfold check; split <;> simp_all

@[simp] theorem check_eq_error {p : Prop} [Decidable p] {error e : ε} :
    check p error = .error e ↔ ¬ p ∧ error = e := by
  unfold check; split <;> simp_all

@[simp] theorem found_eq_ok {value : Option α} {error : ε} {a : α} :
    found value error = .ok a ↔ value = some a := by
  cases value <;> simp [found]

@[simp] theorem found_eq_error {value : Option α} {error e : ε} :
    found value error = .error e ↔ value = none ∧ error = e := by
  cases value <;> simp [found]

/-- A sequence `x >>= f` succeeds exactly when `x` and then `f` do. -/
theorem bind_eq_ok {x : Except ε α} {f : α → Except ε β} {b : β} :
    (x >>= f) = .ok b ↔ ∃ a, x = .ok a ∧ f a = .ok b := by
  cases x <;> simp [bind, Except.bind]

/-- A sequence `x >>= f` fails with the first error met, of `x` or else of `f`. -/
theorem bind_eq_error {x : Except ε α} {f : α → Except ε β} {e : ε} :
    (x >>= f) = .error e ↔ x = .error e ∨ ∃ a, x = .ok a ∧ f a = .error e := by
  cases x <;> simp [bind, Except.bind]

end TensorGraph
