import Mathlib.Logic.Relation

/-! # Steps with a state

A step starts in a state and ends in a state, whether it succeeds or fails. `after` is the state in
which it ends. A step **moves by** a relation when every state in which it ends is reached by
finitely many moves that the relation allows; moving by a relation is kept by everything steps are
put together with, so it has to be looked at for the smallest steps only.

Two steps **agree** when both fail with the same error or both succeed with states and results that
are related; agreeing, too, is kept by sequences. -/

namespace TensorGraph.Step

variable {ε σ α β : Type}

/-- The state in which the step `x` ends. -/
def after (x : EStateM ε σ α) (s : σ) : σ :=
  match x s with
  | .ok _ s => s
  | .error _ s => s

theorem after_of_ok {x : EStateM ε σ α} {s t : σ} {a : α} (h : x s = .ok a t) : after x s = t := by
  simp only [after, h]

theorem after_of_error {x : EStateM ε σ α} {s t : σ} {e : ε} (h : x s = .error e t) :
    after x s = t := by
  simp only [after, h]

/-- What the step `x` gives, or why it fails. -/
def verdict (x : EStateM ε σ α) (s : σ) : Except ε α :=
  match x s with
  | .ok a _ => .ok a
  | .error e _ => .error e

/-- Whether the step `x` succeeds from the state `s` on. -/
def succeeds (x : EStateM ε σ α) (s : σ) : Bool :=
  match x s with
  | .ok _ _ => true
  | .error _ _ => false

theorem exists_of_succeeds {x : EStateM ε σ α} {s : σ} (h : succeeds x s = true) :
    ∃ a t, x s = .ok a t := by
  unfold succeeds at h
  split at h
  · next a t hx => exact ⟨a, t, hx⟩
  · cases h

/-! ### Sequences of two steps -/

theorem bind_apply (x : EStateM ε σ α) (f : α → EStateM ε σ β) (s : σ) :
    (x >>= f) s = match x s with
      | .ok a s => f a s
      | .error e s => .error e s := rfl

theorem bind_of_ok {x : EStateM ε σ α} {f : α → EStateM ε σ β} {s t : σ} {a : α}
    (h : x s = .ok a t) : (x >>= f) s = f a t := by
  rw [bind_apply, h]

/-- A sequence `x >>= f` depends on `f` only after the results that `x` can have. -/
theorem bind_congr {x : EStateM ε σ α} {f g : α → EStateM ε σ β} {s : σ}
    (h : ∀ a t, x s = .ok a t → f a t = g a t) : (x >>= f) s = (x >>= g) s := by
  rw [bind_apply, bind_apply]
  cases hx : x s with
  | ok a t => exact h a t hx
  | error e t => rfl

theorem after_bind_of_ok {x : EStateM ε σ α} {f : α → EStateM ε σ β} {s t : σ} {a : α}
    (h : x s = .ok a t) : after (x >>= f) s = after (f a) t := by
  simp only [after, bind_apply, h]

theorem after_bind_of_error {x : EStateM ε σ α} {f : α → EStateM ε σ β} {s t : σ} {e : ε}
    (h : x s = .error e t) : after (x >>= f) s = t := by
  simp only [after, bind_apply, h]

/-- A sequence `x >>= f` succeeds exactly when both of its steps do. -/
theorem bind_eq_ok {x : EStateM ε σ α} {f : α → EStateM ε σ β} {s t : σ} {b : β} :
    (x >>= f) s = .ok b t ↔ ∃ a r, x s = .ok a r ∧ f a r = .ok b t := by
  rw [bind_apply]
  cases x s with
  | ok a r =>
    constructor
    · intro h; exact ⟨a, r, rfl, h⟩
    · rintro ⟨_, _, h, hf⟩; cases h; exact hf
  | error e r => simp

/-- A sequence `x >>= f` fails where the first failing step does. -/
theorem bind_eq_error {x : EStateM ε σ α} {f : α → EStateM ε σ β} {s t : σ} {e : ε} :
    (x >>= f) s = .error e t ↔ x s = .error e t ∨ ∃ a r, x s = .ok a r ∧ f a r = .error e t := by
  rw [bind_apply]
  cases x s with
  | ok a r =>
    constructor
    · intro h; exact .inr ⟨a, r, rfl, h⟩
    · rintro (h | ⟨_, _, h, hf⟩) <;> cases h; exact hf
  | error e' r =>
    constructor
    · intro h; cases h; exact .inl rfl
    · rintro (h | ⟨_, _, h, -⟩) <;> cases h; rfl

theorem pure_eq_ok {s t : σ} {a b : α} :
    (pure a : EStateM ε σ α) s = .ok b t ↔ a = b ∧ s = t := by
  show EStateM.Result.ok a s = .ok b t ↔ _
  simp

/-! ### Moving by a relation -/

/-- Every state in which the step ends is reached by moves of `M`. -/
def MovesBy (M : σ → σ → Prop) (x : EStateM ε σ α) : Prop :=
  ∀ s, Relation.ReflTransGen M s (after x s)

namespace MovesBy

variable {M N : σ → σ → Prop} {x : EStateM ε σ α}

/-- A step that leaves the state as it is moves by any `M`. -/
theorem of_still (h : ∀ s, after x s = s) : MovesBy M x := by
  intro s
  rw [h s]

/-- A step that ends after at most one move of `M` moves by it. -/
theorem of_move (h : ∀ s, after x s = s ∨ M s (after x s)) : MovesBy M x := by
  intro s
  rcases h s with hs | hm
  · rw [hs]
  · exact .single hm

/-- What holds of a state and itself, and is kept by every move of `M`, holds of the state in which
a step begins and the one in which it ends. -/
theorem lift {P : σ → σ → Prop} (h : MovesBy M x) (hrefl : ∀ s, P s s)
    (hmove : ∀ s t u, P s t → M t u → P s u) (s : σ) : P s (after x s) := by
  have hall : ∀ t, Relation.ReflTransGen M s t → P s t := by
    intro t hst
    induction hst with
    | refl => exact hrefl s
    | tail _ hlast ih => exact hmove s _ _ ih hlast
  exact hall _ (h s)

theorem mono (h : MovesBy M x) (hMN : ∀ s t, M s t → N s t) : MovesBy N x :=
  fun s => Relation.ReflTransGen.mono hMN _ _ (h s)

theorem pure (a : α) : MovesBy M (Pure.pure a : EStateM ε σ α) := of_still fun _ => rfl

/-- Only the results that `x` can have matter for `f`. -/
theorem bind_of {f : α → EStateM ε σ β} (hx : MovesBy M x)
    (hf : ∀ s a t, x s = .ok a t → MovesBy M (f a)) : MovesBy M (x >>= f) := by
  intro s
  have hs := hx s
  unfold after at hs ⊢
  rw [bind_apply]
  cases h : x s with
  | ok a t =>
    simp only [h] at hs ⊢
    exact hs.trans (hf s a t h t)
  | error e t =>
    simp only [h] at hs ⊢
    exact hs

theorem bind {f : α → EStateM ε σ β} (hx : MovesBy M x) (hf : ∀ a, MovesBy M (f a)) :
    MovesBy M (x >>= f) :=
  hx.bind_of fun _ a _ _ => hf a

theorem mapM {γ : Type} {f : γ → EStateM ε σ β} {l : List γ} (hf : ∀ a ∈ l, MovesBy M (f a)) :
    MovesBy M (l.mapM f) := by
  induction l with
  | nil => exact pure []
  | cons a l ih =>
    rw [List.mapM_cons]
    refine (hf a (by simp)).bind fun b => ?_
    exact (ih fun c hc => hf c (by simp [hc])).bind fun bs => pure (b :: bs)

theorem forM {γ : Type} {f : γ → EStateM ε σ PUnit} {l : List γ}
    (hf : ∀ a ∈ l, MovesBy M (f a)) : MovesBy M (l.forM f) := by
  induction l with
  | nil => exact pure _
  | cons a l ih =>
    show MovesBy M (f a >>= fun _ => l.forM f)
    exact (hf a (by simp)).bind fun _ => ih fun c hc => hf c (by simp [hc])

end MovesBy

/-! ### Two steps at a time -/

/-- The ends of two steps agree: both are failures with the same error, or both are successes, with
states and results related by `post`. -/
inductive Agree (post : σ → σ → α → α → Prop) :
    EStateM.Result ε σ α → EStateM.Result ε σ α → Prop
  | ok {s t : σ} {a b : α} (h : post s t a b) : Agree post (.ok a s) (.ok b t)
  | error (e : ε) (s t : σ) : Agree post (.error e s) (.error e t)

namespace Agree

variable {x y : EStateM ε σ α} {s t : σ} {mid : σ → σ → α → α → Prop}

theorem bind {f g : α → EStateM ε σ β} {post : σ → σ → β → β → Prop} (h : Agree mid (x s) (y t))
    (hf : ∀ s t a b, mid s t a b → Agree post (f a s) (g b t)) :
    Agree post ((x >>= f) s) ((y >>= g) t) := by
  rw [bind_apply, bind_apply]
  revert h
  cases x s <;> cases y t <;> intro h <;> cases h
  · next h => exact hf _ _ _ _ h
  · exact .error _ _ _

theorem mono {post : σ → σ → α → α → Prop} {r r' : EStateM.Result ε σ α} (h : Agree mid r r')
    (hpost : ∀ s t a b, mid s t a b → post s t a b) : Agree post r r' := by
  cases h with
  | ok h => exact .ok (hpost _ _ _ _ h)
  | error e s t => exact .error e s t

theorem exists_of_ok {post : σ → σ → α → α → Prop} {r r' : EStateM.Result ε σ α}
    (h : Agree post r r') {a : α} {s : σ} (hr : r = .ok a s) :
    ∃ b t, r' = .ok b t ∧ post s t a b := by
  subst hr
  cases h with
  | ok h => exact ⟨_, _, rfl, h⟩

end Agree

/-! ### Errors that do not arise -/

/-- From the state `s` on, the step does not fail with an error that is `bad`. -/
def Avoids (bad : ε → Prop) (x : EStateM ε σ α) (s : σ) : Prop :=
  ∀ e t, x s = .error e t → ¬ bad e

namespace Avoids

variable {bad : ε → Prop} {x : EStateM ε σ α} {s : σ}

theorem of_ok {a : α} {t : σ} (h : x s = .ok a t) : Avoids bad x s := by
  intro e t' he
  rw [h] at he
  cases he

theorem mono {worse : ε → Prop} (h : Avoids worse x s) (hbad : ∀ e, bad e → worse e) :
    Avoids bad x s :=
  fun e t he hbad' => h e t he (hbad e hbad')

theorem bind {f : α → EStateM ε σ β} (hx : Avoids bad x s)
    (hf : ∀ a t, x s = .ok a t → Avoids bad (f a) t) : Avoids bad (x >>= f) s := by
  intro e t he
  rw [bind_apply] at he
  cases hs : x s with
  | ok a r =>
    rw [hs] at he
    exact hf a r hs e t he
  | error e' r =>
    rw [hs] at he
    cases he
    exact hx e t hs

theorem mapM {γ : Type} {f : γ → EStateM ε σ β} {l : List γ}
    (hf : ∀ a ∈ l, ∀ s, Avoids bad (f a) s) : Avoids bad (l.mapM f) s := by
  induction l generalizing s with
  | nil => exact of_ok rfl
  | cons a l ih =>
    rw [List.mapM_cons]
    refine (hf a List.mem_cons_self s).bind fun b t _ => ?_
    exact (ih fun c hc => hf c (List.mem_cons_of_mem _ hc)).bind fun bs r _ => of_ok rfl

end Avoids

end TensorGraph.Step
