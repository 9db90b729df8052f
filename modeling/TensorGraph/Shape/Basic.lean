/-! # Sizes and shapes

Sizes, dimensions and byte counts are natural numbers below `Size.bound`, and memory is allocated in
pieces of fewer than `Size.allocatable` bytes. Sums and products of sizes are taken in one of two
ways. Where a result that is no size must be noticed, `Size.add?` and `Size.mul?` have none. Where
it is not looked for, `Size.add` and `Size.mul` keep what is left of it modulo `Size.bound`.

The volume of a shape is the number of elements that it has: the product of its dimensions. A
shape without dimensions has one element. Where the number is needed as a size, it is computed from
the first dimension on and every product on the way must be a size. -/

namespace TensorGraph

/-! ### Sizes -/

namespace Size

/-- The first number that is no size, `2 ^ 64`. -/
def bound : Nat := 0x10000000000000000

/-- The first number of bytes that cannot be allocated at once, `2 ^ 63`. -/
def allocatable : Nat := 0x8000000000000000

/-- The sum of two sizes, if it is below `bound`. -/
def add? (a b : Nat) : Option Nat :=
  if a + b < bound then some (a + b) else none

/-- The product of two sizes, if it is below `bound`. -/
def mul? (a b : Nat) : Option Nat :=
  if a * b < bound then some (a * b) else none

/-- The sum of two sizes, reduced modulo `bound`. -/
def add (a b : Nat) : Nat := (a + b) % bound

/-- The product of two sizes, reduced modulo `bound`. -/
def mul (a b : Nat) : Nat := a * b % bound

theorem add?_eq_some {a b c : Nat} : add? a b = some c ↔ a + b < bound ∧ a + b = c := by
  by_cases h : a + b < bound <;> simp [add?, h]

theorem mul?_eq_some {a b c : Nat} : mul? a b = some c ↔ a * b < bound ∧ a * b = c := by
  by_cases h : a * b < bound <;> simp [mul?, h]

/-- A signed number as a size; negative numbers are none. -/
def ofInt? (a : Int64) : Option Nat :=
  if 0 ≤ a.toInt then some a.toInt.toNat else none

theorem ofInt?_eq_some {a : Int64} {n : Nat} : ofInt? a = some n ↔ a.toInt = n := by
  unfold ofInt?; split
  · simp only [Option.some.injEq]; omega
  · simp only [reduceCtorEq, false_iff]; omega

end Size

/-! ### Texts -/

namespace Text

/-- Items between square brackets, separated by a comma and a blank. -/
def bracketed (items : List String) : String :=
  "[" ++ ", ".intercalate items ++ "]"

/-- A list of sizes. -/
def sizes (values : List Nat) : String :=
  bracketed (values.map toString)

/-- A list of signed numbers. -/
def integers (values : List Int64) : String :=
  bracketed (values.map fun v => toString v.toInt)

end Text

/-! ### Volumes -/

/-- The product of the dimensions. -/
def volume : List Nat → Nat
  | [] => 1
  | d :: dims => d * volume dims

@[simp] theorem volume_nil : volume [] = 1 := rfl

@[simp] theorem volume_cons (d : Nat) (dims : List Nat) : volume (d :: dims) = d * volume dims :=
  rfl

/-- Rearranging the dimensions keeps the `volume`. -/
theorem volume_perm {a b : List Nat} (h : a.Perm b) : volume a = volume b := by
  induction h with
  | nil => rfl
  | cons d _ ih => simp [ih]
  | swap d e dims => simp [Nat.mul_left_comm]
  | trans _ _ ih₁ ih₂ => exact ih₁.trans ih₂

/-- The `volume`, if the products of the first dimensions are all sizes. -/
def volume? (dims : List Nat) : Option Nat := dims.foldlM Size.mul? 1

theorem foldlM_mul?_eq_some_iff_prefixes (dims : List Nat) {a n : Nat} :
    dims.foldlM Size.mul? a = some n ↔
      n = a * volume dims ∧ ∀ k < dims.length, a * volume (dims.take (k + 1)) < Size.bound := by
  induction dims generalizing a with
  | nil => simp [eq_comm]
  | cons d dims ih =>
    simp only [List.foldlM_cons, Option.bind_eq_bind, Option.bind_eq_some_iff, Size.mul?_eq_some,
      ih, List.length_cons, List.take_succ_cons, volume_cons]
    constructor
    · rintro ⟨_, ⟨hlt, rfl⟩, rfl, hrest⟩
      refine ⟨Nat.mul_assoc a d _, fun k hk => ?_⟩
      cases k with
      | zero => simpa using hlt
      | succ k =>
        rw [← Nat.mul_assoc]
        exact hrest k (by omega)
    · rintro ⟨rfl, hall⟩
      refine ⟨a * d, ⟨?_, rfl⟩, (Nat.mul_assoc a d _).symm, fun k hk => ?_⟩
      · simpa using hall 0 (by omega)
      · rw [Nat.mul_assoc]
        exact hall (k + 1) (by omega)

/-- The `volume` is computed exactly when the products of the first dimensions are all sizes. -/
theorem volume?_eq_some {dims : List Nat} {n : Nat} : volume? dims = some n ↔
    n = volume dims ∧ ∀ k < dims.length, volume (dims.take (k + 1)) < Size.bound := by
  simpa [volume?] using foldlM_mul?_eq_some_iff_prefixes dims (a := 1) (n := n)

theorem eq_volume_of_volume? {dims : List Nat} {n : Nat} (h : volume? dims = some n) :
    n = volume dims := (volume?_eq_some.1 h).1

end TensorGraph
