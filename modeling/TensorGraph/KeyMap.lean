/-! # Finite maps

A finite map, as a list of its entries. Every key occurs once. -/

namespace TensorGraph

/-- A finite map from keys to values. -/
structure KeyMap (κ α : Type) where
  entries : List (κ × α) := []
  deriving DecidableEq

namespace KeyMap

variable {κ α : Type}

instance : Inhabited (KeyMap κ α) := ⟨{}⟩

/-- Keeps the entries whose values satisfy `keep`. -/
def retain (m : KeyMap κ α) (keep : α → Bool) : KeyMap κ α :=
  ⟨m.entries.filter fun e => keep e.2⟩

/-- Every key of `entries` occurs once. -/
def Distinct (m : KeyMap κ α) : Prop := (m.entries.map Prod.fst).Nodup

theorem distinct_retain {m : KeyMap κ α} (h : m.Distinct) (keep : α → Bool) :
    (m.retain keep).Distinct :=
  List.Sublist.nodup (List.Sublist.map _ List.filter_sublist) h

variable [DecidableEq κ]

/-- The value of a key. -/
def get? (m : KeyMap κ α) (key : κ) : Option α :=
  (m.entries.find? fun e => e.1 == key).map Prod.snd

def contains (m : KeyMap κ α) (key : κ) : Bool := (m.get? key).isSome

/-- Gives a key a value; an earlier value is lost. -/
def insert (m : KeyMap κ α) (key : κ) (value : α) : KeyMap κ α :=
  ⟨(key, value) :: m.entries.filter fun e => e.1 != key⟩

@[simp] theorem get?_empty (key : κ) : ({} : KeyMap κ α).get? key = none := rfl

/-- A map gives back the value inserted last for a key, by `insert`. -/
theorem get?_insert (m : KeyMap κ α) (key other : κ) (value : α) :
    (m.insert key value).get? other = if key = other then some value else m.get? other := by
  unfold get? insert
  rw [List.find?_cons]
  by_cases h : key = other
  · simp [h]
  · have hne : (key == other) = false := by simpa using h
    simp only [hne, if_neg h, List.find?_filter]
    congr 2
    funext e
    by_cases he : e.1 = other
    · have : e.1 ≠ key := fun e' => h (e'.symm.trans he)
      simp [he, Ne.symm h]
    · simp [he]

theorem distinct_insert {m : KeyMap κ α} (h : m.Distinct) (key : κ) (value : α) :
    (m.insert key value).Distinct := by
  unfold Distinct insert
  simp only [List.map_cons, List.nodup_cons, List.mem_map, List.mem_filter]
  refine ⟨?_, ?_⟩
  · rintro ⟨e, ⟨-, he⟩, rfl⟩; simp at he
  · exact List.Sublist.nodup (List.Sublist.map _ List.filter_sublist) h

/-- A key for which `get?` has no value has no entry. -/
theorem get?_eq_none {m : KeyMap κ α} {key : κ} :
    m.get? key = none ↔ ∀ e ∈ m.entries, e.1 ≠ key := by
  simp [get?, List.find?_eq_none]

/-- What a map gives back is one of its `entries`. -/
theorem mem_of_get? {m : KeyMap κ α} {key : κ} {value : α} (h : m.get? key = some value) :
    (key, value) ∈ m.entries := by
  simp only [get?, Option.map_eq_some_iff] at h
  obtain ⟨e, he, rfl⟩ := h
  have hk : e.1 = key := by simpa using List.find?_some he
  rw [← hk]
  exact List.mem_of_find?_eq_some he

/-- A key that is new is added by `insert` in front of the other entries. -/
theorem entries_insert_of_get?_eq_none {m : KeyMap κ α} {key : κ} (h : m.get? key = none)
    (value : α) : (m.insert key value).entries = (key, value) :: m.entries := by
  have hk := get?_eq_none.1 h
  simp only [insert, List.cons.injEq, true_and, List.filter_eq_self]
  intro e he
  simpa using hk e he

end KeyMap
end TensorGraph
