/-!
# Finite tables

A finite map as a list of entries, newest first. An entry hides later entries of its key, and
`insert` and `erase` leave no hidden entries behind.
-/

namespace LayeredSets

structure Table (κ α : Type) where
  entries : List (κ × α)

namespace Table

variable {κ α β : Type} [BEq κ]

def empty : Table κ α := ⟨[]⟩

def get? (t : Table κ α) (k : κ) : Option α :=
  (t.entries.find? (·.1 == k)).map (·.2)

def contains (t : Table κ α) (k : κ) : Bool := t.entries.any (·.1 == k)

def erase (t : Table κ α) (k : κ) : Table κ α := ⟨t.entries.filter (!·.1 == k)⟩

def insert (t : Table κ α) (k : κ) (a : α) : Table κ α := ⟨(k, a) :: (t.erase k).entries⟩

def map (f : α → β) (t : Table κ α) : Table κ β := ⟨t.entries.map fun (k, a) => (k, f a)⟩

def keys (t : Table κ α) : List κ := t.entries.map (·.1)

def values (t : Table κ α) : List α := t.entries.map (·.2)

theorem contains_eq_isSome (t : Table κ α) (k : κ) : t.contains k = (t.get? k).isSome := by
  rw [contains, get?, Option.isSome_map, List.isSome_find?]

@[simp] theorem get?_empty (k : κ) : (empty : Table κ α).get? k = none := rfl

@[simp] theorem get?_insert_self [LawfulBEq κ] (t : Table κ α) (k : κ) (a : α) :
    (t.insert k a).get? k = some a := by
  simp [insert, get?]

theorem find?_erase [LawfulBEq κ] (l : List (κ × α)) {k k' : κ} (h : k' ≠ k) :
    (l.filter (!·.1 == k)).find? (·.1 == k') = l.find? (·.1 == k') := by
  induction l with
  | nil => rfl
  | cons e rest ih =>
    by_cases he : e.1 = k
    · have hne : ¬ e.1 = k' := fun h' => h (h' ▸ he)
      simp [he, ih, Ne.symm h]
    · simp [he, List.find?_cons, ih]

theorem get?_insert_of_ne [LawfulBEq κ] (t : Table κ α) {k k' : κ} (a : α) (h : k' ≠ k) :
    (t.insert k a).get? k' = t.get? k' := by
  simp [insert, erase, get?, Ne.symm h, find?_erase t.entries h]

theorem get?_insert [LawfulBEq κ] (t : Table κ α) (k : κ) (a : α) (k' : κ) :
    (t.insert k a).get? k' = if k' == k then some a else t.get? k' := by
  split
  · next h => rw [eq_of_beq h, get?_insert_self]
  · next h => exact t.get?_insert_of_ne a fun heq => h (beq_iff_eq.mpr heq)

@[simp] theorem get?_erase_self [LawfulBEq κ] (t : Table κ α) (k : κ) :
    (t.erase k).get? k = none := by
  simp only [get?, erase, Option.map_eq_none_iff, List.find?_eq_none, List.mem_filter]
  rintro e ⟨_, he⟩
  simpa using he

theorem get?_erase_of_ne [LawfulBEq κ] (t : Table κ α) {k k' : κ} (h : k' ≠ k) :
    (t.erase k).get? k' = t.get? k' := by
  simp [erase, get?, find?_erase t.entries h]

theorem get?_erase [LawfulBEq κ] (t : Table κ α) (k k' : κ) :
    (t.erase k).get? k' = if k' == k then none else t.get? k' := by
  split
  · next h => rw [eq_of_beq h, get?_erase_self]
  · next h => exact t.get?_erase_of_ne fun heq => h (beq_iff_eq.mpr heq)

@[simp] theorem get?_map (t : Table κ α) (f : α → β) (k : κ) :
    (t.map f).get? k = (t.get? k).map f := by
  simp only [get?, map]
  induction t.entries with
  | nil => rfl
  | cons e rest ih =>
    by_cases he : e.1 == k
    · simp [he]
    · simp only [List.map_cons, List.find?_cons, he]
      exact ih

end Table
end LayeredSets
