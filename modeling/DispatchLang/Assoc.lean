/-!
# Lists of named things

A list of pairs serves as a finite map in which the order of the names is kept. `insert` replaces the
thing under a name where it stands, or adds it at the end.
-/

namespace DispatchLang.Assoc

variable {α : Type}

/-- Puts a thing under a name, in the place of the one that is there or else at the end. -/
def insert (name : String) (value : α) : List (String × α) → List (String × α)
  | [] => [(name, value)]
  | (key, old) :: entries =>
    if key = name then (key, value) :: entries else (key, old) :: insert name value entries

/-- The list without the first thing under a name. -/
def erase (name : String) : List (String × α) → List (String × α)
  | [] => []
  | (key, value) :: entries =>
    if key = name then entries else (key, value) :: erase name entries

theorem lookup_insert_self (name : String) (value : α) (entries : List (String × α)) :
    (insert name value entries).lookup name = some value := by
  induction entries with
  | nil => rw [insert, List.lookup_cons, beq_self_eq_true]
  | cons entry entries ih =>
    obtain ⟨key, old⟩ := entry
    rw [insert]
    by_cases h : key = name
    · rw [if_pos h, List.lookup_cons, h, beq_self_eq_true]
    · rw [if_neg h, List.lookup_cons, beq_eq_false_iff_ne.mpr (Ne.symm h)]
      exact ih

theorem lookup_insert_of_ne {name other : String} (h : other ≠ name) (value : α)
    (entries : List (String × α)) :
    (insert name value entries).lookup other = entries.lookup other := by
  induction entries with
  | nil => rw [insert, List.lookup_cons, beq_eq_false_iff_ne.mpr h]
  | cons entry entries ih =>
    obtain ⟨key, old⟩ := entry
    rw [insert]
    by_cases hk : key = name
    · rw [if_pos hk, List.lookup_cons, List.lookup_cons, hk, beq_eq_false_iff_ne.mpr h]
    · rw [if_neg hk, List.lookup_cons, List.lookup_cons, ih]

/-- Putting the thing under a name that is there already changes nothing. -/
theorem insert_eq_self {name : String} {value : α} {entries : List (String × α)}
    (h : entries.lookup name = some value) : insert name value entries = entries := by
  induction entries with
  | nil => cases h
  | cons entry entries ih =>
    obtain ⟨key, old⟩ := entry
    rw [List.lookup_cons] at h
    rw [insert]
    by_cases hkey : key = name
    · rw [hkey, beq_self_eq_true] at h
      obtain rfl := Option.some.inj h
      rw [if_pos hkey]
    · rw [beq_eq_false_iff_ne.mpr (Ne.symm hkey)] at h
      rw [if_neg hkey, ih h]

theorem lookup_map {β : Type} (f : α → β) (entries : List (String × α)) (name : String) :
    (entries.map fun entry => (entry.1, f entry.2)).lookup name = (entries.lookup name).map f := by
  induction entries with
  | nil => rfl
  | cons entry entries ih =>
    obtain ⟨key, value⟩ := entry
    rw [List.map_cons, List.lookup_cons, List.lookup_cons, ih]
    cases name == key <;> rfl

theorem mem_of_lookup {β : Type} [BEq β] [LawfulBEq β] {key : β} {value : α}
    {entries : List (β × α)} (h : entries.lookup key = some value) : (key, value) ∈ entries := by
  obtain ⟨before, after, heq, -⟩ := List.lookup_eq_some_iff.mp h
  rw [heq]
  exact List.mem_append_right _ List.mem_cons_self

end DispatchLang.Assoc
