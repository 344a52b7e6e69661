import DispatchLang.Eval.Session

/-!
# Noted declarations

The dispatch strategy keeps the functions of a program in a table, where the name of a function leads to what
was declared last under it. A generic function whose only method comes from a declaration tells the
declaration (`GenericFunction.declaration?`). Apart from the types that go with it this is all there
is to know about it, so a table stands for the shorter table of what it *notes*.

## Main results

* `FunctionTable.declaration?_noted`: the shorter table notes the same declarations.
* `FunctionTable.noted_insert`, `FunctionTable.noted_insert_of_methods`: what happens to the shorter table if a
  function is declared, and if one changes without getting a new method.
-/

namespace DispatchLang

theorem Assoc.eq_or_mem_of_mem_insert {α : Type} {name : String} {value : α}
    {entries : List (String × α)} {e : String × α} (h : e ∈ insert name value entries) :
    e = (name, value) ∨ e ∈ entries := by
  induction entries with
  | nil => exact .inl (List.mem_singleton.mp h)
  | cons entry entries ih =>
    obtain ⟨key, old⟩ := entry
    rw [insert] at h
    split at h
    · next hkey =>
      rcases List.mem_cons.mp h with rfl | h
      · exact .inl (hkey ▸ rfl)
      · exact .inr (List.mem_cons_of_mem _ h)
    · rcases List.mem_cons.mp h with rfl | h
      · exact .inr List.mem_cons_self
      · exact (ih h).imp_right (List.mem_cons_of_mem _)

/-- What the declaration of a function leaves behind: the names of the parameters, the body, and the scope in
which it was evaluated. -/
structure Declaration where
  /-- The names of the parameters. -/
  params : List String
  /-- The body. -/
  body : Node
  /-- The scope of the declaration. -/
  scope : ScopeId

/-- Generic functions by name. -/
abbrev FunctionTable (ι : Type) : Type := List (String × GenericFunction ι)

namespace GenericFunction

def declaration? (f : GenericFunction FunctionBody) : Option Declaration :=
  match f.methods with
  | [⟨_, _, .declared params body scope⟩] => some ⟨params, body, scope⟩
  | _ => none

def ofDeclaration (name : String) (d : Declaration) : GenericFunction FunctionBody :=
  ⟨name, [⟨[], [], .declared d.params d.body d.scope⟩], [], false⟩

theorem declaration?_congr {f f' : GenericFunction FunctionBody} (h : f'.methods = f.methods) :
    f'.declaration? = f.declaration? := by
  rw [declaration?, declaration?, h]

end GenericFunction

namespace FunctionTable

variable {table : FunctionTable FunctionBody} {name : String} {f f' : GenericFunction FunctionBody} {d : Declaration}

def declaration? (table : FunctionTable FunctionBody) (name : String) : Option Declaration :=
  (table.lookup name).bind GenericFunction.declaration?

def noted (table : FunctionTable FunctionBody) : FunctionTable FunctionBody :=
  table.filterMap fun e => e.2.declaration?.map fun d => (e.1, .ofDeclaration e.1 d)

theorem noted_cons_some (h : f.declaration? = some d) :
    noted ((name, f) :: table) = (name, .ofDeclaration name d) :: noted table := by
  rw [noted, List.filterMap_cons_some (by rw [h]; rfl)]
  rfl

theorem noted_cons_none (h : f.declaration? = none) : noted ((name, f) :: table) = noted table := by
  rw [noted, List.filterMap_cons_none (by rw [h]; rfl)]
  rfl

theorem noted_insert_of_methods (h : table.lookup name = some f) (hm : f'.methods = f.methods) :
    noted (Assoc.insert name f' table) = noted table := by
  induction table with
  | nil => cases h
  | cons entry table ih =>
    obtain ⟨key, old⟩ := entry
    rw [List.lookup_cons] at h
    rw [Assoc.insert]
    by_cases hkey : key = name
    · rw [hkey, beq_self_eq_true] at h
      obtain rfl := Option.some.inj h
      have heq : f'.declaration? = old.declaration? := GenericFunction.declaration?_congr hm
      rw [if_pos hkey, noted, noted, List.filterMap_cons, List.filterMap_cons, heq]
    · rw [beq_eq_false_iff_ne.mpr (Ne.symm hkey)] at h
      rw [if_neg hkey]
      cases hold : old.declaration? with
      | none => rw [noted_cons_none hold, noted_cons_none hold, ih h]
      | some d => rw [noted_cons_some hold, noted_cons_some hold, ih h]

theorem noted_insert (hf : f.declaration? = some d)
    (h : ∀ e ∈ table, e.1 = name → e.2.declaration?.isSome) :
    noted (Assoc.insert name f table) = Assoc.insert name (.ofDeclaration name d) (noted table) := by
  induction table with
  | nil => exact noted_cons_some hf
  | cons entry table ih =>
    obtain ⟨key, old⟩ := entry
    obtain ⟨hentry, h⟩ := List.forall_mem_cons.mp h
    rw [Assoc.insert]
    by_cases hkey : key = name
    · obtain ⟨d', hold⟩ := Option.isSome_iff_exists.mp (hentry hkey)
      rw [if_pos hkey, noted_cons_some hf, noted_cons_some hold, Assoc.insert, if_pos hkey, hkey]
    · rw [if_neg hkey]
      cases hold : old.declaration? with
      | none => rw [noted_cons_none hold, noted_cons_none hold, ih h]
      | some d' => rw [noted_cons_some hold, noted_cons_some hold, Assoc.insert, if_neg hkey, ih h]

theorem declaration?_noted (h : ∀ e ∈ table, e.1 = name → e.2.declaration?.isSome) :
    (noted table).declaration? name = table.declaration? name := by
  induction table with
  | nil => rfl
  | cons entry table ih =>
    obtain ⟨key, f⟩ := entry
    obtain ⟨hentry, h⟩ := List.forall_mem_cons.mp h
    rw [declaration?, declaration?, List.lookup_cons]
    by_cases hkey : name = key
    · obtain ⟨d, hf⟩ := Option.isSome_iff_exists.mp (hentry hkey.symm)
      rw [noted_cons_some hf, List.lookup_cons, hkey, beq_self_eq_true, Option.bind_some,
        Option.bind_some, hf]
      rfl
    · rw [beq_eq_false_iff_ne.mpr hkey]
      cases hf : f.declaration? with
      | none => rw [noted_cons_none hf]; exact ih h
      | some d =>
        rw [noted_cons_some hf, List.lookup_cons, beq_eq_false_iff_ne.mpr hkey]
        exact ih h

theorem declaration?_noted_eq_none (h : ∀ e ∈ table, e.1 = name → e.2.declaration? = none) :
    (noted table).declaration? name = none := by
  induction table with
  | nil => rfl
  | cons entry table ih =>
    obtain ⟨key, f⟩ := entry
    obtain ⟨hentry, h⟩ := List.forall_mem_cons.mp h
    cases hf : f.declaration? with
    | none => rw [noted_cons_none hf]; exact ih h
    | some d =>
      have hkey : name ≠ key := fun hkey => by
        rw [hentry hkey.symm] at hf
        cases hf
      rw [noted_cons_some hf, declaration?, List.lookup_cons, beq_eq_false_iff_ne.mpr hkey]
      exact ih h

end FunctionTable

namespace Eval

/-- Gives up unless something is so. -/
def demand (condition : Bool) : Eval Unit := if condition then return else throw .exhausted

def noted? (name : String) : Eval (Option Declaration) :=
  return FunctionTable.declaration? (← get).functions name

/-- Notes the declaration of a function. -/
def note (name : String) (d : Declaration) : Eval Unit :=
  modify fun s => { s with functions := Assoc.insert name (.ofDeclaration name d) s.functions }

end Eval

end DispatchLang
