import DispatchLang.Eval.Run
import DispatchLang.Proofs.Eval.Storage

/-!
# Fresh sessions are sound

A session in which nothing has happened yet has only the built-in names, an empty heap, and functions that
remember nothing. Whether functions remember resolutions makes no difference to their methods.

## Main results

* `Session.fresh_sound`: a fresh session of the dispatch strategy is sound.
* `Session.untyped_fresh`: it stands for a fresh session of the direct strategy.
-/

namespace DispatchLang

open TypeArena

/-! ## Built-in functions -/

namespace Tables

variable {ι : Type}

/-- Functions with the same methods, of which the first remember nothing. -/
def Alike (functions functions' : List (String × GenericFunction ι)) : Prop :=
  ∀ name, (functions.lookup name).map GenericFunction.methods =
      (functions'.lookup name).map GenericFunction.methods ∧
    ∀ f, functions.lookup name = some f → f.cache = []

def addEntry (cache : Bool) (functions : List (String × GenericFunction ι)) (e : TableEntry ι) :
    List (String × GenericFunction ι) :=
  Assoc.insert e.name (((functions.lookup e.name).getD (.empty e.name cache)).withMethod
    ⟨e.typeVars, e.signature, e.body⟩) functions

theorem Alike.addEntry {cache cache' : Bool} {functions functions' : List (String × GenericFunction ι)}
    (h : Alike functions functions') (e : TableEntry ι) :
    Alike (addEntry cache functions e) (addEntry cache' functions' e) := by
  intro name
  rw [Tables.addEntry, Tables.addEntry]
  by_cases hname : name = e.name
  · subst hname
    have hmethods : ((functions.lookup e.name).getD (.empty e.name cache)).methods =
        ((functions'.lookup e.name).getD (.empty e.name cache')).methods := by
      have hboth := (h e.name).1
      cases hl : functions.lookup e.name <;> cases hl' : functions'.lookup e.name <;>
        rw [hl, hl'] at hboth
      · rfl
      · cases hboth
      · cases hboth
      · exact Option.some.inj hboth
    rw [Assoc.lookup_insert_self, Assoc.lookup_insert_self]
    refine ⟨?_, fun f hf => ?_⟩
    · rw [Option.map_some, Option.map_some, GenericFunction.withMethod, GenericFunction.withMethod,
        hmethods]
    · cases hf
      rfl
  · rw [Assoc.lookup_insert_of_ne hname, Assoc.lookup_insert_of_ne hname]
    exact h name

theorem Alike.build (cache cache' : Bool) (table : List (TableEntry ι)) :
    Alike (build cache table) (build cache' table) := by
  have hfold : ∀ functions functions' : List (String × GenericFunction ι),
      Alike functions functions' →
        Alike (table.foldl (Tables.addEntry cache) functions)
          (table.foldl (Tables.addEntry cache') functions') := by
    induction table with
    | nil => exact fun _ _ h => h
    | cons e table ih => exact fun _ _ h => ih _ _ (h.addEntry e)
  exact hfold [] [] fun name => ⟨rfl, fun f hf => by cases hf⟩

/-- Functions that are built from a table serve the calls of its methods. -/
theorem build_serves (arena : TypeArena) (cache : Bool) (table : List (TableEntry ι)) :
    Serves arena ((build true table).map fun e => (e.1, e.2.methods)) (build cache table) := by
  intro name methods hl
  obtain ⟨hmethods, hcache⟩ := Alike.build cache true table name
  rw [Assoc.lookup_map GenericFunction.methods, ← hmethods] at hl
  obtain ⟨f, hf, rfl⟩ := Option.map_eq_some_iff.mp hl
  refine ⟨f, hf, rfl, fun args r hr => ?_⟩
  rw [hcache f hf] at hr
  cases hr

end Tables

theorem operators_serve (arena : TypeArena) (cache : Bool) :
    Serves arena operatorTable (Tables.build cache Tables.operators) :=
  Tables.build_serves arena cache Tables.operators

theorem functions_serve (arena : TypeArena) (cache : Bool) :
    Serves arena functionTable (Tables.build cache
      (Tables.functions.map fun e => ⟨e.name, e.typeVars, e.signature, .primitive e.body⟩)) :=
  Tables.build_serves arena cache _

theorem functions_builtin (cache : Bool) :
    ∀ e ∈ Tables.build cache
      (Tables.functions.map fun e =>
        ⟨e.name, e.typeVars, e.signature, FunctionBody.primitive e.body⟩),
      e.1 ∈ Direct.functionNames ∧ e.2.declaration?.isNone := by
  cases cache <;> decide

theorem noted_functions (cache : Bool) :
    FunctionTable.noted (Tables.build cache
      (Tables.functions.map fun e =>
        ⟨e.name, e.typeVars, e.signature, FunctionBody.primitive e.body⟩)) = [] := by
  refine List.filterMap_eq_nil_iff.mpr fun e he => ?_
  rw [Option.isNone_iff_eq_none.mp (functions_builtin cache e he).2]
  rfl

/-- The built-in methods serve in the arena that knows the types in their signatures. -/
theorem methods_serve (cache : Bool) : ServesMethods Session.freshArena
    (Tables.build cache (Tables.methods Session.freshElement Session.freshArray)) where
  extension := .refl _
  listed := by cases cache <;> rfl
  recalls := by
    have hnew : ∀ e ∈ Tables.build cache (Tables.methods Session.freshElement Session.freshArray),
        e.2.cache.isEmpty = true ∧ ∀ m ∈ e.2.methods, ∀ p ∈ m.signature, p < Session.freshArena.size := by
      cases cache <;> decide
    exact fun e he => GenericFunction.recalls_of_cache_nil (hnew e he).2 (List.isEmpty_iff.mp (hnew e he).1)

/-! ## Built-in names -/

namespace Session

/-- Names are bound to built-in functions and to built-in types. -/
theorem builtinBindings_cases {b : String × Value} (h : b ∈ builtinBindings) :
    (∃ name ∈ Direct.functionNames, b.2 = .generic name) ∨
      ∃ id < builtinTypes.length, ∃ name, b.2 = .typeRef id name := by
  rcases List.mem_append.mp h with h | h
  · obtain ⟨name, hname, rfl⟩ := List.mem_map.mp h
    exact .inl ⟨name, hname, rfl⟩
  · obtain ⟨⟨d, id⟩, hd, rfl⟩ := List.mem_map.mp h
    have hlt := (List.mem_zipIdx hd).2.1
    rw [Nat.zero_add] at hlt
    exact .inr ⟨id, hlt, _, rfl⟩

theorem builtinBindings_basic (D : Dialect) (heap : Heap) :
    ∀ b ∈ builtinBindings, b.2.Basic D heap := by
  intro b hb
  rcases builtinBindings_cases hb with ⟨name, hname, hb⟩ | ⟨id, hid, name, hb⟩ <;> rw [hb]
  · exact .inl hname
  · exact hid

theorem rootBinding_all {p : Value → Prop} {bindings : List (String × Value)}
    (h : ∀ b ∈ bindings, p b.2) : (rootBinding bindings).All p := by
  have hfold : ∀ scopes : ScopeTree Value, scopes.All p →
      (bindings.foldl (fun t b => t.define ScopeTree.root b.1 b.2) scopes).All p := by
    induction bindings with
    | nil => exact fun _ hs => hs
    | cons b bindings ih =>
      obtain ⟨hb, hbs⟩ := List.forall_mem_cons.mp h
      exact fun _ hs => ih hbs _ (hs.define hb)
  refine hfold _ fun i frame hi b hb => ?_
  have hroot : frame = ⟨[], none⟩ := List.mem_singleton.mp (Array.mem_toList_iff.mpr
    (Array.mem_of_getElem? hi))
  rw [hroot] at hb
  cases hb

/-! ## Fresh sessions -/

theorem scopes_fresh (strategy : Strategy) (options : Options) :
    (fresh strategy options).scopes = rootBinding builtinBindings := by cases strategy <;> rfl

theorem functions_fresh (options : Options) :
    (fresh .dispatch options).functions = Tables.build options.cache
      (Tables.functions.map fun e => ⟨e.name, e.typeVars, e.signature, FunctionBody.primitive e.body⟩) := by
  rw [fresh]

theorem heap_fresh (strategy : Strategy) (options : Options) : (fresh strategy options).heap = .empty := by
  cases strategy <;> rfl

variable (options : Options)

theorem untyped_fresh : (fresh .dispatch options).untyped = fresh .direct options := by
  simp [untyped, fresh, Heap.untyped, Heap.empty, noted_functions]

theorem fresh_sound (D : Dialect) : (fresh .dispatch options).Sound D := by
  have hinitial : TypeArena.initial.Tidy := ⟨.initial, fun _ _ h => (by cases h), .initial⟩
  have hvar := (hinitial.var "T" (show TypeId.any < _ by decide)).1
  have htidy := (hvar.arrayOf (hinitial.vars.var "T" .any).2).1
  have hmethods := methods_serve options.cache
  rw [fresh]
  rw [freshArena, freshArray, freshElement] at hmethods
  dsimp only
  -- What is in the arena is known by now; the rest does not depend on it.
  generalize TypeArena.initial.var "T" .any = var at htidy hmethods
  obtain ⟨element, arena⟩ := var
  dsimp only at htidy hmethods ⊢
  generalize arena.arrayOf element = array at htidy hmethods
  have hoperators := operators_serve array.2 options.cache
  have hfunctions := functions_serve array.2 options.cache
  have hbuiltin := functions_builtin options.cache
  generalize Tables.build options.cache Tables.operators = operators at hoperators ⊢
  generalize Tables.build options.cache (Tables.functions.map fun e => _) = functions
    at hfunctions hbuiltin ⊢
  generalize Tables.build options.cache (Tables.methods element array.1) = methods at hmethods ⊢
  refine ⟨htidy, fun address cell hc => ?_, ?_, hoperators, hfunctions, hmethods, ?_, ?_⟩
  · simp [Heap.empty] at hc
  · exact rootBinding_all (builtinBindings_basic D _)
  · exact fun e he _ => Option.isNone_iff_eq_none.mp (hbuiltin e he).2
  · exact fun e he hname => absurd (hbuiltin e he).1 hname

end Session

end DispatchLang
