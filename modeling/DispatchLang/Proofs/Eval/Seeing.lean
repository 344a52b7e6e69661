import DispatchLang.Proofs.Eval.Contents
import DispatchLang.Proofs.Eval.Fresh
import DispatchLang.Proofs.Method.Memory
import DispatchLang.Proofs.Scope.Growth

/-!
# What scopes see

A scope sees the names that it or a scope around it binds, and what it sees it goes on seeing, as trees of scopes only
grow (`ScopeTree.Grows`).

A function is run in a new scope inside the one that it was made in. It is *closed* in a session if the names that its
body reads are seen by this scope or bound by the parameters, or at least those of them that are watched. In a *closed*
session all functions are, wherever they are kept: in scopes, in cells, in fields of instances and behind generic
functions.

## Main definitions

* `Session.Sees`: a scope is there and sees some names.
* `Value.Closed`: all functions in a value are closed.
* `Session.Closed`: all functions in a session are.

## Main results

* `GenericFunction.Keeps.resolve`: what a call resolves to is a method of the function, with as many parameters as
  there are arguments.
-/

namespace DispatchLang

/-! ## Later sessions -/

namespace Session

variable {s t u : Session} {scope : ScopeId} {visible more : List String} {name : String}

/-- A session comes after another one: scopes see what they saw, and functions that were there still are. -/
structure Precedes (s t : Session) : Prop where
  scopes : s.scopes.Grows t.scopes
  functions : ∀ name, (s.functions.lookup name).isSome = true → (t.functions.lookup name).isSome = true

theorem Precedes.refl (s : Session) : s.Precedes s := ⟨.refl _, fun _ => id⟩

theorem Precedes.trans (h : s.Precedes t) (h' : t.Precedes u) : s.Precedes u :=
  ⟨h.scopes.trans h'.scopes, fun name hn => h'.functions name (h.functions name hn)⟩

/-- A scope is there and sees some names. -/
structure Sees (s : Session) (scope : ScopeId) (visible : List String) : Prop where
  there : scope < s.scopes.frames.size
  contains : ∀ name ∈ visible, s.scopes.contains scope name = true

theorem Sees.later (h : s.Sees scope visible) (g : s.Precedes t) : t.Sees scope visible :=
  ⟨Nat.lt_of_lt_of_le h.there g.scopes.size_le, fun name hn => g.scopes.contains (h.contains name hn)⟩

theorem Sees.append (h : s.Sees scope visible) (h' : s.Sees scope more) : s.Sees scope (visible ++ more) :=
  ⟨h.there, List.forall_mem_append.mpr ⟨h.contains, h'.contains⟩⟩

theorem Sees.nil (h : s.Sees scope visible) : s.Sees scope [] := ⟨h.there, List.forall_mem_nil _⟩

theorem Sees.singleton (h : s.Sees scope visible) (hc : s.scopes.contains scope name = true) : s.Sees scope [name] :=
  ⟨h.there, List.forall_mem_singleton.mpr hc⟩

theorem Sees.sublist (h : s.Sees scope visible) (hsub : more ⊆ visible) : s.Sees scope more :=
  ⟨h.there, fun name hn => h.contains name (hsub hn)⟩

end Session

/-! ## Values -/

/-- A function is known by a name: to the direct strategy a built-in one, to the other one any that is there. -/
def Strategy.Knows (strategy : Strategy) (s : Session) (name : String) : Prop :=
  match strategy with
  | .direct => name ∈ Direct.functionNames
  | .dispatch => (s.functions.lookup name).isSome = true

theorem Strategy.Knows.later {strategy : Strategy} {s t : Session} {name : String} (h : strategy.Knows s name)
    (g : s.Precedes t) : strategy.Knows t name := by
  cases strategy with
  | direct => exact h
  | dispatch => exact g.functions name h

namespace Value

mutual

def leaves : Value → List Value
  | .inst _ _ _ fields => leavesOfEntries fields
  | value => [value]

def leavesOfEntries : List (String × Value) → List Value
  | [] => []
  | (_, value) :: entries => leaves value ++ leavesOfEntries entries

end

/-- A value that is not an instance is not open: the watched names that the body of a function reads are seen by the
scope of the function or bound by the parameters, and a function that is known by its name is there. There are no quoted
trees. -/
def IsClosed (strategy : Strategy) (watched : String → Bool) (s : Session) : Value → Prop
  | .closure _ params body outer =>
    ∃ visible, s.Sees outer visible ∧ Node.wellScopedAll watched (visible ++ params) body = true
  | .function _ _ params body outer =>
    ∃ visible, s.Sees outer visible ∧ Node.wellScoped watched (visible ++ params) body = true
  | .generic name => strategy.Knows s name
  | .quoted _ => False
  | _ => True

def Closed (strategy : Strategy) (watched : String → Bool) (s : Session) (value : Value) : Prop :=
  ∀ leaf ∈ value.leaves, leaf.IsClosed strategy watched s

variable {strategy : Strategy} {watched : String → Bool} {s t : Session} {value : Value}

theorem IsClosed.later (h : value.IsClosed strategy watched s) (g : s.Precedes t) :
    value.IsClosed strategy watched t := by
  cases value with
  | closure id params body outer | function id name params body outer =>
    obtain ⟨visible, hs, hbody⟩ := h
    exact ⟨visible, hs.later g, hbody⟩
  | generic name => exact Strategy.Knows.later h g
  | _ => exact h

theorem Closed.later (h : value.Closed strategy watched s) (g : s.Precedes t) : value.Closed strategy watched t :=
  fun leaf hl => (h leaf hl).later g

theorem closed_inst {type : TypeId} {typeName : String} {variant : Option String} {fields : List (String × Value)} :
    (inst type typeName variant fields).Closed strategy watched s ↔ ∀ e ∈ fields, e.2.Closed strategy watched s := by
  rw [Closed, leaves]
  induction fields with
  | nil => exact ⟨fun _ => List.forall_mem_nil _, fun _ => List.forall_mem_nil _⟩
  | cons entry fields ih => rw [leavesOfEntries, List.forall_mem_append, ih, List.forall_mem_cons, Closed]

theorem closed_iff (h : value.leaves = [value]) :
    value.Closed strategy watched s ↔ value.IsClosed strategy watched s := by
  rw [Closed, h, List.forall_mem_singleton]

theorem inherited_closed : Inherited (Closed strategy watched s) := fun _ _ _ _ => closed_inst.mp

theorem closed_ofLiteral (literal : Literal) : (ofLiteral literal).Closed strategy watched s := by
  cases literal <;> exact (closed_iff rfl).mpr trivial

theorem closed_ofNumber (n : Number) : (ofNumber n).Closed strategy watched s := by
  cases n <;> exact (closed_iff rfl).mpr trivial

end Value

/-! ## Generic functions -/

theorem TypeArena.length_of_matchAll {step : Bindings → TypeId → TypeId → Option Bindings} {params args : List TypeId}
    {bindings bindings' : Bindings} (h : matchAll step bindings params args = some bindings') :
    params.length = args.length := by
  induction params generalizing args bindings with
  | nil =>
    cases args with
    | nil => rfl
    | cons arg args => cases h
  | cons param params ih =>
    cases args with
    | nil => cases h
    | cons arg args =>
      rw [matchAll, Option.bind_eq_bind, Option.bind_eq_some_iff] at h
      obtain ⟨_, -, h⟩ := h
      rw [List.length_cons, List.length_cons, ih h]

namespace GenericFunction

variable {ι : Type} {p q : Method ι → Prop} {f : GenericFunction ι} {args : List TypeId} {arena : TypeArena}
  {r : Resolution ι}

/-- A method has a property, and takes a number of arguments. -/
def Takes (p : Method ι → Prop) (args : List TypeId) (r : Resolution ι) : Prop :=
  p r.method ∧ r.method.signature.length = args.length

/-- The methods of a function have a property, also those that it remembers for some arguments. -/
structure Keeps (p : Method ι → Prop) (f : GenericFunction ι) : Prop where
  methods : ∀ m ∈ f.methods, p m
  cache : ∀ entry ∈ f.cache, Takes p entry.1 entry.2

theorem Keeps.mono (h : f.Keeps p) (hpq : ∀ m, p m → q m) : f.Keeps q :=
  ⟨fun m hm => hpq m (h.methods m hm), fun entry he => (h.cache entry he).imp_left (hpq _)⟩

theorem keeps_empty (name : String) (remembers : Bool) : Keeps p (empty name remembers) :=
  ⟨List.forall_mem_nil _, List.forall_mem_nil _⟩

theorem Keeps.withMethod (h : f.Keeps p) {m : Method ι} (hm : p m) : (f.withMethod m).Keeps p :=
  ⟨forall_mem_insertMethod hm h.methods, List.forall_mem_nil _⟩

theorem takes_of_choose {name : String} {methods : List (Method ι)} (h : ∀ m ∈ methods, p m)
    (hr : (choose name methods args arena).1 = .ok r) : Takes p args r := by
  by_cases hne : applicable arena args 0 methods = []
  · rw [choose_of_nil name hne] at hr
    cases hr
  · rw [choose_of_ne_nil name hne] at hr
    dsimp only [decision] at hr
    split at hr
    · next c hc =>
      cases hr
      obtain ⟨hm, hb⟩ := mem_candidates (List.mem_of_find?_eq_some hc)
      exact ⟨h _ (List.mem_of_getElem? hm), TypeArena.length_of_matchAll hb⟩
    · cases hr

/-- What a call resolves to is one of the methods, and takes the arguments. -/
theorem Keeps.resolve (h : f.Keeps p) (args : List TypeId) (arena : TypeArena) :
    (f.resolve args arena).function.Keeps p ∧
      ∀ r, (f.resolve args arena).result = .ok r → Takes p args r := by
  rcases f.resolve_cases args arena with ⟨-, r, hl, heq⟩ | ⟨-, heq⟩
  · rw [heq]
    refine ⟨h, fun r' hr' => ?_⟩
    cases hr'
    exact h.cache _ (Assoc.mem_of_lookup hl)
  · rw [heq, resolveAfresh_eq]
    dsimp only
    have htakes (r : Resolution ι) := @takes_of_choose ι p args arena r f.name f.methods h.methods
    refine ⟨?_, htakes⟩
    rcases hc : (choose f.name f.methods args arena).1 with e | r
    · exact h
    · rw [learn]
      split
      · exact ⟨h.methods, List.forall_mem_cons.mpr ⟨htakes r hc, h.cache⟩⟩
      · exact h

end GenericFunction

/-- Whether a method is built in. -/
def FunctionBody.isPrimitive : FunctionBody → Bool
  | .primitive _ => true
  | .declared .. => false

namespace Session

/-- The functions that are there at the beginning are built in, and remember nothing. -/
theorem functions_keep {p : Method FunctionBody → Prop}
    (h : ∀ m operation, m.implementation = .primitive operation → p m) (cache : Bool) :
    ∀ e ∈ Tables.build cache
      (Tables.functions.map fun e => ⟨e.name, e.typeVars, e.signature, FunctionBody.primitive e.body⟩),
      e.2.Keeps p := by
  have hbuiltin : ∀ e ∈ Tables.build cache
      (Tables.functions.map fun e => ⟨e.name, e.typeVars, e.signature, FunctionBody.primitive e.body⟩),
      e.2.cache.isEmpty = true ∧
        ∀ m ∈ e.2.methods, m.implementation.isPrimitive = true := by
    cases cache <;> decide
  intro e he
  obtain ⟨hcache, hmethods⟩ := hbuiltin e he
  refine ⟨fun m hm => ?_, ?_⟩
  · have hm := hmethods m hm
    cases heq : m.implementation with
    | primitive operation => exact h m operation heq
    | declared params body scope =>
      rw [heq] at hm
      cases hm
  · rw [List.isEmpty_iff.mp hcache]
    exact List.forall_mem_nil _

end Session

/-- A method is built in, or the watched names that its body reads are seen by the scope of its declaration or bound by
the parameters. -/
def Method.Closed (watched : String → Bool) (s : Session) (m : Method FunctionBody) : Prop :=
  match m.implementation with
  | .primitive _ => True
  | .declared params body outer => params.length = m.signature.length ∧
      ∃ visible, s.Sees outer visible ∧ Node.wellScoped watched (visible ++ params) body = true

theorem Method.Closed.later {watched : String → Bool} {s t : Session} {m : Method FunctionBody} (h : m.Closed watched s)
    (g : s.Precedes t) : m.Closed watched t := by
  rw [Closed] at h ⊢
  split
  · trivial
  · next hm =>
    rw [hm] at h
    obtain ⟨hlength, visible, hs, hbody⟩ := h
    exact ⟨hlength, visible, hs.later g, hbody⟩

/-! ## Sessions -/

namespace Session

variable {strategy : Strategy} {watched : String → Bool} {s t : Session}

/-- All functions of a session are closed, and an assignment binds a new name in its own scope. -/
structure Closed (strategy : Strategy) (watched : String → Bool) (s : Session) : Prop where
  assignment : s.options.assignment = .local
  scopes : s.scopes.All (Value.Closed strategy watched s)
  heap : s.heap.All (Value.Closed strategy watched s) fun _ => True
  functions : ∀ e ∈ s.functions, e.2.Keeps (Method.Closed watched s)

theorem Closed.later (h : s.Closed strategy watched) (g : s.Precedes t) :
    s.scopes.All (Value.Closed strategy watched t) ∧ s.heap.All (Value.Closed strategy watched t) (fun _ => True) ∧
      ∀ e ∈ s.functions, e.2.Keeps (Method.Closed watched t) :=
  ⟨h.scopes.mono fun _ hv => hv.later g, h.heap.mono (fun _ hv => hv.later g) fun _ => id,
    fun e he => (h.functions e he).mono fun _ hm => hm.later g⟩

end Session

end DispatchLang
