import DispatchLang.Proofs.Method.Choice
import Mathlib.Data.List.Find

/-!
# Functions on built-in types

The signatures of most built-in functions only mention types that every arena begins with. Such a signature
has no variables, so matching is subtyping, instantiating it changes nothing, and which method a call
resolves to depends on nothing but which of the built-in types are above the types of the arguments. In
particular it is the same in any two arenas that agree on that, and it may be remembered.

## Main results

* `choose_eq_of_plain`: a call resolves the same way in two arenas if the same signatures match.
* `GenericFunction.Faithful.resolve`: a function that remembers what it would choose goes on to do so, and
  always answers what it would choose.
-/

namespace DispatchLang

open TypeArena

variable {ι : Type} {arena arena' : TypeArena} {args args' : List TypeId} {methods : List (Method ι)}

/-- A method whose signature only mentions built-in types. -/
def Method.IsPlain (m : Method ι) : Prop := ∀ p ∈ m.signature, p < builtinTypes.length

/-- An arena whose index is right and that grew out of the initial one. -/
structure TypeArena.Grown (arena : TypeArena) : Prop where
  indexed : arena.Indexed
  extension : TypeArena.initial.Extends arena

namespace TypeArena.Grown

theorem initial : Grown .initial := ⟨.initial, .refl _⟩

variable (h : arena.Grown)
include h

theorem lt_size {p : TypeId} (hp : p < builtinTypes.length) : p < arena.size :=
  Nat.lt_of_lt_of_le hp h.indexed.builtin

theorem above?_eq_none {p : TypeId} (hp : p < builtinTypes.length) :
    (arena.get p).kind.above? = none := by
  rw [h.extension.get_eq hp]
  revert p
  decide

theorem kind_ne_var {p : TypeId} (hp : p < builtinTypes.length) (constraint : TypeId) :
    (arena.get p).kind ≠ .var constraint := by
  rw [h.extension.get_eq hp]
  have hparts : ∀ p < builtinTypes.length, (TypeArena.initial.get p).kind.parts = [] := by decide
  intro hk
  have hnil := hparts p hp
  rw [hk] at hnil
  cases hnil

theorem isSubtype_eq {child parent : TypeId} (hc : child < builtinTypes.length)
    (hp : parent < builtinTypes.length) :
    arena.isSubtype child parent = TypeArena.initial.isSubtype child parent :=
  h.extension.isSubtype_eq .initial h.indexed.toOrdered hc hp

/-! ## Matching is subtyping -/

theorem unify?_eq {bindings : Bindings} {p a : TypeId} (hp : p < builtinTypes.length) :
    arena.unify? bindings p a = if arena.isSubtype a p then some bindings else none := by
  have habove := h.above?_eq_none hp
  have hvar := h.kind_ne_var hp
  rw [unify?]
  cases hk : (arena.get p).kind with
  | var constraint => exact absurd hk (hvar constraint)
  | applied base args => rw [hk] at habove; cases habove
  | _ => rfl

theorem matchAll_unify?_eq {bindings : Bindings} {signature : List TypeId}
    (hs : ∀ p ∈ signature, p < builtinTypes.length) :
    matchAll arena.unify? bindings signature args =
      if arena.areSubtypes args signature then some bindings else none := by
  induction signature generalizing args with
  | nil => cases args <;> rfl
  | cons p signature ih =>
    cases args with
    | nil => rfl
    | cons a args =>
      rw [List.forall_mem_cons] at hs
      rw [matchAll, h.unify?_eq hs.1, areSubtypes]
      cases arena.isSubtype a p with
      | false => rfl
      | true => exact ih hs.2

theorem unifySignature?_eq {signature : List TypeId} (hs : ∀ p ∈ signature, p < builtinTypes.length) :
    arena.unifySignature? signature args =
      if arena.areSubtypes args signature then some [] else none := h.matchAll_unify?_eq hs

/-! ## Instantiating changes nothing -/

theorem substitute_eq {bindings : Bindings} {p : TypeId} (hp : p < builtinTypes.length) :
    arena.substitute bindings p = (p, arena) := by
  rw [substitute, substituteWithin_eq_standIn _ (h.above?_eq_none hp), standIn]
  split
  · rename_i hk
    exact absurd hk (h.kind_ne_var hp _)
  · rfl

theorem instances_eq {bindings : Bindings} {signature : List TypeId}
    (hs : ∀ p ∈ signature, p < builtinTypes.length) :
    instances bindings signature arena = (signature, arena) := by
  rw [instances]
  induction signature with
  | nil => rfl
  | cons p signature ih =>
    rw [List.forall_mem_cons] at hs
    rw [mapTypes_cons, h.substitute_eq hs.1, ih hs.2]

theorem instantiate_eq {rs : List (Resolution ι)} (hrs : ∀ r ∈ rs, r.method.IsPlain) :
    instantiate rs arena = (rs.map fun r => ⟨r, r.method.signature⟩, arena) := by
  induction rs with
  | nil => rfl
  | cons r rs ih =>
    rw [List.forall_mem_cons] at hrs
    rw [instantiate_cons, h.instances_eq hrs.1, ih hrs.2, List.map_cons]

end TypeArena.Grown

/-! ## Which method is chosen -/

theorem applicable_eq_of_plain (h : arena.Grown) (h' : arena'.Grown) (start : Nat)
    (hm : ∀ m ∈ methods, m.IsPlain)
    (hmatch : ∀ m ∈ methods, arena'.areSubtypes args' m.signature = arena.areSubtypes args m.signature) :
    applicable arena' args' start methods = applicable arena args start methods := by
  induction methods generalizing start with
  | nil => rfl
  | cons m ms ih =>
    rw [List.forall_mem_cons] at hm hmatch
    rw [applicable, applicable, h.unifySignature?_eq hm.1, h'.unifySignature?_eq hm.1, hmatch.1,
      ih (start + 1) hm.2 hmatch.2]

theorem areSubtypes_plain (h : arena.Grown) {children parents : List TypeId}
    (hc : ∀ x ∈ children, x < builtinTypes.length) (hp : ∀ x ∈ parents, x < builtinTypes.length) :
    arena.areSubtypes children parents = TypeArena.initial.areSubtypes children parents := by
  have heq := h.extension.embeds.areSubtypes_eq .initial h.indexed.toOrdered hc hp
  rw [List.map_id', List.map_id'] at heq
  exact heq

theorem dominates_plain (h : arena.Grown) {r r' : Resolution ι} (hr : r.method.IsPlain)
    (hr' : r'.method.IsPlain) :
    Candidate.dominates arena ⟨r, r.method.signature⟩ ⟨r', r'.method.signature⟩ =
      Candidate.dominates .initial ⟨r, r.method.signature⟩ ⟨r', r'.method.signature⟩ := by
  have hi := h.indexed.toOrdered
  rw [Candidate.dominates, Candidate.dominates, areSubtypes_plain h hr hr',
    areSubtypes_plain h hr' hr, h.extension.unifySignature?_eq .initial hi hr hr',
    h.extension.unifySignature?_eq .initial hi hr' hr]

theorem winner?_plain (h : arena.Grown) {rs : List (Resolution ι)}
    (hrs : ∀ r ∈ rs, r.method.IsPlain) :
    winner? arena (rs.map fun r => ⟨r, r.method.signature⟩) =
      winner? .initial (rs.map fun r => ⟨r, r.method.signature⟩) := by
  rw [winner?, winner?]
  refine List.find?_congr fun c hc => ?_
  obtain ⟨r, hr, rfl⟩ := List.mem_map.mp hc
  rw [List.all_map, List.all_map, Bool.eq_iff_iff, List.all_eq_true, List.all_eq_true]
  refine forall₂_congr fun r' hr' => ?_
  rw [Function.comp_apply, Function.comp_apply, dominates_plain h (hrs r hr) (hrs r' hr')]

/-- What a call in which these methods match resolves to. -/
def plainChoice (rs : List (Resolution ι)) : Option (Resolution ι) :=
  (winner? .initial (rs.map fun r => ⟨r, r.method.signature⟩)).map Candidate.toResolution

theorem choose_plain (h : arena.Grown) (hm : ∀ m ∈ methods, m.IsPlain) (name : String) :
    (choose name methods args arena).2 = arena ∧
      (choose name methods args arena).1.toOption =
        plainChoice (applicable arena args 0 methods) := by
  have hrs : ∀ r ∈ applicable arena args 0 methods, r.method.IsPlain := by
    intro r hr
    obtain ⟨i, -, hmem, -⟩ := mem_applicable.mp hr
    exact hm _ (List.mem_of_getElem? hmem)
  rw [choose]
  split
  · rename_i heq
    rw [heq]
    exact ⟨rfl, rfl⟩
  · rw [h.instantiate_eq hrs]
    dsimp only
    rw [plainChoice, winner?_plain h hrs]
    cases winner? .initial ((applicable arena args 0 methods).map fun r =>
        (⟨r, r.method.signature⟩ : Candidate ι)) <;> exact ⟨rfl, rfl⟩

/-- A call resolves the same way in two arenas if the same signatures match. -/
theorem choose_eq_of_plain (h : arena.Grown) (h' : arena'.Grown) (hm : ∀ m ∈ methods, m.IsPlain)
    (hmatch : ∀ m ∈ methods, arena'.areSubtypes args' m.signature = arena.areSubtypes args m.signature)
    (name name' : String) :
    (choose name' methods args' arena').1.toOption =
      (choose name methods args arena).1.toOption := by
  rw [(choose_plain h' hm name').2, (choose_plain h hm name).2,
    applicable_eq_of_plain h h' 0 hm hmatch]

/-! ## Remembering -/

namespace GenericFunction

variable {f : GenericFunction ι}

/-- A function that remembers only what it would choose. -/
def Faithful (f : GenericFunction ι) (arena : TypeArena) : Prop :=
  ∀ args r, f.cache.lookup args = some r → (∀ x ∈ args, x < arena.size) ∧
    (choose f.name f.methods args arena).1.toOption = some r

theorem areSubtypes_extends (h : arena.Indexed) (h' : arena'.Indexed) (he : arena.Extends arena')
    {children parents : List TypeId} (hc : ∀ x ∈ children, x < arena.size)
    (hp : ∀ x ∈ parents, x < arena.size) :
    arena'.areSubtypes children parents = arena.areSubtypes children parents := by
  have heq := he.embeds.areSubtypes_eq h.toOrdered h'.toOrdered hc hp
  rw [List.map_id', List.map_id'] at heq
  exact heq

theorem choose_extends (h : arena.Grown) (h' : arena'.Grown) (he : arena.Extends arena')
    (hm : ∀ m ∈ methods, m.IsPlain) (ha : ∀ x ∈ args, x < arena.size) (name : String) :
    (choose name methods args arena').1.toOption = (choose name methods args arena).1.toOption :=
  choose_eq_of_plain h h' hm (fun m hmem => areSubtypes_extends h.indexed h'.indexed he ha
    fun p hp => h.lt_size (hm m hmem p hp)) name name

namespace Faithful

theorem grown (hf : f.Faithful arena) (h : arena.Grown) (h' : arena'.Grown)
    (he : arena.Extends arena') (hm : ∀ m ∈ f.methods, m.IsPlain) : f.Faithful arena' := by
  intro args r hr
  obtain ⟨ha, hchoice⟩ := hf args r hr
  exact ⟨fun x hx => he.lt (ha x hx), (choose_extends h h' he hm ha f.name).trans hchoice⟩

/-- A faithful function answers what it would choose, adds no types and stays faithful. -/
theorem resolve (hf : f.Faithful arena) (h : arena.Grown) (hm : ∀ m ∈ f.methods, m.IsPlain)
    (ha : ∀ x ∈ args, x < arena.size) :
    (f.resolve args arena).result.toOption = (choose f.name f.methods args arena).1.toOption ∧
      (f.resolve args arena).arena = arena ∧
      (f.resolve args arena).function.methods = f.methods ∧
      (f.resolve args arena).function.Faithful arena := by
  have hafresh : ∀ before, (f.resolveAfresh args arena before).result.toOption =
        (choose f.name f.methods args arena).1.toOption ∧
      (f.resolveAfresh args arena before).arena = arena ∧
      (f.resolveAfresh args arena before).function.methods = f.methods ∧
      (f.resolveAfresh args arena before).function.Faithful arena := by
    intro before
    have harena : (choose f.name f.methods args arena).2 = arena := (choose_plain h hm f.name).1
    rw [resolveAfresh]
    rcases hout : choose f.name f.methods args arena with ⟨e | r, grown⟩
    · rw [hout] at harena
      exact ⟨rfl, harena, rfl, hf⟩
    · rw [hout] at harena
      refine ⟨rfl, harena, ?_, ?_⟩
      · dsimp only
        split <;> rfl
      · dsimp only
        split
        · intro args' r' hr'
          rw [List.lookup_cons] at hr'
          split at hr'
          · rename_i heq
            rw [beq_iff_eq.mp heq, ← Option.some.inj hr', hout]
            exact ⟨ha, rfl⟩
          · exact hf args' r' hr'
        · exact hf
  rw [GenericFunction.resolve]
  split
  · cases hcache : f.cache.lookup args with
    | none => exact hafresh _
    | some r => exact ⟨(hf args r hcache).2.symm, rfl, rfl, hf⟩
  · exact hafresh _

end Faithful

end GenericFunction

end DispatchLang
