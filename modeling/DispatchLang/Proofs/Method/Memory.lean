import DispatchLang.Proofs.Method.Choice
import Mathlib.Data.List.Find

/-!
# What generic functions remember

A function remembers what a call resolved to, while the arena goes on growing and new functions are made
from old ones. `choose_again` is why nobody can tell: resolving a call again, in whatever the arena has
become since, chooses the same method and adds no type. So what a function remembers is right as long as it
was resolved on it, or on the function it is a copy of.

## Histories

A `Workshop` is an arena with the functions made so far, each with the list of calls that it should remember.
The list is kept by the history alone, by the rule one would tell a user: a new function should remember
nothing, a copy what the original should, and a function any call that resolved on it. `Workshop.Step` lists
what can happen in a workshop. What every step preserves is `Workshop.Sound`: a function that remembers
anything remembers exactly what it should, and resolving any of that again gives what is remembered.

## Main results

* `CallIn.choose_again`: a call may be resolved again.
* `GenericFunction.Recalls.resolve`: what resolving a call does, whether it is remembered or not.
* `Workshop.Reached.sound`: in every history each function remembers what it should.
* `Workshop.memory_unobservable`: memory only shows in the events.
-/

namespace DispatchLang

open TypeArena

variable {ι : Type} {arena later : TypeArena} {args : List TypeId} {methods : List (Method ι)}

/-! ## Resolving a call again -/

theorem applicable_eq (he : arena.Extends later) (hi : arena.Ordered) (hl : later.Ordered)
    (ha : ∀ x ∈ args, x < arena.size) (hm : ∀ m ∈ methods, m.In arena) (index : Nat) :
    applicable later args index methods = applicable arena args index methods := by
  induction methods generalizing index with
  | nil => rfl
  | cons m ms ih =>
    rw [List.forall_mem_cons] at hm
    rw [applicable, applicable, he.unifySignature?_eq hi hl hm.1 ha, ih hm.2]

theorem instantiate_again {rs : List (Resolution ι)} (hi : arena.Indexed)
    (hrs : ∀ r ∈ rs, r.method.In arena ∧ r.bindings.In arena)
    (he : (instantiate rs arena).2.Extends later) (hl : later.Indexed) :
    instantiate rs later = ((instantiate rs arena).1, later) := by
  induction rs generalizing arena with
  | nil => rfl
  | cons r rs ih =>
    obtain ⟨hr, hrs⟩ := List.forall_mem_cons.mp hrs
    have hgrow := instances_grows hi hr.2 hr.1
    have hrs' : ∀ r' ∈ rs, r'.method.In (instances r.bindings r.method.signature arena).2 ∧
        r'.bindings.In (instances r.bindings r.method.signature arena).2 := fun r' hmem =>
      ⟨fun x hx => hgrow.extension.lt ((hrs r' hmem).1 x hx), (hrs r' hmem).2.grown hgrow.extension⟩
    rw [instantiate_cons] at he
    have hext := (instantiate_grows hgrow.indexed hrs').1
    have hfirst := instances_again hi hr.2 hr.1 (hext.trans he) hl
    have hrest := ih hgrow.indexed hrs' he
    rw [instantiate_cons, instantiate_cons, hfirst, hrest]

def CandidatesIn (cs : List (Candidate ι)) (arena : TypeArena) : Prop :=
  ∀ c ∈ cs, c.method.In arena ∧ ∀ x ∈ c.inst, x < arena.size

theorem instantiate_in {rs : List (Resolution ι)} (hi : arena.Indexed)
    (hrs : ∀ r ∈ rs, r.method.In arena ∧ r.bindings.In arena) :
    CandidatesIn (instantiate rs arena).1 (instantiate rs arena).2 := by
  intro c hc
  obtain ⟨hext, hindexed⟩ := instantiate_grows hi hrs
  obtain ⟨hm, hb⟩ := hrs _ (toResolution_mem hc)
  have hin : c.method.In (instantiate rs arena).2 := fun x hx => hext.lt (hm x hx)
  have hgrow := instances_grows hindexed (hb.grown hext) hin
  rw [instances_of_mem_instantiate hi hrs c hc] at hgrow
  exact ⟨hin, hgrow.lt⟩

theorem areSubtypes_eq (he : arena.Extends later) (hi : arena.Ordered) (hl : later.Ordered)
    {children parents : List TypeId} (hc : ∀ x ∈ children, x < arena.size)
    (hp : ∀ x ∈ parents, x < arena.size) :
    later.areSubtypes children parents = arena.areSubtypes children parents := by
  have h := he.embeds.areSubtypes_eq hi hl hc hp
  rwa [List.map_id', List.map_id'] at h

theorem dominates_eq {c d : Candidate ι} (he : arena.Extends later) (hi : arena.Ordered)
    (hl : later.Ordered) (hc : c.method.In arena ∧ ∀ x ∈ c.inst, x < arena.size)
    (hd : d.method.In arena ∧ ∀ x ∈ d.inst, x < arena.size) :
    c.dominates later d = c.dominates arena d := by
  rw [Candidate.dominates, Candidate.dominates, areSubtypes_eq he hi hl hc.2 hd.2,
    areSubtypes_eq he hi hl hd.2 hc.2, he.unifySignature?_eq hi hl hd.1 hc.1,
    he.unifySignature?_eq hi hl hc.1 hd.1]

theorem all_congr_of_mem {α : Type} {l : List α} {p q : α → Bool} (h : ∀ x ∈ l, p x = q x) :
    l.all p = l.all q := by
  rw [Bool.eq_iff_iff, List.all_eq_true, List.all_eq_true]
  exact forall₂_congr fun x hx => by rw [h x hx]

theorem winner?_eq {cs : List (Candidate ι)} (he : arena.Extends later) (hi : arena.Ordered)
    (hl : later.Ordered) (hc : CandidatesIn cs arena) : winner? later cs = winner? arena cs :=
  List.find?_congr fun c hmem => all_congr_of_mem fun d hmem' => by
    rw [dominates_eq he hi hl (hc c hmem) (hc d hmem')]

theorem undominated_eq {cs : List (Candidate ι)} (he : arena.Extends later) (hi : arena.Ordered)
    (hl : later.Ordered) (hc : CandidatesIn cs arena) :
    undominated later cs = undominated arena cs := by
  have hbest : (cs.filter fun c => cs.all fun other => !other.dominates later c) =
      cs.filter fun c => cs.all fun other => !other.dominates arena c :=
    List.filter_congr fun c hmem => all_congr_of_mem fun d hmem' => by
      rw [dominates_eq he hi hl (hc d hmem') (hc c hmem)]
  rw [undominated, undominated, hbest]

theorem mem_of_mem_undominated {cs : List (Candidate ι)} {c : Candidate ι}
    (hc : c ∈ undominated arena cs) : c ∈ cs := by
  rw [undominated] at hc
  split at hc
  · exact hc
  · exact List.mem_of_mem_filter hc

/-- The decision of a call with matching methods, given its candidates. -/
def decision (name : String) (args : List TypeId) (cs : List (Candidate ι)) (arena : TypeArena) :
    Except DispatchError (Resolution ι) :=
  match winner? arena cs with
  | some c => .ok c.toResolution
  | none => .error (.ambiguous name (arena.names args)
      ((undominated arena cs).map fun c => c.method.shown arena))

theorem choose_of_ne_nil (name : String) (hne : applicable arena args 0 methods ≠ []) :
    choose name methods args arena =
      (decision name args (candidates arena args methods).1 (candidates arena args methods).2,
        (candidates arena args methods).2) := by
  rw [choose, decision]
  cases hrs : applicable arena args 0 methods with
  | nil => exact absurd hrs hne
  | cons r rs =>
    dsimp only
    rw [← hrs, ← candidates]
    cases winner? (candidates arena args methods).2 (candidates arena args methods).1 <;> rfl

theorem choose_of_nil (name : String) (h : applicable arena args 0 methods = []) :
    choose name methods args arena = (.error (.noMethod name (arena.names args)), arena) := by
  rw [choose, h]

theorem decision_eq (name : String) {cs : List (Candidate ι)} (he : arena.Extends later)
    (hi : arena.Ordered) (hl : later.Ordered) (ha : ∀ x ∈ args, x < arena.size)
    (hc : CandidatesIn cs arena) : decision name args cs later = decision name args cs arena := by
  have hshown : (undominated arena cs).map (fun c => c.method.shown later) =
      (undominated arena cs).map fun c => c.method.shown arena :=
    List.map_congr_left fun c hmem => by
      rw [Method.shown, Method.shown, he.names_eq (hc c (mem_of_mem_undominated hmem)).1]
  rw [decision, decision, winner?_eq he hi hl hc, undominated_eq he hi hl hc, he.names_eq ha, hshown]

/-- What a call asks of the arena: its arguments and the types of the methods are there. -/
structure CallIn (arena : TypeArena) (args : List TypeId) (methods : List (Method ι)) : Prop where
  indexed : arena.Indexed
  args_lt : ∀ x ∈ args, x < arena.size
  methods_in : ∀ m ∈ methods, m.In arena

namespace CallIn

variable (h : CallIn arena args methods)
include h

theorem choose_grows (name : String) : arena.Extends (choose name methods args arena).2 ∧
    (choose name methods args arena).2.Indexed := by
  by_cases hne : applicable arena args 0 methods = []
  · rw [choose_of_nil name hne]
    exact ⟨.refl _, h.indexed⟩
  · rw [choose_of_ne_nil name hne]
    exact instantiate_grows h.indexed (matching_in h.indexed.toOrdered h.args_lt h.methods_in)

/-- A call that is resolved again, in whatever the arena has become, decides the same and adds nothing. -/
theorem choose_again (name : String) (he : (choose name methods args arena).2.Extends later)
    (hl : later.Indexed) :
    choose name methods args later = ((choose name methods args arena).1, later) := by
  obtain ⟨hext, hindexed⟩ := h.choose_grows name
  have hbase := hext.trans he
  have happ := applicable_eq hbase h.indexed.toOrdered hl.toOrdered h.args_lt h.methods_in 0
  by_cases hne : applicable arena args 0 methods = []
  · rw [choose_of_nil name hne, choose_of_nil name (happ.trans hne), hbase.names_eq h.args_lt]
  · rw [choose_of_ne_nil name hne] at he hext hindexed ⊢
    rw [choose_of_ne_nil name (happ.trans_ne hne)]
    have hin := matching_in h.indexed.toOrdered h.args_lt h.methods_in
    have hagain : candidates later args methods = ((candidates arena args methods).1, later) := by
      rw [candidates, happ]
      exact instantiate_again h.indexed hin he hl
    rw [hagain]
    refine Prod.ext ?_ rfl
    exact decision_eq name he hindexed.toOrdered hl.toOrdered (fun x hx => hext.lt (h.args_lt x hx))
      (instantiate_in h.indexed hin)

end CallIn

/-! ## A function and what it remembers -/

namespace GenericFunction

variable {f : GenericFunction ι}

/-- A function with the methods of another one that remembers nothing. -/
def forgetful (f : GenericFunction ι) : GenericFunction ι := ⟨f.name, f.methods, [], false⟩

/-- What a function remembers is what its calls resolve to, and resolving them adds nothing. -/
structure Recalls (f : GenericFunction ι) (arena : TypeArena) : Prop where
  methods_in : ∀ m ∈ f.methods, m.In arena
  recalled : ∀ {args r}, f.cache.lookup args = some r →
    (∀ x ∈ args, x < arena.size) ∧ choose f.name f.methods args arena = (.ok r, arena)

theorem Recalls.grown (h : f.Recalls arena) (hi : arena.Indexed) (he : arena.Extends later)
    (hl : later.Indexed) : f.Recalls later := by
  refine ⟨fun m hm x hx => he.lt (h.methods_in m hm x hx), fun {args r} hr => ?_⟩
  obtain ⟨ha, heq⟩ := h.recalled hr
  have hcall : CallIn arena args f.methods := ⟨hi, ha, h.methods_in⟩
  have hext : (choose f.name f.methods args arena).2.Extends later := by rwa [heq]
  have hagain := hcall.choose_again f.name hext hl
  rw [heq] at hagain
  exact ⟨fun x hx => he.lt (ha x hx), hagain⟩

theorem recalls_of_cache_nil (hm : ∀ m ∈ f.methods, m.In arena) (hc : f.cache = []) :
    f.Recalls arena :=
  ⟨hm, fun {args r} hr => by rw [hc] at hr; cases hr⟩

theorem forall_mem_insertMethod {p : Method ι → Prop} {m : Method ι} (hm : p m)
    (hms : ∀ m' ∈ methods, p m') : ∀ m' ∈ insertMethod m methods, p m' := by
  induction methods with
  | nil => exact List.forall_mem_singleton.mpr hm
  | cons m' ms ih =>
    rw [List.forall_mem_cons] at hms
    rw [insertMethod]
    split
    · exact List.forall_mem_cons.mpr ⟨hm, hms.2⟩
    · exact List.forall_mem_cons.mpr ⟨hms.1, ih hms.2⟩

/-- What can be observed of a call that is resolved, apart from looking for it in the memory. -/
def resolvedEvents (name : String) (args : List TypeId) :
    Except DispatchError (Resolution ι) → List DispatchEvent
  | .ok r => [.resolved name args r.index]
  | .error _ => []

/-- What a function remembers after a call: a call that was chosen a method, if it remembers calls. -/
def learn (f : GenericFunction ι) (args : List TypeId) :
    Except DispatchError (Resolution ι) → GenericFunction ι
  | .ok r => if f.remembers then { f with cache := (args, r) :: f.cache } else f
  | .error _ => f

theorem lookup_learn {result : Except DispatchError (Resolution ι)} {key : List TypeId}
    {r : Resolution ι} (h : (f.learn args result).cache.lookup key = some r) :
    f.cache.lookup key = some r ∨ key = args ∧ result = .ok r := by
  cases result with
  | error e => exact .inl h
  | ok r' =>
    rw [learn] at h
    split at h
    · rw [List.lookup_cons] at h
      by_cases hk : key = args
      · rw [hk, beq_self_eq_true] at h
        exact .inr ⟨hk, congrArg Except.ok (Option.some.inj h)⟩
      · rw [beq_eq_false_iff_ne.mpr hk] at h
        exact .inl h
    · exact .inl h

theorem isSome_lookup_learn (hr : f.remembers = true) (result : Except DispatchError (Resolution ι))
    (key : List TypeId) : ((f.learn args result).cache.lookup key).isSome ↔
      (f.cache.lookup key).isSome ∨ key = args ∧ result.isOk = true := by
  cases result with
  | error e => simp [learn, Except.isOk, Except.toBool]
  | ok r =>
    rw [learn, if_pos hr, List.lookup_cons]
    by_cases hk : key = args
    · simp [hk, Except.isOk, Except.toBool]
    · rw [beq_eq_false_iff_ne.mpr hk, or_iff_left fun h => hk h.1]

theorem learn_same (f : GenericFunction ι) (args : List TypeId)
    (result : Except DispatchError (Resolution ι)) :
    (f.learn args result).name = f.name ∧ (f.learn args result).methods = f.methods ∧
      (f.learn args result).remembers = f.remembers := by
  cases result with
  | error e => exact ⟨rfl, rfl, rfl⟩
  | ok r =>
    rw [learn]
    split <;> exact ⟨rfl, rfl, rfl⟩

theorem resolveAfresh_eq (args : List TypeId) (arena : TypeArena) (before : List DispatchEvent) :
    f.resolveAfresh args arena before =
      ⟨(choose f.name f.methods args arena).1, f.learn args (choose f.name f.methods args arena).1,
        (choose f.name f.methods args arena).2,
        before ++ resolvedEvents f.name args (choose f.name f.methods args arena).1⟩ := by
  rw [resolveAfresh]
  rcases choose f.name f.methods args arena with ⟨e | r, grown⟩
  · rw [resolvedEvents, List.append_nil]
    rfl
  · dsimp only [learn, resolvedEvents]
    split <;> rfl

/-- Resolving a call: a call that is remembered is answered from memory, any other one is decided. -/
theorem resolve_cases (f : GenericFunction ι) (args : List TypeId) (arena : TypeArena) :
    (f.remembers = true ∧ ∃ r, f.cache.lookup args = some r ∧
      f.resolve args arena = ⟨.ok r, f, arena, [.hit f.name args]⟩) ∨
    (f.remembers = true → f.cache.lookup args = none) ∧
      f.resolve args arena = f.resolveAfresh args arena
        (if f.remembers then [.miss f.name args] else []) := by
  rw [resolve]
  cases hr : f.remembers with
  | false => exact .inr ⟨fun h => absurd h Bool.false_ne_true, rfl⟩
  | true =>
    cases hl : f.cache.lookup args with
    | some r => exact .inl ⟨rfl, r, rfl, rfl⟩
    | none => exact .inr ⟨fun _ => rfl, rfl⟩

/-- What can be observed of a call. -/
theorem resolve_events (f : GenericFunction ι) (args : List TypeId) (arena : TypeArena) :
    (f.resolve args arena).events =
      if f.remembers then
        if (f.cache.lookup args).isSome then [.hit f.name args]
        else .miss f.name args :: resolvedEvents f.name args (f.resolve args arena).result
      else resolvedEvents f.name args (f.resolve args arena).result := by
  rcases f.resolve_cases args arena with ⟨hr, r, hl, heq⟩ | ⟨hl, heq⟩
  · rw [heq, if_pos hr, hl]
    rfl
  · rw [heq, resolveAfresh_eq]
    cases hr : f.remembers with
    | false => rfl
    | true =>
      rw [hl hr]
      rfl

/-- Only what a function remembers changes when a call is resolved. -/
theorem resolve_same (f : GenericFunction ι) (args : List TypeId) (arena : TypeArena) :
    (f.resolve args arena).function.name = f.name ∧
      (f.resolve args arena).function.methods = f.methods ∧
      (f.resolve args arena).function.remembers = f.remembers := by
  rcases f.resolve_cases args arena with ⟨-, r, -, heq⟩ | ⟨-, heq⟩
  · rw [heq]
    exact ⟨rfl, rfl, rfl⟩
  · rw [heq, resolveAfresh_eq]
    exact f.learn_same args _

/-- After a call a function remembers what it did before, and the call if it was chosen a method. -/
theorem isSome_lookup_resolve (hr : f.remembers = true) (args key : List TypeId)
    (arena : TypeArena) : ((f.resolve args arena).function.cache.lookup key).isSome ↔
      (f.cache.lookup key).isSome ∨ key = args ∧ (f.resolve args arena).result.isOk = true := by
  rcases f.resolve_cases args arena with ⟨-, r, hl, heq⟩ | ⟨-, heq⟩
  · rw [heq, or_iff_left_of_imp]
    rintro ⟨rfl, -⟩
    rw [hl]
    rfl
  · rw [heq, resolveAfresh_eq]
    exact isSome_lookup_learn hr _ key

namespace Recalls

variable (h : f.Recalls arena)
include h

/-- A call gives the method that its arguments decide, and the arena that deciding it leaves behind. -/
theorem resolve_eq_choose (args : List TypeId) :
    (f.resolve args arena).result = (choose f.name f.methods args arena).1 ∧
      (f.resolve args arena).arena = (choose f.name f.methods args arena).2 := by
  rcases f.resolve_cases args arena with ⟨-, r, hl, heq⟩ | ⟨-, heq⟩
  · rw [heq, (h.recalled hl).2]
    exact ⟨rfl, rfl⟩
  · rw [heq, resolveAfresh_eq]
    exact ⟨rfl, rfl⟩

/-- After a call, all that a function remembers is right in the arena that the call leaves behind. -/
theorem resolve (hi : arena.Indexed) {args : List TypeId} (ha : ∀ x ∈ args, x < arena.size) :
    (f.resolve args arena).function.Recalls (f.resolve args arena).arena := by
  have hcall : CallIn arena args f.methods := ⟨hi, ha, h.methods_in⟩
  obtain ⟨hext, hindexed⟩ := hcall.choose_grows f.name
  have hgrown := h.grown hi hext hindexed
  rcases f.resolve_cases args arena with ⟨-, r, -, heq⟩ | ⟨-, heq⟩
  · rw [heq]
    exact h
  · rw [heq, resolveAfresh_eq]
    obtain ⟨hname, hmethods, -⟩ := f.learn_same args (choose f.name f.methods args arena).1
    refine ⟨by rw [hmethods]; exact hgrown.methods_in, fun {key r} hl => ?_⟩
    rw [hname, hmethods]
    rcases lookup_learn hl with hl | ⟨rfl, hr⟩
    · exact hgrown.recalled hl
    · exact ⟨fun x hx => hext.lt (ha x hx),
        (hcall.choose_again f.name (.refl _) hindexed).trans (by rw [hr])⟩

end Recalls

end GenericFunction

/-! ## Histories -/

/-- One arena arises from another by adding a type, by interning one, or by substitution. -/
inductive TypeArena.GrowsTo (arena : TypeArena) : TypeArena → Prop where
  | add (d : TypeDef) (hd : ∀ x ∈ d.ids, x < arena.size) : GrowsTo arena (arena.add d).2
  | applied (base : TypeId) (args : List TypeId) (hb : base < arena.size)
      (ha : ∀ x ∈ args, x < arena.size) : GrowsTo arena (arena.applied base args).2
  | var (name : String) (constraint : TypeId) (hc : constraint < arena.size) :
      GrowsTo arena (arena.var name constraint).2
  | function (params : List TypeId) (result : TypeId) (hp : ∀ x ∈ params, x < arena.size)
      (hr : result < arena.size) : GrowsTo arena (arena.function params result).2
  | substitute (bindings : Bindings) (id : TypeId) (hb : bindings.In arena) (hid : id < arena.size) :
      GrowsTo arena (arena.substitute bindings id).2

theorem TypeArena.GrowsTo.extends {arena arena' : TypeArena} (h : arena.GrowsTo arena')
    (hi : arena.Indexed) : arena.Extends arena' ∧ arena'.Indexed := by
  cases h with
  | add d hd =>
    have hindex : ∀ k, (arena.add d).2.interned? k = arena.interned? k := fun k => by cases k <;> rfl
    exact ⟨.push rfl hindex, hi.push hd rfl hindex⟩
  | applied base args hb ha =>
    have hint := applied_interns arena base args
    refine ⟨hint.extension, hint.indexed hi ?_⟩
    rw [TypeKind.ids_applied]
    exact List.forall_mem_cons.mpr ⟨hb, ha⟩
  | var name constraint hc => exact ⟨.var arena name constraint, hi.var name hc⟩
  | function params result hp hr =>
    have hint := function_interns arena params result
    refine ⟨hint.extension, hint.indexed hi ?_⟩
    rw [TypeKind.ids_function]
    exact List.forall_mem_append.mpr ⟨hp, List.forall_mem_singleton.mpr hr⟩
  | substitute bindings id hb hid =>
    have hgrow := substitute_grows hi hb hid
    exact ⟨hgrow.extension, hgrow.indexed⟩

/-- An arena with the functions made so far, and for each function the calls it should remember. -/
structure Workshop (ι : Type) where
  arena : TypeArena
  functions : List (GenericFunction ι × List (List TypeId))

namespace Workshop

/-- The workshop that every history begins with. -/
def initial : Workshop ι := ⟨.initial, []⟩

def made (w : Workshop ι) (f : GenericFunction ι) (calls : List (List TypeId)) : Workshop ι :=
  ⟨w.arena, w.functions ++ [(f, calls)]⟩

/-- The workshop after a call of its function `i`. A call that was chosen a method should be remembered. -/
def called (w : Workshop ι) (i : Nat) (args : List TypeId) (calls : List (List TypeId))
    (out : Outcome ι) : Workshop ι :=
  ⟨out.arena, w.functions.set i (out.function, if out.result.isOk then args :: calls else calls)⟩

/-- What can happen in a workshop: its arena grows, a function without methods is made, a function is made
from another one by adding a method or by copying it, a call is resolved, and a call with an argument
without a type is refused. -/
inductive Step (w : Workshop ι) : Workshop ι → Prop where
  | grow {arena : TypeArena} (h : w.arena.GrowsTo arena) : Step w ⟨arena, w.functions⟩
  | create (name : String) (remembers : Bool) : Step w (w.made (.empty name remembers) [])
  | withMethod {i : Nat} {f : GenericFunction ι} {calls : List (List TypeId)}
      (hf : w.functions[i]? = some (f, calls)) (m : Method ι) (hm : m.In w.arena) :
      Step w (w.made (f.withMethod m) [])
  | clone {i : Nat} {f : GenericFunction ι} {calls : List (List TypeId)}
      (hf : w.functions[i]? = some (f, calls)) : Step w (w.made f calls)
  | resolve {i : Nat} {f : GenericFunction ι} {calls : List (List TypeId)}
      (hf : w.functions[i]? = some (f, calls)) (args : List TypeId)
      (ha : ∀ x ∈ args, x < w.arena.size) :
      Step w (w.called i args calls (f.resolve args w.arena))
  | dispatch {i : Nat} {f : GenericFunction ι} {calls : List (List TypeId)}
      (hf : w.functions[i]? = some (f, calls)) (args : List (Option TypeId)) {tags : List TypeId}
      (ht : f.tags 0 args = .ok tags) (ha : ∀ x ∈ tags, x < w.arena.size) :
      Step w (w.called i tags calls (f.dispatch args w.arena))
  | refuse {i : Nat} {f : GenericFunction ι} {calls : List (List TypeId)}
      (hf : w.functions[i]? = some (f, calls)) (args : List (Option TypeId)) {e : DispatchError}
      (ht : f.tags 0 args = .error e) :
      Step w ⟨(f.dispatch args w.arena).arena,
        w.functions.set i ((f.dispatch args w.arena).function, calls)⟩

/-- The workshops that some history leads to. -/
abbrev Reached (w : Workshop ι) : Prop := Relation.ReflTransGen Step initial w

/-- Every function of a workshop remembers what it should, if it remembers anything, and all of it is
right. -/
structure Sound (w : Workshop ι) : Prop where
  indexed : w.arena.Indexed
  recalls : ∀ entry ∈ w.functions, entry.1.Recalls w.arena
  remembered : ∀ entry ∈ w.functions, entry.1.remembers = true →
    ∀ args, (entry.1.cache.lookup args).isSome ↔ args ∈ entry.2

variable {w w' : Workshop ι} {i : Nat} {f : GenericFunction ι} {calls : List (List TypeId)}

theorem Sound.initial : Sound (initial : Workshop ι) := ⟨.initial, nofun, nofun⟩

theorem Sound.grown (h : w.Sound) (he : w.arena.Extends later) (hl : later.Indexed) :
    Sound ⟨later, w.functions⟩ :=
  ⟨hl, fun entry hmem => (h.recalls entry hmem).grown h.indexed he hl, h.remembered⟩

theorem Sound.made (h : w.Sound) (hf : f.Recalls w.arena)
    (hc : f.remembers = true → ∀ args, (f.cache.lookup args).isSome ↔ args ∈ calls) :
    (w.made f calls).Sound :=
  ⟨h.indexed, List.forall_mem_append.mpr ⟨h.recalls, List.forall_mem_singleton.mpr hf⟩,
    List.forall_mem_append.mpr ⟨h.remembered, List.forall_mem_singleton.mpr hc⟩⟩

/-- A call of one function leaves all others with what they remember. -/
theorem Sound.called (h : w.Sound) (hf : w.functions[i]? = some (f, calls)) {args : List TypeId}
    (ha : ∀ x ∈ args, x < w.arena.size) :
    (w.called i args calls (f.resolve args w.arena)).Sound := by
  have hmem := List.mem_of_getElem? hf
  have hrec := h.recalls _ hmem
  obtain ⟨hext, hindexed⟩ := CallIn.choose_grows ⟨h.indexed, ha, hrec.methods_in⟩ f.name
  rw [← (hrec.resolve_eq_choose args).2] at hext hindexed
  refine ⟨hindexed, fun entry hentry => ?_, fun entry hentry hr key => ?_⟩
  · rcases List.mem_or_eq_of_mem_set hentry with hold | rfl
    · exact (h.recalls entry hold).grown h.indexed hext hindexed
    · exact hrec.resolve h.indexed ha
  · rcases List.mem_or_eq_of_mem_set hentry with hold | rfl
    · exact h.remembered entry hold hr key
    · dsimp only at hr ⊢
      rw [(f.resolve_same args w.arena).2.2] at hr
      rw [GenericFunction.isSome_lookup_resolve hr, h.remembered _ hmem hr key]
      split
      · next hok => rw [List.mem_cons, or_comm, and_iff_left hok]
      · next hok => rw [or_iff_left fun h => hok h.2]

theorem dispatch_of_tags {args : List (Option TypeId)} {tags : List TypeId}
    (ht : f.tags 0 args = .ok tags) (arena : TypeArena) :
    f.dispatch args arena = f.resolve tags arena := by
  rw [GenericFunction.dispatch, ht]

theorem dispatch_of_error {args : List (Option TypeId)} {e : DispatchError}
    (ht : f.tags 0 args = .error e) (arena : TypeArena) :
    f.dispatch args arena = ⟨.error e, f, arena, []⟩ := by
  rw [GenericFunction.dispatch, ht]

theorem set_of_getElem? {α : Type} {l : List α} {x : α} (h : l[i]? = some x) : l.set i x = l := by
  obtain ⟨hlt, rfl⟩ := List.getElem?_eq_some_iff.mp h
  exact List.set_getElem_self hlt

/-- In every step each function goes on remembering what it should. -/
theorem Sound.step (h : w.Sound) (hs : w.Step w') : w'.Sound := by
  cases hs with
  | grow hg =>
    obtain ⟨hext, hindexed⟩ := hg.extends h.indexed
    exact h.grown hext hindexed
  | create name remembers =>
    exact h.made (GenericFunction.recalls_of_cache_nil nofun rfl) fun _ _ => by
      simp [GenericFunction.empty]
  | withMethod hf m hm =>
    have hin := (h.recalls _ (List.mem_of_getElem? hf)).methods_in
    exact h.made (GenericFunction.recalls_of_cache_nil
      (GenericFunction.forall_mem_insertMethod hm hin) rfl) fun _ _ => by
        simp [GenericFunction.withMethod]
  | clone hf =>
    have hmem := List.mem_of_getElem? hf
    exact h.made (h.recalls _ hmem) (h.remembered _ hmem)
  | resolve hf args ha => exact h.called hf ha
  | dispatch hf args ht ha =>
    rw [dispatch_of_tags ht]
    exact h.called hf ha
  | refuse hf args ht =>
    rw [dispatch_of_error ht, set_of_getElem? hf]
    exact h

theorem Reached.sound (h : w.Reached) : w.Sound := by
  induction h with
  | refl => exact .initial
  | tail _ hs ih => exact ih.step hs

/-- Two functions that differ in nothing but what they remember. -/
structure SameMethods (f f' : GenericFunction ι) : Prop where
  name : f'.name = f.name
  methods : f'.methods = f.methods
  remembers : f'.remembers = f.remembers

theorem SameMethods.tags_eq {f' : GenericFunction ι} (h : SameMethods f f') (position : Nat)
    (args : List (Option TypeId)) : f'.tags position args = f.forgetful.tags position args := by
  induction args generalizing position with
  | nil => rfl
  | cons arg args ih =>
    cases arg with
    | none => rw [GenericFunction.tags, GenericFunction.tags, h.name, GenericFunction.forgetful]
    | some tag => rw [GenericFunction.tags, GenericFunction.tags, ih]

theorem functions_made (hf : w.functions[i]? = some (f, calls)) (g : GenericFunction ι)
    (calls' : List (List TypeId)) : (w.made g calls').functions[i]? = some (f, calls) := by
  rw [made, List.getElem?_append_left (List.getElem?_eq_some_iff.mp hf).1, hf]

theorem functions_called (hf : w.functions[i]? = some (f, calls)) {j : Nat} {g : GenericFunction ι}
    {calls' : List (List TypeId)} (hg : w.functions[j]? = some (g, calls')) (args : List TypeId) :
    ∃ f' calls'', (w.called j args calls' (g.resolve args w.arena)).functions[i]? =
      some (f', calls'') ∧ SameMethods f f' := by
  rw [called, List.getElem?_set]
  by_cases hij : j = i
  · rw [hij, hf] at hg
    cases hg
    obtain ⟨hname, hmethods, hremembers⟩ := f.resolve_same args w.arena
    rw [if_pos hij, if_pos (hij ▸ (List.getElem?_eq_some_iff.mp hf).1)]
    exact ⟨_, _, rfl, hname, hmethods, hremembers⟩
  · rw [if_neg hij]
    exact ⟨f, calls, hf, rfl, rfl, rfl⟩

theorem Step.same (hs : w.Step w') (hf : w.functions[i]? = some (f, calls)) :
    ∃ f' calls', w'.functions[i]? = some (f', calls') ∧ SameMethods f f' := by
  cases hs with
  | grow _ => exact ⟨f, calls, hf, rfl, rfl, rfl⟩
  | create name remembers => exact ⟨f, calls, functions_made hf _ _, rfl, rfl, rfl⟩
  | withMethod _ m _ => exact ⟨f, calls, functions_made hf _ _, rfl, rfl, rfl⟩
  | clone _ => exact ⟨f, calls, functions_made hf _ _, rfl, rfl, rfl⟩
  | resolve hg args _ => exact functions_called hf hg args
  | dispatch hg args ht _ =>
    rw [dispatch_of_tags ht]
    exact functions_called hf hg _
  | refuse hg args ht =>
    rw [dispatch_of_error ht, set_of_getElem? hg]
    exact ⟨f, calls, hf, rfl, rfl, rfl⟩

theorem same_of_steps (hs : Relation.ReflTransGen Step w w')
    (hf : w.functions[i]? = some (f, calls)) :
    ∃ f' calls', w'.functions[i]? = some (f', calls') ∧ SameMethods f f' := by
  induction hs with
  | refl => exact ⟨f, calls, hf, rfl, rfl, rfl⟩
  | tail _ hstep ih =>
    obtain ⟨g, calls', hg, hsame⟩ := ih
    obtain ⟨g', calls'', hg', hsame'⟩ := hstep.same hg
    exact ⟨g', calls'', hg', hsame'.name.trans hsame.name, hsame'.methods.trans hsame.methods,
      hsame'.remembers.trans hsame.remembers⟩

/-! ## What memory shows -/

/-- A function answers all calls, whatever has happened since it was made, as one with its methods that
remembers nothing would in the arena of that moment. If it remembers calls, it reports a hit and nothing
else for a call that it should remember, and otherwise a miss and, if a method was chosen, which. -/
theorem memory_unobservable (hw : w.Reached) (hs : Relation.ReflTransGen Step w w')
    (hf : w.functions[i]? = some (f, calls)) :
    ∃ f' calls', w'.functions[i]? = some (f', calls') ∧
      (∀ args, (f'.resolve args w'.arena).result = (f.forgetful.resolve args w'.arena).result) ∧
      (∀ args, (f'.dispatch args w'.arena).result = (f.forgetful.dispatch args w'.arena).result) ∧
      (f.remembers = true → ∀ args, (f'.resolve args w'.arena).events =
        if args ∈ calls' then [.hit f.name args]
        else .miss f.name args ::
          GenericFunction.resolvedEvents f.name args (f'.resolve args w'.arena).result) := by
  obtain ⟨f', calls', hf', hsame⟩ := same_of_steps hs hf
  have hsound : w'.Sound := Reached.sound (hw.trans hs)
  have hmem := List.mem_of_getElem? hf'
  have hresult : ∀ args, (f'.resolve args w'.arena).result =
      (f.forgetful.resolve args w'.arena).result := by
    intro args
    rw [((hsound.recalls _ hmem).resolve_eq_choose args).1,
      GenericFunction.resolve_result (.inl rfl), hsame.name, hsame.methods]
    rfl
  refine ⟨f', calls', hf', hresult, fun args => ?_, fun hr args => ?_⟩
  · rw [GenericFunction.dispatch, GenericFunction.dispatch, hsame.tags_eq]
    cases f.forgetful.tags 0 args with
    | error e => rfl
    | ok tags => exact hresult tags
  · have hr' : f'.remembers = true := hsame.remembers.trans hr
    have hiff := hsound.remembered _ hmem hr' args
    rw [GenericFunction.resolve_events, if_pos hr', hsame.name]
    exact if_congr hiff rfl rfl

def sizeOfNumber : GenericFunction String :=
  .withMethod (.empty "size" true) ⟨[], [TypeId.number], "number"⟩

/-- The workshop in which that function has been called with an integer. -/
def sizeCalled : Workshop String :=
  let w := (initial.made (.empty "size" true) []).made sizeOfNumber []
  w.called 1 [TypeId.int] [] (sizeOfNumber.resolve [TypeId.int] w.arena)

theorem sizeCalled_reached : sizeCalled.Reached := by
  have hin : Method.In (⟨[], [TypeId.number], "number"⟩ : Method String) TypeArena.initial := by
    unfold Method.In
    decide
  exact .tail (.tail (.tail .refl (.create "size" true)) (@Step.withMethod _ _ 0 _ [] rfl _ hin))
    (@Step.resolve _ _ 1 _ [] rfl [TypeId.int] (by decide))

/-- The function that has been called. -/
def sizeFunction : GenericFunction String := (sizeOfNumber.resolve [TypeId.int] .initial).function

theorem sizeCalled_function : sizeCalled.functions[1]? = some (sizeFunction, [[TypeId.int]]) := by
  have hok : (sizeOfNumber.resolve [TypeId.int] .initial).result.isOk = true := by decide
  have hset : sizeCalled.functions[1]? = some (sizeFunction,
      if (sizeOfNumber.resolve [TypeId.int] .initial).result.isOk then [[TypeId.int]] else []) := rfl
  rw [hset, if_pos hok]

/-- A copy of the function that is made after the call remembers it. -/
theorem sizeCopy_hits :
    (sizeCalled.made sizeFunction [[TypeId.int]]).Reached ∧
      (sizeCalled.made sizeFunction [[TypeId.int]]).functions[2]? =
        some (sizeFunction, [[TypeId.int]]) ∧
      (sizeFunction.resolve [TypeId.int] sizeCalled.arena).events = [.hit "size" [TypeId.int]] := by
  have hreached : (sizeCalled.made sizeFunction [[TypeId.int]]).Reached :=
    sizeCalled_reached.tail (.clone sizeCalled_function)
  have hcopy : (sizeCalled.made sizeFunction [[TypeId.int]]).functions[2]? =
      some (sizeFunction, [[TypeId.int]]) := rfl
  have hremembers : sizeFunction.remembers = true :=
    (sizeOfNumber.resolve_same [TypeId.int] .initial).2.2
  obtain ⟨f', calls', hf', -, -, hevents⟩ := memory_unobservable hreached .refl hcopy
  rw [hcopy] at hf'
  cases hf'
  have hname : sizeFunction.name = "size" := (sizeOfNumber.resolve_same [TypeId.int] .initial).1
  have hhit := hevents hremembers [TypeId.int]
  rw [if_pos (List.mem_singleton_self _), hname] at hhit
  exact ⟨hreached, hcopy, hhit⟩

end Workshop

end DispatchLang
