import DispatchLang.Eval.Tables
import DispatchLang.Proofs.Arena.Regular
import DispatchLang.Proofs.Eval.TypedValues
import DispatchLang.Proofs.Method.Memory

/-!
# What a session remembers of its calls

The *dispatcher* of a session is the part that only has to do with calls: the generic functions, with all
that they remember, whether new ones remember anything, and what has been observed. Two dispatchers are
alike if they have the same functions with the same methods (`Dispatcher.plain`). The question is what a
program can find out about the dispatcher, and there are two answers.

Most of what happens in a session never looks at the dispatcher. A computation is `Blind` if it does the
same for every dispatcher and leaves it as it is. This includes all that is done to declare a type, where
the arena changes in a way that calls must not see: a type is added before its fields are known, and
replaced once they are. For the session after a blind computation `base` says which arena has been extended,
and that may be an arena from before the type was added.

Calls do look at the dispatcher. Two computations are `Alike` if they give the same value or halt for the
same reason when they begin in sessions that differ in their dispatchers only, as long as these are alike
and all they remember is right; and they end in two such sessions again. Computations that are alike for every
other dispatcher are `Twins`, and a computation that is its own twin is `Transparent`.

All of this is said of sessions that are `Formed`: the arena is regular, the types that values mention are there,
and the built-in methods are the ones a session begins with.

## Main results

* `Blind.bind`, `Alike.bind`, `Twins.bind`: all kinds of computation may be sequenced.
* `Blind.transparent`: what is blind finds nothing out about the dispatcher.
-/

namespace DispatchLang

open TypeArena

/-! ## Dispatchers -/

namespace FunctionTable

variable {ι : Type} {table table' : FunctionTable ι}

def plain (table : FunctionTable ι) : FunctionTable ι := table.map fun e => (e.1, e.2.forgetful)

def Only (p : Method ι → Prop) (table : FunctionTable ι) : Prop := ∀ e ∈ table, ∀ m ∈ e.2.methods, p m

theorem Only.insert {p : Method ι → Prop} (h : Only p table) {name : String} {f : GenericFunction ι}
    (hf : ∀ m ∈ f.methods, p m) : Only p (Assoc.insert name f table) := by
  intro e he
  rcases ScopeTree.mem_insert he with heq | he
  · exact heq ▸ hf
  · exact h e he

theorem plain_lookup (table : FunctionTable ι) (name : String) :
    (plain table).lookup name = (table.lookup name).map GenericFunction.forgetful :=
  Assoc.lookup_map _ table name

theorem plain_cons (name : String) (f : GenericFunction ι) (table : FunctionTable ι) :
    plain ((name, f) :: table) = (name, f.forgetful) :: plain table := rfl

theorem plain_insert (table : FunctionTable ι) (name : String) (f : GenericFunction ι) :
    plain (Assoc.insert name f table) = Assoc.insert name f.forgetful (plain table) := by
  induction table with
  | nil => rfl
  | cons entry table ih =>
    obtain ⟨key, old⟩ := entry
    rw [Assoc.insert, plain_cons, Assoc.insert]
    split
    · rw [plain_cons]
    · rw [plain_cons, ih]

end FunctionTable

/-! ### Built-in methods -/

def Method.IsFrom {ι : Type} (entries : List (TableEntry ι)) (m : Method ι) : Prop :=
  ∃ e ∈ entries, e.signature = m.signature ∧ e.body = m.implementation

namespace Session

/-- The built-in functions, as methods that can be called by name. -/
def namedEntries : List (TableEntry FunctionBody) :=
  Tables.functions.map fun e => ⟨e.name, e.typeVars, e.signature, .primitive e.body⟩

end Session

/-- A method is a declared one, or one of the built-in functions. -/
def Method.IsNamed (m : Method FunctionBody) : Prop :=
  (∃ params body scope, m.implementation = .declared params body scope) ∨ m.IsFrom Session.namedEntries

/-- The part of a session that only has to do with calls. -/
structure Dispatcher where
  /-- Whether new generic functions remember resolutions. -/
  cache : Bool
  /-- The generic functions behind the operators. -/
  operators : FunctionTable Primitive
  /-- The generic functions that can be called by name. -/
  functions : FunctionTable FunctionBody
  /-- The generic functions behind the methods. -/
  methods : FunctionTable MethodBody
  /-- What has been observed, the latest first. -/
  events : List DispatchEvent

namespace Dispatcher

variable {d : Dispatcher} {arena later : TypeArena}

/-- The dispatcher with the same methods that remembers nothing and has observed nothing. -/
def plain (d : Dispatcher) : Dispatcher :=
  ⟨false, d.operators.plain, d.functions.plain, d.methods.plain, []⟩

/-- All that a dispatcher remembers is right. -/
structure Recalls (d : Dispatcher) (arena : TypeArena) : Prop where
  operators : d.operators.Recalls arena
  functions : d.functions.Recalls arena
  methods : d.methods.Recalls arena

theorem Recalls.grown (h : d.Recalls arena) (hi : arena.Indexed) (he : arena.Extends later)
    (hl : later.Indexed) : d.Recalls later :=
  ⟨h.operators.grown hi he hl, h.functions.grown hi he hl, h.methods.grown hi he hl⟩

/-- The built-in methods of a dispatcher are those that a session begins with. -/
structure Native (d : Dispatcher) : Prop where
  operators : d.operators.Only (Method.IsFrom Tables.operators)
  functions : d.functions.Only Method.IsNamed
  methods : d.methods.Only (Method.IsFrom (Tables.methods Session.freshElement Session.freshArray))

/-- The operators and the methods of a dispatcher are all that a session begins with, and no others. -/
structure Complete (d : Dispatcher) : Prop where
  operators : d.plain.operators = FunctionTable.plain (Tables.build false Tables.operators)
  methods : d.plain.methods = FunctionTable.plain
    (Tables.build false (Tables.methods Session.freshElement Session.freshArray))

end Dispatcher

/-! ## Sessions and their dispatchers -/

namespace Session

variable {t : Session} {base : TypeArena} {d d' : Dispatcher}

def dispatcher (t : Session) : Dispatcher :=
  ⟨t.options.cache, t.operators, t.functions, t.methods, t.events⟩

def equip (t : Session) (d : Dispatcher) : Session :=
  { t with
    options := ⟨t.options.assignment, d.cache⟩
    operators := d.operators
    functions := d.functions
    methods := d.methods
    events := d.events }

theorem equip_dispatcher (t : Session) : t.equip t.dispatcher = t := rfl

theorem dispatcher_equip (t : Session) (d : Dispatcher) : (t.equip d).dispatcher = d := rfl

theorem equip_equip (t : Session) (d d' : Dispatcher) : (t.equip d).equip d' = t.equip d' := rfl

/-- The arena is regular and extends a given one, and all types that values mention are there. -/
structure Formed (base : TypeArena) (t : Session) : Prop where
  regular : t.arena.Regular
  extension : base.Extends t.arena
  elements : t.arena.interned? (.applied .array [freshElement]) = some freshArray
  heap : t.heap.In t.arena.size
  arrays : t.heap.ArraysIn t.arena
  scopes : t.scopes.All (Value.In t.arena.size)

namespace Formed

theorem indexed (h : t.Formed base) : t.arena.Indexed := h.regular.canonical.toIndexed

theorem builtin (h : t.Formed base) : builtinTypes.length ≤ t.arena.size := h.indexed.builtin

theorem grown (h : t.Formed base) : t.arena.Grown := ⟨h.indexed, h.regular.extends_initial⟩

theorem rebase (h : t.Formed base) {earlier : TypeArena} (he : earlier.Extends base) :
    t.Formed earlier := { h with extension := he.trans h.extension }

theorem self (h : t.Formed base) : t.Formed t.arena := { h with extension := .refl _ }

theorem equip (h : t.Formed base) (d : Dispatcher) : (t.equip d).Formed base :=
  ⟨h.regular, h.extension, h.elements, h.heap, h.arrays, h.scopes⟩

/-- The arena may be replaced by a regular one that has at least as many types and knows all interned types. -/
theorem withArena (h : t.Formed base) {arena : TypeArena} (hr : arena.Regular) (he : base.Extends arena)
    (hn : t.arena.size ≤ arena.size)
    (hg : ∀ kind id, t.arena.interned? kind = some id → arena.interned? kind = some id) :
    ({ t with arena } : Session).Formed base :=
  ⟨hr, he, hg _ _ h.elements, h.heap.mono hn, h.arrays.mono hg, h.scopes.mono fun _ hv => hv.mono hn⟩

/-- The arena may grow. -/
theorem withExtension (h : t.Formed base) {arena : TypeArena} (hr : arena.Regular)
    (he : t.arena.Extends arena) : ({ t with arena } : Session).Formed base :=
  h.withArena hr (h.extension.trans he) he.size_le fun _ _ hk => he.interned?_eq h.indexed hk

end Formed

/-- A session and another dispatcher that could have been its own. -/
structure Like (t : Session) (d : Dispatcher) : Prop where
  formed : t.Formed t.arena
  native : t.dispatcher.Native
  complete : t.dispatcher.Complete
  own : t.dispatcher.Recalls t.arena
  other : d.Recalls t.arena
  plain : d.plain = t.dispatcher.plain

end Session

/-! ## Computations that do not look at the dispatcher -/

section

variable {α β : Type} {P : Claim α} {Q : Claim β} {t s : Session} {base : TypeArena}
  {d d' : Dispatcher}

def equipResult (d : Dispatcher) : EStateM.Result Halt Session α → EStateM.Result Halt Session α
  | .ok a s => .ok a (s.equip d)
  | .error halt s => .error halt (s.equip d)

/-- What the result of a computation that begins in `t` is required to be. -/
inductive Meets (base : TypeArena) (t : Session) (P : Claim α) :
    EStateM.Result Halt Session α → Prop where
  | given {a : α} {s : Session} (hf : s.Formed base) (hn : t.arena.size ≤ s.arena.size)
      (hp : P s a) : Meets base t P (.ok a s)
  | halted {halt : Halt} {s : Session} (hf : s.Formed base) : Meets base t P (.error halt s)

/-- A computation that does the same for every dispatcher and leaves it as it is. -/
def Blind (base : TypeArena) (t : Session) (x : Eval α) (P : Claim α) : Prop :=
  t.Formed base → Meets base t P (x t) ∧ ∀ d, x (t.equip d) = equipResult d (x t)

theorem Meets.after {r : EStateM.Result Halt Session α} (h : Meets base s P r)
    (hn : t.arena.size ≤ s.arena.size) : Meets base t P r := by
  cases h with
  | given hf hn' hp => exact .given hf (Nat.le_trans hn hn') hp
  | halted hf => exact .halted hf

namespace Blind

/-- A session may be assumed to be formed. -/
theorem ofFormed {x : Eval α} (h : t.Formed base → Blind base t x P) : Blind base t x P :=
  fun hf => h hf hf

theorem pure {a : α} (h : P t a) : Blind base t (Pure.pure a) P :=
  fun hf => ⟨.given hf (Nat.le_refl _) h, fun _ => rfl⟩

theorem throw (halt : Halt) : Blind base t (MonadExceptOf.throw halt : Eval α) P :=
  fun hf => ⟨.halted hf, fun _ => rfl⟩

theorem fail (fault : Fault) : Blind base t (Eval.fail fault : Eval α) P := throw _

theorem failAt (fault : Fault) (span : Span) : Blind base t (Eval.failAt fault span : Eval α) P :=
  throw _

/-- Blind computations may be sequenced. -/
theorem bind {x : Eval α} {f : α → Eval β} (h : Blind base t x P)
    (hf : ∀ a s, t.arena.size ≤ s.arena.size → P s a → Blind base s (f a) Q) :
    Blind base t (x >>= f) Q := by
  intro hformed
  obtain ⟨hm, heq⟩ := h hformed
  change Meets base t Q (EStateM.bind x f t) ∧
    ∀ d, EStateM.bind x f (t.equip d) = equipResult d (EStateM.bind x f t)
  simp only [EStateM.bind, heq]
  generalize x t = r at hm
  cases hm with
  | given hs hn hp =>
    obtain ⟨hm', heq'⟩ := hf _ _ hn hp hs
    exact ⟨hm'.after hn, heq'⟩
  | halted hs => exact ⟨.halted hs, fun _ => rfl⟩

theorem mono {x : Eval α} {P' : Claim α} (h : Blind base t x P)
    (hp : ∀ a s, s.Formed base → P s a → P' s a) : Blind base t x P' := by
  intro hformed
  obtain ⟨hm, heq⟩ := h hformed
  refine ⟨?_, heq⟩
  generalize x t = r at hm
  cases hm with
  | given hs hn h => exact .given hs hn (hp _ _ hs h)
  | halted hs => exact .halted hs

/-- A later base may be forgotten: what it says of the session is kept. -/
theorem rebase {x : Eval α} {later : TypeArena} (h : Blind later t x P) (ht : t.Formed later)
    (he : base.Extends later) : Blind base t x fun s a => s.Formed later ∧ P s a := by
  intro _
  obtain ⟨hm, heq⟩ := h ht
  refine ⟨?_, heq⟩
  generalize x t = r at hm
  cases hm with
  | given hs hn hp => exact .given (hs.rebase he) hn ⟨hs, hp⟩
  | halted hs => exact .halted (hs.rebase he)

/-- A computation may look at the session apart from the dispatcher. -/
theorem get {f : Session → Eval α} (h : ∀ d, f (t.equip d) = f t) (hb : Blind base t (f t) P) :
    Blind base t (MonadState.get >>= f) P := by
  intro hf
  obtain ⟨hm, heq⟩ := hb hf
  refine ⟨hm, fun d => ?_⟩
  change f (t.equip d) (t.equip d) = equipResult d (f t t)
  rw [h, heq]

theorem read (f : Session → α) (h : ∀ d, f (t.equip d) = f t) (hp : P t (f t)) :
    Blind base t (do return f (← MonadState.get)) P :=
  get (fun d => congrArg Pure.pure (h d)) (pure hp)

/-- A computation may change the session apart from the dispatcher. -/
theorem modifyGet {f : Session → α × Session}
    (h : ∀ d, f (t.equip d) = ((f t).1, (f t).2.equip d))
    (hf : t.Formed base → (f t).2.Formed base) (hn : t.arena.size ≤ (f t).2.arena.size)
    (hp : P (f t).2 (f t).1) : Blind base t (MonadStateOf.modifyGet f) P := by
  intro hformed
  refine ⟨.given (hf hformed) hn hp, fun d => ?_⟩
  change EStateM.Result.ok (f (t.equip d)).1 (f (t.equip d)).2 = _
  rw [h]
  rfl

end Blind

/-! ## Computations that do not find anything out about the dispatcher -/

/-- The outcomes of two computations that begin in `t` and in the same session with another dispatcher
differ in their dispatchers only, and these are alike again. The arena has grown. -/
inductive Matches (P : Claim α) (t : Session) :
    EStateM.Result Halt Session α → EStateM.Result Halt Session α → Prop where
  | given {a : α} {s : Session} {d : Dispatcher} (hl : s.Like d) (he : t.arena.Extends s.arena) (hp : P s a) :
      Matches P t (.ok a s) (.ok a (s.equip d))
  | halted {halt : Halt} {s : Session} {d : Dispatcher} (hl : s.Like d) (he : t.arena.Extends s.arena) :
      Matches P t (.error halt s) (.error halt (s.equip d))

def Alike (t : Session) (d : Dispatcher) (x y : Eval α) (P : Claim α) : Prop :=
  t.Like d → Matches P t (x t) (y (t.equip d))

/-- Two computations that do the same, whatever the dispatchers are. -/
abbrev Twins (t : Session) (x y : Eval α) (P : Claim α) : Prop := ∀ d, Alike t d x y P

/-- A computation that finds nothing out about the dispatcher. -/
abbrev Transparent (t : Session) (x : Eval α) (P : Claim α) : Prop := Twins t x x P

theorem Matches.after {r r' : EStateM.Result Halt Session α} (h : Matches P s r r')
    (he : t.arena.Extends s.arena) : Matches P t r r' := by
  cases h with
  | given hl he' hp => exact .given hl (he.trans he') hp
  | halted hl he' => exact .halted hl (he.trans he')

/-- What does not look at the dispatcher finds nothing out about it. -/
theorem Blind.transparent {x : Eval α} (h : Blind t.arena t x P) : Transparent t x P := by
  intro d hl
  obtain ⟨hm, heq⟩ := h hl.formed
  have hself := heq t.dispatcher
  rw [t.equip_dispatcher] at hself
  rw [heq]
  -- The dispatcher is still the one it was.
  have like : ∀ {s : Session}, s.Formed t.arena → s.equip t.dispatcher = s → s.Like d := by
    intro s hs hd
    have hkept : s.dispatcher = t.dispatcher := by rw [← hd, Session.dispatcher_equip]
    refine ⟨hs.self, ?_, ?_, ?_, ?_, ?_⟩
    · rw [hkept]
      exact hl.native
    · rw [hkept]
      exact hl.complete
    · rw [hkept]
      exact hl.own.grown hl.formed.indexed hs.extension hs.indexed
    · exact hl.other.grown hl.formed.indexed hs.extension hs.indexed
    · rw [hkept]
      exact hl.plain
  generalize x t = r at hm hself
  cases hm with
  | given hs hn hp =>
    rw [equipResult] at hself
    injection hself with _ hself
    exact .given (like hs hself.symm) hs.extension hp
  | halted hs =>
    rw [equipResult] at hself
    injection hself with _ hself
    exact .halted (like hs hself.symm) hs.extension

namespace Alike

theorem pure {a : α} (h : P t a) : Alike t d (Pure.pure a) (Pure.pure a) P :=
  fun hl => .given hl (.refl _) h

theorem throw (halt : Halt) :
    Alike t d (MonadExceptOf.throw halt : Eval α) (MonadExceptOf.throw halt) P :=
  fun hl => .halted hl (.refl _)

theorem fail (fault : Fault) : Alike t d (Eval.fail fault : Eval α) (Eval.fail fault) P := throw _

theorem failAt (fault : Fault) (span : Span) :
    Alike t d (Eval.failAt fault span : Eval α) (Eval.failAt fault span) P := throw _

/-- Computations that are alike may be sequenced. -/
theorem bind {x y : Eval α} {f g : α → Eval β} (h : Alike t d x y P)
    (hfg : ∀ a s d', t.arena.size ≤ s.arena.size → P s a → Alike s d' (f a) (g a) Q) :
    Alike t d (x >>= f) (y >>= g) Q := by
  intro hl
  have hxy := h hl
  change Matches Q t (EStateM.bind x f t) (EStateM.bind y g (t.equip d))
  rw [EStateM.bind, EStateM.bind]
  generalize x t = r, y (t.equip d) = r' at hxy
  cases hxy with
  | given hl' he hp => exact (hfg _ _ _ he.size_le hp hl').after he
  | halted hl' he => exact .halted hl' he

theorem located {x y : Eval α} (h : Alike t d x y P) (span : Span) :
    Alike t d (Eval.located span x) (Eval.located span y) P := by
  intro hl
  have hxy := h hl
  rw [Eval.located, Eval.located]
  generalize x t = r, y (t.equip d) = r' at hxy ⊢
  cases hxy with
  | given hl' he hp => exact .given hl' he hp
  | @halted halt s d' hl' he => cases halt <;> exact .halted hl' he

/-- Both may look at the session apart from the dispatcher. -/
theorem get {f g : Session → Eval α} (h : Alike t d (f t) (g (t.equip d)) P) :
    Alike t d (MonadState.get >>= f) (MonadState.get >>= g) P := h

end Alike

namespace Twins

theorem pure {a : α} (h : P t a) : Twins t (Pure.pure a) (Pure.pure a) P := fun _ => Alike.pure h

theorem fail (fault : Fault) : Twins t (Eval.fail fault : Eval α) (Eval.fail fault) P :=
  fun _ => Alike.fail fault

theorem failAt (fault : Fault) (span : Span) :
    Twins t (Eval.failAt fault span : Eval α) (Eval.failAt fault span) P :=
  fun _ => Alike.failAt fault span

theorem bind {x y : Eval α} {f g : α → Eval β} (h : Twins t x y P)
    (hfg : ∀ a s, t.arena.size ≤ s.arena.size → P s a → Twins s (f a) (g a) Q) :
    Twins t (x >>= f) (y >>= g) Q :=
  fun d => (h d).bind fun a s d' hn hp => hfg a s hn hp d'

theorem located {x y : Eval α} (h : Twins t x y P) (span : Span) :
    Twins t (Eval.located span x) (Eval.located span y) P := fun d => (h d).located span

/-- A session may be assumed to be formed. -/
theorem ofFormed {x y : Eval α} (h : t.Formed t.arena → Twins t x y P) : Twins t x y P :=
  fun d hl => h hl.formed d hl

theorem get {f g : Session → Eval α} (h : ∀ d, g (t.equip d) = g t) (hx : Twins t (f t) (g t) P) :
    Twins t (MonadState.get >>= f) (MonadState.get >>= g) P :=
  fun d => Alike.get (by rw [h]; exact hx d)

end Twins

end

end DispatchLang
