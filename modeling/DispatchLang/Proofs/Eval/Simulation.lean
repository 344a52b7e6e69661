import DispatchLang.Eval.Dispatch
import DispatchLang.Proofs.Arena.WellBuilt
import DispatchLang.Proofs.Eval.ArrayTypes
import DispatchLang.Proofs.Eval.Noting
import DispatchLang.Proofs.Method.Memory

/-!
# Two strategies side by side

A session of the direct strategy is a session of the dispatch strategy with less in it: the types of arrays
are missing from the heap, there are no types but the built-in ones, and all that is left of the generic
functions are the declarations they come from. So a session of the dispatch strategy determines the other
one (`Session.untyped`), and what has to be carried through a run is an invariant of the dispatch session
alone (`Session.Sound`).

`Agree t x y P` means that the computation `x` of the direct strategy and `y` of the dispatch strategy,
begun in these two sessions, agree: both give the same value, for which `P` holds, and end in two such
sessions again, or both fail. Where one of them nests too deeply nothing is said about the other, except
that what `y` gives is sound in any case: `y` may have to go on where `x` has given up. That makes the
relation closed under sequencing (`Agree.bind`).

## Main results

* `Agree.bind`: computations that agree may be sequenced.
* The rules for reading, binding names and storing values.
-/

namespace DispatchLang

open TypeArena

/-! ## Scopes that hold only certain values -/

namespace ScopeTree

variable {α : Type} {p : α → Prop} {t : ScopeTree α}

/-- All values that are bound in a tree of scopes have a property. -/
def All (p : α → Prop) (t : ScopeTree α) : Prop :=
  ∀ (i : Nat) (frame : Frame α), t.frames[i]? = some frame → ∀ b ∈ frame.vars, p b.2

theorem All.mono {q : α → Prop} (h : t.All p) (hpq : ∀ a, p a → q a) : t.All q :=
  fun i frame hi b hb => hpq _ (h i frame hi b hb)

theorem mem_insert {name : String} {value : α} {entries : List (String × α)} {e : String × α}
    (h : e ∈ Assoc.insert name value entries) : e.2 = value ∨ e ∈ entries :=
  (Assoc.eq_or_mem_of_mem_insert h).imp_left (congrArg Prod.snd)

theorem forall_mem_insert {q : α → Prop} {name : String} {value : α} {entries : List (String × α)}
    (hv : q value) (h : ∀ e ∈ entries, q e.2) : ∀ e ∈ Assoc.insert name value entries, q e.2 := by
  intro e he
  rcases mem_insert he with heq | he
  · exact heq ▸ hv
  · exact h e he

theorem All.define (h : t.All p) {s : ScopeId} {name : String} {value : α} (hv : p value) :
    (t.define s name value).All p := by
  intro i frame hi b hb
  rw [ScopeTree.define, Array.getElem?_modify] at hi
  split at hi
  · obtain ⟨old, hold, rfl⟩ := Option.map_eq_some_iff.mp hi
    rcases mem_insert hb with heq | hb
    · exact heq ▸ hv
    · exact h i old hold b hb
  · exact h i frame hi b hb

theorem All.assign (h : t.All p) {rule : AssignmentScope} {s : ScopeId} {name : String} {value : α}
    (hv : p value) : (t.assign rule s name value).All p := by
  cases rule <;> exact h.define hv

theorem All.child (h : t.All p) (parent : ScopeId) : (t.child parent).2.All p := by
  intro i frame hi b hb
  rw [ScopeTree.child, Array.getElem?_push] at hi
  split at hi
  · rw [← Option.some.inj hi] at hb
    cases hb
  · exact h i frame hi b hb

theorem All.get? (h : t.All p) {s : ScopeId} {name : String} {value : α}
    (hv : t.get? s name = some value) : p value := by
  obtain ⟨i, -, hl⟩ := List.exists_of_findSome?_eq_some hv
  rw [frame] at hl
  cases hi : t.frames[i]? with
  | none => rw [hi] at hl; cases hl
  | some frame =>
    rw [hi, Option.getD_some] at hl
    exact h i frame hi _ (Assoc.mem_of_lookup hl)

end ScopeTree

/-! ## Heaps that grow -/

/-- The arrays of one heap are in another one, marked as they were. -/
def Heap.KeptIn (heap heap' : Heap) : Prop :=
  ∀ (address : Nat) (items : Array Value) (type : TypeId), heap.cells[address]? = some (.array items type) →
    ∃ items', heap'.cells[address]? = some (.array items' type)

namespace Heap.KeptIn

variable {heap heap' heap'' : Heap}

theorem refl (heap : Heap) : heap.KeptIn heap := fun _ items _ h => ⟨items, h⟩

theorem trans (h : heap.KeptIn heap') (h' : heap'.KeptIn heap'') : heap.KeptIn heap'' := by
  intro address items type hc
  obtain ⟨items', hc'⟩ := h address items type hc
  exact h' address items' type hc'

theorem alloc (heap : Heap) (new : Cell) : heap.KeptIn (heap.alloc new).2 := by
  intro address items type h
  obtain ⟨hlt, -⟩ := Array.getElem?_eq_some_iff.mp h
  refine ⟨items, ?_⟩
  rw [Heap.alloc, Array.getElem?_push_lt hlt, ← Array.getElem?_eq_getElem hlt, h]

end Heap.KeptIn

theorem Value.Basic.mono {D : Dialect} {heap heap' : Heap} {value : Value} (h : value.Basic D heap)
    (hc : heap.KeptIn heap') : value.Basic D heap' := by
  cases value with
  | array address =>
    obtain ⟨items, type, ha⟩ := h
    obtain ⟨items', ha'⟩ := hc address items type ha
    exact ⟨items', type, ha'⟩
  | _ => exact h

/-! ## Sound sessions -/

def operatorTable : List (String × List (Method Primitive)) :=
  (Tables.build true Tables.operators).map fun e => (e.1, e.2.methods)

def functionTable : List (String × List (Method FunctionBody)) :=
  (Tables.build true
    (Tables.functions.map fun e => ⟨e.name, e.typeVars, e.signature, FunctionBody.primitive e.body⟩)).map
      fun e => (e.1, e.2.methods)

def Serves {ι : Type} (arena : TypeArena) (table : List (String × List (Method ι)))
    (functions : List (String × GenericFunction ι)) : Prop :=
  ∀ name methods, table.lookup name = some methods →
    ∃ f, functions.lookup name = some f ∧ f.methods = methods ∧ f.Faithful arena

namespace FunctionTable

variable {ι : Type} {table : FunctionTable ι} {arena later : TypeArena}

def Recalls (table : FunctionTable ι) (arena : TypeArena) : Prop := ∀ e ∈ table, e.2.Recalls arena

theorem Recalls.grown (h : Recalls table arena) (hi : arena.Indexed) (he : arena.Extends later)
    (hl : later.Indexed) : Recalls table later := fun e hmem => (h e hmem).grown hi he hl

theorem Recalls.insert (h : Recalls table arena) {name : String} {f : GenericFunction ι}
    (hf : f.Recalls arena) : Recalls (Assoc.insert name f table) arena := by
  intro e he
  rcases ScopeTree.mem_insert he with heq | he
  · exact heq ▸ hf
  · exact h e he

end FunctionTable

namespace Session

/-- The type that the elements of arrays have in the signatures of built-in methods. -/
def freshElement : TypeId := (TypeArena.initial.var "T" .any).1

def freshArray : TypeId := ((TypeArena.initial.var "T" .any).2.arrayOf freshElement).1

def freshArena : TypeArena := ((TypeArena.initial.var "T" .any).2.arrayOf freshElement).2

end Session

/-- The built-in methods, by name. -/
def methodTable : List (String × List (Method MethodBody)) :=
  (Tables.build true (Tables.methods Session.freshElement Session.freshArray)).map fun e => (e.1, e.2.methods)

/-- Generic functions that have the built-in methods and remember only what is right, in an arena that knows the types
in their signatures. -/
structure ServesMethods (arena : TypeArena) (functions : FunctionTable MethodBody) : Prop where
  extension : Session.freshArena.Extends arena
  listed : (functions.map fun e => (e.1, e.2.methods)) = methodTable
  recalls : functions.Recalls arena

/-- An arena to which only applied types and type variables have been added. -/
structure TypeArena.Tidy (arena : TypeArena) : Prop where
  /-- It grew out of the initial one. -/
  grown : arena.Grown
  /-- The types of arrays are named after their elements. -/
  named : ArraysNamed arena
  /-- The type variables that are remembered are there. -/
  vars : arena.VarsIn

/-- A generic function that comes from a declaration in a dialect, and remembers only what it would choose. Its
parameters are not annotated. -/
def GenericFunction.IsDeclared (D : Dialect) (arena : TypeArena) (name : String)
    (f : GenericFunction FunctionBody) : Prop :=
  ∃ typeVars params body scope, D.Declares name params body ∧
    f.methods = [⟨typeVars, List.replicate params.length .any, .declared params body scope⟩] ∧
    f.Faithful arena

namespace Session

/-- The session of the direct strategy that a session of the dispatch strategy stands for. -/
def untyped (t : Session) : Session :=
  { t with
    heap := t.heap.untyped
    arena := .initial
    operators := []
    functions := FunctionTable.noted t.functions
    methods := []
    events := [] }

/-- The invariant of a session in which only programs of a dialect have run. -/
structure Sound (D : Dialect) (t : Session) : Prop where
  /-- The arena is tidy. -/
  tidy : t.arena.Tidy
  /-- The cells hold basic values, and arrays are marked with their types. -/
  heap : t.heap.Sound D t.arena
  /-- Names are bound to basic values. -/
  scopes : t.scopes.All (Value.Basic D t.heap)
  /-- The operators have their methods. -/
  operators : Serves t.arena operatorTable t.operators
  /-- The functions have their methods. -/
  functions : Serves t.arena functionTable t.functions
  /-- The methods are the built-in ones. -/
  methods : ServesMethods t.arena t.methods
  /-- No built-in function comes from a declaration. -/
  builtin : ∀ e ∈ t.functions, e.1 ∈ Direct.functionNames → e.2.declaration? = none
  /-- All other functions come from declarations. -/
  declared : ∀ e ∈ t.functions, e.1 ∉ Direct.functionNames → e.2.IsDeclared D t.arena e.1

theorem Sound.grown {D : Dialect} {t : Session} (hs : t.Sound D) : t.arena.Grown := hs.tidy.grown

theorem Sound.named {D : Dialect} {t : Session} (hs : t.Sound D) : ArraysNamed t.arena := hs.tidy.named

/-- One session has come out of another: arrays are marked as they were, and types that were there are as they were. -/
structure Grows (t t' : Session) : Prop where
  cells : t.heap.KeptIn t'.heap
  arena : t.arena.Extends t'.arena

theorem Grows.refl (t : Session) : t.Grows t := ⟨.refl _, .refl _⟩

theorem Grows.trans {t t' t'' : Session} (h : t.Grows t') (h' : t'.Grows t'') : t.Grows t'' :=
  ⟨h.cells.trans h'.cells, h.arena.trans h'.arena⟩

end Session

theorem Value.Basic.grows {D : Dialect} {t t' : Session} {value : Value} (h : value.Basic D t.heap)
    (hg : t.Grows t') : value.Basic D t'.heap := h.mono hg.cells

/-! ## Agreement -/

def Eval.Fails {α : Type} (x : Eval α) (t : Session) : Prop := ∃ e s, x t = .error (.error e) s

theorem Eval.Fails.bind {α β : Type} {x : Eval α} {t : Session} (h : x.Fails t) (f : α → Eval β) :
    (x >>= f).Fails t := by
  obtain ⟨e, s, h⟩ := h
  refine ⟨e, s, ?_⟩
  change EStateM.bind x f t = _
  rw [EStateM.bind, h]

/-- What is required of a value in a session. -/
abbrev Claim (α : Type) : Type := Session → α → Prop

variable {D : Dialect} {α β : Type} {P : Claim α} {Q : Claim β} {t t' : Session}

/-- The outcomes of two computations agree, the first under the direct and the second under the dispatch
strategy. -/
inductive Agrees (D : Dialect) (P : Claim α) (t : Session) :
    EStateM.Result Halt Session α → EStateM.Result Halt Session α → Prop where
  /-- Both give the same value. -/
  | given {a : α} {t' : Session} (hg : t.Grows t') (hs : t'.Sound D) (hp : P t' a) :
      Agrees D P t (.ok a t'.untyped) (.ok a t')
  /-- The first nests too deeply, but what the second gives is sound. -/
  | ahead {a : α} {s t' : Session} (hg : t.Grows t') (hs : t'.Sound D) (hp : P t' a) :
      Agrees D P t (.error .exhausted s) (.ok a t')
  /-- The second fails, and the first has no value either. -/
  | failed {halt : Halt} {e : RuntimeError} {s t' : Session} :
      Agrees D P t (.error halt s) (.error (.error e) t')
  /-- The second nests too deeply. -/
  | exhausted {r : EStateM.Result Halt Session α} {t' : Session} :
      Agrees D P t r (.error .exhausted t')

/-- Two computations agree when they are begun in a sound session. -/
def Agree (D : Dialect) (t : Session) (x y : Eval α) (P : Claim α) : Prop :=
  t.Sound D → Agrees D P t (x t.untyped) (y t)

theorem Agrees.after {r r' : EStateM.Result Halt Session α} (hg : t.Grows t')
    (h : Agrees D P t' r r') : Agrees D P t r r' := by
  cases h with
  | given hg' hs hp => exact .given (hg.trans hg') hs hp
  | ahead hg' hs hp => exact .ahead (hg.trans hg') hs hp
  | failed => exact .failed
  | exhausted => exact .exhausted

/-- A computation agrees with one that gives up whatever it is. -/
theorem Agrees.giveUp {r r' : EStateM.Result Halt Session α} (h : Agrees D P t r r') (s : Session) :
    Agrees D P t (.error .exhausted s) r' := by
  cases h with
  | given hg hs hp => exact .ahead hg hs hp
  | ahead hg hs hp => exact .ahead hg hs hp
  | failed => exact .failed
  | exhausted => exact .exhausted

namespace Agree

theorem pure {a : α} (h : P t a) : Agree D t (Pure.pure a) (Pure.pure a) P :=
  fun hs => .given (.refl t) hs h

/-- Computations that agree may be sequenced. -/
theorem bind {x y : Eval α} {f g : α → Eval β} (h : Agree D t x y P)
    (hfg : ∀ a t', t.Grows t' → P t' a → Agree D t' (f a) (g a) Q) :
    Agree D t (x >>= f) (y >>= g) Q := by
  intro hs
  have hxy := h hs
  change Agrees D Q t (EStateM.bind x f t.untyped) (EStateM.bind y g t)
  rw [EStateM.bind, EStateM.bind]
  generalize x t.untyped = r, y t = r' at hxy
  cases hxy with
  | given hg hs hp => exact (hfg _ _ hg hp hs).after hg
  | ahead hg hs hp => exact ((hfg _ _ hg hp hs).after hg).giveUp _
  | failed => exact .failed
  | exhausted => cases r <;> exact .exhausted

/-- Both fail, each in its own way. -/
theorem fails {x y : Eval α} (hx : x.Fails t.untyped) (hy : y.Fails t) : Agree D t x y P := by
  intro _
  obtain ⟨e, s, hx⟩ := hx
  obtain ⟨e', s', hy⟩ := hy
  rw [hx, hy]
  exact .failed

/-- It does not matter in which way the direct strategy fails. -/
theorem of_fails {x x' y : Eval α} (hx : x.Fails t.untyped) (hx' : x'.Fails t.untyped)
    (h : Agree D t x' y P) : Agree D t x y P := by
  intro hs
  have hxy := h hs
  obtain ⟨e, s, hx⟩ := hx
  obtain ⟨e', s', hx'⟩ := hx'
  rw [hx'] at hxy
  rw [hx]
  generalize y t = r at hxy ⊢
  cases hxy with
  | failed => exact .failed
  | exhausted => exact .exhausted

/-- Only what the direct strategy does in the session matters. -/
theorem of_eq_left {x x' y : Eval α} (h : Agree D t x' y P) (heq : x t.untyped = x' t.untyped) :
    Agree D t x y P := by
  intro hs
  rw [heq]
  exact h hs

/-- The direct strategy fails at once, and the dispatch strategy after it has done something more. -/
theorem fails_bind {x : Eval α} {z y : Eval β} {g : β → Eval α} (hx : ∀ s, x.Fails s)
    (h : Agree D t z y Q) (hg : ∀ b t', t.Grows t' → Q t' b → Agree D t' x (g b) P) :
    Agree D t x (y >>= g) P := by
  intro hs
  have hzy := h hs
  obtain ⟨e, s, hxt⟩ := hx t.untyped
  -- Whatever the second part comes to, it cannot give a value.
  have hrest : ∀ {b t'}, t.Grows t' → t'.Sound D → Q t' b →
      Agrees D P t (.error (.error e) s) (g b t') := by
    intro b t' hgrows hsound hq
    have hb := hg b t' hgrows hq hsound
    obtain ⟨e', s', hxt'⟩ := hx t'.untyped
    rw [hxt'] at hb
    generalize g b t' = r at hb
    cases hb with
    | failed => exact .failed
    | exhausted => exact .exhausted
  rw [hxt]
  change Agrees D P t _ (EStateM.bind y g t)
  rw [EStateM.bind]
  generalize z t.untyped = r, y t = r' at hzy
  cases hzy with
  | given hgrows hsound hq => exact hrest hgrows hsound hq
  | ahead hgrows hsound hq => exact hrest hgrows hsound hq
  | failed => exact .failed
  | exhausted => exact .exhausted

theorem located {x y : Eval α} (h : Agree D t x y P) (span : Span) :
    Agree D t (Eval.located span x) (Eval.located span y) P := by
  intro hs
  have hxy := h hs
  rw [Eval.located, Eval.located]
  generalize x t.untyped = r, y t = r' at hxy ⊢
  cases hxy with
  | given hg hs hp => exact .given hg hs hp
  | ahead hg hs hp => exact .ahead hg hs hp
  | @failed halt e s t' => cases halt <;> exact .failed
  | exhausted => exact .exhausted

/-- Both look at the session and go on. -/
theorem get {f g : Session → Eval α} (h : Agree D t (f t.untyped) (g t) P) :
    Agree D t (MonadState.get >>= f) (MonadState.get >>= g) P := h

/-- Both look at the same thing in the session. -/
theorem read (f : Session → α) (h : f t.untyped = f t) (hp : P t (f t)) :
    Agree D t (do return f (← MonadState.get)) (do return f (← MonadState.get)) P := by
  refine get ?_
  rw [h]
  exact pure hp

/-- Both change the session in the same way. -/
theorem modifyGet {f g : Session → α × Session} (h : f t.untyped = ((g t).1, (g t).2.untyped))
    (hg : t.Grows (g t).2) (hs : t.Sound D → (g t).2.Sound D) (hp : P (g t).2 (g t).1) :
    Agree D t (MonadStateOf.modifyGet f) (MonadStateOf.modifyGet g) P := by
  intro hsound
  change Agrees D P t (.ok (f t.untyped).1 (f t.untyped).2) (.ok (g t).1 (g t).2)
  rw [h]
  exact .given hg (hs hsound) hp

end Agree

end DispatchLang
