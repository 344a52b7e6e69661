import DispatchLang.Eval.Run
import DispatchLang.Proofs.Eval.Forms
import DispatchLang.Proofs.Eval.Fresh

/-!
# Remembering resolutions is not observable

No program finds anything out about the dispatcher, by induction on the depth of nesting. That covers
programs that halt midway: what they did before stays, and the sessions they leave behind are alike as well.
So a session that remembers resolutions and one that does not can be fed the same sources one after the
other, and answer the same all along. Only the events that are observed differ, which are part of the
dispatcher.

## Main results

* `eval_transparent`: no evaluation finds anything out about the dispatcher.
* `Session.Like.answersBy`: sessions that differ in alike dispatchers answer the same, also with built-in operations
  that cannot be told apart where calls select them.
* `Session.cache_unobservable`: so do two fresh sessions of which only one remembers resolutions.
-/

namespace DispatchLang

open TypeArena

/-! ## Sessions -/

/-- Evaluators are twins if built-in operations are, however deeply they may nest. -/
theorem NativesTwins.eval {natives natives' : Natives} (h : NativesTwins natives natives') (n : Nat) :
    SelfTwins (natives.eval n) (natives'.eval n) := by
  induction n with
  | zero => exact fun _ _ _ _ => Alike.throw _
  | succ n ih => exact fun node scope t => (Twins.form ih h node scope).located node.span

/-- No evaluator finds anything out about the dispatcher, however deeply it may nest. -/
theorem eval_transparent (n : Nat) :
    SelfTwins (Eval.eval .dispatch n) (Eval.eval .dispatch n) := by
  rw [← Natives.eval_builtin]
  exact nativesTwins_builtin.eval n

namespace Session

variable {t : Session} {d : Dispatcher}

/-- What a session shows of a source that it is fed: the text of the value with its type and the name of
that, or an error; what was printed; the names that have been bound; and the types. -/
structure Answer where
  /-- The text of the value, its type and the name of the type, or why there is no value. -/
  result : Except ProgramError (String × TypeId × String)
  /-- What was printed. -/
  output : String
  /-- The names that have been bound in the root. -/
  globals : List String
  /-- The types. -/
  arena : TypeArena

/-- What a session shows of the outcome of a program. -/
def answer (result : Except ProgramError Value) (t : Session) : Answer :=
  { result := result.map fun v => (t.display v, v.tag t.heap, t.typeText .dispatch v)
    output := t.output
    globals := t.newGlobals
    arena := t.arena }

/-- What a session shows of sources that it is fed one after the other. -/
def answers (t : Session) : List String → List Answer
  | [] => []
  | source :: sources =>
    let (result, t) := t.cleared.feed .dispatch source
    t.answer result :: t.answers sources

theorem answer_equip (result : Except ProgramError Value) (t : Session) (d : Dispatcher) :
    (t.equip d).answer result = t.answer result := rfl

/-! ### Other built-in operations -/

/-- Runs a program with other built-in operations. -/
def runBy (natives : Natives) (program : Program) (t : Session) : Except ProgramError Value × Session :=
  match Eval.runStatements (natives.eval depthLimit) ScopeTree.root .nothing program t with
  | .ok value t => (.ok value, t)
  | .error (.error e) t => (.error (.failed e), t)
  | .error .exhausted t => (.error .exhausted, t)

/-- Reads a program from its text and runs it with other built-in operations. -/
def feedBy (natives : Natives) (source : String) (t : Session) : Except ProgramError Value × Session :=
  match Program.parse source with
  | .ok program => t.runBy natives program
  | .error e => (.error (.malformed e), t)

/-- What a session with other built-in operations shows of sources that it is fed one after the other. -/
def answersBy (natives : Natives) (t : Session) : List String → List Answer
  | [] => []
  | source :: sources =>
    let (result, t) := t.cleared.feedBy natives source
    t.answer result :: t.answersBy natives sources

theorem feedBy_builtin (source : String) (t : Session) : t.feedBy .builtin source = t.feed .dispatch source := by
  rw [feedBy, feed]
  cases Program.parse source with
  | error e => rfl
  | ok program =>
    dsimp only
    rw [runBy, Natives.eval_builtin]
    rfl

theorem answersBy_builtin (t : Session) (sources : List String) :
    t.answersBy .builtin sources = t.answers sources := by
  induction sources generalizing t with
  | nil => rfl
  | cons source sources ih =>
    rw [answersBy, answers, feedBy_builtin]
    dsimp only
    rw [ih]

section

variable {natives natives' : Natives} (hn : NativesTwins natives natives')
include hn

/-- Running a program gives the same in sessions that differ in alike dispatchers. -/
theorem Like.runBy (h : t.Like d) (program : Program) :
    ∃ result s d', t.runBy natives program = (result, s) ∧
      (t.equip d).runBy natives' program = (result, s.equip d') ∧ s.Like d' := by
  have hrun := Twins.runStatements (hn.eval depthLimit) ScopeTree.root program
    (Value.in_of_types_nil rfl : valueIn t .nothing) d h
  rw [Session.runBy, Session.runBy]
  generalize Eval.runStatements _ ScopeTree.root .nothing program t = r,
    Eval.runStatements _ ScopeTree.root .nothing program (t.equip d) = r' at hrun
  cases hrun with
  | given hl _ _ => exact ⟨_, _, _, rfl, rfl, hl⟩
  | @halted halt _ _ hl => cases halt <;> exact ⟨_, _, _, rfl, rfl, hl⟩

theorem Like.feedBy (h : t.Like d) (source : String) :
    ∃ result s d', t.feedBy natives source = (result, s) ∧
      (t.equip d).feedBy natives' source = (result, s.equip d') ∧ s.Like d' := by
  rw [Session.feedBy, Session.feedBy]
  cases Program.parse source with
  | ok program => exact h.runBy hn program
  | error e => exact ⟨_, _, _, rfl, rfl, h⟩

end

theorem Like.cleared (h : t.Like d) : t.cleared.Like { d with events := [] } :=
  ⟨⟨h.formed.regular, h.formed.extension, h.formed.elements, h.formed.heap, h.formed.arrays, h.formed.scopes⟩,
    ⟨h.native.operators, h.native.functions, h.native.methods⟩, ⟨h.complete.operators, h.complete.methods⟩,
    ⟨h.own.operators, h.own.functions, h.own.methods⟩,
    ⟨h.other.operators, h.other.functions, h.other.methods⟩, h.plain⟩

/-- Sessions that differ in alike dispatchers show the same of all that they are fed. -/
theorem Like.answersBy {natives natives' : Natives} (hn : NativesTwins natives natives') (h : t.Like d)
    (sources : List String) : (t.equip d).answersBy natives' sources = t.answersBy natives sources := by
  induction sources generalizing t d with
  | nil => rfl
  | cons source sources ih =>
    obtain ⟨result, s, d', heq, heq', hl⟩ := h.cleared.feedBy hn source
    have hcleared : (t.equip d).cleared = t.cleared.equip { d with events := [] } := rfl
    rw [Session.answersBy, Session.answersBy, hcleared, heq, heq']
    dsimp only
    rw [ih hl, answer_equip]

end Session

/-! ## Fresh sessions -/

namespace FunctionTable

variable {ι : Type} {arena : TypeArena}

theorem build_induction {entries : List (TableEntry ι)} (cache : Bool) {p : FunctionTable ι → Prop} (hnil : p [])
    (hentry : ∀ e ∈ entries, ∀ table, p table → p (Tables.addEntry cache table e)) :
    p (Tables.build cache entries) := by
  have hfold : ∀ table : FunctionTable ι, p table → p (entries.foldl (Tables.addEntry cache) table) := by
    induction entries with
    | nil => exact fun _ ht => ht
    | cons e entries ih =>
      obtain ⟨he, hes⟩ := List.forall_mem_cons.mp hentry
      exact fun table ht => ih hes _ (he table ht)
  exact hfold [] hnil

/-- Functions that are built from a table remember nothing. -/
theorem recalls_build {entries : List (TableEntry ι)} (cache : Bool)
    (h : ∀ e ∈ entries, ∀ p ∈ e.signature, p < arena.size) :
    Recalls (Tables.build cache entries) arena :=
  build_induction (p := fun table => Recalls table arena) cache nofun fun e he _ ht =>
    Recalls.declare ht cache (h e he)

theorem only_build {p : Method ι → Prop} {entries : List (TableEntry ι)} (cache : Bool)
    (h : ∀ e ∈ entries, p ⟨e.typeVars, e.signature, e.body⟩) : Only p (Tables.build cache entries) :=
  build_induction (p := Only p) cache nofun fun e he _ ht => Only.declare ht cache (h e he)

/-- Whether functions are built to remember resolutions makes no difference to their methods. -/
theorem plain_build (cache : Bool) (entries : List (TableEntry ι)) :
    plain (Tables.build cache entries) = plain (Tables.build false entries) := by
  have hfold : ∀ table table' : FunctionTable ι, plain table = plain table' →
      plain (entries.foldl (Tables.addEntry cache) table) =
        plain (entries.foldl (Tables.addEntry false) table') := by
    induction entries with
    | nil => exact fun _ _ h => h
    | cons e entries ih =>
      refine fun table table' h => ih _ _ ?_
      have hboth : ∀ (cache : Bool) (table : FunctionTable ι),
          plain (Tables.addEntry cache table e) =
            declare false e.name ⟨e.typeVars, e.signature, e.body⟩ (plain table) :=
        fun cache table => plain_declare cache
      rw [hboth, hboth, h]
  exact hfold [] [] rfl

end FunctionTable

namespace Session

def freshDispatcher (cache : Bool) : Dispatcher where
  cache := cache
  operators := Tables.build cache Tables.operators
  functions := Tables.build cache
    (Tables.functions.map fun e => ⟨e.name, e.typeVars, e.signature, .primitive e.body⟩)
  methods := Tables.build cache (Tables.methods freshElement freshArray)
  events := []

def freshState (assignment : AssignmentScope) : Session where
  options := ⟨assignment, false⟩
  scopes := rootBinding builtinBindings
  heap := .empty
  arena := freshArena
  nextId := 0
  operators := []
  functions := []
  methods := []
  printing := true
  output := ""
  events := []

theorem fresh_eq (assignment : AssignmentScope) (cache : Bool) :
    fresh .dispatch ⟨assignment, cache⟩ = (freshState assignment).equip (freshDispatcher cache) := by
  rw [fresh, freshState, freshDispatcher, freshArray, freshArena, freshElement]
  generalize TypeArena.initial.var "T" .any = var
  obtain ⟨element, arena⟩ := var
  dsimp only
  generalize arena.arrayOf element = array
  rw [equip]

theorem freshState_formed (assignment : AssignmentScope) :
    (freshState assignment).Formed freshArena := by
  have hvar : (TypeArena.initial.var "T" .any).2.Regular := .var _ _ .initial (by decide)
  have hregular : freshArena.Regular := .applied _ _ hvar (by decide) (by decide)
  have helements : freshArena.interned? (.applied .array [freshElement]) = some freshArray :=
    (applied_interns (TypeArena.initial.var "T" .any).2 .array [freshElement]).interned?_eq
  refine ⟨hregular, .refl _, helements, Heap.in_empty, Heap.arraysIn_empty, rootBinding_all fun b hb => ?_⟩
  rcases List.mem_append.mp hb with hb | hb
  · obtain ⟨name, -, rfl⟩ := List.mem_map.mp hb
    exact Value.in_of_types_nil rfl
  · obtain ⟨⟨d, id⟩, hd, rfl⟩ := List.mem_map.mp hb
    have hlt := (List.mem_zipIdx hd).2.1
    rw [Nat.zero_add] at hlt
    exact Value.in_typeRef.mpr (Nat.lt_of_lt_of_le hlt hregular.indexed.builtin)

theorem freshDispatcher_recalls (cache : Bool) : (freshDispatcher cache).Recalls freshArena := by
  have hsize : freshArena.size = 14 := by decide
  have hoperators : ∀ e ∈ Tables.operators, ∀ p ∈ e.signature, p < 14 := by decide
  have hfunctions : ∀ e ∈ Tables.functions, ∀ p ∈ e.signature, p < 14 := by decide
  have hmethods : ∀ e ∈ Tables.methods freshElement freshArray, ∀ p ∈ e.signature, p < 14 := by
    decide
  rw [← hsize] at hoperators hfunctions hmethods
  have hrecalls := FunctionTable.recalls_build cache hoperators
  have hrecalls' := FunctionTable.recalls_build cache hmethods
  rw [freshDispatcher]
  refine ⟨?_, ?_, ?_⟩ <;> dsimp only
  · exact hrecalls
  · refine FunctionTable.recalls_build cache ?_
    exact List.forall_mem_map.mpr hfunctions
  · exact hrecalls'

theorem freshDispatcher_native (cache : Bool) : (freshDispatcher cache).Native := by
  have hfunctions : FunctionTable.Only Method.IsNamed (Tables.build cache namedEntries) :=
    FunctionTable.only_build cache fun e he => .inr ⟨e, he, rfl, rfl⟩
  rw [freshDispatcher]
  refine ⟨?_, ?_, ?_⟩ <;> dsimp only
  · exact FunctionTable.only_build cache fun e he => ⟨e, he, rfl, rfl⟩
  · exact hfunctions
  · exact FunctionTable.only_build cache fun e he => ⟨e, he, rfl, rfl⟩

theorem freshDispatcher_complete (cache : Bool) : (freshDispatcher cache).Complete := by
  have hoperators := FunctionTable.plain_build cache Tables.operators
  have hmethods := FunctionTable.plain_build cache (Tables.methods freshElement freshArray)
  rw [freshDispatcher]
  refine ⟨?_, ?_⟩ <;> rw [Dispatcher.plain] <;> dsimp only
  · exact hoperators
  · exact hmethods

theorem plain_freshDispatcher (cache : Bool) :
    (freshDispatcher cache).plain = (freshDispatcher false).plain := by
  rw [freshDispatcher, freshDispatcher, Dispatcher.plain, Dispatcher.plain]
  dsimp only
  rw [FunctionTable.plain_build cache, FunctionTable.plain_build cache,
    FunctionTable.plain_build cache]

/-- Fresh sessions differ in alike dispatchers, whether they remember resolutions or not. -/
theorem fresh_like (assignment : AssignmentScope) (cache cache' : Bool) :
    (fresh .dispatch ⟨assignment, cache⟩).Like (freshDispatcher cache') := by
  have hplain : (freshDispatcher cache').plain = (freshDispatcher cache).plain := by
    rw [plain_freshDispatcher cache', plain_freshDispatcher cache]
  rw [fresh_eq]
  refine ⟨(freshState_formed assignment).equip _, ?_, ?_, ?_, freshDispatcher_recalls cache', ?_⟩
  all_goals rw [dispatcher_equip]
  · exact freshDispatcher_native cache
  · exact freshDispatcher_complete cache
  · exact freshDispatcher_recalls cache
  · exact hplain

/-- Whatever is fed to two fresh sessions, of which one remembers resolutions and the other does not, they
answer the same: the same values with the same types, or the same errors, the same output, the same names
and the same types. -/
theorem cache_unobservable (assignment : AssignmentScope) (sources : List String) :
    (fresh .dispatch ⟨assignment, true⟩).answers sources =
      (fresh .dispatch ⟨assignment, false⟩).answers sources := by
  have hanswers := (fresh_like assignment false true).answersBy nativesTwins_builtin sources
  rw [answersBy_builtin, answersBy_builtin, fresh_eq, Session.equip_equip] at hanswers
  rw [fresh_eq, fresh_eq]
  exact hanswers

end Session

end DispatchLang
