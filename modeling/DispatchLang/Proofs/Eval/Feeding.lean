import DispatchLang.Proofs.Eval.Fresh
import DispatchLang.Proofs.Eval.ObeyingForms

/-!
# Sessions that are fed

A session is fed one source after another, and those that are no programs or fail are fed as well. If a discipline admits
the programs that are read from the sources, then the session is orderly after each of them, only faults are raised that
may be, and evaluators that treat the nodes alike which the discipline admits cannot be told apart by any source.

## Main definitions

* `Session.fed`: what a fresh session has become after it has been fed sources.
* `Session.feedWith`: feeding with a given evaluator for statements.

## Main results

* `Session.orderly_fed`: a session stays orderly while it is fed.
* `Session.feedWith_obeys`: feeding obeys a discipline that admits the program.
-/

namespace DispatchLang

/-- The programs that are read from a source may be evaluated. -/
def Discipline.Reads (d : Discipline) (source : String) : Prop :=
  ∀ program, Program.parse source = .ok program → ∀ statement ∈ program, d.admits statement

namespace Session

variable {d : Discipline} {strategy : Strategy} {s : Session} {self self' : NodeEval} {program : Program}
  {source : String}

/-! ## Feeding with an evaluator -/

/-- Runs a program with an evaluator for its statements. -/
def runWith (self : NodeEval) (program : Program) (s : Session) : Except ProgramError Value × Session :=
  match Eval.runStatements self ScopeTree.root .nothing program s with
  | .ok value t => (.ok value, t)
  | .error (.error e) t => (.error (.failed e), t)
  | .error .exhausted t => (.error .exhausted, t)

/-- Reads a program from its text and runs it with an evaluator for its statements. -/
def feedWith (self : NodeEval) (source : String) (s : Session) : Except ProgramError Value × Session :=
  match Program.parse source with
  | .ok program => s.runWith self program
  | .error e => (.error (.malformed e), s)

/-- What a fresh session has become after it has been fed sources. -/
def fed (strategy : Strategy) (options : Options) (sources : List String) : Session :=
  sources.foldl (fun s source => (s.feed strategy source).2) (fresh strategy options)

/-- Whether a session that has been fed sources fails with a fault of some form when it is fed another one. -/
def fails (p : Fault → Bool) (strategy : Strategy) (sources : List String) (source : String) : Bool :=
  match ((fed strategy .standard sources).feed strategy source).1 with
  | .error (.failed e) => p e.fault
  | _ => false

theorem exists_of_fails {p : Fault → Bool} {sources : List String} (h : fails p strategy sources source = true) :
    ∃ e, ((fed strategy .standard sources).feed strategy source).1 = .error (.failed e) ∧ p e.fault = true := by
  rw [fails] at h
  split at h
  · next e he => exact ⟨e, he, h⟩
  · cases h

/-! ## Obeying -/

/-- What feeding leaves behind: the session is orderly, the value is kept, and the fault may be raised. -/
structure Leaves (d : Discipline) (strategy : Strategy) (result : Except ProgramError Value × Session) : Prop where
  orderly : result.2.Orderly d strategy
  value : ∀ value, result.1 = .ok value → value.Kept d strategy result.2.heap
  fault : ∀ e, result.1 = .error (.failed e) → d.raises e.fault

/-- Programs that may be evaluated are run alike by evaluators that obey. -/
theorem runWith_obeys (hself : SelfObeys d strategy self self') (h : ∀ statement ∈ program, d.admits statement)
    (hs : s.Orderly d strategy) :
    s.runWith self program = s.runWith self' program ∧ Leaves d strategy (s.runWith self' program) := by
  obtain ⟨heq, hruns⟩ := Obey.runStatements hself ScopeTree.root h kept_nothing hs
  rw [runWith, runWith, heq]
  refine ⟨rfl, ?_⟩
  generalize Eval.runStatements self' ScopeTree.root .nothing program s = result at hruns
  cases result with
  | ok value t => exact ⟨hruns.2.1, fun _ hv => Except.ok.inj hv ▸ hruns.2.2, nofun⟩
  | error halt t =>
    cases halt with
    | error e => exact ⟨hruns.1, nofun, fun _ he => ProgramError.failed.inj (Except.error.inj he) ▸ hruns.2⟩
    | exhausted => exact ⟨hruns.1, nofun, nofun⟩

/-- Feeding obeys a discipline that admits the program. -/
theorem feedWith_obeys (hself : SelfObeys d strategy self self') (h : d.Reads source) (hs : s.Orderly d strategy) :
    s.feedWith self source = s.feedWith self' source ∧ Leaves d strategy (s.feedWith self' source) := by
  rw [feedWith, feedWith]
  cases hparse : Program.parse source with
  | error e => exact ⟨rfl, hs, nofun, nofun⟩
  | ok program => exact runWith_obeys hself (h program hparse) hs

theorem feed_leaves (h : d.Reads source) (hs : s.Orderly d strategy) : Leaves d strategy (s.feed strategy source) :=
  (feedWith_obeys (Obeys.eval d strategy depthLimit) h hs).2

/-! ## Fresh sessions -/

/-- A session in which nothing has happened yet is orderly, as there is no code in it. -/
theorem orderly_fresh (d : Discipline) (strategy : Strategy) (options : Options) :
    (fresh strategy options).Orderly d strategy where
  heap := by
    rw [heap_fresh]
    refine ⟨Heap.all_empty, fun address cell hcell => ?_⟩
    cases hcell
  cells := by
    rw [heap_fresh]
    exact Heap.all_empty
  scopes := by
    rw [scopes_fresh, heap_fresh]
    refine rootBinding_all fun b hb => ?_
    rcases builtinBindings_cases hb with ⟨name, -, hb⟩ | ⟨id, -, name, hb⟩ <;> rw [hb]
    · exact Value.kept_of_parts rfl trivial trivial
    · exact Value.kept_of_parts rfl trivial trivial
  types := by
    cases strategy with
    | direct =>
      -- no built-in type has fields
      intro definition hd params fields hkind
      have hbuiltin : definition ∈ builtinTypes := List.mem_toArray.mp hd
      simp only [builtinTypes, List.mem_cons, List.not_mem_nil, or_false] at hbuiltin
      rcases hbuiltin with rfl | rfl | rfl | rfl | rfl | rfl | rfl | rfl | rfl | rfl | rfl | rfl <;> cases hkind
    | dispatch => exact TypeArena.untyped_dispatch
  functions hdispatch := by
    rw [hdispatch, functions_fresh]
    refine functions_keep (fun m operation hm => ?_) options.cache
    rw [Method.CodeAdmitted, hm]
    trivial

/-- A session stays orderly while it is fed sources whose programs may be evaluated. -/
theorem orderly_fed {options : Options} {sources : List String} (h : ∀ source ∈ sources, d.Reads source) :
    (fed strategy options sources).Orderly d strategy := by
  have hfold : ∀ s : Session, s.Orderly d strategy →
      (sources.foldl (fun s source => (s.feed strategy source).2) s).Orderly d strategy := by
    induction sources with
    | nil => exact fun _ hs => hs
    | cons source sources ih =>
      obtain ⟨hsource, hsources⟩ := List.forall_mem_cons.mp h
      exact fun s hs => ih hsources _ (feed_leaves hsource hs).orderly
  exact hfold _ (orderly_fresh d strategy options)

end Session

end DispatchLang
