import DispatchLang.Proofs.Eval.Watching

/-!
# The two strategies agree on programs with functions

If all functions of a program have names of their own, its nodes make up a dialect (`Dialect.ofProgram`), and the
dispatch strategy does what evaluation by name does. The direct strategy does the same for as long as nobody can
tell a function from its name, and that is what a watched run finds out. It is a matter of the run, not of the
program: a declaration that is evaluated several times gives functions with different scopes, while
there is only one thing that its name can lead to.

## Main results

* `Session.strategies_agree_on_functions`: if a program ends under both strategies and under the direct one it
  ends steadily, it fails under both, or else succeeds under both with the same text and the same output.
* `Session.strategies_tell_functions`: programs on which the strategies differ, one for each of the three
  things that are watched.
-/

namespace DispatchLang

/-! ## The dialect of a program -/

namespace Node

def declared? : Node → Option (FunctionHead × Node)
  | .function _ head body => some (head, body)
  | _ => none

end Node

namespace Program

def functions (program : Program) : List (FunctionHead × Node) :=
  program.nodes.filterMap Node.declared?

/-- A program without declarations of types and method calls, whose functions have names of their own and no
annotated parameters. -/
structure IsSimple (program : Program) : Prop where
  /-- Each of its nodes is simple. -/
  simple : ∀ node ∈ program.nodes, node.isSimple = true
  /-- No two functions have the same name. -/
  distinct : (program.functions.map (·.1.name.val)).Nodup

end Program

def Dialect.ofProgram (program : Program) (h : program.IsSimple) : Dialect where
  Tree node := node ∈ program.nodes
  steady := true
  simple hnode := .inl (h.simple _ hnode)
  child hnode hc := Program.child_mem_nodes hnode hc
  unique {span span' head head' body body'} hnode hnode' hname := by
    have hmem : (head, body) ∈ program.functions := List.mem_filterMap.mpr ⟨_, hnode, rfl⟩
    have hmem' : (head', body') ∈ program.functions := List.mem_filterMap.mpr ⟨_, hnode', rfl⟩
    obtain ⟨rfl, rfl⟩ := Prod.mk.inj (List.inj_on_of_nodup_map h.distinct hmem hmem' hname)
    exact ⟨rfl, rfl⟩

/-! ## Fresh sessions -/

variable {D : Dialect} {named : Bool}

theorem seen.display {φ : View named} {v w : Value} (h : seen D φ v w) (s : Session) :
    (φ.session s).display w = s.display v := by
  rw [h.2]
  exact φ.text_value

namespace Session

variable {options : Options}

theorem builtinBindings_seen : ∀ b ∈ builtinBindings, seen D (View.empty named) b.2 b.2 := by
  intro b hb
  rcases builtinBindings_cases hb with ⟨name, hname, hb⟩ | ⟨id, hid, name, hb⟩ <;> rw [hb]
  · exact ⟨hname, rfl⟩
  · exact ⟨hid, rfl⟩

theorem fresh_traced : (fresh .direct options).Traced D (View.empty named) where
  injective _ _ _ h := by cases h
  used h := by cases h
  arena := rfl
  scopes := rootBinding_all fun b hb => (builtinBindings_seen b hb).1
  heap address cell h := by simp [fresh, Heap.empty] at h
  noted _ h := by cases h

theorem session_fresh : (View.empty named).session (fresh .direct options) = fresh .direct options := by
  have hscopes : (fresh .direct options).scopes.map (View.empty named).value =
      (fresh .direct options).scopes :=
    ScopeTree.map_eq_self
      (rootBinding_all fun b hb => (builtinBindings_seen (D := .basic) b hb).2.symm)
  rw [View.session, hscopes]
  cases named <;> simp [fresh, View.heap, View.empty, Heap.empty]

/-! ## Programs with functions -/

/-- A program that is run in a fresh session by shape ends as stated, if it may nest deeply enough, and the
watched run to the same depth does not give up: nobody tells a function from its name. -/
def EndsSteadily (options : Options) (program : Program) (result : Except RuntimeError Value)
    (session : Session) : Prop :=
  ∃ depth,
    Eval.runStatements (Eval.eval .direct depth) ScopeTree.root .nothing program
        (fresh .direct options) =
      (match result with
      | .ok value => .ok value session
      | .error e => .error (.error e) session) ∧
    ∀ s, Eval.runStatements (Watched.eval depth) ScopeTree.root .nothing program
      (fresh .direct options) ≠ .error .exhausted s

/-- Two runs end in the same way: with values that are shown alike and after the same output, or with errors. -/
def EndAlike (result : Except RuntimeError Value) (session : Session)
    (result' : Except RuntimeError Value) (session' : Session) : Prop :=
  (∃ value value', result = .ok value ∧ result' = .ok value' ∧
      session.display value = session'.display value' ∧ session.output = session'.output) ∨
    ∃ e e', result = .error e ∧ result' = .error e'

variable {program : Program}

theorem tracked_fresh {self self' : NodeEval} (hself : SelfTracks D named self self')
    (h : ∀ node ∈ program, D.Tree node) (options : Options) :
    Tracked D (View.empty named) (seen D)
      (Eval.runStatements self ScopeTree.root .nothing program (fresh .direct options))
      (Eval.runStatements self' ScopeTree.root .nothing program (fresh .direct options)) := by
  have htracks : Tracks D (View.empty named) (fresh .direct options)
      (Eval.runStatements self ScopeTree.root .nothing program)
      (Eval.runStatements self' ScopeTree.root .nothing program) (seen D) :=
    .runStatements hself h .nothing
  have hrun := htracks fresh_traced
  rwa [session_fresh] at hrun

variable {result result' : Except RuntimeError Value} {session session' : Session}

/-- If a program with functions ends under both strategies, steadily under the direct one, then it ends under both
in the same way. -/
theorem strategies_agree_on_functions (hprogram : program.IsSimple)
    (h : EndsSteadily options program result session)
    (h' : Ends .dispatch options program result' session') :
    EndAlike result session result' session' := by
  obtain ⟨n, hrun, hsteady⟩ := h
  obtain ⟨m, hrun'⟩ := h'
  let D : Dialect := .ofProgram program hprogram
  have htree : ∀ node ∈ program, D.Tree node := fun node => Program.mem_nodes_of_mem
  have hdirect := tracked_fresh (Watched.tracked_direct (D := D) rfl n) htree options
  have hbyName := tracked_fresh (Watched.tracked_byName (D := D) rfl n) htree options
  have hdispatch := @Agree.runStatements _ _ _ _ ScopeTree.root (ByName.eval_agrees (D := D) rfl m n) program htree
    .nothing trivial (fresh_sound options D)
  rw [hrun] at hdirect
  rw [untyped_fresh, hrun'] at hdispatch
  -- The watched run does not give up, so both runs that track it end as it does.
  generalize Eval.runStatements (Watched.eval n) _ _ _ _ = watched at hdirect hbyName hsteady
  generalize Eval.runStatements (ByName.eval n) _ _ _ _ = byName at hbyName hdispatch
  cases hbyName with
  | gaveUp => exact absurd rfl (hsteady _)
  | @failed e e' _ s =>
    have hshown := @Agrees.shown D _ (.error e') result' s session' hdispatch
    rcases hshown with ⟨_, _, hv, _⟩ | ⟨_, e', _, he'⟩
    · cases hv
    · cases result with
      | ok value => cases hdirect
      | error e => exact .inr ⟨e, e', rfl, he'⟩
  | @given a b φ s _ _ hb =>
    have hshown := @Agrees.shown D _ (.ok b) result' (φ.session s) session' hdispatch
    rcases hshown with ⟨_, v', hv, hv', hdisplay, -, houtput⟩ | ⟨_, _, he, _⟩
    · cases hv
      cases result with
      | error e => cases hdirect
      | ok value =>
        cases hdirect with
        | given _ _ hvalue =>
          exact .inl ⟨value, v', rfl, hv',
            (hvalue.display s).trans ((hb.display s).symm.trans hdisplay), houtput⟩
    · cases he

/-- The tree of `fn get() := n`. -/
def getter : Node := .function default ⟨⟨"get", default⟩, [], []⟩ (.ident default "n")

/-- The tree of `mk := { n | … }`. -/
def maker (body : List Node) : Node :=
  .assign default (.ident default "mk") (.block default [⟨⟨"n", default⟩, none⟩] body)

/-- The tree of `mk(n)`. -/
def make (n : Int64) : Node := .call default ⟨"mk", default⟩ [.literal default (.int n)]

/-- The trees of `mk := { n | fn get() := n; get() }`, `print(mk(1))` and `mk(2)`. -/
def ownGetters : Program :=
  [maker [getter, .call default ⟨"get", default⟩ []], .call default ⟨"print", default⟩ [make 1], make 2]

/-- Whether a program ends steadily with a value when it may nest so deeply. -/
def succeedsSteadily (depth : Nat) (program : Program) : Bool :=
  succeeds .direct depth program &&
    match Eval.runStatements (Watched.eval depth) ScopeTree.root .nothing program
        (fresh .direct .standard) with
    | .error .exhausted _ => false
    | _ => true

theorem endsSteadily_of_succeedsSteadily {depth : Nat} (h : succeedsSteadily depth program = true) :
    ∃ value session, EndsSteadily .standard program (.ok value) session := by
  rw [succeedsSteadily, Bool.and_eq_true, succeeds] at h
  obtain ⟨hdirect, hwatched⟩ := h
  split at hdirect
  · next value session hrun =>
    refine ⟨value, session, depth, hrun, fun s hs => ?_⟩
    rw [hs] at hwatched
    cases hwatched
  · cases hdirect

theorem ownGetters_agree :
    ownGetters.IsSimple ∧
      ∃ value value' session session', EndsSteadily .standard ownGetters (.ok value) session ∧
        Ends .dispatch .standard ownGetters (.ok value') session' ∧
        EndAlike (.ok value) session (.ok value') session' := by
  have hsimple : ownGetters.IsSimple := ⟨by decide +kernel, by decide +kernel⟩
  have hdirect : succeedsSteadily 8 ownGetters = true := by decide +kernel
  have hdispatch : succeeds .dispatch 8 ownGetters = true := by decide +kernel
  obtain ⟨value, session, h⟩ := endsSteadily_of_succeedsSteadily hdirect
  obtain ⟨value', session', h'⟩ := ends_of_succeeds hdispatch
  exact ⟨hsimple, value, value', session, session', h, h', strategies_agree_on_functions hsimple h h'⟩

/-! ## Where the strategies differ -/

/-- The trees of `mk := { n | fn get() := n }`, `a := mk(1)` and `b := mk(2)`. -/
def twoGetters : Program :=
  [maker [getter], .assign default (.ident default "a") (make 1),
   .assign default (.ident default "b") (make 2)]

/-- The tree of `fn f[T <: Foo](x) := 1`. -/
def unknownConstraint : Node :=
  .function default
    ⟨⟨"f", default⟩, [⟨⟨"T", default⟩, some (.named default "Foo")⟩], [⟨⟨"x", default⟩, none⟩]⟩
    (.literal default (.int 1))

/-- A program with functions ends under both strategies, but not in the same way. -/
def TellsFunctions (program : Program) : Prop :=
  program.IsSimple ∧ ∃ result result' session session',
    Ends .direct .standard program result session ∧
      Ends .dispatch .standard program result' session' ∧ ¬EndAlike result session result' session'

/-- Whether a program ends with different texts when it may nest so deeply, or with a value under the direct strategy
only. -/
def differs (depth : Nat) (program : Program) : Bool :=
  let run (strategy : Strategy) : EStateM.Result Halt Session Value :=
    Eval.runStatements (Eval.eval strategy depth) ScopeTree.root .nothing program
      (fresh strategy .standard)
  match run .direct, run .dispatch with
  | .ok value session, .ok value' session' => session.display value != session'.display value'
  | .ok _ _, .error (.error _) _ => true
  | _, _ => false

theorem tellsFunctions_of_differs {depth : Nat} (hprogram : program.IsSimple)
    (h : differs depth program = true) : TellsFunctions program := by
  refine ⟨hprogram, ?_⟩
  rw [differs] at h
  dsimp only at h
  split at h
  · next value session value' session' hrun hrun' =>
    refine ⟨.ok value, .ok value', session, session', ⟨depth, hrun⟩, ⟨depth, hrun'⟩, ?_⟩
    rintro (⟨_, _, hv, hv', hdisplay, -⟩ | ⟨_, _, he, -⟩)
    · cases hv
      cases hv'
      exact bne_iff_ne.mp h hdisplay
    · cases he
  · next value session e session' hrun hrun' =>
    refine ⟨.ok value, .error e, session, session', ⟨depth, hrun⟩, ⟨depth, hrun'⟩, ?_⟩
    rintro (⟨_, _, -, hv', -⟩ | ⟨_, _, he, -⟩)
    · cases hv'
    · cases he
  · cases h

/-- Calling a function with a scope that is not the last one of its declaration, comparing two functions of one
declaration, and declaring a function with an unknown constraint: the strategies end in different ways. -/
theorem strategies_tell_functions :
    TellsFunctions (twoGetters ++ [.call default ⟨"a", default⟩ []]) ∧
      TellsFunctions (twoGetters ++ [.binary default .eq (.ident default "a") (.ident default "b")]) ∧
      TellsFunctions [unknownConstraint] := by
  have hcall : differs 5 (twoGetters ++ [.call default ⟨"a", default⟩ []]) = true := by
    decide +kernel
  have hcompare : differs 5 (twoGetters ++
      [.binary default .eq (.ident default "a") (.ident default "b")]) = true := by decide +kernel
  have hdeclare : differs 5 [unknownConstraint] = true := by decide +kernel
  exact ⟨tellsFunctions_of_differs ⟨by decide +kernel, by decide +kernel⟩ hcall,
    tellsFunctions_of_differs ⟨by decide +kernel, by decide +kernel⟩ hcompare,
    tellsFunctions_of_differs ⟨by decide +kernel, by decide +kernel⟩ hdeclare⟩

end Session

end DispatchLang
