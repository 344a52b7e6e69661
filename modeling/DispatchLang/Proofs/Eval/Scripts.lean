import DispatchLang.Proofs.Eval.MethodCalls
import DispatchLang.Proofs.Eval.UserFunctions

/-!
# The two strategies agree on scripts

A *script* declares no types and no functions; what it works with are built-in functions, closures and methods. Its
nodes make up a dialect in which arrays may be changed, so the strategies agree on it for as long as method calls are
settled alike (`Settled.eval`). As with functions, that is a matter of the run and not of the script: which method is
called depends on what the receiver and the arguments are.

## Main results

* `Session.strategies_agree_on_scripts`: if a script ends under both strategies and all its method calls are settled
  alike under the direct one, it fails under both, or else succeeds under both with the same text and the same output.
* `Session.strategies_tell_methods`: scripts on which the strategies differ, one for each way in which a method call can
  be settled otherwise.
-/

namespace DispatchLang

namespace Node

/-- Whether a form may occur in a script: it declares nothing, and it has no more arguments than a built-in function
takes. The receiver of a method is one of them. -/
def isScriptForm : Node → Bool
  | .typeDecl _ _ | .function _ _ _ => false
  | .call _ _ args => args.length ≤ Tables.variadicLimit
  | .send _ _ _ args => args.length < Tables.variadicLimit
  | _ => true

theorem isSimple_or_isShortSend {node : Node} (h : node.isScriptForm = true) :
    node.isSimple = true ∨ node.isShortSend = true := by
  cases node with
  | call _ _ _ => exact .inl h
  | send _ _ _ _ => exact .inr h
  | typeDecl _ _ | function _ _ _ => cases h
  | _ => exact .inl rfl

end Node

/-- A program that declares no types and no functions, also where it is quoted. -/
def Program.IsScript (program : Program) : Prop := ∀ node ∈ program.nodes, node.isScriptForm = true

instance (program : Program) : Decidable program.IsScript :=
  inferInstanceAs (Decidable (∀ node ∈ program.nodes, node.isScriptForm = true))

def Dialect.ofScript (program : Program) (h : program.IsScript) : Dialect where
  Tree node := node ∈ program.nodes
  steady := false
  simple hnode := (Node.isSimple_or_isShortSend (h _ hnode)).imp_right fun hsend => ⟨rfl, hsend⟩
  child hnode hc := Program.child_mem_nodes hnode hc
  unique hnode := by cases h _ hnode

theorem Dialect.ofScript_undeclaring {program : Program} (h : program.IsScript) : (ofScript program h).Undeclaring := by
  rintro name params body ⟨span, head, hnode, -⟩
  cases h _ hnode

namespace Session

variable {options : Options} {program : Program} {result result' : Except RuntimeError Value}
  {session session' : Session}

/-- A program that is run in a fresh session by shape ends as stated, if it may nest deeply enough. Up to there every
call of a built-in method is settled alike by the other strategy, and the function that tells types is not called. -/
def EndsSettled (options : Options) (program : Program) (result : Except RuntimeError Value) (session : Session) :
    Prop :=
  ∃ depth,
    Eval.runStatements (Eval.eval .direct depth) ScopeTree.root .nothing program (fresh .direct options) =
      (match result with
      | .ok value => .ok value session
      | .error e => .error (.error e) session) ∧
    ∀ s, Eval.runStatements (Settled.eval depth) ScopeTree.root .nothing program (fresh .direct options) ≠
      .error .exhausted s

/-- If a script ends under both strategies, and under the direct one with all method calls settled alike, then it ends
under both in the same way. -/
theorem strategies_agree_on_scripts (hprogram : program.IsScript)
    (h : EndsSettled options program result session) (h' : Ends .dispatch options program result' session') :
    EndAlike result session result' session' := by
  obtain ⟨n, hrun, hsettled⟩ := h
  obtain ⟨m, hrun'⟩ := h'
  let D : Dialect := .ofScript program hprogram
  have hself : SelfAgrees D (Settled.eval n) (Eval.eval .dispatch m) :=
    Settled.eval_agrees (Dialect.ofScript_undeclaring hprogram) rfl m n
  have hagree := @Agree.runStatements D _ _ _ ScopeTree.root hself program (fun node => Program.mem_nodes_of_mem)
    .nothing trivial (fresh_sound options D)
  -- The evaluation that watches method calls does not give up, so it does what the direct strategy does.
  have happroximates := Eval.Approximates.runStatements (Settled.eval_approximates n) ScopeTree.root .nothing program
    (fresh .direct options)
  have hsame := happroximates.resolve_right fun ⟨s, hs⟩ => hsettled s hs
  rw [untyped_fresh, hsame, hrun, hrun'] at hagree
  refine hagree.shown.imp_left ?_
  rintro ⟨value, value', hv, hv', hdisplay, -, houtput⟩
  exact ⟨value, value', hv, hv', hdisplay, houtput⟩

/-- The tree of a closure `{ x, … | … }` over a single tree. -/
def closure (params : List String) (body : Node) : Node :=
  .block default (params.map fun name => ⟨⟨name, default⟩, none⟩) [body]

/-- The tree of `receiver.method(…)`. -/
def send (receiver : Node) (method : String) (args : List Node) : Node := .send default receiver ⟨method, default⟩ args

/-- The trees of `a := [1, 2]`, `a.push(3)`, `o := [twice: { x | x * 2 }]`,
`print(a.map({ x | o.twice(x) }).join("-"))` and `a.reduce({ s, x | s + x }, 0)`. -/
def doubling : Program :=
  let name (text : String) : Node := .ident default text
  let int (n : Int64) : Node := .literal default (.int n)
  let twice := closure ["x"] (.binary default .mul (name "x") (int 2))
  let doubled := send (name "a") "map" [closure ["x"] (send (name "o") "twice" [name "x"])]
  [.assign default (name "a") (.array default [int 1, int 2]),
   send (name "a") "push" [int 3],
   .assign default (name "o") (.object default [(⟨"twice", default⟩, twice)]),
   .call default ⟨"print", default⟩ [send doubled "join" [.literal default (.string "-")]],
   send (name "a") "reduce" [closure ["s", "x"] (.binary default .add (name "s") (name "x")), int 0]]

/-- Whether a program ends with a value and all method calls settled alike when it may nest so deeply. -/
def succeedsSettled (depth : Nat) (program : Program) : Bool :=
  succeeds .direct depth program &&
    match Eval.runStatements (Settled.eval depth) ScopeTree.root .nothing program (fresh .direct .standard) with
    | .error .exhausted _ => false
    | _ => true

theorem endsSettled_of_succeedsSettled {depth : Nat} (h : succeedsSettled depth program = true) :
    ∃ value session, EndsSettled .standard program (.ok value) session := by
  rw [succeedsSettled, Bool.and_eq_true, succeeds] at h
  obtain ⟨hdirect, hsettled⟩ := h
  split at hdirect
  · next value session hrun =>
    refine ⟨value, session, depth, hrun, fun s hs => ?_⟩
    rw [hs] at hsettled
    cases hsettled
  · cases hdirect

theorem doubling_agrees :
    doubling.IsScript ∧ ∃ value value' session session', EndsSettled .standard doubling (.ok value) session ∧
      Ends .dispatch .standard doubling (.ok value') session' ∧
      EndAlike (.ok value) session (.ok value') session' := by
  have hscript : doubling.IsScript := by decide +kernel
  have hdirect : succeedsSettled 10 doubling = true := by decide +kernel
  have hdispatch : succeeds .dispatch 10 doubling = true := by decide +kernel
  obtain ⟨value, session, h⟩ := endsSettled_of_succeedsSettled hdirect
  obtain ⟨value', session', h'⟩ := ends_of_succeeds hdispatch
  exact ⟨hscript, value, value', session, session', h, h', strategies_agree_on_scripts hscript h h'⟩

/-! ## Where the strategies differ -/

/-- A script ends under both strategies, with a value under one of them and an error under the other. -/
def TellsMethods (script : Program) : Prop :=
  script.IsScript ∧ ∃ result result' session session', Ends .direct .standard script result session ∧
    Ends .dispatch .standard script result' session' ∧ result.isOk ≠ result'.isOk

/-- Whether a program ends with a value under one strategy only when it may nest so deeply. -/
def succeedsOnce (depth : Nat) (program : Program) : Bool :=
  let run (strategy : Strategy) : EStateM.Result Halt Session Value :=
    Eval.runStatements (Eval.eval strategy depth) ScopeTree.root .nothing program (fresh strategy .standard)
  match run .direct, run .dispatch with
  | .ok _ _, .error (.error _) _ | .error (.error _) _, .ok _ _ => true
  | _, _ => false

theorem tellsMethods_of_succeedsOnce {depth : Nat} (hscript : program.IsScript)
    (h : succeedsOnce depth program = true) : TellsMethods program := by
  refine ⟨hscript, ?_⟩
  rw [succeedsOnce] at h
  dsimp only at h
  split at h
  · next value session e session' hrun hrun' =>
    exact ⟨.ok value, .error e, session, session', ⟨depth, hrun⟩, ⟨depth, hrun'⟩, Bool.true_eq_false.mp⟩
  · next e session value session' hrun hrun' =>
    exact ⟨.error e, .ok value, session, session', ⟨depth, hrun⟩, ⟨depth, hrun'⟩, Bool.false_ne_true⟩
  · cases h

/-- The tree of `[].map(2)`. -/
def idleMap : Program := [send (.array default []) "map" [.literal default (.int 2)]]

/-- The trees of `o := [at: { x | x + 1 }]` and `o.at(2)`. -/
def ownAt : Program :=
  let next := closure ["x"] (.binary default .add (.ident default "x") (.literal default (.int 1)))
  [.assign default (.ident default "o") (.object default [(⟨"at", default⟩, next)]),
   send (.ident default "o") "at" [.literal default (.int 2)]]

/-- The trees of `push := { a, b, c | b + c }` and `[1].push(2, 3)`. -/
def namedPush : Program :=
  let int (n : Int64) : Node := .literal default (.int n)
  let sum := closure ["a", "b", "c"] (.binary default .add (.ident default "b") (.ident default "c"))
  [.assign default (.ident default "push") sum, send (.array default [int 1]) "push" [int 2, int 3]]

/-- A method that has nothing to call, a member of the receiver under the name of a built-in method, and a function of
that name in the scope: the direct strategy does not look at any of them, the dispatch strategy does. -/
theorem strategies_tell_methods : TellsMethods idleMap ∧ TellsMethods ownAt ∧ TellsMethods namedPush := by
  have hmap : succeedsOnce 5 idleMap = true := by decide +kernel
  have hat : succeedsOnce 5 ownAt = true := by decide +kernel
  have hpush : succeedsOnce 5 namedPush = true := by decide +kernel
  exact ⟨tellsMethods_of_succeedsOnce (by decide +kernel) hmap, tellsMethods_of_succeedsOnce (by decide +kernel) hat,
    tellsMethods_of_succeedsOnce (by decide +kernel) hpush⟩

end Session

end DispatchLang
