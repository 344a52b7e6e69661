import DispatchLang.Eval.Walk
import DispatchLang.Grammar.Expression

/-!
# Running programs

A session begins with the built-in names and is fed one program after another. A program that fails does
not end the session, and what it did before it failed stays.
-/

namespace DispatchLang

/-! ## The beginning of a session -/

namespace Session

/-- The names of the built-in types, with what they are bound to. -/
def typeBindings : List (String × Value) :=
  builtinTypes.zipIdx.map fun (d, id) => (d.name, .typeRef id d.name)

/-- The tree of scopes in which the root binds the given names. -/
def rootBinding (bindings : List (String × Value)) : ScopeTree Value :=
  bindings.foldl (fun t (name, value) => t.define ScopeTree.root name value) .initial

/-- The names that are bound at the beginning. -/
def builtinBindings : List (String × Value) :=
  Direct.functionNames.map (fun name => (name, .generic name)) ++ typeBindings

/-- A session in which nothing has happened yet. -/
def fresh (strategy : Strategy) (options : Options) : Session :=
  let bare : Session :=
    { options
      scopes := rootBinding builtinBindings
      heap := .empty
      arena := .initial
      nextId := 0
      operators := []
      functions := []
      methods := []
      printing := true
      output := ""
      events := [] }
  match strategy with
  | .direct => bare
  | .dispatch =>
    let (element, arena) := bare.arena.var "T" .any
    let (array, arena) := arena.arrayOf element
    { bare with
      arena
      operators := Tables.build options.cache Tables.operators
      functions := Tables.build options.cache
        (Tables.functions.map fun e => ⟨e.name, e.typeVars, e.signature, .primitive e.body⟩)
      methods := Tables.build options.cache (Tables.methods element array) }

end Session

/-! ## Errors -/

/-- Why a program has no value. -/
inductive ProgramError where
  /-- It is not a program. -/
  | malformed (error : SyntaxError)
  /-- It failed while it ran. -/
  | failed (error : RuntimeError)
  /-- It nests more deeply than is allowed. -/
  | exhausted

namespace ProgramError

def kind? : ProgramError → Option ErrorKind
  | .malformed _ => some .parse
  | .failed e => some e.fault.kind
  | .exhausted => none

/-- The text of an error. -/
def message : ProgramError → String
  | .malformed e => e.message
  | .failed e => e.fault.message
  | .exhausted => "evaluation nests too deeply"

/-- Where an error arose. -/
def span? : ProgramError → Option Span
  | .malformed e => some e.span
  | .failed e => e.span
  | .exhausted => none

end ProgramError

/-! ## Running -/

/-- How deeply an evaluation may nest. -/
def depthLimit : Nat := 1000000

namespace Session

/-- Runs a program and answers the value of its last statement. -/
def run (strategy : Strategy) (program : Program) (session : Session) :
    Except ProgramError Value × Session :=
  match Eval.runStatements (Eval.eval strategy depthLimit) ScopeTree.root .nothing program
    session with
  | .ok value session => (.ok value, session)
  | .error (.error e) session => (.error (.failed e), session)
  | .error .exhausted session => (.error .exhausted, session)

/-- Reads a program from its text and runs it. -/
def feed (strategy : Strategy) (source : String) (session : Session) :
    Except ProgramError Value × Session :=
  match Program.parse source with
  | .ok program => session.run strategy program
  | .error e => (.error (.malformed e), session)

/-- The text of a value. -/
def display (session : Session) (value : Value) : String := value.text session.heap

/-- The name of the type of a value, or of its shape. -/
def typeText (strategy : Strategy) (session : Session) (value : Value) : String :=
  match strategy with
  | .direct => value.shapeName session.heap
  | .dispatch => session.arena.name (value.tag session.heap)

/-- What has been observed, in order, in the form in which it is shown. -/
def eventTexts (session : Session) : List String :=
  session.events.reverse.map (·.text session.arena)

/-- The session with nothing printed and nothing observed yet. -/
def cleared (session : Session) : Session := { session with output := "", events := [] }

/-- The names bound in the root that were not bound at the beginning, in order. -/
def newGlobals (session : Session) : List String :=
  (session.scopes.localNames ScopeTree.root).filter fun name =>
    (builtinBindings.lookup name).isNone

end Session

/-- Runs a program in a session of its own. The answer is the text of its value, or an error, and what it
printed. -/
def runProgram (strategy : Strategy) (options : Options) (source : String) :
    Except ProgramError String × String :=
  let (result, session) := (Session.fresh strategy options).feed strategy source
  (result.map session.display, session.output)

end DispatchLang
