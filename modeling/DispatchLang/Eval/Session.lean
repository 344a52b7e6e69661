import DispatchLang.Eval.Fault
import DispatchLang.Value.Equal
import DispatchLang.Value.Match
import DispatchLang.Value.Render

/-!
# Sessions

A session is all that lasts while programs run: the scopes, the heap, the types, the generic functions,
and what has been printed and observed. Evaluation is a computation on a session that may halt, with an
error or because it was not allowed to nest deeply enough. What was done before an evaluation halted
stays done.

There are two strategies to evaluate a program. The *direct* one decides what to do by the shape of the
values; the *dispatch* one has a generic function for every operator, function and method, and decides by
the types of the values.
-/

namespace DispatchLang

/-! ## Strategies and options -/

/-- How a program is evaluated. -/
inductive Strategy where
  /-- By the shapes of values. -/
  | direct
  /-- By the types of values. -/
  | dispatch
deriving DecidableEq

/-- What can be chosen for a session. -/
structure Options where
  /-- Where an assignment binds a name that has no binding yet. -/
  assignment : AssignmentScope
  /-- Whether generic functions remember resolutions. -/
  cache : Bool

/-- What is chosen if nothing is said. -/
def Options.standard : Options := ⟨.local, true⟩

/-! ## Built-in implementations -/

/-- The built-in operations that call nothing back. -/
inductive Primitive where
  | arithmetic (op : BinaryOp) | concat | concatArrays | repeatText
  | comparison (op : BinaryOp) | equal | unequal | second | negate | not
  | print | len | typeOf | str | range | eval
  | join | push | pop | formatArray | arrayAt | arrayContains | reverse | sum
  | upper | lower | trim | split | stringContains | formatString | stringAt
  | keys | values | objectAt | has | set
deriving DecidableEq

/-- The built-in operations that call one of their arguments. -/
inductive Callback where
  | map | filter | reduce | call
deriving DecidableEq

/-- What a method of a function does. -/
inductive FunctionBody where
  /-- A built-in operation. -/
  | primitive (operation : Primitive)
  /-- The body of a declaration, in the scope of the declaration. -/
  | declared (params : List String) (body : Node) (scope : ScopeId)

/-- What a built-in method does. -/
inductive MethodBody where
  /-- An operation that calls nothing back. -/
  | primitive (operation : Primitive)
  /-- An operation that calls one of its arguments. -/
  | callback (operation : Callback)
deriving DecidableEq

/-! ## Sessions -/

/-- All that lasts while programs run. -/
structure Session where
  /-- What was chosen. -/
  options : Options
  /-- The scopes. -/
  scopes : ScopeTree Value
  /-- The arrays and objects. -/
  heap : Heap
  /-- The types. -/
  arena : TypeArena
  /-- The next unused identity. -/
  nextId : Nat
  /-- The generic functions behind the operators. -/
  operators : List (String × GenericFunction Primitive)
  /-- The generic functions that can be called by name. -/
  functions : List (String × GenericFunction FunctionBody)
  /-- The generic functions behind the methods. -/
  methods : List (String × GenericFunction MethodBody)
  /-- Whether what is printed can be written. -/
  printing : Bool
  /-- What has been printed. -/
  output : String
  /-- What has been observed, the latest first. -/
  events : List DispatchEvent

/-- Why an evaluation halts. -/
inductive Halt where
  /-- Something went wrong. -/
  | error (error : RuntimeError)
  /-- It nests more deeply than it was allowed to. -/
  | exhausted

/-- A computation on a session that may halt. What it did to the session before is kept. -/
abbrev Eval (α : Type) : Type := EStateM Halt Session α

/-- An evaluator for nodes in a scope. -/
abbrev NodeEval : Type := Node → ScopeId → Eval Value

namespace Eval

variable {α : Type}

/-! ## Errors -/

/-- Halts with an error whose place is not known yet. -/
def fail (fault : Fault) : Eval α := throw (.error ⟨fault, none⟩)

/-- Halts with an error at a place. -/
def failAt (fault : Fault) (span : Span) : Eval α := throw (.error ⟨fault, some span⟩)

/-- Halts if a check failed. -/
def check (result : Except Fault α) : Eval α :=
  match result with
  | .ok a => pure a
  | .error fault => fail fault

/-- Halts if a computation with numbers failed. -/
def checkNumber (result : Except NumberFault α) : Eval α :=
  match result with
  | .ok a => pure a
  | .error fault => fail (.number fault)

/-- Notes the place of an error that has none yet. -/
def located (span : Span) (action : Eval α) : Eval α := fun s =>
  match action s with
  | .error (.error e) s' => .error (.error (e.withSpan span)) s'
  | result => result

/-! ## Scopes -/

/-- What a name means. -/
def lookup (scope : ScopeId) (name : String) : Eval (Option Value) :=
  return (← get).scopes.get? scope name

/-- Binds a name in a scope. -/
def define (scope : ScopeId) (name : String) (value : Value) : Eval Unit :=
  modify fun s => { s with scopes := s.scopes.define scope name value }

/-- Binds several names in a scope, one after the other. -/
def defineAll (scope : ScopeId) (bindings : List (String × Value)) : Eval Unit :=
  bindings.forM fun (name, value) => define scope name value

def assign (scope : ScopeId) (name : String) (value : Value) : Eval Unit :=
  modify fun s => { s with scopes := s.scopes.assign s.options.assignment scope name value }

/-- Makes a scope inside another one. -/
def newScope (parent : ScopeId) : Eval ScopeId := modifyGet fun s =>
  let (scope, scopes) := s.scopes.child parent
  (scope, { s with scopes })

/-- Takes an unused identity. -/
def newId : Eval Nat := modifyGet fun s => (s.nextId, { s with nextId := s.nextId + 1 })

/-! ## Values -/

def text (value : Value) : Eval String := return value.text (← get).heap

/-- The text of a value inside another one. -/
def repr (value : Value) : Eval String := return value.repr (← get).heap

def texts (values : List Value) : Eval (List String) := do
  let s ← get
  return values.map (·.text s.heap)

/-- The name of the type of a value, or of its shape. -/
def typeText (strategy : Strategy) (value : Value) : Eval String := do
  let s ← get
  return match strategy with
    | .direct => value.shapeName s.heap
    | .dispatch => s.arena.name (value.tag s.heap)

/-- Does something to the types. -/
def modifyTypes (f : TypeArena → α × TypeArena) : Eval α := modifyGet fun s =>
  let (a, arena) := f s.arena
  (a, { s with arena })

/-- The type of arrays with the given elements: their common type decides, if they have one. -/
def arrayType (strategy : Strategy) (items : List Value) : Eval TypeId := do
  match strategy with
  | .direct => return .any
  | .dispatch =>
    let heap := (← get).heap
    let element :=
      match items.map (Value.tag heap) with
      | [] => TypeId.any
      | first :: rest => if rest.all (· = first) then first else .any
    modifyTypes (·.arrayOf element)

/-- Stores something in a new cell. -/
def alloc (cell : Cell) : Eval Nat := modifyGet fun s =>
  let (address, heap) := s.heap.alloc cell
  (address, { s with heap })

def newArray (strategy : Strategy) (items : List Value) : Eval Value := do
  let type ← arrayType strategy items
  return .array (← alloc (.array items.toArray type))

def newObject (entries : List (String × Value)) : Eval Value :=
  return .object (← alloc (.object entries))

/-- The elements of an array. -/
def items (address : Nat) : Eval (List Value) := return ((← get).heap.items address).toList

/-- The entries of an object. -/
def entries (address : Nat) : Eval (List (String × Value)) := return (← get).heap.entries address

def equal (a b : Value) : Eval Bool := return a.equal (← get).heap b

/-! ## Output -/

def printLine (line : String) : Eval Unit :=
  modify fun s => if s.printing then { s with output := s.output ++ line ++ "\n" } else s

end Eval

end DispatchLang
