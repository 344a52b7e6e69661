import DispatchLang.Eval.Session
import DispatchLang.Text.Case
import DispatchLang.Text.Basic

/-!
# Built-in operations

What the built-in functions and methods do once their arguments are known to be of the right kind. Both
strategies use these operations; they differ in how they find out which one to use and in what they say
if an argument is of the wrong kind.

An operation that calls something back works on the elements that the array had when it began.
-/

namespace DispatchLang.Eval

/-! ## Bodies -/

/-- Evaluates statements in order and answers the value of the last one, or `last` if there are none. -/
def runStatements (self : NodeEval) (scope : ScopeId) : Value → List Node → Eval Value
  | last, [] => return last
  | _, statement :: statements => do
    let value ← self statement scope
    runStatements self scope value statements

/-- Runs the body of a function declaration or a match arm: a block without parameters in the scope
itself, anything else as an expression. -/
def runBody (self : NodeEval) (body : Node) (scope : ScopeId) : Eval Value :=
  match body with
  | .block _ [] statements => runStatements self scope .nothing statements
  | body => self body scope

variable (strategy : Strategy)

/-! ## Functions -/

def printValues (values : List Value) : Eval Value := do
  printLine (" ".intercalate (← texts values))
  return .nothing

/-- The array of the integers from `start` to `stop`, without the last. -/
def rangeArray (start stop : Int64) : Eval Value := do
  let range ← checkNumber (Number.range start stop)
  newArray strategy (range.toList.map .int)

/-! ## Arrays -/

/-- The array of what `call` makes of the elements. -/
def mapArray (call : Value → Eval Value) (address : Nat) : Eval Value := do
  newArray strategy (← (← items address).mapM call)

/-- Checks that a callback has answered a truth value. -/
def callbackResult (method : String) : Value → Eval Bool
  | .bool b => return b
  | other => do fail (.mismatch (.callbackResult method (← typeText strategy other)))

/-- The array of the elements for which `call` answers true. -/
def filterArray (call : Value → Eval Value) (address : Nat) : Eval Value := do
  newArray strategy (← (← items address).filterM fun item => do
    callbackResult strategy "filter" (← call item))

/-- What `call` makes of the elements one after the other, beginning with `start`. -/
def reduceArray (call : Value → Value → Eval Value) (address : Nat) (start : Value) :
    Eval Value := do
  (← items address).foldlM call start

/-- The texts of the elements with a separator between them. -/
def joinArray (address : Nat) (separator : String) : Eval Value := do
  return .string (separator.intercalate (← texts (← items address)))

/-- Adds an element at the end of an array and answers the array. -/
def pushItem (address : Nat) (item : Value) : Eval Value := do
  modify fun s => { s with heap := s.heap.modifyItems address (·.push item) }
  return .array address

/-- Takes the last element from an array. -/
def popItem (address : Nat) : Eval Value := modifyGet fun s =>
  let last := ((s.heap.items address).back?).getD .nothing
  (last, { s with heap := s.heap.modifyItems address Array.pop })

/-- Fills a template with the texts of values. -/
def formatTemplate (template : String) (values : List Value) : Eval Value := do
  match Template.format template (← texts values) with
  | .ok text => return .string text
  | .error fault => fail (.template fault)

/-- The element that an index means. -/
def itemAt (sequence : List Value) (index : Int64) : Eval Value :=
  match (Number.resolveIndex index sequence.length).bind (sequence[·]?) with
  | some item => return item
  | none => fail (.field (.outOfBounds index sequence.length))

/-- Whether an array has an element that is equal to a value. -/
def arrayContains (address : Nat) (value : Value) : Eval Value := do
  let s ← get
  return .bool ((s.heap.items address).toList.any (·.equal s.heap value))

/-- The sum of the elements. -/
def sumArray (address : Nat) : Eval Value := do
  let total ← (← items address).foldlM (fun total item => do
    match item.number? with
    | some n => checkNumber (Number.arithmetic .add total n)
    | none => fail (.mismatch (.summand (← typeText strategy item)))) (Number.int 0)
  return .ofNumber total

/-- The array with the elements in reverse order. -/
def reverseArray (address : Nat) : Eval Value := do
  newArray strategy (← items address).reverse

/-- The elements of two arrays in one. -/
def concatArrays (a b : Nat) : Eval Value := do
  newArray strategy ((← items a) ++ (← items b))

/-! ## Strings -/

/-- The pieces of a string between the occurrences of a separator. -/
def splitString (text separator : String) : Eval Value :=
  newArray strategy ((Text.split text separator).map .string)

def characters (text : String) : List Value := text.toList.map fun c => .string (String.singleton c)

/-! ## Objects -/

def objectKeys (address : Nat) : Eval Value := do
  newArray strategy ((← entries address).map fun (key, _) => .string key)

def objectValues (address : Nat) : Eval Value := do
  newArray strategy ((← entries address).map Prod.snd)

def objectAt (address : Nat) (key : String) : Eval Value := do
  return ((← entries address).lookup key).getD .nothing

/-- Whether an object holds something under a key. -/
def objectHas (address : Nat) (key : String) : Eval Value := do
  return .bool ((← entries address).lookup key).isSome

/-- Stores something under a key of an object and answers the object. -/
def objectSet (address : Nat) (key : String) (value : Value) : Eval Value := do
  modify fun s => { s with heap := s.heap.setEntry address key value }
  return .object address

/-! ## Members -/

/-- What a value holds under a field name. -/
def fieldOf (receiver : Value) (field : String) : Eval Value := do
  let heap := (← get).heap
  match if field = "length" then receiver.length? heap else none with
  | some n => return .ofCount n
  | none =>
    match receiver with
    | .inst _ _ _ _ | .object _ =>
      match receiver.ownField? heap field with
      | some value => return value
      | none => fail (.field (.absent field (← typeText strategy receiver)))
    | _ => fail (.field (.inaccessible field (← typeText strategy receiver)))

end DispatchLang.Eval
