import DispatchLang.Eval.Operations

/-!
# Built-in methods of the dispatch strategy

The implementations behind the built-in operators, functions and methods of the dispatch strategy.
Resolution has already matched the types of the arguments against a signature, but a declared type can
be placed below a built-in one, and its instances are then matched without being numbers, strings or
arrays; such an argument is refused here.
-/

namespace DispatchLang.Primitive

open Eval

/-! ## Arguments -/

/-- The number that an argument has to be. -/
def number (value : Value) : Eval Number :=
  match value.number? with
  | some n => return n
  | none => do fail (.mismatch (.expectedNumber (← text value)))

/-- The string that an argument has to be. -/
def string : Value → Eval String
  | .string s => return s
  | other => do fail (.mismatch (.expectedString (← repr other)))

/-- The integer that an argument has to be. -/
def int : Value → Eval Int64
  | .int n => return n
  | other => do fail (.mismatch (.expectedInt (← repr other)))

/-- The truth value that an argument has to be. -/
def boolean : Value → Eval Bool
  | .bool b => return b
  | other => do fail (.mismatch (.expectedBoolean (← repr other)))

/-- The array that an argument has to be. -/
def array : Value → Eval Nat
  | .array address => return address
  | other => do fail (.mismatch (.expectedArray (← repr other)))

/-- The object that an argument has to be. -/
def object : Value → Eval Nat
  | .object address => return address
  | other => do fail (.mismatch (.expectedObject (← repr other)))

/-! ## Implementations -/

/-- Compares two strings or two numbers. -/
def compareValues (op : BinaryOp) (a b : Value) : Eval Value := do
  match a, b with
  | .string a, .string b => return .bool (Number.holds op (some (compare a b)))
  | a, b =>
    let a ← number a
    let b ← number b
    return .bool (Number.satisfies op a b)

def run (self : NodeEval) (operation : Primitive) (args : List Value) (scope : ScopeId) :
    Eval Value := do
  let a := args.headD .nothing
  let b := args.getD 1 .nothing
  match operation with
  | .arithmetic op =>
    let m ← number a
    let n ← number b
    return .ofNumber (← checkNumber (Number.arithmetic op m n))
  | .concat => return .string ((← text a) ++ (← text b))
  | .concatArrays =>
    match a, b with
    | .array a, .array b => Eval.concatArrays .dispatch a b
    | _, _ => fail (.mismatch .expectedArrays)
  | .repeatText =>
    match a, b with
    | .string text, .int n | .int n, .string text =>
      return .string (← checkNumber (Number.repeatText text n))
    | _, _ => fail (.mismatch .expectedStringAndInt)
  | .comparison op => compareValues op a b
  | .equal => return .bool (← Eval.equal a b)
  | .unequal => return .bool (!(← Eval.equal a b))
  | .second => return .bool (← boolean b)
  | .negate => return .ofNumber (← checkNumber (Number.negate (← number a)))
  | .not => return .bool (!(← boolean a))
  | .print => printValues args
  | .len =>
    match a.length? (← get).heap with
    | some n => return .ofCount n
    | none => fail (.mismatch (.lengthOf (← repr a)))
  | .typeOf => return .string (← typeText .dispatch a)
  | .str => return .string (← text a)
  | .range =>
    match args with
    | [stop] => do rangeArray .dispatch 0 (← int stop)
    | [start, stop] => do
      let start ← int start
      rangeArray .dispatch start (← int stop)
    | _ => fail (.arity (.either "range" 1 2 args.length))
  | .eval =>
    match a with
    | .quoted body => self body scope
    | other => fail (.mismatch (.evalArgument (← repr other)))
  | .join =>
    let separator ← if args.length < 2 then pure "," else string b
    joinArray (← array a) separator
  | .push =>
    match a with
    | .array address => pushItem address b
    | other => return other
  | .pop =>
    match a with
    | .array address => popItem address
    | _ => return .nothing
  | .formatArray =>
    let values ← items (← array a)
    formatTemplate (← string b) values
  | .arrayAt =>
    let values ← items (← array a)
    itemAt values (← int b)
  | .arrayContains => Eval.arrayContains (← array a) b
  | .reverse => reverseArray .dispatch (← array a)
  | .sum => sumArray .dispatch (← array a)
  | .upper => return .string (Text.upper (← string a))
  | .lower => return .string (Text.lower (← string a))
  | .trim => return .string (Text.trim (← string a))
  | .split =>
    let text ← string a
    splitString .dispatch text (← string b)
  | .stringContains =>
    let text ← string a
    return .bool (Text.contains text (← string b))
  | .formatString => formatTemplate (← string a) args.tail
  | .stringAt =>
    let text ← string a
    itemAt (characters text) (← int b)
  | .keys => objectKeys .dispatch (← object a)
  | .values => objectValues .dispatch (← object a)
  | .objectAt =>
    let key ← string b
    Eval.objectAt (← object a) key
  | .has =>
    let key ← string b
    objectHas (← object a) key
  | .set =>
    let key ← string b
    match a with
    | .object address => objectSet address key (args.getD 2 .nothing)
    | other => return other

end DispatchLang.Primitive

namespace DispatchLang.Callback

open Eval

/-- Runs a built-in operation that calls one of its arguments by the function `call`. -/
def run (call : Value → List Value → Eval Value) (operation : Callback) (args : List Value) :
    Eval Value := do
  let a := args.headD .nothing
  let f := args.getD 1 .nothing
  match operation with
  | .map => mapArray .dispatch (fun x => call f [x]) (← Primitive.array a)
  | .filter => filterArray .dispatch (fun x => call f [x]) (← Primitive.array a)
  | .reduce =>
    reduceArray (fun total x => call f [total, x]) (← Primitive.array a) (args.getD 2 .nothing)
  | .call => call a args.tail

end DispatchLang.Callback
