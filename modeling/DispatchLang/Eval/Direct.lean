import DispatchLang.Eval.Operations

/-!
# Evaluation by shape

The built-in operators, functions and methods as the direct strategy sees them: each looks at the shapes
of its operands and either knows what to do or says what is wrong. Declared types and annotations play no
role, so every field of a declared type takes every value.
-/

namespace DispatchLang.Direct

open Eval

/-! ## Operators -/

/-- Says that an operator does not take operands of these types. -/
def operandMismatch (op : BinaryOp) (left right : Value) : Eval Value := do
  fail (.mismatch (.operands op (← typeText .direct left) (← typeText .direct right)))

/-- Applies an operator that looks at both operands. -/
def binary (op : BinaryOp) (left right : Value) : Eval Value := do
  match op, left, right with
  | .eq, left, right => return .bool (← equal left right)
  | .ne, left, right => return .bool (!(← equal left right))
  | .add, .array a, .array b => concatArrays .direct a b
  | .mul, .string text, .int n | .mul, .int n, .string text =>
    return .string (← checkNumber (Number.repeatText text n))
  | op, left, right =>
    match op, left, right with
    | .add, .string _, _ | .add, _, .string _ => return .string ((← text left) ++ (← text right))
    | op, .string a, .string b =>
      if op.isComparison then return .bool (Number.holds op (some (compare a b)))
      else operandMismatch op left right
    | op, left, right =>
      match left.number?, right.number? with
      | some a, some b =>
        if op.isComparison then return .bool (Number.satisfies op a b)
        else return .ofNumber (← checkNumber (Number.arithmetic op a b))
      | _, _ => operandMismatch op left right

/-- Applies an operator with one operand. -/
def unary (op : UnaryOp) (operand : Value) : Eval Value := do
  match op, operand with
  | .neg, .int n => return .ofNumber (← checkNumber (Number.negate (.int n)))
  | .neg, .float x => return .float (-x)
  | .not, .bool b => return .bool (!b)
  | op, operand => fail (.mismatch (.unaryOperand op (← typeText .direct operand)))

/-- The truth value that an operand of `&&` or `||` has to be. -/
def logicalOperand (op : BinaryOp) : Value → Eval Bool
  | .bool b => return b
  | other => do fail (.mismatch (.logicalOperand op (← typeText .direct other)))

/-- Whether the first operand decides what `&&` or `||` answers. -/
def decides (op : BinaryOp) (left : Bool) : Bool :=
  match op with
  | .and => !left
  | .or => left
  | _ => false

/-- Evaluates an operator between two nodes. -/
def binaryNode (self : NodeEval) (op : BinaryOp) (left right : Node) (scope : ScopeId) :
    Eval Value := do
  if op.isLogical then
    let l ← logicalOperand op (← self left scope)
    if decides op l then return .bool l
    else return .bool (← logicalOperand op (← self right scope))
  else
    let l ← self left scope
    let r ← self right scope
    binary op l r

/-! ## Functions -/

def functionNames : List String := ["print", "len", "type", "str", "range", "eval"]

def callFunction (self : NodeEval) (name : String) (args : List Value) (scope : ScopeId) :
    Eval Value := do
  let one : Eval Value := do
    check (checkArity name 1 args.length)
    return args.headD .nothing
  match name with
  | "print" => printValues args
  | "len" =>
    let value ← one
    match value.length? (← get).heap with
    | some n => return .ofCount n
    | none => fail (.mismatch (.lengthOf (← typeText .direct value)))
  | "type" => return .string (← typeText .direct (← one))
  | "str" => return .string (← text (← one))
  | "range" =>
    match args with
    | [.int stop] => rangeArray .direct 0 stop
    | [.int start, .int stop] => rangeArray .direct start stop
    | [_] | [_, _] => fail (.mismatch .rangeArguments)
    | _ => fail (.arity (.either "range" 1 2 args.length))
  | "eval" =>
    match ← one with
    | .quoted body => self body scope
    | other => fail (.mismatch (.evalArgument (← typeText .direct other)))
  | _ => fail (.undefinedVariable name)

/-! ## Methods -/

def intArgument (method : String) : Value → Eval Int64
  | .int n => return n
  | other => do fail (.mismatch (.intArgument method (← typeText .direct other)))

def stringArgument (method : String) : Value → Eval String
  | .string s => return s
  | other => do fail (.mismatch (.stringArgument method (← typeText .direct other)))

/-- A method without arguments. -/
def withNone (name : String) (args : List Value) (action : Eval Value) : Eval Value := do
  check (checkArity ("method '" ++ name ++ "'") 0 args.length)
  action

/-- A method with one argument. -/
def withOne (name : String) (args : List Value) (action : Value → Eval Value) : Eval Value := do
  check (checkArity ("method '" ++ name ++ "'") 1 args.length)
  action (args.headD .nothing)

def withTwo (name : String) (args : List Value) (action : Value → Value → Eval Value) :
    Eval Value := do
  check (checkArity ("method '" ++ name ++ "'") 2 args.length)
  action (args.headD .nothing) (args.getD 1 .nothing)

/-- The built-in method of an array, if there is one of that name. The function `call` calls a
value. -/
def arrayMethod? (call : Value → List Value → Eval Value) (address : Nat) (name : String)
    (args : List Value) : Option (Eval Value) :=
  match name with
  | "map" => some <| withOne name args fun f => mapArray .direct (fun x => call f [x]) address
  | "filter" => some <| withOne name args fun f =>
    filterArray .direct (fun x => call f [x]) address
  | "reduce" => some <| withTwo name args fun f start =>
    reduceArray (fun total x => call f [total, x]) address start
  | "join" => some <|
    match args with
    | [] => joinArray address ","
    | [separator] => do joinArray address (← stringArgument name separator)
    | _ => fail (.arity (.either ("method '" ++ name ++ "'") 0 1 args.length))
  | "push" => some <| withOne name args fun item => pushItem address item
  | "pop" => some <| withNone name args (popItem address)
  | "format" => some <| withOne name args fun template => do
    formatTemplate (← stringArgument name template) (← items address)
  | "at" => some <| withOne name args fun index => do
    itemAt (← items address) (← intArgument name index)
  | "contains" => some <| withOne name args fun value => arrayContains address value
  | "reverse" => some <| withNone name args (reverseArray .direct address)
  | "sum" => some <| withNone name args (sumArray .direct address)
  | _ => none

def stringMethod? (value name : String) (args : List Value) : Option (Eval Value) :=
  match name with
  | "upper" => some <| withNone name args (return .string (Text.upper value))
  | "lower" => some <| withNone name args (return .string (Text.lower value))
  | "trim" => some <| withNone name args (return .string (Text.trim value))
  | "split" => some <| withOne name args fun separator => do
    splitString .direct value (← stringArgument name separator)
  | "contains" => some <| withOne name args fun needle => do
    return .bool (Text.contains value (← stringArgument name needle))
  | "format" => some <| formatTemplate value args
  | "at" => some <| withOne name args fun index => do
    itemAt (characters value) (← intArgument name index)
  | _ => none

def objectMethod? (address : Nat) (name : String) (args : List Value) : Option (Eval Value) :=
  match name with
  | "keys" => some <| withNone name args (objectKeys .direct address)
  | "values" => some <| withNone name args (objectValues .direct address)
  | "at" => some <| withOne name args fun key => do
    objectAt address (← stringArgument name key)
  | "has" => some <| withOne name args fun key => do
    objectHas address (← stringArgument name key)
  | "set" => some <| withTwo name args fun key value => do
    objectSet address (← stringArgument name key) value
  | _ => none

def method? (call : Value → List Value → Eval Value) (receiver : Value) (name : String)
    (args : List Value) : Option (Eval Value) :=
  match receiver with
  | .array address => arrayMethod? call address name args
  | .string value => stringMethod? value name args
  | .object address => objectMethod? address name args
  | callee => if callee.isCallable && name = "call" then some (call callee args) else none

/-! ## Declarations -/

/-- The fields of a declaration, all of the type above all others. -/
def fieldTypes (fields : List FieldDecl) : FieldTypes := fields.map fun f => (f.name.val, .any)

/-- What the name of an alternative is bound to: an instance if it has no fields, and else a
constructor. Instances are told apart by the name of their type alone. -/
def variantValue (typeName variant : String) (fields : FieldTypes) : Eval Value := do
  if fields.isEmpty then return .inst .any typeName (some variant) []
  else return .constructor (← newId) ⟨.any, typeName, variant, fields⟩

def declareType (decl : TypeDecl) (scope : ScopeId) : Eval Value := do
  let name := decl.name.val
  let kind ←
    match decl.body with
    | .abstract => pure TypeKind.abstract
    | .concrete => pure .concrete
    | .struct fields => pure (.struct [] (fieldTypes fields))
    | .variants alternatives =>
      alternatives.forM fun v => do
        define scope v.name.val (← variantValue name v.name.val (fieldTypes v.fields))
      pure (.variants [] (alternatives.map fun v => (v.name.val, fieldTypes v.fields)))
  let id ← modifyTypes (·.add ⟨name, kind, some .any⟩)
  define scope name (.typeRef id name)
  return .typeRef id name

def declareFunction (head : FunctionHead) (body : Node) (scope : ScopeId) : Eval Value := do
  let f : Value := .function (← newId) head.name.val (head.params.map (·.name.val)) body scope
  define scope head.name.val f
  return f

end DispatchLang.Direct
