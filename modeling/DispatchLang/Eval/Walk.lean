import DispatchLang.Eval.Direct
import DispatchLang.Eval.Dispatch

/-!
# Evaluation of program trees

`evalNode` says what each form of a program tree does, given an evaluator for its parts; `eval` ties the
knot with a bound on the depth of nesting. The two strategies differ only in operators, in calls of
functions by name, in built-in methods, and in declarations; everything else is evaluated in one way.
-/

namespace DispatchLang

namespace Eval

section

variable (strategy : Strategy) (self : NodeEval)

/-! ## Calls -/

def checkField (owner : String) (field : String) (expected : TypeId) (value : Value) :
    Eval Unit := do
  let s ← get
  let actual := value.tag s.heap
  if s.arena.isSubtype actual expected then return
  else
    fail (.mismatch (.fieldType field owner (s.arena.name expected) (s.arena.name actual)))

/-- Checks that values may be stored in the fields of an alternative. -/
def checkFields (owner : String) : FieldTypes → List Value → Eval Unit
  | (field, expected) :: fields, value :: values => do
    checkField owner field expected value
    checkFields owner fields values
  | _, _ => return

/-- Calls a value. The scope is the one of the call, in which quoted trees are evaluated. -/
def callValue (callee : Value) (args : List Value) (scope : ScopeId) : Eval Value := do
  match callee with
  | .closure _ params body outer =>
    check (checkArity "closure" params.length args.length)
    let inner ← newScope outer
    defineAll inner (params.zip args)
    runStatements self inner .nothing body
  | .function _ name params body outer =>
    check (checkArity ("function '" ++ name ++ "'") params.length args.length)
    let inner ← newScope outer
    defineAll inner (params.zip args)
    runBody self body inner
  | .generic name =>
    match strategy with
    | .direct => Direct.callFunction self name args scope
    | .dispatch => Dispatch.invokeFunction self name args scope
  | .constructor _ c =>
    check (checkArity ("constructor '" ++ c.variant ++ "'") c.fields.length args.length)
    checkFields c.variant c.fields args
    return .inst c.type c.typeName (some c.variant) ((c.fields.map Prod.fst).zip args)
  | other => fail (.mismatch (.notCallable (← typeText strategy other)))

/-- What a method call does where there is no built-in method: it calls what the receiver holds under
the name, or else what the name means in the scope with the receiver as first argument. Where neither
can be called it fails with the given fault. -/
def callMember (receiver : Value) (name : String) (args : List Value) (scope : ScopeId)
    (otherwise : Fault) : Eval Value := do
  match (receiver.ownField? (← get).heap name).filter Value.isCallable with
  | some member => callValue strategy self member args scope
  | none =>
    match ((← lookup scope name).filter Value.isCallable) with
    | some f => callValue strategy self f (receiver :: args) scope
    | none => fail otherwise

def callMethod (receiver : Value) (name : String) (args : List Value) (scope : ScopeId) :
    Eval Value := do
  let call (callee : Value) (args : List Value) := callValue strategy self callee args scope
  match strategy with
  | .direct =>
    match Direct.method? call receiver name args with
    | some action => action
    | none =>
      let notFound := .methodNotFound name (← typeText strategy receiver)
      callMember strategy self receiver name args scope notFound
  | .dispatch =>
    match ← Dispatch.invokeMethod self call name (receiver :: args) scope with
    | .ok value => return value
    | .error (some e) => callMember strategy self receiver name args scope (.dispatch e)
    | .error none =>
      let notFound := .methodNotFound name (← typeText strategy receiver)
      callMember strategy self receiver name args scope notFound

/-! ## Instances -/

/-- Evaluates the fields of a construction in order. Each has to be a declared one and may be given only
once. -/
def givenFields (declared : FieldTypes) (owner : String) (scope : ScopeId) :
    List (String × Value) → List (Located String × Node) → Eval (List (String × Value))
  | given, [] => return given
  | given, (field, node) :: fields => do
    if (declared.lookup field.val).isNone then
      failAt (.field (.unknown field.val owner)) field.span
    else if (given.lookup field.val).isSome then
      failAt (.field (.duplicate field.val)) field.span
    else
      let value ← self node scope
      givenFields declared owner scope (given ++ [(field.val, value)]) fields

/-- Brings the given fields into the declared order. Each declared field takes the value given for it,
which has to be of its type. -/
def orderFields (owner : String) :
    FieldTypes → List (String × Value) → Eval (List (String × Value))
  | [], _ => return []
  | (field, expected) :: declared, given => do
    match given.lookup field with
    | none => fail (.field (.missing field owner))
    | some value =>
      checkField owner field expected value
      return (field, value) :: (← orderFields owner declared (Assoc.erase field given))

/-- The type that instances are marked with: none in particular under the direct strategy, which tells
them apart by the name of their type. -/
def instanceType (id : TypeId) : TypeId :=
  match strategy with
  | .direct => .any
  | .dispatch => id

/-- Builds an instance of a type with fields or of an alternative with fields. -/
def construct (name : Located String) (fields : List (Located String × Node)) (scope : ScopeId) :
    Eval Value := do
  match ← lookup scope name.val with
  | some (.typeRef id typeName) =>
    match ((← get).arena.get id).kind with
    | .struct _ declared =>
      let given ← givenFields self declared typeName scope [] fields
      return .inst (instanceType strategy id) typeName none (← orderFields typeName declared given)
    | _ => fail (.mismatch (.noFields typeName))
  | some (.constructor _ c) =>
    let given ← givenFields self c.fields c.variant scope [] fields
    return .inst c.type c.typeName (some c.variant) (← orderFields c.variant c.fields given)
  | _ => failAt (.undefinedType name.val) name.span

/-! ## Patterns -/

def matchValue (pattern : Node) (value : Value) : Eval (Option (List (String × Value))) :=
  match value.matchPattern pattern with
  | .ok bindings => return bindings
  | .error e => throw (.error e)

/-- Assigns a value to a name or to the captures of a pattern. -/
def assignTo (target : Node) (value : Value) (scope : ScopeId) : Eval Unit := do
  match target with
  | .ident _ name => assign scope name value
  | .construct _ _ _ =>
    match ← matchValue target value with
    | some bindings => bindings.forM fun (name, bound) => assign scope name bound
    | none => failAt (.pattern (.destructuring (← repr value))) target.span
  | _ => failAt (.mismatch .assignmentTarget) target.span

/-- Runs the first arm whose pattern matches a value. -/
def runArms (value : Value) (scope : ScopeId) : List (Node × Node) → Eval Value
  | [] => do fail (.pattern (.noMatch (← repr value)))
  | (pattern, body) :: arms => do
    match ← matchValue pattern value with
    | none => runArms value scope arms
    | some bindings =>
      let inner ← newScope scope
      defineAll inner bindings
      runBody self body inner

/-! ## Nodes -/

/-- Evaluates several nodes in order. -/
def evalAll (nodes : List Node) (scope : ScopeId) : Eval (List Value) := nodes.mapM (self · scope)

/-- Evaluates the entries of an object literal in order. A key that is given again keeps its place and
gets the later value. -/
def evalEntries (scope : ScopeId) :
    List (String × Value) → List (Located String × Node) → Eval (List (String × Value))
  | done, [] => return done
  | done, (key, node) :: entries => do
    let value ← self node scope
    evalEntries scope (Assoc.insert key.val value done) entries

def evalForm (node : Node) (scope : ScopeId) : Eval Value := do
  match node with
  | .literal _ value => return .ofLiteral value
  | .ident _ name =>
    match ← lookup scope name with
    | some value => return value
    | none => fail (.undefinedVariable name)
  | .binary _ op left right =>
    match strategy with
    | .direct => Direct.binaryNode self op left right scope
    | .dispatch => Dispatch.binaryNode self op left right scope
  | .unary _ op operand =>
    let value ← self operand scope
    match strategy with
    | .direct => Direct.unary op value
    | .dispatch => Dispatch.unary self op value scope
  | .assign _ target value =>
    let v ← self value scope
    assignTo target v scope
    return v
  | .field _ subject member =>
    let receiver ← self subject scope
    fieldOf strategy receiver member.val
  | .call _ function args =>
    match ← lookup scope function.val with
    | none => fail (.undefinedVariable function.val)
    | some callee =>
      let args ← evalAll self args scope
      callValue strategy self callee args scope
  | .send _ receiver method args =>
    let receiver ← self receiver scope
    let args ← evalAll self args scope
    callMethod strategy self receiver method.val args scope
  | .block _ params body =>
    return .closure (← newId) (params.map (·.name.val)) body scope
  | .cases _ scrutinee arms =>
    let value ← self scrutinee scope
    runArms self value scope arms
  | .construct _ name fields => construct strategy self name fields scope
  | .typeDecl _ decl =>
    match strategy with
    | .direct => Direct.declareType decl scope
    | .dispatch => Dispatch.declareType decl scope
  | .function _ head body =>
    match strategy with
    | .direct => Direct.declareFunction head body scope
    | .dispatch => Dispatch.declareFunction head body scope
  | .capture _ _ | .refine _ _ _ => fail (.pattern .strayCapture)
  | .quoted _ body => return .quoted body
  | .array _ elements => newArray strategy (← evalAll self elements scope)
  | .object _ entries => newObject (← evalEntries self scope [] entries)
  | .pair _ _ _ => fail (.mismatch .strayPair)

/-- Evaluates a node. An error without a place is one of this node. -/
def evalNode : NodeEval := fun node scope => located node.span (evalForm strategy self node scope)

end

/-! ## The knot -/

/-- Evaluates a node that nests at most the given number of levels. -/
def eval (strategy : Strategy) : Nat → NodeEval
  | 0 => fun _ _ => throw .exhausted
  | n + 1 => evalNode strategy (eval strategy n)

end Eval

end DispatchLang
