import DispatchLang.Eval.Primitive
import DispatchLang.Eval.Tables

/-!
# Evaluation by type

Resolution of calls in a session, and declarations as the dispatch strategy sees them. A function
declaration adds a method to the generic function of its name; a type declaration adds a type to the
arena. Written types are looked up where they are written: first among the type variables of the
declaration and then in the scope.
-/

namespace DispatchLang.Dispatch

open Eval

/-! ## Resolution -/

/-- The outcome of resolving a call becomes part of the session: the types that were added and what could
be observed. The function with what it remembers now is stored by `store`. -/
def settle {ι : Type} (outcome : Outcome ι)
    (store : GenericFunction ι → Session → Session) : Eval (Except DispatchError (Resolution ι)) := do
  modify fun s =>
    store outcome.function
      { s with arena := outcome.arena, events := outcome.events.reverse ++ s.events }
  return outcome.result

/-- The types of some values, by which a call is resolved. -/
def tags (args : List Value) : Eval (List (Option TypeId)) := do
  let heap := (← get).heap
  return args.map fun v => some (v.tag heap)

/-- Applies an operator. -/
def invokeOperator (self : NodeEval) (symbol : String) (args : List Value) (scope : ScopeId) :
    Eval Value := do
  match (← get).operators.lookup symbol with
  | none => fail (.methodNotFound symbol "operator")
  | some f =>
    let outcome := f.dispatch (← tags args) (← get).arena
    match ← settle outcome fun f s => { s with operators := Assoc.insert symbol f s.operators } with
    | .error e => fail (.dispatch e)
    | .ok r => r.method.implementation.run self args scope

/-- The error of a call with a number of arguments that no method takes while all take the same
number. -/
def arityMismatch? (f : GenericFunction FunctionBody) (given : Nat) : Option Fault :=
  match f.methods.map (·.signature.length) with
  | [] => none
  | expected :: rest =>
    if expected = given || !rest.all (· = expected) then none
    else some (.arity (.exactly ("function '" ++ f.name ++ "'") expected given))

/-- Calls a function by its name. Inside a declared one the type variables stand for types. -/
def invokeFunction (self : NodeEval) (name : String) (args : List Value) (scope : ScopeId) :
    Eval Value := do
  match (← get).functions.lookup name with
  | none => fail (.undefinedVariable name)
  | some f =>
    let outcome := f.dispatch (← tags args) (← get).arena
    match ← settle outcome fun f s => { s with functions := Assoc.insert name f s.functions } with
    | .error e => fail ((arityMismatch? f args.length).getD (.dispatch e))
    | .ok r =>
      match r.method.implementation with
      | .primitive operation => operation.run self args scope
      | .declared params body outer =>
        let inner ← newScope outer
        let arena := (← get).arena
        defineAll inner (r.bindings.map fun (name, type) => (name, .typeRef type (arena.name type)))
        defineAll inner (params.zip args)
        runBody self body inner

/-- Evaluates an operator between two nodes. -/
def binaryNode (self : NodeEval) (op : BinaryOp) (left right : Node) (scope : ScopeId) :
    Eval Value := do
  let l ← self left scope
  match op, l with
  | .and, .bool false | .or, .bool true => return l
  | op, l =>
    let r ← self right scope
    invokeOperator self op.text [l, r] scope

/-- Applies an operator with one operand. -/
def unary (self : NodeEval) (op : UnaryOp) (operand : Value) (scope : ScopeId) : Eval Value :=
  match op with
  | .neg => invokeOperator self "neg" [operand] scope
  | .not => invokeOperator self "!" [operand] scope

/-- Calls a built-in method, or answers why there is none for these arguments: nothing if there is no
method of that name at all. The function `call` calls a value. -/
def invokeMethod (self : NodeEval) (call : Value → List Value → Eval Value) (name : String)
    (args : List Value) (scope : ScopeId) : Eval (Except (Option DispatchError) Value) := do
  match (← get).methods.lookup name with
  | none => return .error none
  | some f =>
    let outcome := f.dispatch (← tags args) (← get).arena
    match ← settle outcome fun f s => { s with methods := Assoc.insert name f s.methods } with
    | .ok r =>
      match r.method.implementation with
      | .primitive operation => return .ok (← operation.run self args scope)
      | .callback operation => return .ok (← operation.run call args)
    | .error e =>
      match e with
      | .noMethod _ _ => return .error (some e)
      | e => fail (.dispatch e)

/-! ## Written types -/

def lookupType (vars : TypeArena.Bindings) (scope : ScopeId) (name : String) :
    Eval (Option TypeId) := do
  match vars.lookup name with
  | some id => return some id
  | none =>
    match ← lookup scope name with
    | some (.typeRef id _) => return some id
    | _ => return none

mutual

/-- The type that a written type means. -/
def resolveType (vars : TypeArena.Bindings) (scope : ScopeId) : TypeExpr → Eval TypeId
  | .named span name => do
    match ← lookupType vars scope name with
    | some id => return id
    | none => failAt (.undefinedType name) span
  | .applied span name args => do
    match ← lookupType vars scope name with
    | some base =>
      let args ← resolveTypes vars scope args
      modifyTypes (·.applied base args)
    | none => failAt (.undefinedType name) span

/-- The types that several written types mean. -/
def resolveTypes (vars : TypeArena.Bindings) (scope : ScopeId) : List TypeExpr → Eval (List TypeId)
  | [] => return []
  | type :: types => do
    let id ← resolveType vars scope type
    return id :: (← resolveTypes vars scope types)

end

/-- The type that a written type means, or the type above all others if nothing is written. -/
def resolveOption (vars : TypeArena.Bindings) (scope : ScopeId) : Option TypeExpr → Eval TypeId
  | none => return .any
  | some type => resolveType vars scope type

/-- The type variables of a declaration, the last one first. A constraint may mention the variables before
it. -/
def typeParams (scope : ScopeId) :
    TypeArena.Bindings → List TypeParam → Eval TypeArena.Bindings
  | vars, [] => return vars
  | vars, p :: params => do
    let constraint ← resolveOption vars scope p.constraint
    let id ← modifyTypes (·.var p.name.val constraint)
    typeParams scope ((p.name.val, id) :: vars) params

def resolveFields (vars : TypeArena.Bindings) (scope : ScopeId) :
    List FieldDecl → Eval FieldTypes
  | [] => return []
  | f :: fields => do
    let id ← resolveType vars scope f.type
    return (f.name.val, id) :: (← resolveFields vars scope fields)

/-! ## Declarations -/

/-- What the name of an alternative is bound to: an instance if it has no fields, and else a
constructor. -/
def variantValue (type : TypeId) (typeName variant : String) (fields : FieldTypes) :
    Eval Value := do
  if fields.isEmpty then return .inst type typeName (some variant) []
  else return .constructor (← newId) ⟨type, typeName, variant, fields⟩

def declareVariants (vars : TypeArena.Bindings) (scope : ScopeId) (type : TypeId)
    (typeName : String) : List VariantDecl → Eval (List (String × FieldTypes))
  | [] => return []
  | v :: alternatives => do
    let fields ← resolveFields vars scope v.fields
    define scope v.name.val (← variantValue type typeName v.name.val fields)
    return (v.name.val, fields) :: (← declareVariants vars scope type typeName alternatives)

/-- Declares a type. The name is bound before fields are looked at, so these may mention the type. -/
def declareType (decl : TypeDecl) (scope : ScopeId) : Eval Value := do
  let name := decl.name.val
  let vars ← typeParams scope [] decl.typeParams
  let params := decl.typeParams.map (·.name.val)
  let parent ← resolveOption vars scope decl.parent
  let add (kind : TypeKind) : Eval TypeId := modifyTypes (·.add ⟨name, kind, some parent⟩)
  let redefine (id : TypeId) (kind : TypeKind) : Eval Unit :=
    modify fun s => { s with arena := s.arena.redefine id ⟨name, kind, some parent⟩ }
  let id ←
    match decl.body with
    | .abstract => add .abstract
    | .concrete => add .concrete
    | .struct fields => do
      let id ← add (.struct params [])
      define scope name (.typeRef id name)
      redefine id (.struct params (← resolveFields vars scope fields))
      pure id
    | .variants alternatives => do
      let id ← add (.variants params [])
      define scope name (.typeRef id name)
      redefine id (.variants params (← declareVariants vars scope id name alternatives))
      pure id
  define scope name (.typeRef id name)
  return .typeRef id name

def resolveParams (vars : TypeArena.Bindings) (scope : ScopeId) : List Param → Eval (List TypeId)
  | [] => return []
  | p :: params => do
    let id ← resolveOption vars scope p.annotation
    return id :: (← resolveParams vars scope params)

def declareFunction (head : FunctionHead) (body : Node) (scope : ScopeId) : Eval Value := do
  let name := head.name.val
  let vars ← typeParams scope [] head.typeParams
  let signature ← resolveParams vars scope head.params
  let method : Method FunctionBody :=
    ⟨vars.reverse.map Prod.snd, signature,
     .declared (head.params.map (·.name.val)) body scope⟩
  modify fun s =>
    let f := (s.functions.lookup name).getD (.empty name s.options.cache)
    { s with functions := Assoc.insert name (f.withMethod method) s.functions }
  define scope name (.generic name)
  return .generic name

end DispatchLang.Dispatch
