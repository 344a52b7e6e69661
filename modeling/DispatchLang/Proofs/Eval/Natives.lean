import DispatchLang.Eval.Walk
import DispatchLang.Proofs.Eval.Invocation

/-!
# Evaluation with other built-in operations

What can be said of the calls of built-in operations in a run? A run is not a list of calls that could be looked
at, but the operations can be replaced: if a run does not change when an operation does something else for some
arguments, then it is not called with these. `Natives` are implementations of the built-in operations, which are
told the signature that the arguments have been matched with, and `Natives.eval` is evaluation by type with them.

## Main definitions

* `Natives.eval`: evaluation by type with other built-in operations.

## Main results

* `Natives.eval_builtin`: with the operations of the dispatch strategy it is the evaluation of that strategy.
-/

namespace DispatchLang

/-! ## Invocations -/

namespace Dispatch

variable {ι : Type} {self : NodeEval} {args : List Value} {scope : ScopeId}

theorem get_bind {α : Type} (g : Session → Eval α) (t : Session) :
    (MonadState.get >>= g) t = g t t := rfl

theorem tags_bind {α : Type} (args : List Value) (g : List (Option TypeId) → Eval α) (t : Session) :
    (tags args >>= g) t = g (args.map fun v => some (v.tag t.heap)) t := rfl

theorem settle_bind {α : Type} (table : TableOf ι) {out : Outcome ι} {t : Session} {name : String}
    {store : GenericFunction ι → Session → Session}
    {g : Except DispatchError (Resolution ι) → Eval α}
    (hstore : store out.function
      { t with arena := out.arena, events := out.events.reverse ++ t.events } =
        table.called name out t) :
    (settle out store >>= g) t = g out.result (table.called name out t) := by
  change g out.result (store out.function _) = _
  rw [hstore]

theorem dispatch_tags (f : GenericFunction ι) (args : List Value) (heap : Heap) (arena : TypeArena) :
    f.dispatch (args.map fun v => some (v.tag heap)) arena =
      f.resolve (args.map (Value.tag heap)) arena := by
  have hmap : (args.map fun v => some (v.tag heap)) = (args.map (Value.tag heap)).map some := by
    rw [List.map_map]
    rfl
  rw [GenericFunction.dispatch, hmap, f.tags_some]

theorem invokeOperator_eq (self : NodeEval) (symbol : String) (args : List Value) (scope : ScopeId) :
    invokeOperator self symbol args scope =
      TableOf.operators.invoke symbol args (Eval.fail (.methodNotFound symbol "operator"))
        fun _ result =>
          match result with
          | .error e => Eval.fail (.dispatch e)
          | .ok r => r.method.implementation.run self args scope := by
  funext t
  rw [invokeOperator, get_bind, TableOf.invoke]
  have htable : TableOf.operators.functions t.dispatcher = t.operators := rfl
  rw [htable]
  cases t.operators.lookup symbol with
  | none => rfl
  | some f =>
    dsimp only
    rw [tags_bind, get_bind, dispatch_tags]
    exact settle_bind TableOf.operators rfl

def runDeclared (self : NodeEval) (params : List String) (body : Node) (outer : ScopeId)
    (bindings : TypeArena.Bindings) (args : List Value) : Eval Value := do
  let inner ← Eval.newScope outer
  let arena := (← get).arena
  Eval.defineAll inner (bindings.map fun (name, type) => (name, .typeRef type (arena.name type)))
  Eval.defineAll inner (params.zip args)
  Eval.runBody self body inner

theorem invokeFunction_eq (self : NodeEval) (name : String) (args : List Value) (scope : ScopeId) :
    invokeFunction self name args scope =
      TableOf.functionsByName.invoke name args (Eval.fail (.undefinedVariable name))
        fun f result =>
          match result with
          | .error e => Eval.fail ((arityMismatch? f args.length).getD (.dispatch e))
          | .ok r =>
            match r.method.implementation with
            | .primitive operation => operation.run self args scope
            | .declared params body outer => runDeclared self params body outer r.bindings args := by
  funext t
  rw [invokeFunction, get_bind, TableOf.invoke]
  have htable : TableOf.functionsByName.functions t.dispatcher = t.functions := rfl
  rw [htable]
  cases t.functions.lookup name with
  | none => rfl
  | some f =>
    dsimp only
    rw [tags_bind, get_bind, dispatch_tags]
    exact settle_bind TableOf.functionsByName rfl

theorem invokeMethod_eq (self : NodeEval) (call : Value → List Value → Eval Value) (name : String)
    (args : List Value) (scope : ScopeId) :
    invokeMethod self call name args scope =
      TableOf.methods.invoke name args (return .error none) fun _ result =>
        match result with
        | .ok r =>
          match r.method.implementation with
          | .primitive operation => return .ok (← operation.run self args scope)
          | .callback operation => return .ok (← operation.run call args)
        | .error e =>
          match e with
          | .noMethod _ _ => return .error (some e)
          | e => Eval.fail (.dispatch e) := by
  funext t
  rw [invokeMethod, get_bind, TableOf.invoke]
  have htable : TableOf.methods.functions t.dispatcher = t.methods := rfl
  rw [htable]
  cases t.methods.lookup name with
  | none => rfl
  | some f =>
    dsimp only
    rw [tags_bind, get_bind, dispatch_tags]
    exact settle_bind TableOf.methods rfl

end Dispatch

/-! ## Built-in operations -/

/-- Implementations of the built-in operations. They are told the signature of the method that was found. -/
structure Natives where
  /-- The operations that call nothing back. -/
  primitive : NodeEval → Primitive → List TypeId → List Value → ScopeId → Eval Value
  /-- The operations that call one of their arguments. -/
  callback : (Value → List Value → Eval Value) → Callback → List TypeId → List Value → Eval Value

namespace Natives

open Eval

/-- The implementations of the dispatch strategy. -/
def builtin : Natives where
  primitive self operation _ args scope := operation.run self args scope
  callback call operation _ args := operation.run call args

section

variable (natives : Natives) (self : NodeEval)

/-! ## Calls -/

def invokeOperator (symbol : String) (args : List Value) (scope : ScopeId) : Eval Value :=
  TableOf.operators.invoke symbol args (fail (.methodNotFound symbol "operator")) fun _ result =>
    match result with
    | .error e => fail (.dispatch e)
    | .ok r => natives.primitive self r.method.implementation r.method.signature args scope

def invokeFunction (name : String) (args : List Value) (scope : ScopeId) : Eval Value :=
  TableOf.functionsByName.invoke name args (fail (.undefinedVariable name)) fun f result =>
    match result with
    | .error e => fail ((Dispatch.arityMismatch? f args.length).getD (.dispatch e))
    | .ok r =>
      match r.method.implementation with
      | .primitive operation => natives.primitive self operation r.method.signature args scope
      | .declared params body outer => Dispatch.runDeclared self params body outer r.bindings args

/-- Calls a built-in method, or answers why there is none for these arguments. -/
def invokeMethod (call : Value → List Value → Eval Value) (name : String) (args : List Value)
    (scope : ScopeId) : Eval (Except (Option DispatchError) Value) :=
  TableOf.methods.invoke name args (return .error none) fun _ result =>
    match result with
    | .ok r =>
      match r.method.implementation with
      | .primitive operation =>
        return .ok (← natives.primitive self operation r.method.signature args scope)
      | .callback operation => return .ok (← natives.callback call operation r.method.signature args)
    | .error e =>
      match e with
      | .noMethod _ _ => return .error (some e)
      | e => fail (.dispatch e)

def callValue (callee : Value) (args : List Value) (scope : ScopeId) : Eval Value :=
  match callee with
  | .generic name => natives.invokeFunction self name args scope
  | callee => Eval.callValue .dispatch self callee args scope

/-- What a method call does where there is no built-in method. -/
def callMember (receiver : Value) (name : String) (args : List Value) (scope : ScopeId)
    (otherwise : Fault) : Eval Value := do
  match (receiver.ownField? (← get).heap name).filter Value.isCallable with
  | some member => natives.callValue self member args scope
  | none =>
    match ((← lookup scope name).filter Value.isCallable) with
    | some f => natives.callValue self f (receiver :: args) scope
    | none => fail otherwise

def callMethod (receiver : Value) (name : String) (args : List Value) (scope : ScopeId) : Eval Value := do
  let call (callee : Value) (args : List Value) := natives.callValue self callee args scope
  match ← natives.invokeMethod self call name (receiver :: args) scope with
  | .ok value => return value
  | .error (some e) => natives.callMember self receiver name args scope (.dispatch e)
  | .error none =>
    let notFound := .methodNotFound name (← typeText .dispatch receiver)
    natives.callMember self receiver name args scope notFound

/-! ## Forms -/

/-- Evaluates an operator between two nodes. -/
def binaryNode (op : BinaryOp) (left right : Node) (scope : ScopeId) : Eval Value := do
  let l ← self left scope
  match op, l with
  | .and, .bool false | .or, .bool true => return l
  | op, l =>
    let r ← self right scope
    natives.invokeOperator self op.text [l, r] scope

/-- Applies an operator with one operand. -/
def unary (op : UnaryOp) (operand : Value) (scope : ScopeId) : Eval Value :=
  match op with
  | .neg => natives.invokeOperator self "neg" [operand] scope
  | .not => natives.invokeOperator self "!" [operand] scope

def form (node : Node) (scope : ScopeId) : Eval Value := do
  match node with
  | .binary _ op left right => natives.binaryNode self op left right scope
  | .unary _ op operand => natives.unary self op (← self operand scope) scope
  | .call _ function args =>
    match ← lookup scope function.val with
    | none => fail (.undefinedVariable function.val)
    | some callee => natives.callValue self callee (← evalAll self args scope) scope
  | .send _ receiver method args =>
    let receiver ← self receiver scope
    natives.callMethod self receiver method.val (← evalAll self args scope) scope
  | node => evalForm .dispatch self node scope

end

/-- Evaluates a node that nests at most the given number of levels. -/
def eval (natives : Natives) : Nat → NodeEval
  | 0 => fun _ _ => throw .exhausted
  | n + 1 => fun node scope => located node.span (natives.form (natives.eval n) node scope)

/-! ## The operations of the dispatch strategy -/

section

variable (self : NodeEval) (scope : ScopeId)

theorem callValue_builtin (callee : Value) (args : List Value) :
    builtin.callValue self callee args scope = Eval.callValue .dispatch self callee args scope := by
  cases callee with
  | generic name => exact (Dispatch.invokeFunction_eq self name args scope).symm
  | _ => rfl

theorem callMethod_builtin (receiver : Value) (name : String) (args : List Value) :
    builtin.callMethod self receiver name args scope =
      Eval.callMethod .dispatch self receiver name args scope := by
  have hmember (otherwise : Fault) : builtin.callMember self receiver name args scope otherwise =
      Eval.callMember .dispatch self receiver name args scope otherwise := by
    rw [callMember, Eval.callMember]
    refine bind_congr fun s => ?_
    cases (receiver.ownField? s.heap name).filter Value.isCallable with
    | some member => exact callValue_builtin self scope member args
    | none =>
      refine bind_congr fun found => ?_
      cases found.filter Value.isCallable with
      | some f => exact callValue_builtin self scope f (receiver :: args)
      | none => rfl
  rw [callMethod, Eval.callMethod]
  simp only [callValue_builtin, hmember, Dispatch.invokeMethod_eq]
  rfl

theorem form_builtin (node : Node) :
    builtin.form self node scope = Eval.evalForm .dispatch self node scope := by
  have hoperator (symbol : String) (args : List Value) :
      builtin.invokeOperator self symbol args scope = Dispatch.invokeOperator self symbol args scope :=
    (Dispatch.invokeOperator_eq self symbol args scope).symm
  cases node with
  | binary span op left right =>
    rw [form, binaryNode, Eval.evalForm]
    simp only [hoperator]
    rfl
  | unary span op operand =>
    rw [form, Eval.evalForm]
    refine bind_congr fun operand => ?_
    cases op <;> exact hoperator _ _
  | call span function args =>
    rw [form, Eval.evalForm]
    refine bind_congr fun found => ?_
    cases found with
    | some callee => exact bind_congr fun args => callValue_builtin self scope callee args
    | none => rfl
  | send span receiver method args =>
    rw [form, Eval.evalForm]
    simp only [callMethod_builtin]
  | _ => rfl

end

theorem eval_builtin (n : Nat) : builtin.eval n = Eval.eval .dispatch n := by
  induction n with
  | zero => rfl
  | succ n ih =>
    funext node scope
    rw [eval, Eval.eval, Eval.evalNode, ih]
    exact congrArg (located node.span) (form_builtin _ scope node)

end Natives

end DispatchLang
