import DispatchLang.Proofs.Eval.Approximation
import DispatchLang.Proofs.Eval.Heeding
import DispatchLang.Proofs.Eval.Noting
import DispatchLang.Proofs.Eval.Storing

/-!
# Evaluation heeds every rule that it is held to

Whether a run stores only what a rule permits in an object can be found out by holding it to the rule: evaluation under
a rule (`StorageRule.eval`) gives up where a method call is about to store something else there, and does everything
else as evaluation does. If it does not give up, no such call was made.

Under a rule, no evaluation stores anything else in the object, whether it ends with a value, halts or gives up. In
particular, an object is what it was after a run in which `set` was not called on it.

## Main definitions

* `StorageRule.eval`: evaluation under a rule.

## Main results

* `Heeds.form`: a form heeds a rule if its parts do.
* `StorageRule.eval_heeds`: evaluation under a rule heeds it.
* `StorageRule.eval_approximates`: it is evaluation, unless it gives up.
-/

namespace DispatchLang

namespace Heeds

variable {α : Type} {rule : StorageRule} {strategy : Strategy} {self : NodeEval}
  {call : Value → List Value → Eval Value} {name : String} {args : List Value}

/-! ## Calls that are resolved -/

section

variable {ι : Type} (table : TableOf ι)

/-- What is behind a name is done, after the tables have been changed by the call. -/
theorem invoke {absent : Eval α} {answer : GenericFunction ι → Except DispatchError (Resolution ι) → Eval α}
    (habsent : Heeds rule absent)
    (hcalled : ∀ s f, s.SetsOnly → (table.functions s.dispatcher).lookup name = some f →
      let out := f.resolve (args.map (Value.tag s.heap)) s.arena
      (table.called name out s).SetsOnly ∧ Heeds rule (answer f.forgetful out.result)) :
    Heeds rule (table.invoke name args absent answer) := by
  intro s t hs hends
  cases hf : (table.functions s.dispatcher).lookup name with
  | none =>
    refine habsent s t hs ?_
    have hrun : table.invoke name args absent answer s = absent s := by rw [TableOf.invoke, hf]
    rcases hends with h | h
    · exact .ok (hrun ▸ h)
    · exact .error (hrun ▸ h)
  | some f =>
    obtain ⟨hcalled, hanswer⟩ := hcalled s f hs hf
    have hrest := hanswer _ t hcalled <| by
      rcases hends with h | h
      · exact .ok (table.invoke_of_lookup hf ▸ h)
      · exact .error (table.invoke_of_lookup hf ▸ h)
    exact ⟨hrest.heap, fun _ => hrest.tables hcalled⟩

end

section

variable (hself : ∀ node scope, Heeds rule (self node scope)) (scope : ScopeId)
include hself

theorem invokeOperator (symbol : String) (args : List Value) :
    Heeds rule (Dispatch.invokeOperator self symbol args scope) := by
  rw [Dispatch.invokeOperator_eq]
  refine invoke TableOf.operators (fail _) fun s f hs hf => ?_
  obtain ⟨hkeeps, htakes⟩ := (hs.operators _ (Assoc.mem_of_lookup hf)).resolve (args.map (Value.tag s.heap)) s.arena
  refine ⟨⟨fun e he => ?_, hs.functions, hs.methods⟩, ?_⟩
  · rcases Assoc.eq_or_mem_of_mem_insert he with rfl | he
    · exact hkeeps
    · exact hs.operators e he
  · split
    · exact fail _
    · next r hr => exact primitive hself (htakes r hr).1 args scope

theorem runStatements (last : Value) (statements : List Node) :
    Heeds rule (Eval.runStatements self scope last statements) := by
  induction statements generalizing last with
  | nil => exact pure _
  | cons statement statements ih => exact (hself statement scope).bind ih

theorem runBody (body : Node) : Heeds rule (Eval.runBody self body scope) := by
  unfold Eval.runBody
  split
  · exact runStatements hself scope .nothing _
  · exact hself _ scope

theorem invokeFunction (name : String) (args : List Value) :
    Heeds rule (Dispatch.invokeFunction self name args scope) := by
  rw [Dispatch.invokeFunction_eq]
  refine invoke TableOf.functionsByName (fail _) fun s f hs hf => ?_
  obtain ⟨hkeeps, htakes⟩ := (hs.functions _ (Assoc.mem_of_lookup hf)).resolve (args.map (Value.tag s.heap)) s.arena
  refine ⟨⟨hs.operators, fun e he => ?_, hs.methods⟩, ?_⟩
  · rcases Assoc.eq_or_mem_of_mem_insert he with rfl | he
    · exact hkeeps
    · exact hs.functions e he
  · split
    · exact fail _
    · next r hr =>
      have hset : r.method.implementation ≠ .primitive .set := (htakes r hr).1
      split
      · next operation himpl =>
        rw [himpl] at hset
        exact primitive hself (fun heq => hset (congrArg _ heq)) args scope
      · exact (newScope _).bind fun inner => get fun _ => (defineAll inner _).bind fun _ => (defineAll inner _).bind fun _ =>
          runBody hself inner _

/-- A built-in method heeds the rule, unless something is stored in the object that the rule does not permit. -/
theorem invokeMethod (hcall : ∀ callee args, Heeds rule (call callee args)) {receiver : Value}
    (h : rule.forbids receiver name args = false) :
    Heeds rule (Dispatch.invokeMethod self call name (receiver :: args) scope) := by
  rw [Dispatch.invokeMethod_eq]
  refine invoke TableOf.methods (pure _) fun s f hs hf => ?_
  obtain ⟨hkeeps, htakes⟩ := (hs.methods _ (Assoc.mem_of_lookup hf)).resolve ((receiver :: args).map (Value.tag s.heap)) s.arena
  refine ⟨⟨hs.operators, hs.functions, fun e he => ?_⟩, ?_⟩
  · rcases Assoc.eq_or_mem_of_mem_insert he with rfl | he
    · exact hkeeps
    · exact hs.methods e he
  · split
    · next r hr =>
      obtain ⟨hset, hlength⟩ := htakes r hr
      dsimp only at hset
      split
      · next operation himpl =>
        rw [himpl] at hset
        refine bind ?_ fun _ => pure _
        by_cases hop : operation = .set
        · subst hop
          obtain ⟨hname, hthree⟩ := hset rfl
          refine set (fun key hreceiver hkey => ?_) scope
          -- There are two arguments, the key and the value.
          match args, hthree.symm.trans hlength with
          | [a, b], _ =>
            cases hreceiver
            cases hkey
            simpa [StorageRule.forbids, show name = "set" from hname] using h
        · exact primitive hself hop _ scope
      · exact (callback hcall _ _).bind fun _ => pure _
    · split
      · exact pure _
      · exact fail _

end

/-! ## Calls -/

theorem checkField (owner field : String) (expected : TypeId) (value : Value) :
    Heeds rule (Eval.checkField owner field expected value) := by
  refine get fun s => ?_
  dsimp only
  split
  · exact pure _
  · exact fail _

theorem checkFields (owner : String) (fields : FieldTypes) (values : List Value) :
    Heeds rule (Eval.checkFields owner fields values) := by
  induction fields generalizing values with
  | nil => exact pure _
  | cons field fields ih =>
    cases values with
    | nil => exact pure _
    | cons value values => exact (checkField owner field.1 field.2 value).bind fun _ => ih values

section

variable (hself : ∀ node scope, Heeds rule (self node scope)) (scope : ScopeId)
include hself

theorem callValue (callee : Value) (args : List Value) : Heeds rule (Eval.callValue strategy self callee args scope) := by
  cases callee with
  | closure id params body outer =>
    exact (check _).bind fun _ => (newScope outer).bind fun inner => (defineAll inner _).bind fun _ =>
      runStatements hself inner .nothing body
  | function id name params body outer =>
    exact (check _).bind fun _ => (newScope outer).bind fun inner => (defineAll inner _).bind fun _ =>
      runBody hself inner body
  | generic name =>
    cases strategy with
    | direct => exact directFunction hself name args scope
    | dispatch => exact invokeFunction hself scope name args
  | constructor id c => exact (check _).bind fun _ => (checkFields _ _ _).bind fun _ => pure _
  | _ => exact refuseType _ _ _

theorem callMember (receiver : Value) (name : String) (args : List Value) (otherwise : Fault) :
    Heeds rule (Eval.callMember strategy self receiver name args scope otherwise) := by
  refine get fun s => ?_
  split
  · exact callValue hself scope _ _
  · refine (lookup scope name).bind fun found => ?_
    split
    · exact callValue hself scope _ _
    · exact fail _

/-- A method call heeds the rule, unless it stores something in the object that the rule does not permit. -/
theorem callMethod {receiver : Value} (h : rule.forbids receiver name args = false) :
    Heeds rule (Eval.callMethod strategy self receiver name args scope) := by
  cases strategy with
  | direct =>
    have hcall (callee : Value) (args : List Value) : Heeds rule (Eval.callValue .direct self callee args scope) :=
      callValue hself scope callee args
    have hmethod := directMethod? hcall h
    unfold Eval.callMethod
    dsimp only
    split
    · next action haction => exact hmethod action haction
    · exact (typeText _ _).bind fun _ => callMember hself scope receiver name args _
  | dispatch =>
    refine (invokeMethod hself scope (callValue hself scope) h).bind fun answer => ?_
    split
    · exact pure _
    · exact callMember hself scope receiver name args _
    · exact (typeText _ _).bind fun _ => callMember hself scope receiver name args _

/-! ## Instances, objects and arms -/

theorem evalAll (nodes : List Node) : Heeds rule (Eval.evalAll self nodes scope) := mapM (hself · scope) nodes

theorem evalEntries (done : List (String × Value)) (entries : List (Located String × Node)) :
    Heeds rule (Eval.evalEntries self scope done entries) := by
  induction entries generalizing done with
  | nil => exact pure _
  | cons entry entries ih => exact (hself entry.2 scope).bind fun _ => ih _

theorem givenFields (declared : FieldTypes) (owner : String) (given : List (String × Value))
    (fields : List (Located String × Node)) : Heeds rule (Eval.givenFields self declared owner scope given fields) := by
  induction fields generalizing given with
  | nil => exact pure _
  | cons entry fields ih =>
    obtain ⟨field, node⟩ := entry
    rw [Eval.givenFields]
    split
    · exact failAt _ _
    · split
      · exact failAt _ _
      · exact (hself node scope).bind fun _ => ih _

omit hself in
theorem orderFields (owner : String) (declared : FieldTypes) (given : List (String × Value)) :
    Heeds rule (Eval.orderFields owner declared given) := by
  induction declared generalizing given with
  | nil => exact pure _
  | cons field declared ih =>
    rw [Eval.orderFields]
    split
    · exact fail _
    · exact (checkField owner _ _ _).bind fun _ => (ih _).bind fun _ => pure _

theorem construct (name : Located String) (fields : List (Located String × Node)) :
    Heeds rule (Eval.construct strategy self name fields scope) := by
  refine (lookup scope name.val).bind fun found => ?_
  split
  · refine get fun s => ?_
    split
    · exact (givenFields hself scope _ _ _ _).bind fun _ => (orderFields _ _ _).bind fun _ => pure _
    · exact fail _
  · exact (givenFields hself scope _ _ _ _).bind fun _ => (orderFields _ _ _).bind fun _ => pure _
  · exact failAt _ _

omit hself in
theorem matchValue (pattern : Node) (value : Value) : Heeds rule (Eval.matchValue pattern value) := by
  rw [Eval.matchValue]
  split
  · exact pure _
  · exact throw _

omit hself in
theorem assignTo (target : Node) (value : Value) : Heeds rule (Eval.assignTo target value scope) := by
  unfold Eval.assignTo
  split
  · exact assign scope _ _
  · refine (matchValue _ value).bind fun found => ?_
    split
    · exact forM (fun _ => assign scope _ _) _
    · exact (repr value).bind fun _ => failAt _ _
  · exact failAt _ _

theorem runArms (value : Value) (arms : List (Node × Node)) : Heeds rule (Eval.runArms self value scope arms) := by
  induction arms with
  | nil => exact (repr value).bind fun _ => fail _
  | cons arm arms ih =>
    refine (matchValue arm.1 value).bind fun found => ?_
    split
    · exact ih
    · exact (newScope scope).bind fun inner => (defineAll inner _).bind fun _ => runBody hself inner _

end

/-! ## Declarations -/

theorem directType (decl : TypeDecl) (scope : ScopeId) : Heeds rule (Direct.declareType decl scope) := by
  have variant (name : String) (v : VariantDecl) :
      Heeds rule (Direct.variantValue name v.name.val (Direct.fieldTypes v.fields)) := by
    rw [Direct.variantValue]
    split
    · exact pure _
    · exact newId.bind fun _ => pure _
  have add (kind : TypeKind) : Heeds rule (do
      let id ← Eval.modifyTypes (·.add ⟨decl.name.val, kind, some .any⟩)
      Eval.define scope decl.name.val (Value.typeRef id decl.name.val)
      return Value.typeRef id decl.name.val) := (modifyTypes _).bind fun _ => (define scope _ _).bind fun _ => pure _
  rw [Direct.declareType]
  dsimp only
  cases decl.body with
  | abstract | concrete | struct fields => exact add _
  | variants alternatives => exact (forM (fun v => (variant _ v).bind fun _ => define scope _ _) _).bind fun _ => add _

theorem directDeclared (head : FunctionHead) (body : Node) (scope : ScopeId) :
    Heeds rule (Direct.declareFunction head body scope) :=
  newId.bind fun _ => (define scope _ _).bind fun _ => pure _

section

variable (vars : TypeArena.Bindings) (scope : ScopeId)

theorem lookupType (name : String) : Heeds rule (Dispatch.lookupType vars scope name) := by
  rw [Dispatch.lookupType]
  split
  · exact pure _
  · refine (lookup scope name).bind fun found => ?_
    split <;> exact pure _

mutual

theorem resolveType (type : TypeExpr) : Heeds rule (Dispatch.resolveType vars scope type) := by
  cases type with
  | named span name =>
    rw [Dispatch.resolveType]
    refine (lookupType vars scope name).bind fun found => ?_
    split
    · exact pure _
    · exact failAt _ _
  | applied span name args =>
    rw [Dispatch.resolveType]
    refine (lookupType vars scope name).bind fun found => ?_
    split
    · exact (resolveTypes args).bind fun _ => modifyTypes _
    · exact failAt _ _

theorem resolveTypes (types : List TypeExpr) : Heeds rule (Dispatch.resolveTypes vars scope types) := by
  cases types with
  | nil => exact pure _
  | cons type types =>
    rw [Dispatch.resolveTypes]
    exact (resolveType type).bind fun _ => (resolveTypes types).bind fun _ => pure _

end

theorem resolveOption (type : Option TypeExpr) : Heeds rule (Dispatch.resolveOption vars scope type) := by
  cases type with
  | none => exact pure _
  | some type => exact resolveType vars scope type

theorem typeParams (params : List TypeParam) : Heeds rule (Dispatch.typeParams scope vars params) := by
  induction params generalizing vars with
  | nil => exact pure _
  | cons p params ih => exact (resolveOption vars scope p.constraint).bind fun _ => (modifyTypes _).bind fun _ => ih _

theorem resolveFields (fields : List FieldDecl) : Heeds rule (Dispatch.resolveFields vars scope fields) := by
  induction fields with
  | nil => exact pure _
  | cons f fields ih => exact (resolveType vars scope f.type).bind fun _ => ih.bind fun _ => pure _

theorem resolveParams (params : List Param) : Heeds rule (Dispatch.resolveParams vars scope params) := by
  induction params with
  | nil => exact pure _
  | cons p params ih => exact (resolveOption vars scope p.annotation).bind fun _ => ih.bind fun _ => pure _

theorem dispatchVariants (type : TypeId) (typeName : String) (alternatives : List VariantDecl) :
    Heeds rule (Dispatch.declareVariants vars scope type typeName alternatives) := by
  have value (variant : String) (fields : FieldTypes) :
      Heeds rule (Dispatch.variantValue type typeName variant fields) := by
    rw [Dispatch.variantValue]
    split
    · exact pure _
    · exact newId.bind fun _ => pure _
  induction alternatives with
  | nil => exact pure _
  | cons v alternatives ih =>
    exact (resolveFields vars scope v.fields).bind fun _ => (value _ _).bind fun _ => (define scope _ _).bind fun _ =>
      ih.bind fun _ => pure _

end

theorem dispatchType (decl : TypeDecl) (scope : ScopeId) : Heeds rule (Dispatch.declareType decl scope) := by
  have redefine (id : TypeId) (definition : TypeDef) :
      Heeds rule (modify fun s => { s with arena := s.arena.redefine id definition } : Eval Unit) :=
    inert (fun _ => rfl) fun _ => ⟨rfl, rfl, rfl⟩
  refine (typeParams [] scope decl.typeParams).bind fun vars => (resolveOption vars scope decl.parent).bind fun parent => ?_
  have name (id : TypeId) : Heeds rule (do
      Eval.define scope decl.name.val (Value.typeRef id decl.name.val)
      return Value.typeRef id decl.name.val) := (define scope _ _).bind fun _ => pure _
  dsimp only
  cases decl.body with
  | abstract | concrete => exact (modifyTypes _).bind name
  | struct fields =>
    exact (modifyTypes _).bind fun id => (define scope _ _).bind fun _ => (resolveFields vars scope fields).bind fun _ =>
      (redefine id _).bind fun _ => (pure _).bind name
  | variants alternatives =>
    exact (modifyTypes _).bind fun id => (define scope _ _).bind fun _ =>
      (dispatchVariants vars scope id _ alternatives).bind fun _ => (redefine id _).bind fun _ => (pure _).bind name

/-- A declared function does not store anything by itself. -/
theorem dispatchDeclared (head : FunctionHead) (body : Node) (scope : ScopeId) :
    Heeds rule (Dispatch.declareFunction head body scope) := by
  refine (typeParams [] scope head.typeParams).bind fun vars => (resolveParams vars scope head.params).bind fun signature => ?_
  refine bind (step fun s hs => ⟨.refl _, fun _ => ⟨hs.operators, fun e he => ?_, hs.methods⟩⟩) fun _ =>
    (define scope _ _).bind fun _ => pure _
  rcases Assoc.eq_or_mem_of_mem_insert he with rfl | he
  · refine GenericFunction.Keeps.withMethod ?_ nofun
    cases hf : s.functions.lookup head.name.val with
    | none => exact GenericFunction.keeps_empty _ _
    | some f => exact hs.functions _ (Assoc.mem_of_lookup hf)
  · exact hs.functions e he

/-! ## Forms -/

section

variable (hself : ∀ node scope, Heeds rule (self node scope)) (scope : ScopeId)
include hself

theorem directBinaryNode (op : BinaryOp) (left right : Node) :
    Heeds rule (Direct.binaryNode self op left right scope) := by
  rw [Direct.binaryNode]
  split
  · refine (hself left scope).bind fun l => (logicalOperand op l).bind fun b => ?_
    split
    · exact pure _
    · exact (hself right scope).bind fun r => (logicalOperand op r).bind fun _ => pure _
  · exact (hself left scope).bind fun l => (hself right scope).bind fun r => directBinary op l r

theorem dispatchBinaryNode (op : BinaryOp) (left right : Node) :
    Heeds rule (Dispatch.binaryNode self op left right scope) := by
  refine (hself left scope).bind fun l => ?_
  split
  · exact pure _
  · exact pure _
  · exact (hself right scope).bind fun r => invokeOperator hself scope _ _

/-- What a form does heeds the rule if the parts do, unless it is a method call. -/
theorem form {node : Node} (hsend : ∀ span receiver method args, node ≠ .send span receiver method args) :
    Heeds rule (Eval.evalForm strategy self node scope) := by
  cases node with
  | literal span value => exact pure _
  | ident span name =>
    refine (lookup scope name).bind fun found => ?_
    split
    · exact pure _
    · exact fail _
  | binary span op left right =>
    cases strategy with
    | direct => exact directBinaryNode hself scope op left right
    | dispatch => exact dispatchBinaryNode hself scope op left right
  | unary span op operand =>
    refine (hself operand scope).bind fun value => ?_
    cases strategy with
    | direct => exact directUnary op value
    | dispatch => cases op <;> exact invokeOperator hself scope _ _
  | assign span target value =>
    exact (hself value scope).bind fun v => (assignTo scope target v).bind fun _ => pure _
  | field span subject member => exact (hself subject scope).bind fun receiver => fieldOf strategy receiver _
  | call span function args =>
    refine (lookup scope function.val).bind fun found => ?_
    split
    · exact fail _
    · exact (evalAll hself scope args).bind fun values => callValue hself scope _ values
  | send span receiver method args => exact absurd rfl (hsend span receiver method args)
  | block span params body => exact newId.bind fun _ => pure _
  | cases span scrutinee arms => exact (hself scrutinee scope).bind fun value => runArms hself scope value arms
  | construct span name fields => exact construct hself scope name fields
  | typeDecl span decl =>
    cases strategy with
    | direct => exact directType decl scope
    | dispatch => exact dispatchType decl scope
  | function span head body =>
    cases strategy with
    | direct => exact directDeclared head body scope
    | dispatch => exact dispatchDeclared head body scope
  | capture span name | refine span name pattern => exact fail _
  | quoted span body => exact pure _
  | array span elements => exact (evalAll hself scope elements).bind fun _ => newArray strategy _
  | object span entries => exact (evalEntries hself scope [] entries).bind fun _ => newObject _
  | pair span key value => exact fail _

end

end Heeds

/-! ## Evaluation under a rule -/

namespace StorageRule

variable (rule : StorageRule) (strategy : Strategy)

/-- Evaluation that gives up before something is stored in the object that the rule does not permit. -/
def eval : Nat → NodeEval
  | 0 => fun _ _ => throw .exhausted
  | n + 1 => fun node scope =>
    match node with
    | .send span receiver method args => Eval.located span do
      let receiver ← eval n receiver scope
      let args ← Eval.evalAll (eval n) args scope
      if rule.forbids receiver method.val args then throw .exhausted
      else Eval.callMethod strategy (eval n) receiver method.val args scope
    | node => Eval.evalNode strategy (eval n) node scope

theorem eval_heeds (n : Nat) (node : Node) (scope : ScopeId) : Heeds rule (rule.eval strategy n node scope) := by
  induction n generalizing node scope with
  | zero => exact .throw _
  | succ n ih =>
    rw [eval.eq_def]
    dsimp only
    split
    · refine .located (.bind (ih _ scope) fun receiver => .bind (Heeds.evalAll ih scope _) fun args => ?_) _
      split
      · exact .throw _
      · next h => exact Heeds.callMethod ih scope (Bool.eq_false_iff.mpr h)
    · next hsend => exact .located (Heeds.form ih scope hsend) _

theorem eval_approximates (n : Nat) (node : Node) (scope : ScopeId) :
    Eval.Approximates (rule.eval strategy n node scope) (Eval.eval strategy n node scope) := by
  induction n generalizing node scope with
  | zero => exact .gaveUp _
  | succ n ih =>
    rw [eval.eq_def]
    dsimp only
    split
    · refine .located (.bind (ih _ scope) fun receiver => .bind (.evalAll ih scope _) fun args => ?_) _
      split
      · exact .gaveUp _
      · exact .callMethod ih scope receiver _ args
    · next hsend =>
      refine .located ?_ _
      by_cases hcall : ∃ span function args, node = .call span function args
      · obtain ⟨span, function, args, rfl⟩ := hcall
        refine .after _ fun found => ?_
        split
        · exact .refl _
        · exact (Eval.Approximates.evalAll ih scope args).bind fun _ => .callValue ih scope _ _
      · exact .evalForm ih scope (fun span function args heq => hcall ⟨span, function, args, heq⟩) hsend

end StorageRule

end DispatchLang
