import DispatchLang.Proofs.Eval.Obeying

/-!
# Built-in operations obey every discipline

The built-in operators, functions and methods of both strategies raise only faults that do not depend on what a program
looks like. Those that call a value, and the one that evaluates a quoted tree, do the same for two evaluators and obey a
discipline if calls and evaluation do. Nothing is said here of how programs are read.

## Main definitions

* `SelfObeys`: two evaluators for nodes do the same with what may be evaluated, and obey a discipline.

## Main results

* `Obey.primitive`, `Obey.callback`: the built-in operations of the dispatch strategy.
* `Obey.directBinary`, `Obey.directFunction`, `Obey.directMethod?`: those of the direct strategy.
-/

namespace DispatchLang

/-- Two evaluators for nodes do the same with the nodes that may be evaluated, and obey a discipline. -/
def SelfObeys (d : Discipline) (strategy : Strategy) (self self' : NodeEval) : Prop :=
  ∀ node scope s, d.admits node → Obey d strategy s (self node scope) (self' node scope) (kept d strategy)

namespace Obey

variable {α : Type} {d : Discipline} {strategy : Strategy} {s : Session} {P : Claim α} {args : List Value}

/-! ## Evaluation by type -/

theorem numberArgument (value : Value) : Obeys d strategy s (Primitive.number value) anything := by
  rw [Primitive.number]
  split
  · exact pure trivial
  · exact (text value).bind fun _ _ _ _ => fail rfl

/-- An argument of the wrong shape is refused with its text. -/
theorem refuse {fault : String → Mismatch} (h : ∀ text, (Fault.mismatch (fault text)).isOfForm = false)
    (value : Value) :
    Obeys d strategy s (do Eval.fail (.mismatch (fault (← Eval.repr value))) : Eval α) P :=
  (repr value).bind fun text _ _ _ => fail (h text)

theorem stringArgument (value : Value) : Obeys d strategy s (Primitive.string value) anything := by
  cases value with
  | string s => exact pure trivial
  | _ => exact refuse (fun _ => rfl) _

theorem intArgument (value : Value) : Obeys d strategy s (Primitive.int value) anything := by
  cases value with
  | int n => exact pure trivial
  | _ => exact refuse (fun _ => rfl) _

theorem booleanArgument (value : Value) : Obeys d strategy s (Primitive.boolean value) anything := by
  cases value with
  | bool b => exact pure trivial
  | _ => exact refuse (fun _ => rfl) _

theorem arrayArgument (value : Value) : Obeys d strategy s (Primitive.array value) anything := by
  cases value with
  | array address => exact pure trivial
  | _ => exact refuse (fun _ => rfl) _

theorem objectArgument (value : Value) : Obeys d strategy s (Primitive.object value) anything := by
  cases value with
  | object address => exact pure trivial
  | _ => exact refuse (fun _ => rfl) _

theorem compareValues (op : BinaryOp) (a b : Value) :
    Obeys d strategy s (Primitive.compareValues op a b) (kept d strategy) := by
  unfold Primitive.compareValues
  split
  · exact answer rfl trivial trivial
  · exact (numberArgument a).bind fun _ _ _ _ => (numberArgument b).bind fun _ _ _ _ => answer rfl trivial trivial

theorem range (self : NodeEval) (args : List Value) (scope : ScopeId) :
    Obeys d strategy s (Primitive.run self .range args scope) (kept d strategy) := by
  match args with
  | [stop] => exact (intArgument stop).bind fun _ _ _ _ => rangeArray _ _ _
  | [start, stop] =>
    exact (intArgument start).bind fun _ _ _ _ => (intArgument stop).bind fun _ _ _ _ => rangeArray _ _ _
  | [] => exact fail rfl
  | _ :: _ :: _ :: _ => exact fail rfl

/-- The built-in operations do the same and obey a discipline. The one that evaluates a quoted tree is given one that
may be evaluated. -/
theorem primitive {self self' : NodeEval} (hself : SelfObeys d strategy self self') (operation : Primitive)
    (h : allKept d strategy s args) (scope : ScopeId) :
    Obey d strategy s (operation.run self args scope) (operation.run self' args scope) (kept d strategy) := by
  have ha := h.headD
  have hb := h.getD 1
  have hc := h.getD 2
  cases operation with
  | range => exact range self args scope
  | eval =>
    unfold Primitive.run
    dsimp only
    split
    · next body heq =>
      rw [heq] at ha
      exact hself body scope s ha.admitted
    · exact refuse (fun _ => rfl) _
  | arithmetic op =>
    exact (numberArgument _).bind fun _ _ _ _ => (numberArgument _).bind fun _ _ _ _ =>
      (checkNumber _).bind fun n _ _ _ => pure (kept_ofNumber n)
  | concat => exact (text _).bind fun _ _ _ _ => (text _).bind fun _ _ _ _ => answer rfl trivial trivial
  | concatArrays =>
    unfold Primitive.run
    dsimp only
    split
    · exact concatArrays _ _ _
    · exact fail rfl
  | repeatText =>
    unfold Primitive.run
    dsimp only
    split
    · exact (checkNumber _).bind fun _ _ _ _ => answer rfl trivial trivial
    · exact (checkNumber _).bind fun _ _ _ _ => answer rfl trivial trivial
    · exact fail rfl
  | comparison op => exact compareValues op _ _
  | equal | unequal => exact (equal _ _).bind fun _ _ _ _ => answer rfl trivial trivial
  | second | not => exact (booleanArgument _).bind fun _ _ _ _ => answer rfl trivial trivial
  | negate =>
    exact (numberArgument _).bind fun _ _ _ _ =>
      (checkNumber _).bind fun n _ _ _ => pure (kept_ofNumber n)
  | print => exact printValues args
  | len =>
    refine get ?_
    split
    · exact answer rfl trivial trivial
    · exact refuse (fun _ => rfl) _
  | typeOf => exact (typeText _ _).bind fun _ _ _ _ => answer rfl trivial trivial
  | str => exact (text _).bind fun _ _ _ _ => answer rfl trivial trivial
  | join =>
    unfold Primitive.run
    dsimp only
    split
    · exact (arrayArgument _).bind fun _ _ _ _ => joinArray _ _
    · exact (stringArgument _).bind fun _ _ _ _ => (arrayArgument _).bind fun _ _ _ _ => joinArray _ _
  | push =>
    unfold Primitive.run
    dsimp only
    split
    · next address heq =>
      rw [heq] at ha
      exact pushItem ha hb
    · exact pure ha
  | pop =>
    unfold Primitive.run
    dsimp only
    split
    · exact popItem _
    · exact answer rfl trivial trivial
  | formatArray =>
    exact (arrayArgument _).bind fun _ _ _ _ => (items _).bind fun _ _ _ _ =>
      (stringArgument _).bind fun _ _ _ _ => formatTemplate _ _
  | arrayAt =>
    exact (arrayArgument _).bind fun _ _ _ _ => (items _).bind fun _ _ _ hitems =>
      (intArgument _).bind fun _ _ hst _ => itemAt (hitems.later hst) _
  | arrayContains => exact (arrayArgument _).bind fun _ _ _ _ => arrayContains _ _
  | reverse => exact (arrayArgument _).bind fun _ _ _ _ => reverseArray _ _
  | sum => exact (arrayArgument _).bind fun _ _ _ _ => sumArray _ _
  | upper | lower | trim => exact (stringArgument _).bind fun _ _ _ _ => answer rfl trivial trivial
  | split =>
    exact (stringArgument _).bind fun _ _ _ _ => (stringArgument _).bind fun _ _ _ _ => splitString _ _ _
  | stringContains =>
    exact (stringArgument _).bind fun _ _ _ _ => (stringArgument _).bind fun _ _ _ _ => answer rfl trivial trivial
  | formatString => exact (stringArgument _).bind fun _ _ _ _ => formatTemplate _ _
  | stringAt =>
    exact (stringArgument _).bind fun text _ _ _ => (intArgument _).bind fun _ _ _ _ => itemAt (characters text) _
  | keys => exact (objectArgument _).bind fun _ _ _ _ => objectKeys _ _
  | values => exact (objectArgument _).bind fun _ _ _ _ => objectValues _ _
  | objectAt =>
    exact (stringArgument _).bind fun _ _ _ _ => (objectArgument _).bind fun _ _ _ _ => objectAt _ _
  | has =>
    exact (stringArgument _).bind fun _ _ _ _ => (objectArgument _).bind fun _ _ _ _ => objectHas _ _
  | set =>
    refine (stringArgument _).bind fun _ _ hst _ => ?_
    split
    · next address heq =>
      rw [heq] at ha
      exact objectSet (ha.later hst) _ (hc.later hst)
    · exact pure (ha.later hst)

theorem callback {call call' : Value → List Value → Eval Value} (hcall : Calls d strategy call call')
    (operation : Callback) (h : allKept d strategy s args) :
    Obey d strategy s (operation.run call args) (operation.run call' args) (kept d strategy) := by
  cases operation with
  | map => exact (arrayArgument _).bind fun _ _ hst _ => mapArray hcall ((h.getD 1).later hst) _ _
  | filter => exact (arrayArgument _).bind fun _ _ hst _ => filterArray hcall ((h.getD 1).later hst) _ _
  | reduce =>
    exact (arrayArgument _).bind fun _ _ hst _ =>
      reduceArray hcall ((h.getD 1).later hst) _ ((h.getD 2).later hst)
  | call => exact hcall s _ _ h.headD fun v hv => h v (List.mem_of_mem_tail hv)

/-! ## Evaluation by shape -/

theorem operandMismatch (op : BinaryOp) (left right : Value) :
    Obeys d strategy s (Direct.operandMismatch op left right) (kept d strategy) :=
  (typeText _ _).bind fun _ _ _ _ => (typeText _ _).bind fun _ _ _ _ => fail rfl

theorem directBinary (op : BinaryOp) (left right : Value) :
    Obeys d strategy s (Direct.binary op left right) (kept d strategy) := by
  unfold Direct.binary
  split
  · exact (equal _ _).bind fun _ _ _ _ => answer rfl trivial trivial
  · exact (equal _ _).bind fun _ _ _ _ => answer rfl trivial trivial
  · exact concatArrays _ _ _
  · exact (checkNumber _).bind fun _ _ _ _ => answer rfl trivial trivial
  · exact (checkNumber _).bind fun _ _ _ _ => answer rfl trivial trivial
  · split
    · exact (text _).bind fun _ _ _ _ => (text _).bind fun _ _ _ _ => answer rfl trivial trivial
    · exact (text _).bind fun _ _ _ _ => (text _).bind fun _ _ _ _ => answer rfl trivial trivial
    · split
      · exact answer rfl trivial trivial
      · exact operandMismatch _ _ _
    · split
      · split
        · exact answer rfl trivial trivial
        · exact (checkNumber _).bind fun n _ _ _ => pure (kept_ofNumber n)
      · exact operandMismatch _ _ _

theorem directUnary (op : UnaryOp) (operand : Value) :
    Obeys d strategy s (Direct.unary op operand) (kept d strategy) := by
  unfold Direct.unary
  split
  · exact (checkNumber _).bind fun n _ _ _ => pure (kept_ofNumber n)
  · exact answer rfl trivial trivial
  · exact answer rfl trivial trivial
  · exact mismatched (fun _ => rfl) _ _

theorem logicalOperand (op : BinaryOp) (value : Value) :
    Obeys d strategy s (Direct.logicalOperand op value) anything := by
  cases value with
  | bool b => exact pure trivial
  | _ => exact mismatched (fun _ => rfl) _ _

theorem directFunction {self self' : NodeEval} (hself : SelfObeys d strategy self self') (name : String)
    (h : allKept d strategy s args) (scope : ScopeId) :
    Obey d strategy s (Direct.callFunction self name args scope) (Direct.callFunction self' name args scope)
      (kept d strategy) := by
  have one : Obeys d strategy s (do
      Eval.check (DispatchLang.checkArity name 1 args.length)
      return args.headD .nothing) (kept d strategy) :=
    (checkArity _ _ _).bind fun _ t hst _ => pure (h.headD.later hst)
  unfold Direct.callFunction
  split
  · exact printValues args
  · refine one.bind fun value t _ _ => get ?_
    split
    · exact answer rfl trivial trivial
    · exact mismatched (fun _ => rfl) _ _
  · exact one.bind fun value t _ _ => (typeText _ _).bind fun _ _ _ _ => answer rfl trivial trivial
  · exact one.bind fun value t _ _ => (text _).bind fun _ _ _ _ => answer rfl trivial trivial
  · split
    · exact rangeArray _ _ _
    · exact rangeArray _ _ _
    · exact fail rfl
    · exact fail rfl
    · exact fail rfl
  · refine one.bind fun value t _ hvalue => ?_
    split
    · next body => exact hself body scope t (Value.Kept.admitted hvalue)
    · exact mismatched (fun _ => rfl) _ _
  · exact fail rfl

/-! ### Methods -/

theorem directInt (method : String) (value : Value) :
    Obeys d strategy s (Direct.intArgument method value) anything := by
  cases value with
  | int n => exact pure trivial
  | _ => exact mismatched (fun _ => rfl) _ _

theorem directString (method : String) (value : Value) :
    Obeys d strategy s (Direct.stringArgument method value) anything := by
  cases value with
  | string s => exact pure trivial
  | _ => exact mismatched (fun _ => rfl) _ _

section

variable (name : String)

theorem withNone {x : Eval Value} (h : ∀ t, s.heap.Grows t.heap → Obeys d strategy t x (kept d strategy)) :
    Obeys d strategy s (Direct.withNone name args x) (kept d strategy) :=
  (checkArity _ _ _).bind fun _ t hst _ => h t hst

theorem withOne (hargs : allKept d strategy s args) {x y : Value → Eval Value}
    (h : ∀ t a, s.heap.Grows t.heap → a.Kept d strategy t.heap → Obey d strategy t (x a) (y a) (kept d strategy)) :
    Obey d strategy s (Direct.withOne name args x) (Direct.withOne name args y) (kept d strategy) :=
  (checkArity _ _ _).bind fun _ t hst _ => h t _ hst (hargs.headD.later hst)

theorem withTwo (hargs : allKept d strategy s args) {x y : Value → Value → Eval Value}
    (h : ∀ t a b, s.heap.Grows t.heap → a.Kept d strategy t.heap → b.Kept d strategy t.heap →
      Obey d strategy t (x a b) (y a b) (kept d strategy)) :
    Obey d strategy s (Direct.withTwo name args x) (Direct.withTwo name args y) (kept d strategy) :=
  (checkArity _ _ _).bind fun _ t hst _ => h t _ _ hst (hargs.headD.later hst) ((hargs.getD 1).later hst)

end

abbrev MethodsObey (d : Discipline) (strategy : Strategy) (s : Session) :
    Option (Eval Value) → Option (Eval Value) → Prop :=
  Option.Rel fun x y => Obey d strategy s x y (kept d strategy)

section

variable (h : allKept d strategy s args) (name : String)
include h

theorem stringMethod? (text : String) :
    MethodsObey d strategy s (Direct.stringMethod? text name args) (Direct.stringMethod? text name args) := by
  unfold Direct.stringMethod?
  split
  · exact .some (withNone _ fun t _ => answer rfl trivial trivial)
  · exact .some (withNone _ fun t _ => answer rfl trivial trivial)
  · exact .some (withNone _ fun t _ => answer rfl trivial trivial)
  · exact .some (withOne _ h fun t _ _ _ => (directString _ _).bind fun _ _ _ _ => splitString _ _ _)
  · exact .some (withOne _ h fun t _ _ _ => (directString _ _).bind fun _ _ _ _ => answer rfl trivial trivial)
  · exact .some (formatTemplate _ _)
  · exact .some (withOne _ h fun t _ _ _ => (directInt _ _).bind fun _ _ _ _ => itemAt (characters _) _)
  · exact .none

theorem objectMethod? {address : Nat} (hr : (Value.object address).Kept d strategy s.heap) :
    MethodsObey d strategy s (Direct.objectMethod? address name args) (Direct.objectMethod? address name args) := by
  unfold Direct.objectMethod?
  split
  · exact .some (withNone _ fun t _ => objectKeys _ _)
  · exact .some (withNone _ fun t _ => objectValues _ _)
  · exact .some (withOne _ h fun t _ _ _ => (directString _ _).bind fun _ _ _ _ => objectAt _ _)
  · exact .some (withOne _ h fun t _ _ _ => (directString _ _).bind fun _ _ _ _ => objectHas _ _)
  · exact .some (withTwo _ h fun t _ value ht _ hvalue => (directString _ _).bind fun _ _ hst _ =>
      objectSet (hr.later (ht.trans hst)) _ (hvalue.later hst))
  · exact .none

variable {call call' : Value → List Value → Eval Value} (hcall : Calls d strategy call call')
include hcall

theorem arrayMethod? {address : Nat} (hr : (Value.array address).Kept d strategy s.heap) :
    MethodsObey d strategy s (Direct.arrayMethod? call address name args)
      (Direct.arrayMethod? call' address name args) := by
  unfold Direct.arrayMethod?
  split
  · exact .some (withOne _ h fun t f _ hf => mapArray hcall hf _ _)
  · exact .some (withOne _ h fun t f _ hf => filterArray hcall hf _ _)
  · exact .some (withTwo _ h fun t f start _ hf hstart => reduceArray hcall hf _ hstart)
  · refine .some ?_
    split
    · exact joinArray _ _
    · exact (directString _ _).bind fun _ _ _ _ => joinArray _ _
    · exact fail rfl
  · exact .some (withOne _ h fun t item hst hitem => pushItem (hr.later hst) hitem)
  · exact .some (withNone _ fun t _ => popItem _)
  · exact .some (withOne _ h fun t _ _ _ => (directString _ _).bind fun _ _ _ _ => (items _).bind fun _ _ _ _ =>
      formatTemplate _ _)
  · exact .some (withOne _ h fun t _ _ _ => (items _).bind fun _ _ _ hitems => (directInt _ _).bind fun _ _ hst _ =>
      itemAt (hitems.later hst) _)
  · exact .some (withOne _ h fun t _ _ _ => arrayContains _ _)
  · exact .some (withNone _ fun t _ => reverseArray _ _)
  · exact .some (withNone _ fun t _ => sumArray _ _)
  · exact .none

theorem directMethod? {receiver : Value} (hr : receiver.Kept d strategy s.heap) :
    MethodsObey d strategy s (Direct.method? call receiver name args) (Direct.method? call' receiver name args) := by
  cases receiver with
  | array address => exact arrayMethod? h name hcall hr
  | string text => exact stringMethod? h name text
  | object address => exact objectMethod? h name hr
  | _ =>
    unfold Direct.method?
    dsimp only
    split
    · exact .some (hcall s _ _ hr h)
    · exact .none

end

end Obey

end DispatchLang
