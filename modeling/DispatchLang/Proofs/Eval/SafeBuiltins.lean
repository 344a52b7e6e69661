import DispatchLang.Proofs.Eval.Safety

/-!
# Built-in operations meet no name without a meaning

Under both strategies the built-in operators, functions and methods look at their arguments and either do
something safe with them or say what is wrong with them. The one that evaluates a quoted tree never gets hold of one,
as no closed value is a quoted tree. So all of them are safe, if the function that they call values by is.

## Main results

* `Safe.primitive`, `Safe.callback`: the built-in operations of the dispatch strategy are safe.
* `Safe.directBinary`, `Safe.directFunction`, `Safe.directMethod?`: so are those of the direct strategy.
-/

namespace DispatchLang

namespace Safe

variable {α : Type} {strategy : Strategy} {watched : String → Bool} {s : Session} {P : Claim α} {args : List Value}

/-! ## Evaluation by type -/

theorem numberArgument (value : Value) : Safe strategy watched s (Primitive.number value) anything := by
  rw [Primitive.number]
  split
  · exact pure trivial
  · exact (text value).bind fun _ _ _ _ => fail rfl

/-- An argument of the wrong shape is refused with its text. -/
theorem refuse {fault : String → Mismatch} (value : Value) :
    Safe strategy watched s (do Eval.fail (.mismatch (fault (← Eval.repr value))) : Eval α) P :=
  (repr value).bind fun _ _ _ _ => fail rfl

theorem stringArgument (value : Value) : Safe strategy watched s (Primitive.string value) anything := by
  cases value with
  | string s => exact pure trivial
  | _ => exact refuse _

theorem intArgument (value : Value) : Safe strategy watched s (Primitive.int value) anything := by
  cases value with
  | int n => exact pure trivial
  | _ => exact refuse _

theorem booleanArgument (value : Value) : Safe strategy watched s (Primitive.boolean value) anything := by
  cases value with
  | bool b => exact pure trivial
  | _ => exact refuse _

theorem arrayArgument (value : Value) : Safe strategy watched s (Primitive.array value) anything := by
  cases value with
  | array address => exact pure trivial
  | _ => exact refuse _

theorem objectArgument (value : Value) : Safe strategy watched s (Primitive.object value) anything := by
  cases value with
  | object address => exact pure trivial
  | _ => exact refuse _

theorem compareValues (op : BinaryOp) (a b : Value) :
    Safe strategy watched s (Primitive.compareValues op a b) (Value.Closed strategy watched) := by
  unfold Primitive.compareValues
  split
  · exact answer rfl trivial
  · exact (numberArgument a).bind fun _ _ _ _ => (numberArgument b).bind fun _ _ _ _ => answer rfl trivial

theorem range (self : NodeEval) (args : List Value) (scope : ScopeId) :
    Safe strategy watched s (Primitive.run self .range args scope) (Value.Closed strategy watched) := by
  match args with
  | [stop] => exact (intArgument stop).bind fun _ _ _ _ => rangeArray _ _ _
  | [start, stop] =>
    exact (intArgument start).bind fun _ _ _ _ => (intArgument stop).bind fun _ _ _ _ => rangeArray _ _ _
  | [] => exact fail rfl
  | _ :: _ :: _ :: _ => exact fail rfl

/-- The built-in operations are safe, also the one that evaluates a quoted tree, as it is not given one. -/
theorem primitive (self : NodeEval) (operation : Primitive) (h : valuesClosed strategy watched s args)
    (scope : ScopeId) :
    Safe strategy watched s (operation.run self args scope) (Value.Closed strategy watched) := by
  have ha := h.headD
  have hb := h.getD 1
  have hc := h.getD 2
  cases operation with
  | range => exact range self args scope
  | eval =>
    rw [Primitive.run]
    split
    · next body heq =>
      rw [heq] at ha
      exact ((Value.closed_iff rfl).mp ha).elim
    · exact refuse _
  | arithmetic op =>
    exact (numberArgument _).bind fun _ _ _ _ => (numberArgument _).bind fun _ _ _ _ =>
      (checkNumber _).bind fun n _ _ _ => pure (Value.closed_ofNumber n)
  | concat => exact (text _).bind fun _ _ _ _ => (text _).bind fun _ _ _ _ => answer rfl trivial
  | concatArrays =>
    rw [Primitive.run]
    split
    · exact concatArrays _ _ _
    · exact fail rfl
  | repeatText =>
    rw [Primitive.run]
    split
    · exact (checkNumber _).bind fun _ _ _ _ => answer rfl trivial
    · exact (checkNumber _).bind fun _ _ _ _ => answer rfl trivial
    · exact fail rfl
  | comparison op => exact compareValues op _ _
  | equal | unequal => exact (equal _ _).bind fun _ _ _ _ => answer rfl trivial
  | second | not => exact (booleanArgument _).bind fun _ _ _ _ => answer rfl trivial
  | negate =>
    exact (numberArgument _).bind fun _ _ _ _ =>
      (checkNumber _).bind fun n _ _ _ => pure (Value.closed_ofNumber n)
  | print => exact printValues args
  | len =>
    refine get ?_
    split
    · exact answer rfl trivial
    · exact refuse _
  | typeOf => exact (typeText _ _).bind fun _ _ _ _ => answer rfl trivial
  | str => exact (text _).bind fun _ _ _ _ => answer rfl trivial
  | join =>
    rw [Primitive.run]
    split
    · exact (arrayArgument _).bind fun _ _ _ _ => joinArray _ _
    · exact (stringArgument _).bind fun _ _ _ _ => (arrayArgument _).bind fun _ _ _ _ => joinArray _ _
  | push =>
    rw [Primitive.run]
    split
    · exact pushItem _ hb
    · exact pure ha
  | pop =>
    rw [Primitive.run]
    split
    · exact popItem _
    · exact answer rfl trivial
  | formatArray =>
    exact (arrayArgument _).bind fun _ _ _ _ => (items _).bind fun _ _ _ _ =>
      (stringArgument _).bind fun _ _ _ _ => formatTemplate _ _
  | arrayAt =>
    exact (arrayArgument _).bind fun _ _ _ _ => (items _).bind fun _ _ _ hitems =>
      (intArgument _).bind fun _ _ hst _ => itemAt (hitems.later hst) _
  | arrayContains => exact (arrayArgument _).bind fun _ _ _ _ => arrayContains _ _
  | reverse => exact (arrayArgument _).bind fun _ _ _ _ => reverseArray _ _
  | sum => exact (arrayArgument _).bind fun _ _ _ _ => sumArray _ _
  | upper | lower | trim => exact (stringArgument _).bind fun _ _ _ _ => answer rfl trivial
  | split =>
    exact (stringArgument _).bind fun _ _ _ _ => (stringArgument _).bind fun _ _ _ _ => splitString _ _ _
  | stringContains =>
    exact (stringArgument _).bind fun _ _ _ _ => (stringArgument _).bind fun _ _ _ _ => answer rfl trivial
  | formatString => exact (stringArgument _).bind fun _ _ _ _ => formatTemplate _ _
  | stringAt =>
    exact (stringArgument _).bind fun text _ _ _ => (intArgument _).bind fun _ _ _ _ => itemAt (characters text) _
  | keys => exact (objectArgument _).bind fun _ _ _ _ => objectKeys _ _
  | values => exact (objectArgument _).bind fun _ _ _ _ => objectValues _ _
  | objectAt =>
    exact (stringArgument _).bind fun _ _ _ _ => (objectArgument _).bind fun _ _ _ _ => objectAt _ _
  | has =>
    exact (stringArgument _).bind fun _ _ _ _ => (objectArgument _).bind fun _ _ _ _ => objectHas _ _
  | set =>
    refine (stringArgument _).bind fun _ _ hst _ => ?_
    split
    · exact objectSet _ _ (hc.later hst)
    · exact pure (ha.later hst)

section

variable {call : Value → List Value → Eval Value} (hcall : Calls strategy watched call)
include hcall

theorem callback (operation : Callback) (h : valuesClosed strategy watched s args) :
    Safe strategy watched s (operation.run call args) (Value.Closed strategy watched) := by
  cases operation with
  | map => exact (arrayArgument _).bind fun _ _ hst _ => mapArray hcall ((h.getD 1).later hst) _ _
  | filter => exact (arrayArgument _).bind fun _ _ hst _ => filterArray hcall ((h.getD 1).later hst) _ _
  | reduce =>
    exact (arrayArgument _).bind fun _ _ hst _ =>
      reduceArray hcall ((h.getD 1).later hst) _ ((h.getD 2).later hst)
  | call => exact hcall s _ _ h.headD fun v hv => h v (List.mem_of_mem_tail hv)

end

/-! ## Evaluation by shape -/

/-- What is wrong is said with the name of a shape. -/
theorem mismatched {fault : String → Mismatch} (via : Strategy) (value : Value) :
    Safe strategy watched s (do Eval.fail (.mismatch (fault (← Eval.typeText via value))) : Eval α) P :=
  (typeText via value).bind fun _ _ _ _ => fail rfl

theorem operandMismatch (op : BinaryOp) (left right : Value) :
    Safe strategy watched s (Direct.operandMismatch op left right) (Value.Closed strategy watched) :=
  (typeText _ _).bind fun _ _ _ _ => (typeText _ _).bind fun _ _ _ _ => fail rfl

theorem directBinary (op : BinaryOp) (left right : Value) :
    Safe strategy watched s (Direct.binary op left right) (Value.Closed strategy watched) := by
  unfold Direct.binary
  split
  · exact (equal _ _).bind fun _ _ _ _ => answer rfl trivial
  · exact (equal _ _).bind fun _ _ _ _ => answer rfl trivial
  · exact concatArrays _ _ _
  · exact (checkNumber _).bind fun _ _ _ _ => answer rfl trivial
  · exact (checkNumber _).bind fun _ _ _ _ => answer rfl trivial
  · split
    · exact (text _).bind fun _ _ _ _ => (text _).bind fun _ _ _ _ => answer rfl trivial
    · exact (text _).bind fun _ _ _ _ => (text _).bind fun _ _ _ _ => answer rfl trivial
    · split
      · exact answer rfl trivial
      · exact operandMismatch _ _ _
    · split
      · split
        · exact answer rfl trivial
        · exact (checkNumber _).bind fun n _ _ _ => pure (Value.closed_ofNumber n)
      · exact operandMismatch _ _ _

theorem directUnary (op : UnaryOp) (operand : Value) :
    Safe strategy watched s (Direct.unary op operand) (Value.Closed strategy watched) := by
  unfold Direct.unary
  split
  · exact (checkNumber _).bind fun n _ _ _ => pure (Value.closed_ofNumber n)
  · exact answer rfl trivial
  · exact answer rfl trivial
  · exact mismatched _ _

theorem logicalOperand (op : BinaryOp) (value : Value) :
    Safe strategy watched s (Direct.logicalOperand op value) anything := by
  cases value with
  | bool b => exact pure trivial
  | _ => exact mismatched _ _

theorem directFunction (self : NodeEval) {name : String} (hname : name ∈ Direct.functionNames)
    (h : valuesClosed .direct watched s args) (scope : ScopeId) :
    Safe .direct watched s (Direct.callFunction self name args scope) (Value.Closed .direct watched) := by
  have one : Safe .direct watched s (do
      Eval.check (DispatchLang.checkArity name 1 args.length)
      return args.headD .nothing) (Value.Closed .direct watched) :=
    (checkArity _ _ _).bind fun _ t hst _ => pure (h.headD.later hst)
  unfold Direct.callFunction
  split
  · exact printValues args
  · refine one.bind fun value t _ _ => get ?_
    split
    · exact answer rfl trivial
    · exact mismatched _ _
  · exact one.bind fun value t _ _ => (typeText _ _).bind fun _ _ _ _ => answer rfl trivial
  · exact one.bind fun value t _ _ => (text _).bind fun _ _ _ _ => answer rfl trivial
  · split
    · exact rangeArray _ _ _
    · exact rangeArray _ _ _
    · exact fail rfl
    · exact fail rfl
    · exact fail rfl
  · refine one.bind fun value t _ hvalue => ?_
    split
    · exact ((Value.closed_iff rfl).mp hvalue).elim
    · exact mismatched _ _
  · simp_all [Direct.functionNames]

/-! ### Methods -/

theorem directInt (method : String) (value : Value) :
    Safe strategy watched s (Direct.intArgument method value) anything := by
  cases value with
  | int n => exact pure trivial
  | _ => exact mismatched _ _

theorem directString (method : String) (value : Value) :
    Safe strategy watched s (Direct.stringArgument method value) anything := by
  cases value with
  | string s => exact pure trivial
  | _ => exact mismatched _ _

section

variable (name : String)

theorem withNone {x : Eval Value} (h : ∀ t, s.Precedes t → Safe strategy watched t x (Value.Closed strategy watched)) :
    Safe strategy watched s (Direct.withNone name args x) (Value.Closed strategy watched) :=
  (checkArity _ _ _).bind fun _ t hst _ => h t hst

theorem withOne (hargs : valuesClosed strategy watched s args) {x : Value → Eval Value}
    (h : ∀ t a, s.Precedes t → a.Closed strategy watched t →
      Safe strategy watched t (x a) (Value.Closed strategy watched)) :
    Safe strategy watched s (Direct.withOne name args x) (Value.Closed strategy watched) :=
  (checkArity _ _ _).bind fun _ t hst _ => h t _ hst (hargs.headD.later hst)

theorem withTwo (hargs : valuesClosed strategy watched s args) {x : Value → Value → Eval Value}
    (h : ∀ t a b, s.Precedes t → a.Closed strategy watched t → b.Closed strategy watched t →
      Safe strategy watched t (x a b) (Value.Closed strategy watched)) :
    Safe strategy watched s (Direct.withTwo name args x) (Value.Closed strategy watched) :=
  (checkArity _ _ _).bind fun _ t hst _ => h t _ _ hst (hargs.headD.later hst) ((hargs.getD 1).later hst)

end

section

variable {call : Value → List Value → Eval Value} {name : String} {action : Eval Value}
  (h : valuesClosed strategy watched s args)
include h

theorem arrayMethod? (hcall : Calls strategy watched call) {address : Nat}
    (ha : Direct.arrayMethod? call address name args = some action) :
    Safe strategy watched s action (Value.Closed strategy watched) := by
  unfold Direct.arrayMethod? at ha
  split at ha <;> cases ha
  · exact withOne _ h fun t f _ hf => mapArray hcall hf _ _
  · exact withOne _ h fun t f _ hf => filterArray hcall hf _ _
  · exact withTwo _ h fun t f start _ hf hstart => reduceArray hcall hf _ hstart
  · split
    · exact joinArray _ _
    · exact (directString _ _).bind fun _ _ _ _ => joinArray _ _
    · exact fail rfl
  · exact withOne _ h fun t item _ hitem => pushItem _ hitem
  · exact withNone _ fun t _ => popItem _
  · exact withOne _ h fun t _ _ _ => (directString _ _).bind fun _ _ _ _ => (items _).bind fun _ _ _ _ =>
      formatTemplate _ _
  · exact withOne _ h fun t _ _ _ => (items _).bind fun _ _ _ hitems => (directInt _ _).bind fun _ _ hst _ =>
      itemAt (hitems.later hst) _
  · exact withOne _ h fun t _ _ _ => arrayContains _ _
  · exact withNone _ fun t _ => reverseArray _ _
  · exact withNone _ fun t _ => sumArray _ _

theorem stringMethod? {text : String} (ha : Direct.stringMethod? text name args = some action) :
    Safe strategy watched s action (Value.Closed strategy watched) := by
  unfold Direct.stringMethod? at ha
  split at ha <;> cases ha
  · exact withNone _ fun t _ => answer rfl trivial
  · exact withNone _ fun t _ => answer rfl trivial
  · exact withNone _ fun t _ => answer rfl trivial
  · exact withOne _ h fun t _ _ _ => (directString _ _).bind fun _ _ _ _ => splitString _ _ _
  · exact withOne _ h fun t _ _ _ => (directString _ _).bind fun _ _ _ _ => answer rfl trivial
  · exact formatTemplate _ _
  · exact withOne _ h fun t _ _ _ => (directInt _ _).bind fun _ _ _ _ => itemAt (characters _) _

theorem objectMethod? {address : Nat} (ha : Direct.objectMethod? address name args = some action) :
    Safe strategy watched s action (Value.Closed strategy watched) := by
  unfold Direct.objectMethod? at ha
  split at ha <;> cases ha
  · exact withNone _ fun t _ => objectKeys _ _
  · exact withNone _ fun t _ => objectValues _ _
  · exact withOne _ h fun t _ _ _ => (directString _ _).bind fun _ _ _ _ => objectAt _ _
  · exact withOne _ h fun t _ _ _ => (directString _ _).bind fun _ _ _ _ => objectHas _ _
  · exact withTwo _ h fun t _ value _ _ hvalue => (directString _ _).bind fun _ _ hst _ =>
      objectSet _ _ (hvalue.later hst)

theorem directMethod? (hcall :
    Calls strategy watched call) {receiver : Value} (hreceiver : receiver.Closed strategy watched s)
    (ha : Direct.method? call receiver name args = some action) :
    Safe strategy watched s action (Value.Closed strategy watched) := by
  unfold Direct.method? at ha
  split at ha
  · exact arrayMethod? h hcall ha
  · exact stringMethod? h ha
  · exact objectMethod? h ha
  · split at ha <;> cases ha
    exact hcall s _ _ hreceiver h

end

end Safe

end DispatchLang
