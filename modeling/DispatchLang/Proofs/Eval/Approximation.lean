import DispatchLang.Eval.Walk

/-!
# Computations that give up early

A computation *approximates* another one if it does what the other one does wherever it does not give up. Evaluators
under which all parts of a tree are approximated approximate each other on the whole tree. That is so whatever makes
them give up: a bound on the depth of nesting or anything else.

## Main definitions

* `Eval.Approximates`: a computation does what another one does, or gives up.

## Main results

* `Eval.Approximates.callValue`, `Eval.Approximates.callMethod`, `Eval.Approximates.evalForm`: calls and forms are
  approximated if the parts are, under both strategies.
-/

namespace DispatchLang

namespace Eval

variable {α β : Type}

/-- A computation does what another one does, or gives up. -/
def Approximates (x y : Eval α) : Prop := ∀ s, x s = y s ∨ ∃ s', x s = .error .exhausted s'

namespace Approximates

variable {x y : Eval α}

theorem refl (x : Eval α) : Approximates x x := fun _ => .inl rfl

theorem gaveUp (y : Eval α) : Approximates (throw .exhausted) y := fun s => .inr ⟨s, rfl⟩

theorem bind {f g : α → Eval β} (h : Approximates x y) (hfg : ∀ a, Approximates (f a) (g a)) :
    Approximates (x >>= f) (y >>= g) := by
  intro s
  change EStateM.bind x f s = EStateM.bind y g s ∨ ∃ s', EStateM.bind x f s = .error .exhausted s'
  rw [EStateM.bind, EStateM.bind]
  rcases h s with heq | ⟨s', hs'⟩
  · rw [heq]
    cases y s with
    | ok a t => exact hfg a t
    | error halt t => exact .inl rfl
  · rw [hs']
    exact .inr ⟨s', rfl⟩

theorem after (x : Eval α) {f g : α → Eval β} (hfg : ∀ a, Approximates (f a) (g a)) :
    Approximates (x >>= f) (x >>= g) := (refl x).bind hfg

theorem located (h : Approximates x y) (span : Span) : Approximates (located span x) (located span y) := by
  intro s
  rw [Eval.located, Eval.located]
  rcases h s with heq | ⟨s', hs'⟩
  · exact .inl (by rw [heq])
  · exact .inr ⟨s', by rw [hs']⟩

theorem mapM {γ : Type} {f g : γ → Eval α} (h : ∀ c, Approximates (f c) (g c)) (items : List γ) :
    Approximates (items.mapM f) (items.mapM g) := by
  induction items with
  | nil => exact refl _
  | cons item items ih =>
    rw [List.mapM_cons, List.mapM_cons]
    exact (h item).bind fun _ => ih.bind fun _ => refl _

theorem filterM {γ : Type} {f g : γ → Eval Bool} (h : ∀ c, Approximates (f c) (g c)) (items : List γ) :
    Approximates (items.filterM f) (items.filterM g) := by
  have haux (done : List γ) : Approximates (items.filterAuxM f done) (items.filterAuxM g done) := by
    induction items generalizing done with
    | nil => exact refl _
    | cons item items ih => exact (h item).bind fun _ => ih _
  exact (haux []).bind fun _ => refl _

theorem foldlM {γ : Type} {f g : β → γ → Eval β} (h : ∀ b c, Approximates (f b c) (g b c)) (items : List γ)
    (start : β) : Approximates (items.foldlM f start) (items.foldlM g start) := by
  induction items generalizing start with
  | nil => exact refl _
  | cons item items ih =>
    rw [List.foldlM_cons, List.foldlM_cons]
    exact (h start item).bind ih

/-! ## Methods that call something -/

section

variable {call call' : Value → List Value → Eval Value}
  (hcall : ∀ callee args, Approximates (call callee args) (call' callee args))
include hcall

theorem arrayMethod? (address : Nat) (name : String) (args : List Value) :
    Option.Rel Approximates (Direct.arrayMethod? call address name args)
      (Direct.arrayMethod? call' address name args) := by
  unfold Direct.arrayMethod?
  split
  · exact .some (after _ fun _ => after _ fun items => (mapM (fun x => hcall _ [x]) items).bind fun _ => refl _)
  · refine .some (after _ fun _ => after _ fun items => ?_)
    exact (filterM (fun x => (hcall _ [x]).bind fun _ => refl _) items).bind fun _ => refl _
  · exact .some (after _ fun _ => after _ fun items => foldlM (fun total x => hcall _ [total, x]) items _)
  case h_12 => exact .none
  all_goals exact .some (refl _)

theorem method? (receiver : Value) (name : String) (args : List Value) :
    Option.Rel Approximates (Direct.method? call receiver name args) (Direct.method? call' receiver name args) := by
  have hrefl (o : Option (Eval Value)) : Option.Rel Approximates o o := by
    cases o with
    | none => exact .none
    | some action => exact .some (refl action)
  cases receiver with
  | array address => exact arrayMethod? hcall address name args
  | string text => exact hrefl _
  | object address => exact hrefl _
  | _ =>
    unfold Direct.method?
    dsimp only
    split
    · exact .some (hcall _ args)
    · exact .none

end

section

variable {strategy : Strategy} {self self' : NodeEval} (hself : ∀ node scope, Approximates (self node scope) (self' node scope))
  (scope : ScopeId)
include hself

/-! ## Bodies -/

theorem runStatements (last : Value) (statements : List Node) :
    Approximates (runStatements self scope last statements) (runStatements self' scope last statements) := by
  induction statements generalizing last with
  | nil => exact refl _
  | cons statement statements ih => exact (hself statement scope).bind ih

theorem runBody (body : Node) : Approximates (runBody self body scope) (runBody self' body scope) := by
  cases body with
  | block span params statements =>
    cases params with
    | nil => exact runStatements hself scope .nothing statements
    | cons _ _ => exact hself _ scope
  | _ => exact hself _ scope

theorem evalAll (nodes : List Node) : Approximates (evalAll self nodes scope) (evalAll self' nodes scope) :=
  mapM (hself · scope) nodes

theorem evalEntries (done : List (String × Value)) (entries : List (Located String × Node)) :
    Approximates (evalEntries self scope done entries) (evalEntries self' scope done entries) := by
  induction entries generalizing done with
  | nil => exact refl _
  | cons entry entries ih => exact (hself entry.2 scope).bind fun _ => ih _

/-! ## Built-in operations -/

theorem primitive (operation : Primitive) (args : List Value) :
    Approximates (operation.run self args scope) (operation.run self' args scope) := by
  cases operation with
  | eval =>
    unfold Primitive.run
    dsimp only
    split
    · exact hself _ scope
    · exact refl _
  | _ => exact refl _

omit hself in
theorem callback {call call' : Value → List Value → Eval Value}
    (hcall : ∀ callee args, Approximates (call callee args) (call' callee args)) (operation : Callback)
    (args : List Value) : Approximates (operation.run call args) (operation.run call' args) := by
  cases operation with
  | map => exact after _ fun _ => after _ fun items => (mapM (fun x => hcall _ [x]) items).bind fun _ => refl _
  | filter =>
    exact after _ fun _ => after _ fun items =>
      (filterM (fun x => (hcall _ [x]).bind fun _ => refl _) items).bind fun _ => refl _
  | reduce => exact after _ fun _ => after _ fun items => foldlM (fun total x => hcall _ [total, x]) items _
  | call => exact hcall _ _

theorem invokeOperator (symbol : String) (args : List Value) :
    Approximates (Dispatch.invokeOperator self symbol args scope) (Dispatch.invokeOperator self' symbol args scope) := by
  refine after _ fun s => ?_
  split
  · exact refl _
  · refine after _ fun _ => after _ fun _ => after _ fun result => ?_
    cases result with
    | error e => exact refl _
    | ok r => exact primitive hself scope _ args

theorem invokeMethod {call call' : Value → List Value → Eval Value}
    (hcall : ∀ callee args, Approximates (call callee args) (call' callee args)) (name : String) (args : List Value) :
    Approximates (Dispatch.invokeMethod self call name args scope)
      (Dispatch.invokeMethod self' call' name args scope) := by
  refine after _ fun s => ?_
  split
  · exact refl _
  · refine after _ fun _ => after _ fun _ => after _ fun result => ?_
    cases result with
    | error e => exact refl _
    | ok r =>
      dsimp only
      split
      · exact (primitive hself scope _ args).bind fun _ => refl _
      · exact (callback hcall _ args).bind fun _ => refl _

/-! ## Calls -/

theorem invokeFunction (name : String) (args : List Value) :
    Approximates (Dispatch.invokeFunction self name args scope) (Dispatch.invokeFunction self' name args scope) := by
  refine after _ fun s => ?_
  split
  · exact refl _
  · refine after _ fun _ => after _ fun _ => after _ fun result => ?_
    cases result with
    | error e => exact refl _
    | ok r =>
      dsimp only
      split
      · exact primitive hself scope _ args
      · exact after _ fun inner => after _ fun _ => after _ fun _ => after _ fun _ => runBody hself inner _

theorem callFunction (name : String) (args : List Value) :
    Approximates (Direct.callFunction self name args scope) (Direct.callFunction self' name args scope) := by
  unfold Direct.callFunction
  dsimp only
  split
  case h_6 =>
    refine after _ fun value => ?_
    cases value with
    | quoted body => exact hself body scope
    | _ => exact refl _
  all_goals exact refl _

theorem callValue (callee : Value) (args : List Value) :
    Approximates (callValue strategy self callee args scope) (callValue strategy self' callee args scope) := by
  cases callee with
  | closure id params body outer =>
    exact after _ fun _ => after _ fun inner => after _ fun _ => runStatements hself inner .nothing body
  | function id name params body outer =>
    exact after _ fun _ => after _ fun inner => after _ fun _ => runBody hself inner body
  | generic name =>
    cases strategy with
    | direct => exact callFunction hself scope name args
    | dispatch => exact invokeFunction hself scope name args
  | _ => exact refl _

/-! ## Forms -/

theorem binaryNode (op : BinaryOp) (left right : Node) :
    Approximates (Direct.binaryNode self op left right scope) (Direct.binaryNode self' op left right scope) := by
  rw [Direct.binaryNode, Direct.binaryNode]
  split
  · refine (hself left scope).bind fun l => after _ fun l => ?_
    split
    · exact refl _
    · exact (hself right scope).bind fun _ => refl _
  · exact (hself left scope).bind fun l => (hself right scope).bind fun r => refl _

theorem givenFields (declared : FieldTypes) (owner : String) (given : List (String × Value))
    (fields : List (Located String × Node)) :
    Approximates (givenFields self declared owner scope given fields)
      (givenFields self' declared owner scope given fields) := by
  induction fields generalizing given with
  | nil => exact refl _
  | cons entry fields ih =>
    obtain ⟨field, node⟩ := entry
    rw [Eval.givenFields, Eval.givenFields]
    split
    · exact refl _
    · split
      · exact refl _
      · exact (hself node scope).bind fun _ => ih _

theorem construct (name : Located String) (fields : List (Located String × Node)) :
    Approximates (construct strategy self name fields scope) (construct strategy self' name fields scope) := by
  refine after _ fun found => ?_
  split
  · refine after _ fun s => ?_
    split
    · exact (givenFields hself scope _ _ _ _).bind fun _ => refl _
    · exact refl _
  · exact (givenFields hself scope _ _ _ _).bind fun _ => refl _
  · exact refl _

theorem runArms (value : Value) (arms : List (Node × Node)) :
    Approximates (runArms self value scope arms) (runArms self' value scope arms) := by
  induction arms with
  | nil => exact refl _
  | cons arm arms ih =>
    refine after _ fun found => ?_
    cases found with
    | none => exact ih
    | some bindings => exact after _ fun inner => after _ fun _ => runBody hself inner arm.2

theorem callMember (receiver : Value) (name : String) (args : List Value) (otherwise : Fault) :
    Approximates (callMember strategy self receiver name args scope otherwise)
      (callMember strategy self' receiver name args scope otherwise) := by
  refine after _ fun s => ?_
  split
  · exact callValue hself scope _ _
  · refine after _ fun found => ?_
    split
    · exact callValue hself scope _ _
    · exact refl _

theorem callMethod (receiver : Value) (name : String) (args : List Value) :
    Approximates (callMethod strategy self receiver name args scope)
      (callMethod strategy self' receiver name args scope) := by
  cases strategy with
  | direct =>
    have hcall (callee : Value) (args : List Value) : Approximates (Eval.callValue .direct self callee args scope)
        (Eval.callValue .direct self' callee args scope) := callValue hself scope callee args
    have hmethod := method? hcall receiver name args
    unfold Eval.callMethod
    dsimp only
    revert hmethod
    generalize Direct.method? _ receiver name args = action, Direct.method? _ receiver name args = action'
    rintro (h | -)
    · exact h
    · exact after _ fun _ => callMember hself scope receiver name args _
  | dispatch =>
    refine (invokeMethod hself scope (callValue hself scope) name (receiver :: args)).bind fun answer => ?_
    split
    · exact refl _
    · exact callMember hself scope receiver name args _
    · exact after _ fun _ => callMember hself scope receiver name args _

theorem evalForm {node : Node} (hcall : ∀ span function args, node ≠ .call span function args)
    (hsend : ∀ span receiver method args, node ≠ .send span receiver method args) :
    Approximates (evalForm strategy self node scope) (evalForm strategy self' node scope) := by
  cases node with
  | binary span op left right =>
    cases strategy with
    | direct => exact binaryNode hself scope op left right
    | dispatch =>
      refine (hself left scope).bind fun l => ?_
      split
      · exact refl _
      · exact refl _
      · exact (hself right scope).bind fun r => invokeOperator hself scope _ [l, r]
  | unary span op operand =>
    refine (hself operand scope).bind fun value => ?_
    cases strategy with
    | direct => exact refl _
    | dispatch => cases op <;> exact invokeOperator hself scope _ [value]
  | assign span target value => exact (hself value scope).bind fun _ => refl _
  | field span subject member => exact (hself subject scope).bind fun _ => refl _
  | cases span scrutinee arms => exact (hself scrutinee scope).bind fun value => runArms hself scope value arms
  | construct span name fields => exact construct hself scope name fields
  | array span elements => exact (evalAll hself scope elements).bind fun _ => refl _
  | object span entries => exact (evalEntries hself scope [] entries).bind fun _ => refl _
  | call span function args => exact absurd rfl (hcall span function args)
  | send span receiver method args => exact absurd rfl (hsend span receiver method args)
  | _ => exact refl _

end

end Approximates

end Eval

end DispatchLang
