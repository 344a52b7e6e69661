import DispatchLang.Proofs.Eval.Agreement
import DispatchLang.Proofs.Eval.Approximation
import DispatchLang.Proofs.Eval.BuiltinMethods

/-!
# Where method calls are settled alike

Where a receiver has a built-in method of the name that is called, the direct strategy looks no further. The dispatch
strategy goes on to the callable that the receiver holds under the name, and to what the name means in the scope, if the
built-in method does not take the arguments. So the two do the same where the built-in method takes the arguments, and
both fail where it does not and there is nothing else to be called (`Session.settles`).

`Settled.eval` does what the direct strategy does, as long as method calls are settled alike. It gives up where they
are not, and where types are told, because the strategies have different names for the types of arrays that have been
changed.

## Main definitions

* `Session.settles`: a method call is settled alike.
* `Settled.eval`: evaluation by the direct strategy that gives up on other calls.

## Main results

* `Agree.callMethod_settled`: method calls agree with those of the dispatch strategy.
* `Settled.eval_agrees`: so does evaluation, in dialects without declarations.
-/

namespace DispatchLang

/-! ## Settled calls -/

/-- Whether there is something to be called if no built-in method is: what the receiver holds under the name, or what
the name means in the scope. -/
def Session.offersMember (s : Session) (receiver : Value) (name : String) (scope : ScopeId) : Bool :=
  (receiver.ownField? s.heap name).any Value.isCallable || (s.scopes.get? scope name).any Value.isCallable

/-- Whether a call of a method that the receiver has built in comes to the same under both strategies: the method takes
the arguments, or else there is nothing else to be called and the method is not idle. -/
def Session.settles (s : Session) (receiver : Value) (name : String) (args : List Value) (scope : ScopeId) : Bool :=
  (builtinMethod? name (receiver.base :: args.map Value.base)).isSome ||
    !(s.idles receiver name args || s.offersMember receiver name scope)

def Value.tellsTypes : Value → Bool
  | .generic name => name == "type"
  | _ => false

namespace Settled

open Eval

variable (self : NodeEval)

/-- Calls a value, unless it is the function that tells types. -/
def callValue (callee : Value) (args : List Value) (scope : ScopeId) : Eval Value := do
  demand (!callee.tellsTypes)
  Eval.callValue .direct self callee args scope

/-- What a method call does where there is no built-in method. -/
def callMember (receiver : Value) (name : String) (args : List Value) (scope : ScopeId) (otherwise : Fault) :
    Eval Value := do
  match (receiver.ownField? (← get).heap name).filter Value.isCallable with
  | some member => callValue self member args scope
  | none =>
    match ((← lookup scope name).filter Value.isCallable) with
    | some f => callValue self f (receiver :: args) scope
    | none => fail otherwise

def callMethod (receiver : Value) (name : String) (args : List Value) (scope : ScopeId) : Eval Value := do
  match Direct.method? (fun callee args => callValue self callee args scope) receiver name args with
  | some action =>
    demand ((← get).settles receiver name args scope)
    action
  | none =>
    let notFound := .methodNotFound name (← typeText .direct receiver)
    callMember self receiver name args scope notFound

def form (node : Node) (scope : ScopeId) : Eval Value := do
  match node with
  | .call _ function args =>
    match ← lookup scope function.val with
    | none => fail (.undefinedVariable function.val)
    | some callee => callValue self callee (← evalAll self args scope) scope
  | .send _ receiver method args =>
    let receiver ← self receiver scope
    let args ← evalAll self args scope
    callMethod self receiver method.val args scope
  | node => evalForm .direct self node scope

/-- Evaluates a node that nests at most the given number of levels. -/
def eval : Nat → NodeEval
  | 0 => fun _ _ => throw .exhausted
  | n + 1 => fun node scope => located node.span (form (eval n) node scope)

end Settled

@[simp] theorem Eval.demand_true {α : Type} (x : Eval α) : (do demand true; x) = x := rfl

@[simp] theorem Eval.demand_false {α : Type} (x : Eval α) : (do demand false; x) = throw .exhausted := rfl

/-! ## The direct strategy is approximated -/

namespace Settled

open Eval

theorem demand_approximates {α : Type} (condition : Bool) {x y : Eval α} (h : Approximates x y) :
    Approximates (do demand condition; x) y := by
  cases condition with
  | true => exact h
  | false => exact .gaveUp y

variable {self self' : NodeEval} (hself : ∀ node scope, Approximates (self node scope) (self' node scope))
  (scope : ScopeId)
include hself

theorem callValue_approximates (callee : Value) (args : List Value) :
    Approximates (callValue self callee args scope) (Eval.callValue .direct self' callee args scope) :=
  demand_approximates _ (.callValue hself scope callee args)

theorem callMember_approximates (receiver : Value) (name : String) (args : List Value) (otherwise : Fault) :
    Approximates (callMember self receiver name args scope otherwise)
      (Eval.callMember .direct self' receiver name args scope otherwise) := by
  refine .after _ fun s => ?_
  cases (receiver.ownField? s.heap name).filter Value.isCallable with
  | some member => exact callValue_approximates hself scope member args
  | none =>
    refine .after _ fun found => ?_
    cases found.filter Value.isCallable with
    | some f => exact callValue_approximates hself scope f (receiver :: args)
    | none => exact .refl _

theorem callMethod_approximates (receiver : Value) (name : String) (args : List Value) :
    Approximates (callMethod self receiver name args scope)
      (Eval.callMethod .direct self' receiver name args scope) := by
  have hmethod := Approximates.method? (callValue_approximates hself scope) receiver name args
  rw [callMethod, Eval.callMethod]
  dsimp only
  generalize Direct.method? (fun callee args => callValue self callee args scope) receiver name args = found,
    Direct.method? (fun callee args => Eval.callValue .direct self' callee args scope) receiver name args = found'
    at hmethod ⊢
  cases hmethod with
  | some haction => exact .after _ fun s => demand_approximates _ haction
  | none => exact .after _ fun text => callMember_approximates hself scope receiver name args _

theorem form_approximates (node : Node) :
    Approximates (form self node scope) (evalForm .direct self' node scope) := by
  have hother := @Approximates.evalForm .direct self self' hself scope node
  cases node with
  | call span function args =>
    refine .after _ fun found => ?_
    cases found with
    | none => exact .refl _
    | some callee =>
      exact (Approximates.evalAll hself scope args).bind fun values => callValue_approximates hself scope callee values
  | send span receiver method args =>
    refine (hself receiver scope).bind fun value => (Approximates.evalAll hself scope args).bind fun values => ?_
    exact callMethod_approximates hself scope value method.val values
  | _ => exact hother nofun nofun

omit hself in
/-- Evaluation that gives up where method calls are not settled alike approximates the direct strategy. -/
theorem eval_approximates (n : Nat) (node : Node) (scope : ScopeId) :
    Approximates (eval n node scope) (Eval.eval .direct n node scope) := by
  induction n generalizing node scope with
  | zero => exact .gaveUp _
  | succ n ih => exact (form_approximates ih scope node).located node.span

end Settled

/-! ## Calls agree -/

variable {D : Dialect}

/-- A dialect in which no functions are declared. -/
def Dialect.Undeclaring (D : Dialect) : Prop := ∀ name params body, ¬D.Declares name params body

theorem Session.settles_untyped (t : Session) (receiver : Value) (name : String) (args : List Value)
    (scope : ScopeId) : t.untyped.settles receiver name args scope = t.settles receiver name args scope := by
  have hown : receiver.ownField? t.untyped.heap name = receiver.ownField? t.heap name :=
    Value.ownField?_untyped t.heap name receiver
  have hidles : t.untyped.idles receiver name args = t.idles receiver name args := by
    have hitems (address : Nat) : t.untyped.heap.items address = t.heap.items address := Heap.items_untyped _ _
    unfold Session.idles
    simp only [hitems]
  rw [settles, settles, offersMember, offersMember, hown, hidles]
  rfl

theorem Eval.callMember_fails {s : Session} {receiver : Value} {name : String} {scope : ScopeId}
    (h : s.offersMember receiver name scope = false) (strategy : Strategy) (self : NodeEval) (args : List Value)
    (otherwise : Fault) : (callMember strategy self receiver name args scope otherwise).Fails s := by
  have hfilter {o : Option Value} (ho : o.any Value.isCallable = false) : o.filter Value.isCallable = none := by
    cases o with
    | none => rfl
    | some v => exact Option.filter_some_neg ho
  rw [Session.offersMember, Bool.or_eq_false_iff] at h
  refine ⟨⟨otherwise, none⟩, s, ?_⟩
  change (match (receiver.ownField? s.heap name).filter Value.isCallable with
    | some member => callValue strategy self member args scope
    | none => do
      match (← lookup scope name).filter Value.isCallable with
      | some f => callValue strategy self f (receiver :: args) scope
      | none => fail otherwise) s = _
  rw [hfilter h.1]
  change (match (s.scopes.get? scope name).filter Value.isCallable with
    | some f => callValue strategy self f (receiver :: args) scope
    | none => fail otherwise) s = _
  rw [hfilter h.2]
  rfl

theorem Heap.Sound.ownField_basic {heap : Heap} {arena : TypeArena} (h : heap.Sound D arena) {receiver : Value}
    (hr : receiver.Basic D heap) {name : String} {member : Value} (hm : receiver.ownField? heap name = some member) :
    member.Basic D heap := by
  cases receiver with
  | object address => exact h.entries_basic _ (Assoc.mem_of_lookup hm)
  | inst _ _ _ _ => exact hr.elim
  | _ => cases hm

theorem Settled.callValue_refuses (self : NodeEval) (scope : ScopeId) :
    Agree.RefusesOthers fun callee args => callValue self callee args scope := by
  intro callee args s hcallable
  cases callee with
  | closure _ _ _ _ | function _ _ _ _ _ | generic _ | constructor _ _ => cases hcallable
  | _ => exact ⟨_, _, rfl⟩

namespace Agree

variable {t : Session} {self self' : NodeEval} {scope : ScopeId} (hD : D.Undeclaring) (hself : SelfAgrees D self self')
  {receiver : Value} {args : List Value} {name : String}
include hD hself

/-- Calling a value agrees, as long as it does not tell types. -/
theorem callValue_settled (scope : ScopeId) :
    CallAgrees D (fun callee args => Settled.callValue self callee args scope)
      (fun callee args => Eval.callValue .dispatch self' callee args scope) := by
  intro t callee args hcallee hargs hlength
  dsimp only [Settled.callValue]
  cases htells : callee.tellsTypes with
  | true =>
    obtain rfl : callee = .generic "type" := by
      cases callee with
      | generic name => exact congrArg _ (eq_of_beq htells)
      | _ => cases htells
    exact callType hargs hlength
  | false =>
    rw [Bool.not_false, Eval.demand_true]
    refine callValue hself hcallee (fun name heq => ?_) (.inr fun heq => ?_) hargs hlength
    · subst heq
      exact hcallee.resolve_right fun ⟨_, _, hd⟩ => hD _ _ _ hd
    · subst heq
      cases htells

theorem callMember_settled (hr : receiver.Basic D t.heap) (hargs : basicValues D t args)
    (hlength : args.length < Tables.variadicLimit) (name : String) (otherwise otherwise' : Fault) :
    Agree D t (Settled.callMember self receiver name args scope otherwise)
      (Eval.callMember .dispatch self' receiver name args scope otherwise') (basicValue D) := by
  have hcall : CallAgrees D _ _ := callValue_settled hD hself scope
  refine ofSound fun hs => get ?_
  have hown : receiver.ownField? t.untyped.heap name = receiver.ownField? t.heap name :=
    Value.ownField?_untyped t.heap name receiver
  rw [hown]
  cases hmember : (receiver.ownField? t.heap name).filter Value.isCallable with
  | some member =>
    have hbasic : member.Basic D t.heap := hs.heap.ownField_basic hr (Option.filter_eq_some_iff.mp hmember).1
    exact hcall hbasic hargs (Nat.le_of_lt hlength)
  | none =>
    refine (lookup scope name).bind fun found t' hg hfound => ?_
    cases hf : found.filter Value.isCallable with
    | none => exact fails ⟨_, _, rfl⟩ ⟨_, _, rfl⟩
    | some f =>
      have hbasic : f.Basic D t'.heap := hfound f (Option.filter_eq_some_iff.mp hf).1
      exact hcall hbasic (List.forall_mem_cons.mpr ⟨hr.grows hg, basicValues.grows hargs hg⟩) hlength

/-- Where a built-in method takes the arguments, both strategies do what it does. -/
theorem callMethod_of_fits (hsteady : D.steady = false) (hr : receiver.Basic D t.heap) (hargs : basicValues D t args)
    (hlength : args.length < Tables.variadicLimit) {body : MethodBody}
    (hbody : builtinMethod? name (receiver.base :: args.map Value.base) = some body) :
    Agree D t (Settled.callMethod self receiver name args scope)
      (body.run self' (fun callee args => Eval.callValue .dispatch self' callee args scope) (receiver :: args) scope)
      (basicValue D) := by
  rw [Settled.callMethod]
  split
  · next action haction =>
    have hanswers : Answers D t self' (fun callee args => Eval.callValue .dispatch self' callee args scope) scope name
        receiver args action :=
      method?_answers hsteady (callValue_settled hD hself scope) (Settled.callValue_refuses self scope) hr hargs
        (Nat.le_of_lt hlength) haction
    rw [Answers, hbody] at hanswers
    refine of_eq_left hanswers ?_
    change (do Eval.demand (t.untyped.settles receiver name args scope); action) t.untyped = _
    rw [Session.settles, hbody]
    rfl
  · next hnone =>
    have hunfit := Direct.not_fits _ name args hr hargs hnone
    rw [List.map_cons, hbody] at hunfit
    cases hunfit

/-- Where no built-in method takes the arguments, the direct strategy fails or does what is left, unless it gives
up. -/
theorem callMethod_of_not_fits (hsteady : D.steady = false) (hr : receiver.Basic D t.heap)
    (hargs : basicValues D t args) (hlength : args.length < Tables.variadicLimit)
    (hnone : builtinMethod? name (receiver.base :: args.map Value.base) = none) (otherwise : Fault) :
    Agree D t (Settled.callMethod self receiver name args scope)
      (Eval.callMember .dispatch self' receiver name args scope otherwise) (basicValue D) := by
  have hmember (fault : Fault) : Agree D t (Settled.callMember self receiver name args scope fault)
      (Eval.callMember .dispatch self' receiver name args scope otherwise) (basicValue D) :=
    callMember_settled hD hself hr hargs hlength name fault otherwise
  rw [Settled.callMethod]
  split
  · next action haction =>
    have hanswers : Answers D t self' (fun callee args => Eval.callValue .dispatch self' callee args scope) scope name
        receiver args action :=
      method?_answers hsteady (callValue_settled hD hself scope) (Settled.callValue_refuses self scope) hr hargs
        (Nat.le_of_lt hlength) haction
    rw [Answers, hnone] at hanswers
    have hrun : (do Eval.demand ((← MonadState.get).settles receiver name args scope); action) t.untyped =
        (do Eval.demand (t.untyped.settles receiver name args scope); action) t.untyped := rfl
    rw [Session.settles_untyped] at hrun
    refine of_eq_left ?_ hrun
    cases hsettles : t.settles receiver name args scope with
    | false =>
      rw [Eval.demand_false]
      exact fun hs => (hmember otherwise hs).giveUp _
    | true =>
      rw [Session.settles, hnone, Option.isSome_none, Bool.false_or, Bool.not_eq_true', Bool.or_eq_false_iff]
        at hsettles
      obtain ⟨hidle, hoffers⟩ := hsettles
      rw [Eval.demand_true]
      exact fails (hanswers hidle) (Eval.callMember_fails hoffers .dispatch self' args otherwise)
  · have htext (f : String → Eval Value) : (Eval.typeText .direct receiver >>= f) t.untyped =
        f (receiver.shapeName t.untyped.heap) t.untyped := rfl
    exact of_eq_left (hmember _) (htext _)

theorem callMethod_settled (hsteady : D.steady = false) (hr : receiver.Basic D t.heap) (hargs : basicValues D t args)
    (hlength : args.length < Tables.variadicLimit) (name : String) :
    Agree D t (Settled.callMethod self receiver name args scope)
      (Eval.callMethod .dispatch self' receiver name args scope) (basicValue D) := by
  refine invokeMethod (List.forall_mem_cons.mpr ⟨hr, hargs⟩) (fun body hbody t' ht' => ?_) fun hnone t' e ht' => ?_
  all_goals
    rw [← ht'] at hr
    have hargs' : basicValues D t' args := fun v hv => ht' ▸ hargs v hv
  · rw [bind_pure]
    exact callMethod_of_fits hD hself hsteady hr hargs' hlength hbody
  · cases e with
    | none => exact callMethod_of_not_fits hD hself hsteady hr hargs' hlength hnone _
    | some e => exact callMethod_of_not_fits hD hself hsteady hr hargs' hlength hnone _

/-- What a form does agrees if evaluating its parts does. -/
theorem form_settled (hsteady : D.steady = false) {node : Node} (h : D.Tree node) :
    Agree D t (Settled.form self node scope) (Eval.evalForm .dispatch self' node scope) (basicValue D) := by
  cases node with
  | call span function args =>
    refine evalCall hself function (fun arg ha => D.child h ha) fun callee values t hcallee hvalues hlength => ?_
    refine callValue_settled hD hself scope hcallee hvalues ?_
    rw [hlength]
    exact of_decide_eq_true (D.isSimple h rfl)
  | send span receiver method args =>
    have hshort : args.length < Tables.variadicLimit := by
      rcases D.simple h with hsimple | ⟨-, hshort⟩
      · cases hsimple
      · exact of_decide_eq_true hshort
    have hchild : ∀ child ∈ receiver :: args, D.Tree child := fun child hc => D.child h hc
    obtain ⟨hreceiver, hargs⟩ := List.forall_mem_cons.mp hchild
    refine (hself receiver scope hreceiver t).bind fun value t₁ _ hvalue =>
      (evalAll hself hargs).bind fun values t₂ hg hvalues => ?_
    refine callMethod_settled hD hself hsteady (hvalue.grows hg) hvalues.1 ?_ method.val
    rw [hvalues.2]
    exact hshort
  | function span head body => exact absurd ⟨span, head, h, rfl, rfl⟩ (hD head.name.val _ body)
  | _ => exact evalForm hself h nofun nofun nofun

end Agree

/-- As long as method calls are settled alike, evaluation agrees with the dispatch strategy, whatever the two depths
are. -/
theorem Settled.eval_agrees (hD : D.Undeclaring) (hsteady : D.steady = false) (m n : Nat) :
    SelfAgrees D (Settled.eval n) (Eval.eval .dispatch m) := by
  induction m generalizing n with
  | zero => exact fun node scope _ t _ => .exhausted
  | succ m ih =>
    have hnode : ∀ n, SelfAgrees D (Settled.eval (n + 1)) (Eval.eval .dispatch (m + 1)) :=
      fun n node scope h t => (Agree.form_settled hD (ih n) hsteady h).located node.span
    cases n with
    | zero => exact fun node scope h t hs => (hnode 0 node scope h t hs).giveUp _
    | succ n => exact hnode n

end DispatchLang
