import DispatchLang.Proofs.Eval.TrackedForms
import DispatchLang.Proofs.Eval.NamedFunctions

/-!
# Watching a run

The direct strategy makes a function a value that keeps the scope of its declaration. Whether anybody can tell
that from a function which is known by its name is a matter of the run. `Watched.eval` evaluates by shape, notes
the declarations, and gives up as soon as it matters:

* a function is called that does not have the scope which was noted last under its name;
* two values are compared that compare differently if functions are known by their names;
* a function is declared with a constraint that mentions an unknown type.

A watched run that does not give up is tracked by the direct strategy, and by evaluation by name as well.

## Main definitions

* `Watched.eval`: evaluation by shape that gives up as soon as functions are told apart.

## Main results

* `Watched.tracked_direct`: the direct strategy tracks a watched run.
* `Watched.tracked_byName`: evaluation by name tracks a watched run.
-/

namespace DispatchLang

/-! ## Watched evaluation -/

namespace Watched

open Eval

/-- Calls a value. A function has to have the scope that was noted last under its name. -/
def callValue (self : NodeEval) (callee : Value) (args : List Value) (scope : ScopeId) :
    Eval Value := do
  match callee with
  | .function id name params body outer =>
    let noted ← noted? name
    demand (noted.any (·.scope == outer))
    Eval.callValue .direct self (.function id name params body outer) args scope
  | callee => Eval.callValue .direct self callee args scope

/-- Evaluates an operator between two nodes. Values have to compare as they do if functions are known by their
names. -/
def binaryNode (self : NodeEval) (op : BinaryOp) (left right : Node) (scope : ScopeId) :
    Eval Value := do
  match op with
  | .eq | .ne =>
    let l ← self left scope
    let r ← self right scope
    demand (Value.comparesByName (← get).heap l r)
    Direct.binary op l r
  | op => Direct.binaryNode self op left right scope

/-- Declares a function and notes the declaration. Its constraints have to have a meaning. -/
def declareFunction (head : FunctionHead) (body : Node) (scope : ScopeId) : Eval Value := do
  demand ((← get).knowsConstraints scope head)
  note head.name.val (head.declaration body scope)
  Direct.declareFunction head body scope

def form (self : NodeEval) (node : Node) (scope : ScopeId) : Eval Value := do
  match node with
  | .binary _ op left right => binaryNode self op left right scope
  | .call _ function args =>
    match ← lookup scope function.val with
    | none => fail (.undefinedVariable function.val)
    | some callee => callValue self callee (← evalAll self args scope) scope
  | .function _ head body => declareFunction head body scope
  | node => evalForm .direct self node scope

/-- Evaluates a node that nests at most the given number of levels. -/
def eval : Nat → NodeEval
  | 0 => fun _ _ => throw .exhausted
  | n + 1 => fun node scope => located node.span (form (eval n) node scope)

end Watched

variable {D : Dialect} {named : Bool} {φ : View named} {s : Session} {scope : ScopeId}

namespace Tracks

variable {self self' : NodeEval}

/-! ## Operators -/

/-- Evaluating an operator between two nodes is tracked. -/
theorem binaryNode (op : BinaryOp) {left right : Node}
    (hleft : ∀ φ s, Tracks D (φ : View named) s (self left scope) (self' left scope) (seen D))
    (hright : ∀ φ s, Tracks D (φ : View named) s (self right scope) (self' right scope) (seen D)) :
    Tracks D φ s (Watched.binaryNode self op left right scope)
      (Direct.binaryNode self' op left right scope) (seen D) := by
  have hcompared (hop : op = .eq ∨ op = .ne) :
      Tracks D φ s
        (do
          let l ← self left scope
          let r ← self right scope
          Eval.demand (Value.comparesByName (← MonadState.get).heap l r)
          Direct.binary op l r)
        (do
          let l ← self' left scope
          let r ← self' right scope
          Direct.binary op l r) (seen D) := by
    refine (hleft φ s).bind fun l l' φ₁ s₁ _ hl => (hright φ₁ s₁).bind fun r r' φ₂ s₂ he hr => ?_
    obtain ⟨hl', rfl⟩ := hl.mono he
    obtain ⟨hr', rfl⟩ := hr
    refine get_left.mpr (demand fun hcompare => binary hl' hr' ?_ (.inl hcompare))
    rcases hop with rfl | rfl <;> rfl
  have hother (hop : op ≠ .eq ∧ op ≠ .ne) :
      Tracks D φ s (Direct.binaryNode self op left right scope)
        (Direct.binaryNode self' op left right scope) (seen D) := otherBinaryNode hop hleft hright
  cases op with
  | eq => exact hcompared (.inl rfl)
  | ne => exact hcompared (.inr rfl)
  | _ => exact hother ⟨nofun, nofun⟩

/-! ## Functions are known by their values -/

/-- What is noted makes no difference to a run that does not know functions by their names. -/
theorem note_left {φ : View false} {α β : Type} {R : View false → α → β → Prop} {name : String}
    {d : Declaration} (hd : D.Declares name d.params d.body) {f : Unit → Eval α} {y : Eval β}
    (h : ∀ s', Tracks D φ s' (f ()) y R) : Tracks D φ s (Eval.note name d >>= f) y R := fun hs =>
  h { s with functions := Assoc.insert name (.ofDeclaration name d) s.functions } (hs.note hd)

theorem callValue_direct {φ : View false} (hself : SelfTracks D false self self') {v w : Value}
    (hv : seen D φ v w) {args ws : List Value} (hargs : seenAll D φ args ws) :
    Tracks D φ s (Watched.callValue self v args scope) (Eval.callValue .direct self' w ws scope)
      (seen D) := by
  cases v with
  | function id name params body outer =>
    obtain ⟨hv, rfl⟩ := hv
    exact noted_left.mpr (demand fun _ =>
      callDeclared hself hv.2.tree hargs id (φ.number id) name params outer)
  | _ => exact callOther hself hv nofun hargs

theorem declareFunction_direct {φ : View false} {span : Span} {head : FunctionHead} {body : Node}
    (h : D.Tree (.function span head body)) :
    Tracks D φ s (Watched.declareFunction head body scope) (Direct.declareFunction head body scope)
      (seen D) := by
  have hd : D.Declares head.name.val (head.params.map (·.name.val)) body := ⟨span, head, h, rfl, rfl⟩
  refine get_left.mpr (demand fun _ => note_left hd fun s' => newId.bind fun n m φ₁ s₁ _ hn => ?_)
  have hf : seen D φ₁ (.function n head.name.val (head.params.map (·.name.val)) body scope)
      (.function m head.name.val (head.params.map (·.name.val)) body scope) := by
    refine ⟨⟨fun _ => ?_, hd⟩, ?_⟩
    · rw [hn]
      rfl
    · change _ = Value.function (φ₁.number n) _ _ _ _
      rw [View.number, hn, Option.getD_some]
  exact (define scope _ hf).bindSame fun _ _ _ he => pure (hf.mono he)

theorem form_direct {φ : View false} (hD : D.steady = true) (hself : SelfTracks D false self self') {node : Node}
    (h : D.Tree node) :
    Tracks D φ s (Watched.form self node scope) (Eval.evalForm .direct self' node scope) (seen D) := by
  cases node with
  | binary span op left right =>
    exact binaryNode op (hself left scope (D.child h (by simp [Node.children])))
      (hself right scope (D.child h (by simp [Node.children])))
  | call span function args =>
    exact evalCall hself function (fun arg ha => D.child h ha)
      fun φ s v w vs ws hv hvs => callValue_direct hself hv hvs
  | function span head body => exact declareFunction_direct h
  | _ => exact evalForm hD hself h (by simp) (by simp) (by simp)

/-! ## Functions are known by their names -/

theorem callValue_named {φ : View true} (hself : SelfTracks D true self self') {v w : Value}
    (hv : seen D φ v w) {args ws : List Value} (hargs : seenAll D φ args ws) :
    Tracks D φ s (Watched.callValue self v args scope) (ByName.callValue self' w ws scope)
      (seen D) := by
  refine ofTraced fun hs => ?_
  have hnoted : ∀ name d, FunctionTable.declaration? s.functions name = some d →
      D.Declares name d.params d.body := fun name d hd => by
    obtain ⟨f, hf, hd⟩ := Option.bind_eq_some_iff.mp hd
    obtain ⟨d', hd', hdeclares⟩ := hs.noted _ (Assoc.mem_of_lookup hf)
    rw [hd] at hd'
    exact Option.some.inj hd' ▸ hdeclares
  have hother (hfunction : ∀ id name params body outer, v ≠ .function id name params body outer) :
      Tracks D φ s (Eval.callValue .direct self v args scope)
        (Eval.callValue .direct self' w ws scope) (seen D) := callOther hself hv hfunction hargs
  obtain ⟨hv, rfl⟩ := hv
  cases v with
  | function id name params body outer =>
    refine noted_left.mpr (demand fun hscope => ?_)
    obtain ⟨d, hd, hscope⟩ := (Option.any_eq_true _ _).mp hscope
    obtain ⟨hparams, hbody⟩ := (hnoted name d hd).unique hv.2
    refine noted_right.mpr ?_
    rw [show (φ.session s).functions = s.functions from rfl, hd]
    dsimp only
    rw [hparams, hbody, eq_of_beq hscope]
    exact callDeclared hself hv.2.tree hargs id 0 name params outer
  | generic name =>
    refine noted_right.mpr ?_
    have hnone : FunctionTable.declaration? (φ.session s).functions name = none := by
      refine Option.eq_none_iff_forall_ne_some.mpr fun d hd => ?_
      exact (hnoted name d hd).not_builtin hv
    rw [hnone]
    exact hother nofun
  | _ => exact hother nofun

/-- The same names are known. -/
theorem knowsConstraints_session (φ : View named) (s : Session) (scope : ScopeId)
    (head : FunctionHead) :
    (φ.session s).knowsConstraints scope head = s.knowsConstraints scope head := by
  rw [Session.knowsConstraints, Session.knowsConstraints]
  congr 1
  funext name
  have hget : (φ.session s).scopes.get? scope name = (s.scopes.get? scope name).map φ.value :=
    ScopeTree.get?_map _ _ _ _
  rw [Session.knownTypes, Session.knownTypes, hget]
  cases s.scopes.get? scope name with
  | none => rfl
  | some v =>
    cases v with
    | function _ _ _ _ _ => cases named <;> rfl
    | _ => rfl

theorem declareFunction_named {φ : View true} {span : Span} {head : FunctionHead} {body : Node}
    (h : D.Tree (.function span head body)) :
    Tracks D φ s (Watched.declareFunction head body scope) (ByName.declareFunction head body scope)
      (seen D) := by
  have hd : D.Declares head.name.val (head.params.map (·.name.val)) body := ⟨span, head, h, rfl, rfl⟩
  refine get ?_
  rw [knowsConstraints_session]
  refine demand fun hk => ?_
  rw [hk]
  change Tracks D φ s _
    (do
      Eval.note head.name.val (head.declaration body scope)
      Eval.define scope head.name.val (.generic head.name.val)
      return .generic head.name.val) (seen D)
  refine (note (d := head.declaration body scope) hd).bindSame fun _ φ₁ s₁ _ => newId_left ?_
  have hf (n : Nat) : seen D φ₁ (.function n head.name.val (head.params.map (·.name.val)) body scope)
      (.generic head.name.val) := ⟨⟨nofun, hd⟩, rfl⟩
  exact (define scope _ (hf _)).bindSame fun _ _ _ he => pure ((hf _).mono he)

theorem form_named {φ : View true} (hD : D.steady = true) (hself : SelfTracks D true self self') {node : Node}
    (h : D.Tree node) :
    Tracks D φ s (Watched.form self node scope) (ByName.form self' node scope) (seen D) := by
  have hother := @evalForm D true φ s scope self self' hD hself node h
  cases node with
  | binary span op left right =>
    exact binaryNode op (hself left scope (D.child h (by simp [Node.children])))
      (hself right scope (D.child h (by simp [Node.children])))
  | call span function args =>
    exact evalCall hself function (fun arg ha => D.child h ha)
      fun φ s v w vs ws hv hvs => callValue_named hself hv hvs
  | function span head body => exact declareFunction_named h
  | _ => exact hother (by simp) (by simp) (by simp)

end Tracks

/-! ## The knot -/

namespace Watched

theorem tracked_direct (hD : D.steady = true) (n : Nat) :
    SelfTracks D false (Watched.eval n) (Eval.eval .direct n) := by
  induction n with
  | zero => exact fun node scope _ φ s _ => .gaveUp
  | succ n ih => exact fun node scope h φ s => (Tracks.form_direct hD ih h).located node.span

theorem tracked_byName (hD : D.steady = true) (n : Nat) :
    SelfTracks D true (Watched.eval n) (ByName.eval n) := by
  induction n with
  | zero => exact fun node scope _ φ s _ => .gaveUp
  | succ n ih => exact fun node scope h φ s => (Tracks.form_named hD ih h).located node.span

end Watched

end DispatchLang
