import DispatchLang.Proofs.Eval.SafeBuiltins

/-!
# Calls meet no name without a meaning

An evaluator for nodes is safe if it evaluates scoped nodes safely in scopes that see the names which are visible to
them, and if the scopes then also see what the nodes bind. With such an evaluator calling a closed value is safe in every
scope, as the body of a function is run in a new scope inside that of the function. Where a call is resolved, what is
found is a method that takes as many arguments as there are, so all parameters are bound.

## Main definitions

* `SelfSafe`: an evaluator for nodes is safe.

## Main results

* `Safe.callValue`, `Safe.callMethod`: calls are safe.
-/

namespace DispatchLang

/-- An evaluator for nodes is safe: scoped nodes are evaluated safely, and what they bind is seen afterwards. -/
def SelfSafe (strategy : Strategy) (watched : String → Bool) (self : NodeEval) : Prop :=
  ∀ (node : Node) (scope : ScopeId) (visible : List String) (s : Session), node.wellScoped watched visible = true →
    s.Sees scope visible → Safe strategy watched s (self node scope) fun t value =>
      value.Closed strategy watched t ∧ t.Sees scope (visible ++ node.binds)

namespace Safe

variable {α : Type} {strategy : Strategy} {watched : String → Bool} {s : Session} {P : Claim α} {self : NodeEval}
  {args : List Value} {scope : ScopeId} {visible : List String}

/-! ## Bodies -/

section

variable (hself : SelfSafe strategy watched self)
include hself

theorem runStatements {statements : List Node} (hclosed : Node.wellScopedAll watched visible statements = true)
    (hs : s.Sees scope visible) {last : Value} (hlast : last.Closed strategy watched s) :
    Safe strategy watched s (Eval.runStatements self scope last statements) (Value.Closed strategy watched) := by
  induction statements generalizing s visible last with
  | nil => exact pure hlast
  | cons statement statements ih =>
    rw [Node.wellScopedAll, Bool.and_eq_true] at hclosed
    exact (hself statement scope visible s hclosed.1 hs).bind fun value t _ h => ih hclosed.2 h.2 h.1

theorem runBody {body : Node} (hclosed : body.wellScoped watched visible = true) (hs : s.Sees scope visible) :
    Safe strategy watched s (Eval.runBody self body scope) (Value.Closed strategy watched) := by
  have hplain : Safe strategy watched s (self body scope) (Value.Closed strategy watched) :=
    (hself body scope visible s hclosed hs).mono fun _ _ _ => And.left
  cases body with
  | block span params statements =>
    cases params with
    | nil =>
      rw [Node.wellScoped, List.map_nil, List.append_nil] at hclosed
      exact runStatements hself hclosed hs closed_nothing
    | cons _ _ => exact hplain
  | _ => exact hplain

end

/-! ## Calls -/

/-- After the parameters of a function have been bound, a scope sees them as well. -/
theorem bindParams {inner : ScopeId} {params : List String} (hlength : params.length = args.length)
    (hinner : s.Sees inner visible) (hargs : valuesClosed strategy watched s args) {run : Eval Value}
    (hrun : ∀ t, s.Precedes t → t.Sees inner (visible ++ params) →
      Safe strategy watched t run (Value.Closed strategy watched)) :
    Safe strategy watched s (do Eval.defineAll inner (params.zip args); run) (Value.Closed strategy watched) := by
  have hbound : entriesClosed strategy watched s (params.zip args) := fun e he => hargs e.2 (List.of_mem_zip he).2
  refine (defineAll hinner.there hbound).bind fun _ t hst hparams => hrun t hst ?_
  rw [List.map_fst_zip (Nat.le_of_eq hlength)] at hparams
  exact (hinner.later hst).append hparams

/-- A computation may go on in a session that comes after the one that it began in. -/
theorem after {x y : Eval α} {t : Session} (ht : s.Closed strategy watched → s.Precedes t ∧ t.Closed strategy watched)
    (hxy : x s = y t)    (h : Safe strategy watched t y P) : Safe strategy watched s x P := by
  intro hs
  obtain ⟨hst, ht⟩ := ht hs
  have h := h ht
  rw [hxy]
  cases hrun : y t with
  | error halt u =>
    rw [hrun] at h
    exact h
  | ok a u =>
    rw [hrun] at h
    exact ⟨hst.trans h.1, h.2⟩

section

variable {ι : Type} (table : TableOf ι) {name : String}

/-- An invocation is safe if what follows it is. -/
theorem invoke {absent : Eval α} {answer : GenericFunction ι → Except DispatchError (Resolution ι) → Eval α}
    (habsent : (table.functions s.dispatcher).lookup name = none → Safe strategy watched s absent P)
    (hcalled : ∀ f, (table.functions s.dispatcher).lookup name = some f → s.Closed strategy watched →
      let out := f.resolve (args.map (Value.tag s.heap)) s.arena
      s.Precedes (table.called name out s) ∧ (table.called name out s).Closed strategy watched)
    (hanswer : ∀ f, (table.functions s.dispatcher).lookup name = some f → s.Closed strategy watched →
      let out := f.resolve (args.map (Value.tag s.heap)) s.arena
      s.Precedes (table.called name out s) →
      Safe strategy watched (table.called name out s) (answer f.forgetful out.result) P) :
    Safe strategy watched s (table.invoke name args absent answer) P := by
  cases hf : (table.functions s.dispatcher).lookup name with
  | none =>
    refine after (fun hs => ⟨.refl s, hs⟩) ?_ (habsent hf)
    rw [TableOf.invoke, hf]
  | some f =>
    exact ofClosed fun hs => after (hcalled f hf) (table.invoke_of_lookup hf) (hanswer f hf hs (hcalled f hf hs).1)

end

/-- What happens to the generic functions behind operators and methods is not seen by functions. -/
theorem called_of_same {t : Session} (hscopes : t.scopes = s.scopes) (hheap : t.heap = s.heap)
    (hfunctions : t.functions = s.functions) (hassignment : t.options.assignment = s.options.assignment)
    (hs : s.Closed strategy watched) : s.Precedes t ∧ t.Closed strategy watched := by
  have hg : s.Precedes t := ⟨hscopes ▸ .refl _, fun name hn => hfunctions ▸ hn⟩
  obtain ⟨h₁, h₂, h₃⟩ := hs.later hg
  exact ⟨hg, hassignment ▸ hs.assignment, hscopes ▸ h₁, hheap ▸ h₂, hfunctions ▸ h₃⟩

theorem invokeOperator (self : NodeEval) (symbol : String) (hargs : valuesClosed strategy watched s args)
    (scope : ScopeId) : Safe strategy watched s (Dispatch.invokeOperator self symbol args scope) (Value.Closed strategy watched) := by
  rw [Dispatch.invokeOperator_eq]
  refine invoke TableOf.operators (fun _ => fail rfl) (fun f _ => called_of_same rfl rfl rfl rfl) fun f _ _ hst => ?_
  split
  · exact fail rfl
  · exact primitive self _ (hargs.later hst) scope

theorem arityMismatch? {f : GenericFunction FunctionBody} {given : Nat} {fault : Fault}
    (h : Dispatch.arityMismatch? f given = some fault) : fault.isUndefined watched = false := by
  rw [Dispatch.arityMismatch?] at h
  split at h
  · cases h
  · split at h <;> cases h
    rfl

theorem called_function {name : String} {f : GenericFunction FunctionBody} (hf : s.functions.lookup name = some f)
    (tags : List TypeId) (hs : s.Closed strategy watched) :
    let out := f.resolve tags s.arena
    s.Precedes (TableOf.functionsByName.called name out s) ∧
      (TableOf.functionsByName.called name out s).Closed strategy watched := by
  intro out
  have hg : s.Precedes (TableOf.functionsByName.called name out s) := by
    refine ⟨.refl _, fun other hother => ?_⟩
    change ((Assoc.insert name out.function s.functions).lookup other).isSome = true
    by_cases hne : other = name
    · rw [hne, Assoc.lookup_insert_self]
      rfl
    · rwa [Assoc.lookup_insert_of_ne hne]
  obtain ⟨h₁, h₂, h₃⟩ := hs.later hg
  refine ⟨hg, hs.assignment, h₁, h₂, fun e he => ?_⟩
  rcases ScopeTree.mem_insert he with heq | he
  · rw [heq]
    exact ((h₃ _ (Assoc.mem_of_lookup hf)).resolve tags s.arena).1
  · exact h₃ e he

section

variable (hself : SelfSafe .dispatch watched self)
include hself

/-- A declared function is run in a new scope inside that of its declaration, in which the type variables are bound
besides the parameters. -/
theorem runDeclared {params : List String} {body : Node} {outer : ScopeId} {bindings : TypeArena.Bindings}
    (hlength : params.length = args.length) (hs : s.Sees outer visible)
    (hclosed : body.wellScoped watched (visible ++ params) = true) (hargs : valuesClosed .dispatch watched s args) :
    Safe .dispatch watched s (Dispatch.runDeclared self params body outer bindings args)
      (Value.Closed .dispatch watched) := by
  refine (newScope hs).bind fun inner t hst hinner => get ?_
  have htypes : entriesClosed .dispatch watched t (bindings.map fun b => (b.1, .typeRef b.2 (t.arena.name b.2))) :=
    List.forall_mem_map.mpr fun _ _ => (Value.closed_iff rfl).mpr trivial
  refine (defineAll hinner.there htypes).bind fun _ u htu _ => ?_
  exact bindParams hlength (hinner.later htu) (hargs.later (hst.trans htu)) fun w _ hw => runBody hself hclosed hw

theorem invokeFunction {name : String} (hname : (s.functions.lookup name).isSome = true)
    (hargs : valuesClosed .dispatch watched s args) (scope : ScopeId) :
    Safe .dispatch watched s (Dispatch.invokeFunction self name args scope) (Value.Closed .dispatch watched) := by
  rw [Dispatch.invokeFunction_eq]
  refine invoke TableOf.functionsByName (fun hnone => ?_) (fun f hf => called_function hf _) fun f hf hs hst => ?_
  · rw [show s.functions.lookup name = none from hnone] at hname
    cases hname
  · have htakes := ((hs.functions _ (Assoc.mem_of_lookup hf)).resolve (args.map (Value.tag s.heap)) s.arena).2
    have hargs := hargs.later hst
    split
    · next e _ =>
      refine fail ?_
      cases hm : Dispatch.arityMismatch? f.forgetful args.length with
      | none => rfl
      | some fault => exact arityMismatch? hm
    · next r hr =>
      obtain ⟨hmethod, hlength⟩ := htakes r hr
      rw [List.length_map] at hlength
      have hmethod := hmethod.later hst
      rw [Method.Closed] at hmethod
      split
      · exact primitive self _ hargs scope
      · next params body outer himpl =>
        rw [himpl] at hmethod
        obtain ⟨hparams, visible, hseen, hbody⟩ := hmethod
        exact runDeclared hself (hparams.trans hlength) hseen hbody hargs

end

theorem invokeMethod {call : Value → List Value → Eval Value} (hcall : Calls strategy watched call) (self : NodeEval)
    (name : String) (hargs : valuesClosed strategy watched s args) (scope : ScopeId) :
    Safe strategy watched s (Dispatch.invokeMethod self call name args scope) fun t answer =>
      ∀ v, answer = .ok v → v.Closed strategy watched t := by
  have answered {t : Session} {v : Value} (hv : v.Closed strategy watched t) (w : Value)
      (heq : (.ok v : Except (Option DispatchError) Value) = .ok w) : w.Closed strategy watched t :=
    Except.ok.inj heq ▸ hv
  rw [Dispatch.invokeMethod_eq]
  refine invoke TableOf.methods (fun _ => pure fun _ h => by cases h)
    (fun f _ => called_of_same rfl rfl rfl rfl) fun f _ _ hst => ?_
  have hargs := hargs.later hst
  split
  · split
    · exact (primitive self _ hargs scope).bind fun _ _ _ hv => pure (answered hv)
    · exact (callback hcall _ hargs).bind fun _ _ _ hv => pure (answered hv)
  · split
    · exact pure fun _ h => by cases h
    · exact fail rfl

/-! ### Fields -/

theorem checkField (owner field : String) (expected : TypeId) (value : Value) :
    Safe strategy watched s (Eval.checkField owner field expected value) anything := by
  refine get ?_
  dsimp only
  split
  · exact pure trivial
  · exact fail rfl

theorem checkFields (owner : String) (fields : FieldTypes) (values : List Value) :
    Safe strategy watched s (Eval.checkFields owner fields values) anything := by
  induction fields generalizing s values with
  | nil => exact pure trivial
  | cons field fields ih =>
    cases values with
    | nil => exact pure trivial
    | cons value values => exact (checkField owner field.1 field.2 value).bind fun _ _ _ _ => ih values

theorem orderFields (owner : String) (declared : FieldTypes) {given : List (String × Value)}
    (h : entriesClosed strategy watched s given) :
    Safe strategy watched s (Eval.orderFields owner declared given) (entriesClosed strategy watched) := by
  induction declared generalizing s given with
  | nil => exact pure (List.forall_mem_nil _)
  | cons field declared ih =>
    obtain ⟨field, expected⟩ := field
    rw [Eval.orderFields]
    split
    · exact fail rfl
    · next value hl =>
      refine (checkField owner field expected value).bind fun _ t hst _ => ?_
      refine (ih (Assoc.forall_mem_erase (entriesClosed.later h hst))).bind fun rest u htu hrest => ?_
      have hvalue : value.Closed strategy watched s := h _ (Assoc.mem_of_lookup hl)
      exact pure (List.forall_mem_cons.mpr ⟨hvalue.later (hst.trans htu), hrest⟩)

/-! ### Calling values -/

section

variable (hself : SelfSafe strategy watched self)
include hself

theorem callValue (scope : ScopeId) :
    Calls strategy watched fun callee args => Eval.callValue strategy self callee args scope := by
  intro s callee args hcallee hargs
  have entered {outer : ScopeId} {params : List String} {run : ScopeId → Eval Value}
      (h : ∃ visible, s.Sees outer visible ∧ ∀ t inner, t.Sees inner (visible ++ params) →
        Safe strategy watched t (run inner) (Value.Closed strategy watched)) (who : String) :
      Safe strategy watched s (do
        Eval.check (DispatchLang.checkArity who params.length args.length)
        let inner ← Eval.newScope outer
        Eval.defineAll inner (params.zip args)
        run inner) (Value.Closed strategy watched) := by
    obtain ⟨visible, hs, hrun⟩ := h
    refine (checkArity who _ _).bind fun _ t hst hlength => (newScope (hs.later hst)).bind fun inner u htu hinner => ?_
    exact bindParams hlength hinner (hargs.later (hst.trans htu)) fun w _ hw => hrun w inner hw
  cases callee with
  | closure id params body outer =>
    obtain ⟨visible, hs, hbody⟩ := (Value.closed_iff rfl).mp hcallee
    exact entered ⟨visible, hs, fun t inner ht => runStatements hself hbody ht closed_nothing⟩ _
  | function id name params body outer =>
    obtain ⟨visible, hs, hbody⟩ := (Value.closed_iff rfl).mp hcallee
    exact entered ⟨visible, hs, fun t inner ht => runBody hself hbody ht⟩ _
  | generic name =>
    have hknown : strategy.Knows s name := (Value.closed_iff rfl).mp hcallee
    cases strategy with
    | direct => exact directFunction self hknown hargs scope
    | dispatch => exact invokeFunction hself hknown hargs scope
  | constructor id c =>
    refine (checkArity _ _ _).bind fun _ t hst _ => (checkFields _ _ _).bind fun _ u htu _ => ?_
    exact pure (Value.closed_inst.mpr fun e he => (hargs e.2 (List.of_mem_zip he).2).later (hst.trans htu))
  | _ => exact mismatched _ _

theorem callMember {receiver : Value} (hreceiver : receiver.Closed strategy watched s)
    (hargs : valuesClosed strategy watched s args)    (name : String) (scope : ScopeId) {otherwise : Fault} (hfault : otherwise.isUndefined watched = false) :
    Safe strategy watched s (Eval.callMember strategy self receiver name args scope otherwise)
      (Value.Closed strategy watched) := by
  refine ofClosed fun hs => get ?_
  split
  · next member hmember =>
    obtain ⟨hfield, -⟩ := Option.filter_eq_some_iff.mp hmember
    exact callValue hself scope s _ _ (Value.inherited_closed.ownField? hs.heap hreceiver hfield) hargs
  · refine (lookup scope name).bind fun found t hst hfound => ?_
    split
    · next f hf =>
      obtain ⟨hf, -⟩ := Option.filter_eq_some_iff.mp hf
      exact callValue hself scope t _ _ (hfound f hf)
        (List.forall_mem_cons.mpr ⟨hreceiver.later hst, hargs.later hst⟩)
    · exact fail hfault

theorem callMethod {receiver : Value} (hreceiver : receiver.Closed strategy watched s)
    (hargs : valuesClosed strategy watched s args)    (name : String) (scope : ScopeId) :
    Safe strategy watched s (Eval.callMethod strategy self receiver name args scope)
      (Value.Closed strategy watched) := by
  cases strategy with
  | direct =>
    rw [Eval.callMethod]
    split
    · next action haction => exact directMethod? hargs (callValue hself scope) hreceiver haction
    · exact (typeText _ _).bind fun _ t hst _ =>
        callMember hself (hreceiver.later hst) (hargs.later hst) name scope rfl
  | dispatch =>
    refine (invokeMethod (callValue hself scope) self name (List.forall_mem_cons.mpr ⟨hreceiver, hargs⟩) scope).bind
      fun answer t hst hanswer => ?_
    split
    · exact pure (hanswer _ rfl)
    · exact callMember hself (hreceiver.later hst) (hargs.later hst) name scope rfl
    · exact (typeText _ _).bind fun _ u htu _ =>
        callMember hself (hreceiver.later (hst.trans htu)) (hargs.later (hst.trans htu)) name scope rfl

end

end Safe

end DispatchLang
