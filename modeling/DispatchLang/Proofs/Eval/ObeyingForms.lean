import DispatchLang.Proofs.Eval.Natives
import DispatchLang.Proofs.Eval.ObeyingBuiltins

/-!
# Evaluation obeys every discipline

If two evaluators do the same with the parts of a form and obey a discipline, they do the same with the form and obey
the discipline. Here the discipline matters: where something is assigned to that is no target, and where a pair is
evaluated, the discipline has to say that this may go wrong. By induction on the depth of nesting every evaluation obeys every
discipline, under both strategies.

## Main results

* `Obey.callValue`, `Obey.callMethod`: calls.
* `Obey.form`: a form obeys the discipline if its parts do.
* `Obeys.eval`: so does every evaluation.
-/

namespace DispatchLang

namespace Obey

variable {α : Type} {d : Discipline} {strategy : Strategy} {s : Session} {P : Claim α} {args : List Value}
  {self self' : NodeEval}

/-! ## Bodies -/

section

variable (hself : SelfObeys d strategy self self')
include hself

theorem runStatements (scope : ScopeId) {statements : List Node} (h : ∀ node ∈ statements, d.admits node) {last : Value}
    (hlast : last.Kept d strategy s.heap) : Obey d strategy s (Eval.runStatements self scope last statements)
      (Eval.runStatements self' scope last statements) (kept d strategy) := by
  induction statements generalizing s last with
  | nil => exact pure hlast
  | cons statement statements ih =>
    obtain ⟨hstatement, hstatements⟩ := List.forall_mem_cons.mp h
    exact (hself statement scope s hstatement).bind fun _ _ _ hv => ih hstatements hv

theorem runBody {body : Node} (h : d.admits body) (scope : ScopeId) :
    Obey d strategy s (Eval.runBody self body scope) (Eval.runBody self' body scope) (kept d strategy) := by
  unfold Eval.runBody
  split
  · exact runStatements hself scope (fun _ hnode => d.child h hnode) kept_nothing
  · exact hself body scope s h

end

/-! ## Built-in functions that are called by type -/

/-- A computation may go on in a session that comes after the one that it began in. -/
theorem after {x x' y y' : Eval α} {t : Session}
    (ht : s.Orderly d strategy → s.heap.Grows t.heap ∧ t.Orderly d strategy) (hx : x s = x' t) (hy : y s = y' t)
    (h : Obey d strategy t x' y' P) : Obey d strategy s x y P := by
  intro hs
  obtain ⟨hst, ht⟩ := ht hs
  obtain ⟨heq, h⟩ := h ht
  rw [hx, hy]
  refine ⟨heq, ?_⟩
  cases hrun : y' t with
  | error halt u =>
    rw [hrun] at h
    exact h
  | ok a u =>
    rw [hrun] at h
    exact ⟨hst.trans h.1, h.2⟩

section

variable {ι : Type} (table : TableOf ι) {name : String}

/-- What is behind a name and what a call resolves to is the same for both computations. -/
theorem invoke {absent absent' : Eval α}
    {answer answer' : GenericFunction ι → Except DispatchError (Resolution ι) → Eval α}
    (habsent : Obey d strategy s absent absent' P)
    (hcalled : ∀ f, (table.functions s.dispatcher).lookup name = some f → s.Orderly d strategy →
      let out := f.resolve (args.map (Value.tag s.heap)) s.arena
      s.heap.Grows (table.called name out s).heap ∧ (table.called name out s).Orderly d strategy)
    (hanswer : ∀ f, (table.functions s.dispatcher).lookup name = some f → s.Orderly d strategy →
      let out := f.resolve (args.map (Value.tag s.heap)) s.arena
      s.heap.Grows (table.called name out s).heap →
      Obey d strategy (table.called name out s) (answer f.forgetful out.result) (answer' f.forgetful out.result) P) :
    Obey d strategy s (table.invoke name args absent answer) (table.invoke name args absent' answer') P := by
  cases hf : (table.functions s.dispatcher).lookup name with
  | none =>
    refine after (fun hs => ⟨.refl _, hs⟩) ?_ ?_ habsent
    · rw [TableOf.invoke, hf]
    · rw [TableOf.invoke, hf]
  | some f =>
    exact ofOrderly fun hs => after (hcalled f hf) (table.invoke_of_lookup hf) (table.invoke_of_lookup hf)
      (hanswer f hf hs (hcalled f hf hs).1)

end

/-- What operators and methods remember is not seen by values. -/
theorem called_of_same {t : Session} (hscopes : t.scopes = s.scopes) (hheap : t.heap = s.heap)
    (hfunctions : t.functions = s.functions) (hs : s.Orderly d .dispatch) :
    s.heap.Grows t.heap ∧ t.Orderly d .dispatch :=
  ⟨hheap ▸ .refl _, hheap ▸ hs.heap, hheap ▸ hs.cells, hscopes ▸ hheap ▸ hs.scopes, TypeArena.untyped_dispatch,
    hfunctions ▸ hs.functions⟩

/-- After a call, what is behind the name may still be run. -/
theorem called_function {name : String} {f : GenericFunction FunctionBody} (hf : s.functions.lookup name = some f)
    (tags : List TypeId) (hs : s.Orderly d .dispatch) :
    let out := f.resolve tags s.arena
    s.heap.Grows (TableOf.functionsByName.called name out s).heap ∧
      (TableOf.functionsByName.called name out s).Orderly d .dispatch := by
  refine ⟨.refl _, hs.heap, hs.cells, hs.scopes, TypeArena.untyped_dispatch, fun _ e he => ?_⟩
  rcases ScopeTree.mem_insert he with heq | he
  · rw [heq]
    exact ((hs.functions rfl _ (Assoc.mem_of_lookup hf)).resolve tags s.arena).1
  · exact hs.functions rfl e he

section

variable (hself : SelfObeys d .dispatch self self')
include hself

theorem invokeOperator (symbol : String) (hargs : allKept d .dispatch s args) (scope : ScopeId) :
    Obey d .dispatch s (Dispatch.invokeOperator self symbol args scope) (Dispatch.invokeOperator self' symbol args scope)
      (kept d .dispatch) := by
  rw [Dispatch.invokeOperator_eq, Dispatch.invokeOperator_eq]
  refine invoke TableOf.operators (fail rfl) (fun f _ => called_of_same rfl rfl rfl) fun f _ _ hst => ?_
  split
  · exact fail rfl
  · exact primitive hself _ (hargs.later hst) scope

/-- A declared function is run in a new scope inside that of its declaration, in which the type variables are bound
besides the parameters. -/
theorem runDeclared (params : List String) {body : Node} (h : d.admits body) (outer : ScopeId)
    (bindings : TypeArena.Bindings) (hargs : allKept d .dispatch s args) :
    Obey d .dispatch s (Dispatch.runDeclared self params body outer bindings args)
      (Dispatch.runDeclared self' params body outer bindings args) (kept d .dispatch) := by
  refine (newScope outer).bind fun inner t hst _ => get ?_
  have htypes : entriesKept d .dispatch t (bindings.map fun b => (b.1, .typeRef b.2 (t.arena.name b.2))) :=
    List.forall_mem_map.mpr fun _ _ => Value.kept_of_parts rfl trivial trivial
  refine (defineAll inner htypes).bind fun _ u htu _ => ?_
  refine (defineAll inner fun e he => ?_).bind fun _ w _ _ => runBody hself h inner
  exact (hargs e.2 (List.of_mem_zip he).2).later (hst.trans htu)

theorem invokeMethod {call call' : Value → List Value → Eval Value} (hcall : Calls d .dispatch call call')
    (name : String) (hargs : allKept d .dispatch s args) (scope : ScopeId) :
    Obey d .dispatch s (Dispatch.invokeMethod self call name args scope)
      (Dispatch.invokeMethod self' call' name args scope) fun t answer =>
        ∀ v, answer = .ok v → v.Kept d .dispatch t.heap := by
  have answered {t : Session} {v : Value} (hv : v.Kept d .dispatch t.heap) (w : Value)
      (heq : (.ok v : Except (Option DispatchError) Value) = .ok w) : w.Kept d .dispatch t.heap := Except.ok.inj heq ▸ hv
  rw [Dispatch.invokeMethod_eq, Dispatch.invokeMethod_eq]
  refine invoke TableOf.methods (pure fun _ h => by cases h) (fun f _ => called_of_same rfl rfl rfl) fun f _ _ hst => ?_
  have hargs := hargs.later hst
  split
  · split
    · exact (primitive hself _ hargs scope).bind fun _ _ _ hv => pure (answered hv)
    · exact (callback hcall _ hargs).bind fun _ _ _ hv => pure (answered hv)
  · split
    · exact pure fun _ h => by cases h
    · exact fail rfl

end

theorem invokeFunction (hself : SelfObeys d .dispatch self self') (name : String) (hargs : allKept d .dispatch s args)
    (scope : ScopeId) : Obey d .dispatch s (Dispatch.invokeFunction self name args scope)
      (Dispatch.invokeFunction self' name args scope) (kept d .dispatch) := by
  rw [Dispatch.invokeFunction_eq, Dispatch.invokeFunction_eq]
  refine invoke TableOf.functionsByName (fail rfl) (fun f hf => called_function hf _) fun f hf hs hst => ?_
  have htakes := ((hs.functions rfl _ (Assoc.mem_of_lookup hf)).resolve (args.map (Value.tag s.heap)) s.arena).2
  have hargs := hargs.later hst
  split
  · refine fail ?_
    rw [Dispatch.arityMismatch?]
    split
    · rfl
    · split <;> rfl
  · next r hr =>
    have hmethod := (htakes r hr).1
    rw [Method.CodeAdmitted] at hmethod
    split
    · exact primitive hself _ hargs scope
    · next params body outer himpl =>
      rw [himpl] at hmethod
      exact runDeclared hself params hmethod outer r.bindings hargs

/-! ## Calls -/

theorem checkField (owner field : String) (expected : TypeId) (value : Value) :
    Obeys d strategy s (Eval.checkField owner field expected value) anything := by
  refine get ?_
  dsimp only
  split
  · exact pure trivial
  · exact fail rfl

theorem checkFields (owner : String) (fields : FieldTypes) (values : List Value) :
    Obeys d strategy s (Eval.checkFields owner fields values) anything := by
  induction fields generalizing s values with
  | nil => exact pure trivial
  | cons field fields ih =>
    cases values with
    | nil => exact pure trivial
    | cons value values => exact (checkField owner field.1 field.2 value).bind fun _ _ _ _ => ih values

theorem orderFields (owner : String) (declared : FieldTypes) {given : List (String × Value)}
    (h : entriesKept d strategy s given) :
    Obeys d strategy s (Eval.orderFields owner declared given) (entriesKept d strategy) := by
  induction declared generalizing s given with
  | nil => exact pure (List.forall_mem_nil _)
  | cons field declared ih =>
    obtain ⟨field, expected⟩ := field
    rw [Eval.orderFields]
    split
    · exact fail rfl
    · next value hl =>
      refine (checkField owner field expected value).bind fun _ t hst _ => ?_
      refine (ih (Assoc.forall_mem_erase (entriesKept.later h hst))).bind fun rest u htu hrest => ?_
      have hvalue : value.Kept d strategy s.heap := h _ (Assoc.mem_of_lookup hl)
      exact pure (List.forall_mem_cons.mpr ⟨hvalue.later (hst.trans htu), hrest⟩)

section

variable (hself : SelfObeys d strategy self self')
include hself

theorem callValue (scope : ScopeId) :
    Calls d strategy (fun callee args => Eval.callValue strategy self callee args scope)
    fun callee args => Eval.callValue strategy self' callee args scope := by
  intro s callee args hcallee hargs
  have entered {outer : ScopeId} {params : List String} {run run' : ScopeId → Eval Value}
      (hrun : ∀ t inner, Obey d strategy t (run inner) (run' inner) (kept d strategy)) (who : String) :
      Obey d strategy s
        (do
          Eval.check (DispatchLang.checkArity who params.length args.length)
          let inner ← Eval.newScope outer
          Eval.defineAll inner (params.zip args)
          run inner)
        (do
          Eval.check (DispatchLang.checkArity who params.length args.length)
          let inner ← Eval.newScope outer
          Eval.defineAll inner (params.zip args)
          run' inner) (kept d strategy) := by
    refine (checkArity _ _ _).bind fun _ t hst _ => (newScope outer).bind fun inner u htu _ => ?_
    refine (defineAll inner fun e he => ?_).bind fun _ v _ _ => hrun v inner
    exact (hargs e.2 (List.of_mem_zip he).2).later (hst.trans htu)
  cases callee with
  | closure id params body outer =>
    exact entered (fun t inner => runStatements hself inner hcallee.admitted kept_nothing) _
  | function id name params body outer => exact entered (fun t inner => runBody hself hcallee.admitted inner) _
  | generic name =>
    cases strategy with
    | direct => exact directFunction hself name hargs scope
    | dispatch => exact invokeFunction hself name hargs scope
  | constructor id c =>
    refine (checkArity _ _ _).bind fun _ t hst _ => (checkFields _ _ _).bind fun _ u htu _ => ?_
    refine pure (Value.kept_inst (fun hdirect => ?_) fun e he => ?_)
    · subst hdirect
      exact hcallee.stored.placed rfl
    · exact (hargs e.2 (List.of_mem_zip he).2).later (hst.trans htu)
  | _ => exact mismatched (fun _ => rfl) _ _

theorem callMember {receiver : Value} (hr : receiver.Kept d strategy s.heap) (hargs : allKept d strategy s args)
    (name : String) (scope : ScopeId) {otherwise : Fault} (hotherwise : otherwise.isOfForm = false) :
    Obey d strategy s (Eval.callMember strategy self receiver name args scope otherwise)
      (Eval.callMember strategy self' receiver name args scope otherwise) (kept d strategy) := by
  refine ofOrderly fun hs => get ?_
  split
  · next member hmember =>
    obtain ⟨hfield, -⟩ := Option.filter_eq_some_iff.mp hmember
    exact callValue hself scope s _ _ (Value.inherited_kept.ownField? hs.cells hr hfield) hargs
  · refine (lookup scope name).bind fun found t hst hfound => ?_
    split
    · next f hf =>
      obtain ⟨hf, -⟩ := Option.filter_eq_some_iff.mp hf
      exact callValue hself scope t _ _ (hfound f hf) (List.forall_mem_cons.mpr ⟨hr.later hst, hargs.later hst⟩)
    · exact fail hotherwise

theorem callMethod {receiver : Value} (hr : receiver.Kept d strategy s.heap) (hargs : allKept d strategy s args)
    (name : String) (scope : ScopeId) : Obey d strategy s (Eval.callMethod strategy self receiver name args scope)
      (Eval.callMethod strategy self' receiver name args scope) (kept d strategy) := by
  have hcall := callValue hself scope
  have member {t : Session} (hst : s.heap.Grows t.heap) {fault : Fault} (h : fault.isOfForm = false) :=
    callMember hself (hr.later hst) (hargs.later hst) name scope h
  cases strategy with
  | direct =>
    have hmethod := directMethod? hargs name hcall hr
    rw [Eval.callMethod, Eval.callMethod]
    dsimp only
    revert hmethod
    generalize Direct.method? _ receiver name args = action, Direct.method? _ receiver name args = action'
    rintro (h | -)
    · exact h
    · exact (typeText _ _).bind fun _ t hst _ => member hst rfl
  | dispatch =>
    refine (invokeMethod hself hcall name (List.forall_mem_cons.mpr ⟨hr, hargs⟩) scope).bind fun answer t hst ha => ?_
    split
    · next value => exact pure (ha value rfl)
    · exact member hst rfl
    · exact (typeText _ _).bind fun _ u htu _ => member (hst.trans htu) rfl

/-! ## Instances -/

theorem evalAll {nodes : List Node} (h : ∀ node ∈ nodes, d.admits node) (scope : ScopeId) :
    Obey d strategy s (Eval.evalAll self nodes scope) (Eval.evalAll self' nodes scope) (allKept d strategy) :=
  mapM fun t _ node hnode => hself node scope t (h node hnode)

section

variable {fields : List (Located String × Node)} (hfields : ∀ field ∈ fields, d.admits field.2)
include hfields

theorem evalEntries (scope : ScopeId) {done : List (String × Value)} (hdone : entriesKept d strategy s done)
    (hk : DistinctKeys done) :
    Obey d strategy s (Eval.evalEntries self scope done fields) (Eval.evalEntries self' scope done fields)
      fun t entries => entriesKept d strategy t entries ∧ DistinctKeys entries := by
  induction fields generalizing s done with
  | nil => exact pure ⟨hdone, hk⟩
  | cons field fields ih =>
    obtain ⟨hfield, hfields⟩ := List.forall_mem_cons.mp hfields
    exact (hself field.2 scope s hfield).bind fun value t hst hv =>
      ih hfields (ScopeTree.forall_mem_insert hv (entriesKept.later hdone hst)) (distinctKeys_insert hk _ _)

theorem givenFields (declared : FieldTypes) (owner : String) (scope : ScopeId) {given : List (String × Value)}
    (hgiven : entriesKept d strategy s given) :
    Obey d strategy s (Eval.givenFields self declared owner scope given fields)
      (Eval.givenFields self' declared owner scope given fields) (entriesKept d strategy) := by
  induction fields generalizing s given with
  | nil => exact pure hgiven
  | cons field fields ih =>
    obtain ⟨hfield, hfields⟩ := List.forall_mem_cons.mp hfields
    rw [Eval.givenFields, Eval.givenFields]
    split
    · exact failAt rfl _
    · split
      · exact failAt rfl _
      · exact (hself field.2 scope s hfield).bind fun value t hst hv => ih hfields
          (List.forall_mem_append.mpr ⟨entriesKept.later hgiven hst, List.forall_mem_singleton.mpr hv⟩)

theorem instance_of {type : TypeId} (htype : strategy = .direct → type = .any) (typeName : String)
    (variant : Option String) (owner : String) (declared : FieldTypes) (scope : ScopeId) :
    Obey d strategy s
      (do
        let given ← Eval.givenFields self declared owner scope [] fields
        return Value.inst type typeName variant (← Eval.orderFields owner declared given))
      (do
        let given ← Eval.givenFields self' declared owner scope [] fields
        return Value.inst type typeName variant (← Eval.orderFields owner declared given)) (kept d strategy) :=
  (givenFields hself hfields declared owner scope (List.forall_mem_nil _)).bind fun _ _ _ hgiven =>
    (orderFields owner declared hgiven).bind fun _ _ _ hordered => pure (Value.kept_inst htype hordered)

theorem construct (name : Located String) (scope : ScopeId) :
    Obey d strategy s (Eval.construct strategy self name fields scope)
      (Eval.construct strategy self' name fields scope) (kept d strategy) := by
  refine (lookup scope name.val).bind fun found t hst hfound => ?_
  split
  · refine get ?_
    split
    · refine instance_of hself hfields (fun hdirect => ?_) _ none _ _ scope
      rw [hdirect]
      rfl
    · exact fail rfl
  · next id c =>
    refine instance_of hself hfields (fun hdirect => ?_) _ _ _ _ scope
    subst hdirect
    exact (hfound _ rfl).stored.placed rfl
  · exact failAt rfl _

end

end

/-! ## Patterns -/

theorem matchValue (pattern : Node) {value : Value} (h : value.Kept d strategy s.heap) :
    Obeys d strategy s (Eval.matchValue pattern value) fun t found =>
      ∀ bindings, found = some bindings → entriesKept d strategy t bindings := by
  have inherited : Value.Inherited (Value.Kept d strategy s.heap) := Value.inherited_kept
  have hmeets := Value.matchPattern_meets inherited pattern h
  rw [Eval.matchValue]
  rcases hm : value.matchPattern pattern with e | found <;> rw [hm] at hmeets
  · refine throw (d.others ?_)
    rw [show e.fault = .pattern .invalid from hmeets]
    rfl
  · refine pure fun bindings hfound => ?_
    rw [hfound] at hmeets
    exact hmeets.2

/-- Assigning to what is no target goes wrong, which the discipline has to allow. -/
theorem assignTo {target : Node} (h : target.isTarget = true ∨ d.raises (.mismatch .assignmentTarget)) {value : Value}
    (hv : value.Kept d strategy s.heap) (scope : ScopeId) :
    Obeys d strategy s (Eval.assignTo target value scope) anything := by
  cases target with
  | ident span name => exact assign scope name hv
  | construct span name fields =>
    refine (matchValue _ hv).bind fun found t _ hfound => ?_
    split
    · next bindings => exact forM (fun u e he => assign scope e.1 he) (hfound bindings rfl)
    · exact (repr value).bind fun _ _ _ _ => failAt rfl _
  | _ => exact throw (h.resolve_left Bool.false_ne_true)

section

variable (hself : SelfObeys d strategy self self')
include hself

theorem runArms {value : Value} (h : value.Kept d strategy s.heap) (scope : ScopeId) {arms : List (Node × Node)}
    (harms : ∀ arm ∈ arms, d.admits arm.2) :
    Obey d strategy s (Eval.runArms self value scope arms) (Eval.runArms self' value scope arms) (kept d strategy) := by
  induction arms generalizing s with
  | nil => exact (repr value).bind fun _ _ _ _ => fail rfl
  | cons arm arms ih =>
    obtain ⟨pattern, body⟩ := arm
    obtain ⟨hbody, harms⟩ := List.forall_mem_cons.mp harms
    refine (matchValue pattern h).bind fun found t hst hfound => ?_
    split
    · exact ih (h.later hst) harms
    · next bindings =>
      refine (newScope scope).bind fun inner u htu _ => ?_
      exact (defineAll inner (entriesKept.later (hfound bindings rfl) htu)).bind fun _ _ _ _ =>
        runBody hself hbody inner

end

/-! ## Declarations by shape -/

theorem declared (scope : ScopeId) (name : String) {value : Value} (h : ∀ heap, value.Kept d strategy heap) :
    Obeys d strategy s (do
      Eval.define scope name value
      return value) (kept d strategy) :=
  (define scope name (h _)).bind fun _ _ _ _ => pure (h _)

theorem kept_typeRef (id : TypeId) (name : String) (heap : Heap) : (Value.typeRef id name).Kept d strategy heap :=
  Value.kept_of_parts rfl trivial trivial

/-- Fields that are declared by shape may hold anything. -/
theorem untyped_fieldTypes (fields : List FieldDecl) : UntypedFields strategy (Direct.fieldTypes fields) :=
  fun _ => List.forall_mem_map.mpr fun _ _ => rfl

theorem directVariant (typeName variant : String) {fields : FieldTypes} (h : UntypedFields strategy fields) :
    Obeys d strategy s (Direct.variantValue typeName variant fields) (kept d strategy) := by
  rw [Direct.variantValue]
  split
  · exact pure (Value.kept_inst (fun _ => rfl) (List.forall_mem_nil _))
  · exact newId.bind fun _ _ _ _ => answer rfl (fun _ => rfl) h

theorem directVariants (scope : ScopeId) (typeName : String) (alternatives : List VariantDecl) :
    Obeys d strategy s (alternatives.forM fun v => do
      Eval.define scope v.name.val (← Direct.variantValue typeName v.name.val (Direct.fieldTypes v.fields)))
      anything := by
  induction alternatives generalizing s with
  | nil => exact pure trivial
  | cons v alternatives ih =>
    refine bind (P := anything) ?_ fun _ _ _ _ => ih
    exact (directVariant typeName v.name.val (untyped_fieldTypes v.fields)).bind fun _ _ _ hv => define scope v.name.val hv

theorem directType (decl : TypeDecl) (scope : ScopeId) :
    Obeys d strategy s (Direct.declareType decl scope) (kept d strategy) := by
  have add {t : Session} {kind : TypeKind}
      (h : ∀ params fields, kind = .struct params fields → UntypedFields strategy fields) : Obeys d strategy t (do
      let id ← Eval.modifyTypes (·.add ⟨decl.name.val, kind, some .any⟩)
      Eval.define scope decl.name.val (Value.typeRef id decl.name.val)
      return Value.typeRef id decl.name.val) (kept d strategy) :=
    (modifyTypes fun htypes => htypes.add h).bind fun id _ _ _ => declared scope _ (kept_typeRef id _)
  rw [Direct.declareType]
  dsimp only
  cases decl.body with
  | abstract | concrete => exact add nofun
  | struct fields => exact add fun _ _ heq => (TypeKind.struct.inj heq).2 ▸ untyped_fieldTypes fields
  | variants alternatives => exact (directVariants scope decl.name.val alternatives).bind fun _ _ _ _ => add nofun

theorem directDeclared (head : FunctionHead) {body : Node} (h : d.admits body) (scope : ScopeId) :
    Obeys d strategy s (Direct.declareFunction head body scope) (kept d strategy) :=
  newId.bind fun _ _ _ _ => declared scope _ fun _ => Value.kept_of_parts rfl trivial h

/-! ## Declarations by type -/

/-- Where values are told apart by type, types may have any fields. -/
theorem typesByType (f : TypeArena → α × TypeArena) : Obeys d .dispatch s (Eval.modifyTypes f) anything :=
  modifyTypes fun _ => TypeArena.untyped_dispatch

theorem lookupType (vars : TypeArena.Bindings) (scope : ScopeId) (name : String) :
    Obeys d .dispatch s (Dispatch.lookupType vars scope name) anything := by
  rw [Dispatch.lookupType]
  split
  · exact pure trivial
  · refine (lookup scope name).bind fun found _ _ _ => ?_
    split <;> exact pure trivial

mutual

theorem resolveType {s : Session} (vars : TypeArena.Bindings) (scope : ScopeId) (type : TypeExpr) :
    Obeys d .dispatch s (Dispatch.resolveType vars scope type) anything := by
  cases type with
  | named span name =>
    rw [Dispatch.resolveType]
    refine (lookupType vars scope name).bind fun found _ _ _ => ?_
    split
    · exact pure trivial
    · exact failAt rfl _
  | applied span name args =>
    rw [Dispatch.resolveType]
    refine (lookupType vars scope name).bind fun found t _ _ => ?_
    split
    · exact (resolveTypes vars scope args).bind fun _ _ _ _ => typesByType _
    · exact failAt rfl _

theorem resolveTypes {s : Session} (vars : TypeArena.Bindings) (scope : ScopeId) (types : List TypeExpr) :
    Obeys d .dispatch s (Dispatch.resolveTypes vars scope types) anything := by
  cases types with
  | nil => exact pure trivial
  | cons type types =>
    rw [Dispatch.resolveTypes]
    exact (resolveType vars scope type).bind fun _ _ _ _ =>
      (resolveTypes vars scope types).bind fun _ _ _ _ => pure trivial

end

section

variable (vars : TypeArena.Bindings) (scope : ScopeId)

theorem resolveOption (type : Option TypeExpr) :
    Obeys d .dispatch s (Dispatch.resolveOption vars scope type) anything := by
  cases type with
  | none => exact pure trivial
  | some type => exact resolveType vars scope type

theorem typeParams (params : List TypeParam) :
    Obeys d .dispatch s (Dispatch.typeParams scope vars params) anything := by
  induction params generalizing s vars with
  | nil => exact pure trivial
  | cons p params ih =>
    exact (resolveOption vars scope p.constraint).bind fun _ _ _ _ => (typesByType _).bind fun _ _ _ _ => ih _

theorem resolveFields (fields : List FieldDecl) :
    Obeys d .dispatch s (Dispatch.resolveFields vars scope fields) anything := by
  induction fields generalizing s with
  | nil => exact pure trivial
  | cons f fields ih =>
    exact (resolveType vars scope f.type).bind fun _ _ _ _ => ih.bind fun _ _ _ _ => pure trivial

theorem resolveParams (params : List Param) :
    Obeys d .dispatch s (Dispatch.resolveParams vars scope params) anything := by
  induction params generalizing s with
  | nil => exact pure trivial
  | cons p params ih =>
    exact (resolveOption vars scope p.annotation).bind fun _ _ _ _ => ih.bind fun _ _ _ _ => pure trivial

end

/-- Only evaluation by type keeps the types of alternatives in their values. -/
theorem dispatchVariant (type : TypeId) (typeName variant : String) (fields : FieldTypes) :
    Obeys d .dispatch s (Dispatch.variantValue type typeName variant fields) (kept d .dispatch) := by
  rw [Dispatch.variantValue]
  split
  · exact pure (Value.kept_inst nofun (List.forall_mem_nil _))
  · exact newId.bind fun _ _ _ _ => answer rfl nofun nofun

theorem dispatchVariants (vars : TypeArena.Bindings) (scope : ScopeId) (type : TypeId) (typeName : String)
    (alternatives : List VariantDecl) :
    Obeys d .dispatch s (Dispatch.declareVariants vars scope type typeName alternatives) anything := by
  induction alternatives generalizing s with
  | nil => exact pure trivial
  | cons v alternatives ih =>
    refine (resolveFields vars scope v.fields).bind fun fields _ _ _ => ?_
    refine (dispatchVariant type typeName v.name.val fields).bind fun value _ _ hvalue => ?_
    exact (define scope v.name.val hvalue).bind fun _ _ _ _ => ih.bind fun _ _ _ _ => pure trivial

theorem dispatchType (decl : TypeDecl) (scope : ScopeId) :
    Obeys d .dispatch s (Dispatch.declareType decl scope) (kept d .dispatch) := by
  refine (typeParams [] scope decl.typeParams).bind fun vars t _ _ => ?_
  refine (resolveOption vars scope decl.parent).bind fun parent u _ _ => ?_
  have name {t : Session} (id : TypeId) : Obeys d .dispatch t (do
      Eval.define scope decl.name.val (Value.typeRef id decl.name.val)
      return Value.typeRef id decl.name.val) (kept d .dispatch) := declared scope _ (kept_typeRef id _)
  have redefine {t : Session} (id : TypeId) (definition : TypeDef) :
      Obeys d .dispatch t (modify fun s => { s with arena := s.arena.redefine id definition }) anything :=
    inert rfl rfl rfl (fun _ => TypeArena.untyped_dispatch) trivial
  dsimp only
  cases decl.body with
  | abstract | concrete => exact (typesByType _).bind fun id _ _ _ => name id
  | struct fields =>
    refine (typesByType _).bind fun id _ _ _ => (define scope _ (kept_typeRef id _ _)).bind fun _ _ _ _ => ?_
    refine (resolveFields vars scope fields).bind fun _ _ _ _ => (redefine id _).bind fun _ _ _ _ => ?_
    exact (pure trivial).bind (P := anything) fun id _ _ _ => name id
  | variants alternatives =>
    refine (typesByType _).bind fun id _ _ _ => (define scope _ (kept_typeRef id _ _)).bind fun _ _ _ _ => ?_
    refine (dispatchVariants vars scope id decl.name.val alternatives).bind fun _ _ _ _ => ?_
    refine (redefine id _).bind fun _ _ _ _ => ?_
    exact (pure trivial).bind (P := anything) fun id _ _ _ => name id

/-- A declared function gets a method whose body may be evaluated. -/
theorem dispatchDeclared (head : FunctionHead) {body : Node} (h : d.admits body) (scope : ScopeId) :
    Obeys d .dispatch s (Dispatch.declareFunction head body scope) (kept d .dispatch) := by
  refine (typeParams [] scope head.typeParams).bind fun vars t _ _ => ?_
  refine (resolveParams vars scope head.params).bind fun signature u _ _ => ?_
  let m : Method FunctionBody :=
    ⟨vars.reverse.map Prod.snd, signature, .declared (head.params.map (·.name.val)) body scope⟩
  refine bind (P := anything) (fun hu => ⟨rfl, .refl _, ⟨hu.heap, hu.cells, hu.scopes, hu.types, fun _ e he => ?_⟩, trivial⟩)
    fun _ _ _ _ => declared scope _ fun _ => Value.kept_of_parts rfl trivial trivial
  rcases ScopeTree.mem_insert he with heq | he
  · rw [heq]
    refine GenericFunction.Keeps.withMethod (m := m) ?_ h
    cases hf : u.functions.lookup head.name.val with
    | none => exact GenericFunction.keeps_empty _ _
    | some f => exact hu.functions rfl _ (Assoc.mem_of_lookup hf)
  · exact hu.functions rfl e he

/-! ## Forms -/

theorem dispatchBinaryNode (hself : SelfObeys d .dispatch self self') (op : BinaryOp) {left right : Node}
    (hl : d.admits left) (hr : d.admits right) (scope : ScopeId) :
    Obey d .dispatch s (Dispatch.binaryNode self op left right scope) (Dispatch.binaryNode self' op left right scope)
      (kept d .dispatch) := by
  refine (hself left scope s hl).bind fun l t _ hl => ?_
  split
  · exact pure hl
  · exact pure hl
  · refine (hself right scope t hr).bind fun r u htu hr => ?_
    exact invokeOperator hself _
      (List.forall_mem_cons.mpr ⟨Value.Kept.later hl htu, List.forall_mem_singleton.mpr hr⟩) scope

section

variable (hself : SelfObeys d strategy self self')
include hself

theorem directBinaryNode (op : BinaryOp) {left right : Node} (hl : d.admits left) (hr : d.admits right)
    (scope : ScopeId) : Obey d strategy s (Direct.binaryNode self op left right scope)
      (Direct.binaryNode self' op left right scope) (kept d strategy) := by
  rw [Direct.binaryNode, Direct.binaryNode]
  split
  · refine (hself left scope s hl).bind fun l t _ _ => (logicalOperand op l).bind fun b u _ _ => ?_
    split
    · exact answer rfl trivial trivial
    · exact (hself right scope u hr).bind fun r _ _ _ => (logicalOperand op r).bind fun _ _ _ _ =>
        answer rfl trivial trivial
  · exact (hself left scope s hl).bind fun l t _ _ => (hself right scope t hr).bind fun r _ _ _ => directBinary op l r

/-- A form obeys the discipline if its parts do. -/
theorem form {node : Node} (h : d.admits node) (scope : ScopeId) :
    Obey d strategy s (Eval.evalForm strategy self node scope) (Eval.evalForm strategy self' node scope)
      (kept d strategy) := by
  have hchild {child : Node} (hc : child ∈ node.children) : d.admits child := d.child h hc
  cases node with
  | literal span value => exact pure (kept_ofLiteral value)
  | ident span name =>
    refine (lookup scope name).bind fun found _ _ hfound => ?_
    split
    · next value => exact pure (hfound value rfl)
    · exact fail rfl
  | binary span op left right =>
    have hl : d.admits left := hchild (by simp [Node.children])
    have hr : d.admits right := hchild (by simp [Node.children])
    cases strategy with
    | direct => exact directBinaryNode hself op hl hr scope
    | dispatch => exact dispatchBinaryNode hself op hl hr scope
  | unary span op operand =>
    refine (hself operand scope s (hchild (by simp [Node.children]))).bind fun value t _ hv => ?_
    cases strategy with
    | direct => exact directUnary op value
    | dispatch =>
      have hargs : allKept d .dispatch t [value] := List.forall_mem_singleton.mpr hv
      cases op with
      | neg | not => exact invokeOperator hself _ hargs scope
  | assign span target value =>
    refine (hself value scope s (hchild (by simp [Node.children]))).bind fun v t _ hv => ?_
    exact (assignTo (d.target h) hv scope).bind fun _ _ htu _ => pure (Value.Kept.later hv htu)
  | field span subject member =>
    exact (hself subject scope s (hchild (by simp [Node.children]))).bind fun receiver _ _ hr =>
      fieldOf strategy hr member.val
  | call span function args =>
    refine (lookup scope function.val).bind fun found t _ hfound => ?_
    split
    · exact fail rfl
    · next callee =>
      exact (evalAll hself (fun _ => hchild) scope).bind fun values u htu hvalues =>
        callValue hself scope u callee values (Value.Kept.later (hfound callee rfl) htu) hvalues
  | send span receiver method args =>
    refine (hself receiver scope s (hchild List.mem_cons_self)).bind fun r t _ hr => ?_
    have hargs : ∀ arg ∈ args, d.admits arg := fun _ hnode => hchild (List.mem_cons_of_mem _ hnode)
    refine (evalAll hself hargs scope).bind fun values u htu hvalues => ?_
    exact callMethod hself (Value.Kept.later hr htu) hvalues method.val scope
  | block span params body => exact newId.bind fun _ _ _ _ => answer rfl trivial fun _ => hchild
  | cases span scrutinee arms =>
    refine (hself scrutinee scope s (hchild List.mem_cons_self)).bind fun value _ _ hv => ?_
    refine runArms hself hv scope fun arm harm => hchild (List.mem_cons_of_mem _ (List.mem_flatMap.mpr ?_))
    exact ⟨arm, harm, by simp⟩
  | construct span name fields =>
    exact construct hself (fun field hf => hchild (List.mem_map_of_mem hf)) name scope
  | typeDecl span decl =>
    cases strategy with
    | direct => exact directType decl scope
    | dispatch => exact dispatchType decl scope
  | function span head body =>
    have hbody : d.admits body := hchild (by simp [Node.children])
    cases strategy with
    | direct => exact directDeclared head hbody scope
    | dispatch => exact dispatchDeclared head hbody scope
  | capture span name | refine span name pattern => exact fail rfl
  | quoted span body => exact answer rfl trivial (hchild (by simp [Node.children]))
  | array span elements =>
    exact (evalAll hself (fun _ => hchild) scope).bind fun _ _ _ hvalues => newArray strategy hvalues
  | object span entries =>
    refine (evalEntries hself (fun field hf => hchild (List.mem_map_of_mem hf)) scope (List.forall_mem_nil _)
      List.nodup_nil).bind fun _ _ _ hentries => newObject hentries.1 hentries.2
  | pair span key value => exact throw (d.pair h)

end

end Obey

theorem Obeys.eval (d : Discipline) (strategy : Strategy) (depth : Nat) :
    SelfObeys d strategy (Eval.eval strategy depth) (Eval.eval strategy depth) := by
  induction depth with
  | zero => exact fun _ _ _ _ => Obey.throw trivial
  | succ depth ih => exact fun node scope s h => (Obey.form ih h scope).located node.span

end DispatchLang
