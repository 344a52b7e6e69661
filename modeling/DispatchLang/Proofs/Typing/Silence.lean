import DispatchLang.Proofs.Typing.Balance

/-!
# Steps of the checker that note no types

The types of nodes are noted where nodes are visited and nowhere else. All the other steps, which look names up, resolve
written types and calls, or make declarations known, are *silent*: they leave the log of types as it is. They may well
report something; what has been reported before stays.

## Main definitions

* `Checker.SameLog`: one checker has the log of another one, and all its findings.
* `Check.Silent`: a step that leads to such a checker.

## Main results

* `Check.Silent.declareType`, `Check.Silent.methodCall` and the rest: the steps that are silent.
-/

namespace DispatchLang

namespace Checker

/-- The log of types is the same, and what was found wrong before is still there. -/
structure SameLog (c c' : Checker) : Prop where
  inferred : c'.inferred = c.inferred
  findings : c.findings <:+ c'.findings

instance : IsPreorder Checker SameLog where
  refl _ := ⟨rfl, List.suffix_refl _⟩
  trans _ _ _ h h' := ⟨h'.inferred.trans h.inferred, h.findings.trans h'.findings⟩

end Checker

namespace Check

/-- A step that notes no types and takes nothing back that was found wrong. -/
abbrev Silent {α : Type} (x : Check α) : Prop := Leads Checker.SameLog x

namespace Silent

variable {α β : Type} {x : Check α}

theorem pure (a : α) : Silent (Pure.pure a) := Leads.pure a

theorem bind {f : α → Check β} (h : Silent x) (hf : ∀ a, Silent (f a)) : Silent (x >>= f) := Leads.bind h hf

theorem get {f : Checker → Check α} (h : ∀ c, Silent (f c)) : Silent (MonadState.get >>= f) := Leads.get h

/-! ## Single steps -/

/-- A step that changes neither the log nor what was found. -/
theorem same (h : ∀ c, (x c).2.inferred = c.inferred ∧ (x c).2.findings = c.findings) : Silent x :=
  fun c => ⟨(h c).1, (h c).2 ▸ List.suffix_refl _⟩

theorem read (f : Checker → α) : Silent (do return f (← MonadState.get)) := same fun _ => ⟨rfl, rfl⟩

theorem modifyTypes (f : TypeArena → α × TypeArena) : Silent (Check.modifyTypes f) := same fun _ => ⟨rfl, rfl⟩

theorem report (cause : FindingCause) (span : Span) : Silent (Check.report cause span) :=
  fun _ => ⟨rfl, List.suffix_cons _ _⟩

theorem reportAny (cause : FindingCause) (span : Span) : Silent (do
    Check.report cause span
    return TypeId.any) := (report cause span).bind fun _ => pure _

theorem addMethod (name : String) (m : Method TypeId) : Silent (Check.addMethod name m) := same fun _ => ⟨rfl, rfl⟩

theorem define (name : String) (type : TypeId) : Silent (Check.define name type) := same fun _ => ⟨rfl, rfl⟩

theorem withTypeVars (h : Silent x) : Silent (Check.withTypeVars x) := fun c =>
  ⟨(h c).inferred, (h c).findings⟩

theorem forM {γ : Type} {step : γ → Check PUnit} (h : ∀ e, Silent (step e)) (entries : List γ) :
    Silent (entries.forM step) := by
  induction entries with
  | nil => exact pure _
  | cons entry entries ih => exact (h entry).bind fun _ => ih

/-! ## Written types -/

theorem headType (name : String) : Silent (Check.headType name) := by
  refine get fun c => ?_
  split
  · exact pure _
  · exact read _

mutual

theorem resolveType (type : TypeExpr) : Silent (Check.resolveType type) := by
  cases type with
  | named span name =>
    rw [Check.resolveType]
    refine (headType name).bind fun found => ?_
    cases found with
    | some id => exact pure _
    | none => exact reportAny _ _
  | applied span name args =>
    rw [Check.resolveType]
    refine (headType name).bind fun found => ?_
    cases found with
    | some id => exact (resolveTypes args).bind fun _ => modifyTypes _
    | none => exact reportAny _ _

theorem resolveTypes (exprs : List TypeExpr) : Silent (Check.resolveTypes exprs) := by
  cases exprs with
  | nil => exact pure _
  | cons type exprs =>
    rw [Check.resolveTypes]
    exact (resolveType type).bind fun _ => (resolveTypes exprs).bind fun _ => pure _

end

theorem resolveOption (type : Option TypeExpr) : Silent (Check.resolveOption type) := by
  cases type with
  | none => exact pure _
  | some type => exact resolveType type

theorem resolveFields (fields : List FieldDecl) : Silent (Check.resolveFields fields) := by
  induction fields with
  | nil => exact pure _
  | cons f fields ih => exact (resolveType f.type).bind fun _ => ih.bind fun _ => pure _

theorem resolveParams (params : List Param) : Silent (Check.resolveParams params) := by
  induction params with
  | nil => exact pure _
  | cons p params ih => exact (resolveOption p.annotation).bind fun _ => ih.bind fun _ => pure _

/-! ## Declarations -/

theorem defineParams (params : List Param) : Silent (Check.defineParams params) := by
  induction params with
  | nil => exact pure _
  | cons p params ih =>
    exact (resolveOption p.annotation).bind fun _ => (define p.name.val _).bind fun _ => ih.bind fun _ => pure _

theorem enterTypeParams (params : List TypeParam) : Silent (Check.enterTypeParams params) := by
  induction params with
  | nil => exact pure _
  | cons p params ih =>
    refine (resolveOption p.constraint).bind fun _ => (modifyTypes _).bind fun id => ?_
    have henter : Silent (modify fun c => { c with typeVars := Assoc.insert p.name.val id c.typeVars }) :=
      same fun _ => ⟨rfl, rfl⟩
    exact henter.bind fun _ => ih.bind fun _ => pure _

theorem declareVariant (vars : List TypeId) (type : TypeId) (name : String) (fields : FieldTypes) :
    Silent (Check.declareVariant vars type name fields) := by
  have known : Silent (Check.defineVariant name ⟨type, fields⟩) := same fun _ => ⟨rfl, rfl⟩
  rw [Check.declareVariant]
  split
  · exact (define name type).bind fun _ => known
  · exact (modifyTypes _).bind fun _ => (addMethod name _).bind fun _ => known

theorem declareVariants (vars : List TypeId) (type : TypeId) (decls : List VariantDecl) :
    Silent (Check.declareVariants vars type decls) := by
  induction decls with
  | nil => exact pure _
  | cons v decls ih =>
    exact (resolveFields v.fields).bind fun _ => (declareVariant vars type _ _).bind fun _ => ih.bind fun _ => pure _

theorem declareType (decl : TypeDecl) : Silent (Check.declareType decl) := by
  have named (id : TypeId) : Silent (Check.defineType decl.name.val id) := same fun _ => ⟨rfl, rfl⟩
  have filled (d : TypeDef) (id : TypeId) :
      Silent (modify fun c => { c with arena := c.arena.redefine id d } : Check PUnit) :=
    same fun _ => ⟨rfl, rfl⟩
  refine (withTypeVars ?_).bind named
  refine (enterTypeParams _).bind fun _ => (resolveOption _).bind fun _ => ?_
  dsimp only
  cases decl.body with
  | abstract | concrete => exact modifyTypes _
  | struct fields =>
    exact (modifyTypes _).bind fun id => (named id).bind fun _ => (resolveFields fields).bind fun _ =>
      (filled _ id).bind fun _ => pure id
  | variants decls =>
    exact (modifyTypes _).bind fun id => (named id).bind fun _ => (declareVariants _ id decls).bind fun _ =>
      (filled _ id).bind fun _ => pure id

/-! ## Names, fields and calls -/

theorem nameType (name : String) (span : Span) : Silent (Check.nameType name span) := by
  rw [Check.nameType]
  refine (read _).bind fun found => ?_
  split
  · exact pure _
  · refine (read _).bind fun known => ?_
    split
    · exact pure _
    · refine (read _).bind fun function => ?_
      split
      · split <;> exact pure _
      · exact reportAny _ _

theorem fieldType (owner : TypeId) (field : Located String) : Silent (Check.fieldType owner field) := by
  refine get fun c => ?_
  dsimp only
  split
  · exact pure _
  · split
    · split
      · exact pure _
      · exact reportAny _ _
    · split
      · exact reportAny _ _
      · exact pure _
    · exact pure _

theorem checkArguments (function : String) (position : Nat) (args : List (TypeId × Span)) (params : List TypeId) :
    Silent (Check.checkArguments function position args params) := by
  induction args generalizing position params with
  | nil => exact pure _
  | cons arg args ih =>
    cases params with
    | nil => exact pure _
    | cons param params =>
      refine get fun c => ?_
      dsimp only
      split
      · exact (report _ _).bind fun _ => ih _ _
      · exact ih _ _

theorem resolvedType (f : GenericFunction TypeId) (args : List TypeId) (span : Span) :
    Silent (Check.resolvedType f args span) := by
  refine (modifyTypes _).bind fun result => ?_
  cases result with
  | error e => exact reportAny _ _
  | ok r => exact get fun _ => (modifyTypes _).bind fun _ => get fun _ => pure _

theorem callType (f : GenericFunction TypeId) (args : List (TypeId × Span)) (span : Span) :
    Silent (Check.callType f args span) := by
  refine get fun c => ?_
  dsimp only
  have hbyArguments : Silent
      (if (args.map Prod.fst).all (isKnown c.arena) then Check.resolvedType f (args.map Prod.fst) span
      else
        return withoutVars c.arena (commonType (f.methods.filterMap fun m =>
          if m.signature.length = args.length then some (resultOf c.arena m.implementation) else none))) := by
    split
    · exact resolvedType _ _ _
    · exact pure _
  split
  · exact reportAny _ _
  · split
    · exact (checkArguments _ _ _ _).bind fun _ => pure _
    · exact hbyArguments
  · exact hbyArguments

theorem namedCallType (name : String) (args : List (TypeId × Span)) (span : Span) :
    Silent (Check.namedCallType name args span) := by
  refine (read _).bind fun found => ?_
  cases found with
  | some f => exact callType f args span
  | none =>
    refine (read _).bind fun known => ?_
    split <;> exact reportAny _ _

/-! ## Methods -/

section

variable {call : List TypeId → Check TypeId} {args : List TypeId}

theorem callbackResult (args : List TypeId) : Silent
    (match args with
    | [] => return .any
    | f :: _ => do return withoutVars (← MonadState.get).arena (resultOf (← MonadState.get).arena f) : Check TypeId) := by
  cases args with
  | nil => exact pure _
  | cons f args => exact get fun _ => get fun _ => pure _

theorem arrayMethod? {receiver element : TypeId} {name : String}
    (h : Check.arrayMethod? receiver element name = some call) : Silent (call args) := by
  unfold Check.arrayMethod? at h
  dsimp only at h
  split at h <;> cases h
  · exact (callbackResult _).bind fun _ => modifyTypes _
  · exact callbackResult _
  all_goals exact pure _

theorem stringMethod? {name : String} (h : Check.stringMethod? name = some call) : Silent (call args) := by
  unfold Check.stringMethod? at h
  split at h <;> cases h
  all_goals first
    | exact pure _
    | exact modifyTypes _

theorem objectMethod? {name : String} (h : Check.objectMethod? name = some call) : Silent (call args) := by
  unfold Check.objectMethod? at h
  split at h <;> cases h
  all_goals first
    | exact pure _
    | exact modifyTypes _

theorem builtinMethod? {arena : TypeArena} {receiver : TypeId} {name : String}
    (h : Check.builtinMethod? arena receiver name = some call) : Silent (call args) := by
  rw [Check.builtinMethod?] at h
  split at h
  · exact arrayMethod? h
  · split at h
    · exact stringMethod? h
    · split at h
      · exact objectMethod? h
      · split at h <;> cases h
        exact get fun _ => pure _

end

/-- How a addMethod call gets its type is decided by looking only, so not even the checker changes. -/
theorem methodType_state (receiver : TypeId) (method : Located String) (c : Checker) :
    (Check.methodType receiver method c).2 = c := by
  let Still {γ : Type} (x : Check γ) : Prop := ∀ c, (x c).2 = c
  have hget {γ : Type} {f : Checker → Check γ} (h : ∀ c, Still (f c)) : Still (MonadState.get >>= f) := fun c => h c c
  have hpure {γ : Type} (a : γ) : Still (Pure.pure a : Check γ) := fun _ => rfl
  refine hget (fun c => ?_) c
  dsimp only
  split
  · exact hpure _
  · split
    · exact hpure _
    · refine hget fun c => ?_
      split <;> exact hpure _

theorem methodType (receiver : TypeId) (method : Located String) : Silent (Check.methodType receiver method) :=
  fun c => (methodType_state receiver method c).symm ▸ refl c

/-- When it gets it, nothing is noted. -/
theorem methodCall (receiver : TypeId) (method : Located String) (c : Checker) :
    ∀ args, Silent ((Check.methodType receiver method c).1 args) := by
  let Calls (x : Check (List (TypeId × Span) → Check TypeId)) : Prop := ∀ c args, Silent ((x c).1 args)
  have hget {f : Checker → Check (List (TypeId × Span) → Check TypeId)} (h : ∀ c, Calls (f c)) :
      Calls (MonadState.get >>= f) := fun c => h c c
  have hpure {call : List (TypeId × Span) → Check TypeId} (h : ∀ args, Silent (call args)) :
      Calls (Pure.pure call) := fun _ => h
  refine hget (fun c => ?_) c
  dsimp only
  split
  · next call hcall => exact hpure fun args => builtinMethod? hcall
  · split
    · exact hpure fun _ => get fun _ => pure _
    · refine hget fun c => ?_
      split
      · exact hpure fun args => namedCallType _ _ _
      · exact hpure fun _ => pure _

/-! ## Patterns and constructions -/

theorem patternFields (name : String) : Silent (Check.patternFields name) := by
  refine (read _).bind fun found => ?_
  split
  · exact pure _
  · refine (read _).bind fun known => ?_
    split
    · exact pure _
    · refine get fun c => ?_
      split <;> exact pure _

theorem patternFieldType (owner : String) (declared : FieldTypes) (field : Located String) :
    Silent (Check.patternFieldType owner declared field) := by
  rw [Check.patternFieldType]
  split
  · exact get fun _ => pure _
  · exact reportAny _ _

theorem checkFieldValue (owner field : String) (expected actual : TypeId) (span : Span) :
    Silent (Check.checkFieldValue owner field expected actual span) := by
  refine get fun c => ?_
  dsimp only
  split
  · exact report _ _
  · exact pure _

theorem reportMissing (owner : String) (given : List String) (span : Span) (declared : FieldTypes) :
    Silent (Check.reportMissing owner given span declared) := by
  induction declared with
  | nil => exact pure _
  | cons field declared ih =>
    rw [Check.reportMissing]
    split
    · exact (report _ _).bind fun _ => ih
    · exact ih

theorem constructed (name : Located String) : Silent (Check.constructed name) := by
  refine (read _).bind fun found => ?_
  cases found with
  | some id =>
    refine get fun c => ?_
    dsimp only
    split
    · exact pure _
    · exact (report _ _).bind fun _ => pure _
  | none =>
    refine (read _).bind fun found => ?_
    cases found with
    | some variant => exact pure _
    | none => exact (report _ _).bind fun _ => pure _

end Silent

end Check

end DispatchLang
