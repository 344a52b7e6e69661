import DispatchLang.Proofs.Eval.Destructuring
import DispatchLang.Proofs.Eval.Storing
import DispatchLang.Proofs.Scope.Writes

/-!
# Declarations that fail

A declaration fails where it mentions a type that is not known. The name of a type with fields or alternatives is bound
before the types of its fields are looked at, so that these may mention it, and the name of an alternative is bound once
its own fields are known. Nothing takes these bindings back when a later field fails. So a failed declaration may leave a
name that stands for a type without fields, and it may leave some of the alternatives, always the first ones and never
the last.

Nothing else is left. Constraints, parents and the types of parameters are looked at before anything is bound, and
methods are only added once all of these are known.

## Main definitions

* `Session.Left`: what a declaration has left of a session when it gave up.
* `Node.boundEarly`: the names that a declaration binds before it can no longer fail.
* `Node.HeadKnown`: the constraints and the parent of a declared type are known.

## Main results

* `Dispatch.declareFunction_error`, `Dispatch.declareType_error`: what declarations leave that fail.
* `Eval.declaration_failed`: a failed declaration binds no more than such names, in its own scope, and changes no function.
* `Eval.circle_left`: it does bind them.
-/

namespace DispatchLang

/-! ## Bindings of other names -/

namespace ScopeTree

variable {α : Type} (t : ScopeTree α) (s i : ScopeId) {name other : String} (value : α)

variable {t s} in
theorem define_of_size_le (h : t.frames.size ≤ s) (name : String) (value : α) : t.define s name value = t := by
  refine congrArg ScopeTree.mk (Array.ext_getElem? fun j => ?_)
  rw [Array.getElem?_modify]
  split
  · next hj => rw [← hj, Array.getElem?_eq_none h, Option.map_none]
  · rfl

/-- A definition leaves all other names as they are, also if the scope is not there. -/
theorem get?_define_of_ne (h : other ≠ name) : (t.define s name value).get? i other = t.get? i other := by
  by_cases hs : s < t.frames.size
  · rw [get?_define hs, if_neg fun h' => h h'.1]
  · rw [define_of_size_le (Nat.le_of_not_lt hs)]

variable (name other) in
/-- A name means what it meant or what has been defined. -/
theorem get?_define_cases : (t.define s name value).get? i other = some value ∨
    (t.define s name value).get? i other = t.get? i other := by
  by_cases hs : s < t.frames.size
  · rw [get?_define hs]
    split
    · exact .inl rfl
    · exact .inr rfl
  · exact .inr (by rw [define_of_size_le (Nat.le_of_not_lt hs)])

theorem get?_defineAll_of_notMem {bindings : List (String × α)} (h : other ∉ bindings.map Prod.fst) :
    (t.defineAll s bindings).get? i other = t.get? i other := by
  induction bindings generalizing t with
  | nil => rfl
  | cons binding bindings ih =>
    rw [List.map_cons, List.mem_cons, not_or] at h
    exact (ih _ h.2).trans (get?_define_of_ne t s i binding.2 h.1)

end ScopeTree

/-! ## What is left of a session -/

/-- What a declaration has left of a session: names are bound in one scope, types are added, and identities are taken. -/
structure Session.Left (s : Session) (scope : ScopeId) (bound : List (String × Value)) (t : Session) : Prop where
  /-- Nothing else is another. -/
  rest : t = { s with arena := t.arena, nextId := t.nextId, scopes := s.scopes.defineAll scope bound }
  /-- The types that were there are as they were. -/
  types : ∃ more, t.arena.types = s.arena.types ++ more

namespace Session.Left

variable {s t u : Session} {scope : ScopeId} {bound bound' : List (String × Value)}

theorem refl (s : Session) : s.Left scope [] s := ⟨rfl, #[], (Array.append_empty).symm⟩

theorem trans (h : s.Left scope bound t) (h' : t.Left scope bound' u) : s.Left scope (bound ++ bound') u := by
  refine ⟨?_, ?_⟩
  · have hscopes : (s.scopes.defineAll scope bound).defineAll scope bound' =
        s.scopes.defineAll scope (bound ++ bound') := (List.foldl_append ..).symm
    rw [h'.rest, h.rest, hscopes]
  · obtain ⟨more, hmore⟩ := h.types
    obtain ⟨more', hmore'⟩ := h'.types
    exact ⟨more ++ more', by rw [hmore', hmore, Array.append_assoc]⟩

/-- Binding a name. -/
theorem define (s : Session) (name : String) (value : Value) :
    s.Left scope [(name, value)] { s with scopes := s.scopes.define scope name value } :=
  ⟨rfl, #[], (Array.append_empty).symm⟩

theorem ofTypes {arena : TypeArena} (h : ∃ more, arena.types = s.arena.types ++ more) :
    s.Left scope [] { s with arena } := ⟨rfl, h⟩

end Session.Left

/-- A written type mentions a name that is not known. -/
def Halt.IsUndefinedType : Halt → Prop
  | .error e => e.fault.kind = .undefinedType
  | .exhausted => False

namespace Eval

/-! ## Looking at types -/

/-- A computation adds types and does nothing else, and it halts only for a name that is not known. -/
def OnlyTypes {α : Type} (x : Eval α) : Prop := ∀ s scope,
  match x s with
  | .ok _ t => s.Left scope [] t
  | .error e t => s.Left scope [] t ∧ e.IsUndefinedType

namespace OnlyTypes

variable {α β : Type} {x : Eval α} {s t : Session}

theorem ok {a : α} (h : OnlyTypes x) (scope : ScopeId) (hx : x s = .ok a t) : s.Left scope [] t := by
  have hs := h s scope
  rw [hx] at hs
  exact hs

theorem error {e : Halt} (h : OnlyTypes x) (scope : ScopeId) (hx : x s = .error e t) :
    s.Left scope [] t ∧ e.IsUndefinedType := by
  have hs := h s scope
  rw [hx] at hs
  exact hs

theorem pure (a : α) : OnlyTypes (Pure.pure a) := fun s _ => .refl s

theorem read (f : Session → α) : OnlyTypes (do return f (← MonadState.get)) := fun s _ => .refl s

theorem undefined (name : String) (span : Span) : OnlyTypes (failAt (.undefinedType name) span : Eval α) :=
  fun s _ => ⟨.refl s, rfl⟩

theorem bind {f : α → Eval β} (h : OnlyTypes x) (hf : ∀ a, OnlyTypes (f a)) : OnlyTypes (x >>= f) := by
  intro s scope
  cases hx : x s with
  | ok a t =>
    have ht := h.ok scope hx
    rw [bind_of_ok hx]
    cases hfa : f a t with
    | ok b u => exact ht.trans ((hf a).ok scope hfa)
    | error e u =>
      obtain ⟨hu, he⟩ := (hf a).error scope hfa
      exact ⟨ht.trans hu, he⟩
  | error e t =>
    rw [bind_of_error hx]
    exact h.error scope hx

theorem modifyTypes {f : TypeArena → α × TypeArena} (h : ∀ arena, ∃ more, (f arena).2.types = arena.types ++ more) :
    OnlyTypes (Eval.modifyTypes f) := fun s _ => .ofTypes (h s.arena)

end OnlyTypes

end Eval

namespace TypeArena

variable (arena : TypeArena)

theorem types_add (d : TypeDef) : ∃ more, (arena.add d).2.types = arena.types ++ more := ⟨#[d], rfl⟩

theorem types_applied (base : TypeId) (args : List TypeId) : ∃ more, (arena.applied base args).2.types = arena.types ++ more := by
  rw [applied]
  split
  · exact ⟨#[], Array.append_empty.symm⟩
  · exact arena.types_add _

theorem types_var (name : String) (constraint : TypeId) : ∃ more, (arena.var name constraint).2.types = arena.types ++ more := by
  rw [var]
  split
  · exact ⟨#[], Array.append_empty.symm⟩
  · exact arena.types_add _

end TypeArena

namespace Dispatch

open Eval (OnlyTypes)

/-! ## Written types -/

theorem onlyTypes_lookupType (vars : TypeArena.Bindings) (scope : ScopeId) (name : String) :
    OnlyTypes (lookupType vars scope name) := by
  rw [lookupType]
  split
  · exact .pure _
  · refine (OnlyTypes.read _).bind fun found => ?_
    split <;> exact .pure _

mutual

theorem onlyTypes_resolveType (vars : TypeArena.Bindings) (scope : ScopeId) (type : TypeExpr) :
    OnlyTypes (resolveType vars scope type) := by
  cases type with
  | named span name =>
    rw [resolveType]
    refine (onlyTypes_lookupType vars scope name).bind fun found => ?_
    split
    · exact .pure _
    · exact .undefined name span
  | applied span name args =>
    rw [resolveType]
    refine (onlyTypes_lookupType vars scope name).bind fun found => ?_
    split
    · exact (onlyTypes_resolveTypes vars scope args).bind fun ids => .modifyTypes fun arena => arena.types_applied _ ids
    · exact .undefined name span

theorem onlyTypes_resolveTypes (vars : TypeArena.Bindings) (scope : ScopeId) (types : List TypeExpr) :
    OnlyTypes (resolveTypes vars scope types) := by
  cases types with
  | nil => exact .pure _
  | cons type types =>
    rw [resolveTypes]
    exact (onlyTypes_resolveType vars scope type).bind fun _ => (onlyTypes_resolveTypes vars scope types).bind fun _ => .pure _

end

section

variable (vars : TypeArena.Bindings) (scope : ScopeId)

theorem onlyTypes_resolveOption (type : Option TypeExpr) : OnlyTypes (resolveOption vars scope type) := by
  cases type with
  | none => exact .pure _
  | some type => exact onlyTypes_resolveType vars scope type

theorem onlyTypes_typeParams (params : List TypeParam) : OnlyTypes (typeParams scope vars params) := by
  induction params generalizing vars with
  | nil => exact .pure _
  | cons p params ih =>
    refine (onlyTypes_resolveOption vars scope p.constraint).bind fun constraint => ?_
    exact (OnlyTypes.modifyTypes fun arena => arena.types_var _ constraint).bind fun id => ih _

theorem onlyTypes_resolveFields (fields : List FieldDecl) : OnlyTypes (resolveFields vars scope fields) := by
  induction fields with
  | nil => exact .pure _
  | cons f fields ih => exact (onlyTypes_resolveType vars scope f.type).bind fun _ => ih.bind fun _ => .pure _

theorem onlyTypes_resolveParams (params : List Param) : OnlyTypes (resolveParams vars scope params) := by
  induction params with
  | nil => exact .pure _
  | cons p params ih => exact (onlyTypes_resolveOption vars scope p.annotation).bind fun _ => ih.bind fun _ => .pure _

end

/-! ## Declarations -/

variable {s t : Session} {scope : ScopeId} {e : Halt}

/-- A failed declaration of a function binds nothing. -/
theorem declareFunction_error {head : FunctionHead} {body : Node} (h : declareFunction head body scope s = .error e t) :
    s.Left scope [] t ∧ e.IsUndefinedType := by
  rcases Eval.bind_error.mp h with hparams | ⟨vars, u, hparams, h⟩
  · exact (onlyTypes_typeParams [] scope head.typeParams).error scope hparams
  · have hu := (onlyTypes_typeParams [] scope head.typeParams).ok scope hparams
    rcases Eval.bind_error.mp h with hsignature | ⟨signature, v, -, h⟩
    · obtain ⟨ht, he⟩ := (onlyTypes_resolveParams vars scope head.params).error scope hsignature
      exact ⟨hu.trans ht, he⟩
    · -- what is left to be done cannot fail
      cases h

/-- The name of an alternative is bound to a value. -/
theorem exists_variantValue (scope : ScopeId) (type : TypeId) (typeName variant : String) (fields : FieldTypes) (s : Session) :
    ∃ value t, variantValue type typeName variant fields s = .ok value t ∧ s.Left scope [] t := by
  rw [variantValue]
  split
  · exact ⟨_, s, rfl, .refl s⟩
  · exact ⟨_, _, rfl, rfl, #[], Array.append_empty.symm⟩

/-- Alternatives are bound up to the one that fails, which is not the last one at best. -/
theorem declareVariants_error {vars : TypeArena.Bindings} {type : TypeId} {typeName : String}
    {alternatives : List VariantDecl} (h : declareVariants vars scope type typeName alternatives s = .error e t) :
    (∃ bound, bound.map Prod.fst <+: (alternatives.map (·.name.val)).dropLast ∧ s.Left scope bound t) ∧
      e.IsUndefinedType := by
  induction alternatives generalizing s with
  | nil => cases h
  | cons v alternatives ih =>
    rw [declareVariants] at h
    have hfields := onlyTypes_resolveFields vars scope v.fields
    rcases Eval.bind_error.mp h with hfailed | ⟨fields, u, hok, h⟩
    · obtain ⟨ht, he⟩ := hfields.error scope hfailed
      exact ⟨⟨[], List.nil_prefix, ht⟩, he⟩
    · have hu := hfields.ok scope hok
      obtain ⟨value, w, hvalue, hw⟩ := exists_variantValue scope type typeName v.name.val fields u
      have hdefine : Eval.define scope v.name.val value w =
          .ok () { w with scopes := w.scopes.define scope v.name.val value } := rfl
      rw [Eval.bind_of_ok hvalue, Eval.bind_of_ok hdefine] at h
      rcases Eval.bind_error.mp h with h | ⟨rest, w', -, h⟩
      · obtain ⟨⟨bound, hbound, ht⟩, he⟩ := ih h
        have hleft := ((hu.trans hw).trans (.define w v.name.val value)).trans ht
        refine ⟨⟨(v.name.val, value) :: bound, ?_, hleft⟩, he⟩
        -- the alternatives that follow are not none, as one of them fails
        cases alternatives with
        | nil => cases h
        | cons v' alternatives => exact List.cons_prefix_cons.mpr ⟨rfl, hbound⟩
      · cases h

end Dispatch

/-- The names that the declaration of a type binds before it can no longer fail. -/
def TypeDecl.boundEarly (decl : TypeDecl) : List String :=
  match decl.body with
  | .abstract | .concrete => []
  | .struct _ => [decl.name.val]
  | .variants alternatives => decl.name.val :: (alternatives.map (·.name.val)).dropLast

namespace Dispatch

variable {s t : Session} {scope : ScopeId} {e : Halt}

/-- The constraints of the type parameters of a declaration and its parent are known. -/
def HeadKnown (decl : TypeDecl) (scope : ScopeId) (s : Session) : Prop :=
  ∃ vars u parent v, typeParams scope [] decl.typeParams s = .ok vars u ∧
    resolveOption vars scope decl.parent u = .ok parent v

/-- A type is added and bound to its name before what fills it is looked at, and only this may fail. -/
theorem filled_error {β γ : Type} {d : TypeDef} {name : String} {body : TypeId → Eval γ} {fill : TypeId → γ → Eval β}
    (hfill : ∀ id c u, ∃ a v, fill id c u = .ok a v)
    (h : (do
      let id ← Eval.modifyTypes (·.add d)
      Eval.define scope name (.typeRef id name)
      fill id (← body id) : Eval β) s = .error e t) :
    ∃ id u, s.Left scope [(name, .typeRef id name)] u ∧ body id u = .error e t := by
  have hadd : Eval.modifyTypes (·.add d) s = .ok s.arena.size { s with arena := (s.arena.add d).2 } := rfl
  rw [Eval.bind_of_ok hadd] at h
  have hdefine (u : Session) (value : Value) : Eval.define scope name value u =
      .ok () { u with scopes := u.scopes.define scope name value } := rfl
  rw [Eval.bind_of_ok (hdefine ..)] at h
  have hadded : s.Left scope [] { s with arena := (s.arena.add d).2 } := .ofTypes (s.arena.types_add d)
  rcases Eval.bind_error.mp h with h | ⟨c, u, -, h⟩
  · exact ⟨s.arena.size, _, hadded.trans (.define _ name (.typeRef s.arena.size name)), h⟩
  · obtain ⟨a, v, hfilled⟩ := hfill s.arena.size c u
    rw [hfilled] at h
    cases h

/-- A failed declaration of a type binds names from the first one on, and none at all if its head is at fault. -/
theorem declareType_error {decl : TypeDecl} (h : declareType decl scope s = .error e t) :
    (∃ bound, bound.map Prod.fst <+: decl.boundEarly ∧ (bound ≠ [] ↔ HeadKnown decl scope s) ∧ s.Left scope bound t) ∧
      e.IsUndefinedType := by
  have hparams := onlyTypes_typeParams [] scope decl.typeParams
  rcases Eval.bind_error.mp h with hfailed | ⟨vars, u, hvars, h⟩
  · obtain ⟨ht, he⟩ := hparams.error scope hfailed
    have hunknown : ¬HeadKnown decl scope s := by
      rintro ⟨_, _, _, _, hok, -⟩
      rw [hfailed] at hok
      cases hok
    exact ⟨⟨[], List.nil_prefix, iff_of_false (absurd rfl) hunknown, ht⟩, he⟩
  have hu := hparams.ok scope hvars
  rcases Eval.bind_error.mp h with hfailed | ⟨parent, v, hparent, h⟩
  · obtain ⟨ht, he⟩ := (onlyTypes_resolveOption vars scope decl.parent).error scope hfailed
    have hunknown : ¬HeadKnown decl scope s := by
      rintro ⟨_, _, _, _, hok, hparent⟩
      cases hvars.symm.trans hok
      rw [hfailed] at hparent
      cases hparent
    exact ⟨⟨[], List.nil_prefix, iff_of_false (absurd rfl) hunknown, hu.trans ht⟩, he⟩
  have hv := hu.trans ((onlyTypes_resolveOption vars scope decl.parent).ok scope hparent)
  have hhead : HeadKnown decl scope s := ⟨vars, u, parent, v, hvars, hparent⟩
  rw [TypeDecl.boundEarly]
  dsimp only at h
  cases hbody : decl.body with
  | abstract | concrete =>
    rw [hbody] at h
    cases h
  | struct fields =>
    rw [hbody] at h
    obtain ⟨id, w, hw, h⟩ := filled_error (fun _ _ _ => ⟨_, _, rfl⟩) h
    obtain ⟨ht, he⟩ := (onlyTypes_resolveFields vars scope fields).error scope h
    exact ⟨⟨_, List.prefix_refl _, iff_of_true (List.cons_ne_nil _ _) hhead, (hv.trans hw).trans ht⟩, he⟩
  | variants alternatives =>
    rw [hbody] at h
    obtain ⟨id, w, hw, h⟩ := filled_error (fun _ _ _ => ⟨_, _, rfl⟩) h
    obtain ⟨⟨bound, hbound, ht⟩, he⟩ := declareVariants_error h
    refine ⟨⟨_ :: bound, ?_, iff_of_true (List.cons_ne_nil _ _) hhead, (hv.trans hw).trans ht⟩, he⟩
    exact List.cons_prefix_cons.mpr ⟨rfl, hbound⟩

end Dispatch

/-! ## The main result -/

def Node.IsDeclaration : Node → Prop
  | .typeDecl _ _ | .function _ _ _ => True
  | _ => False

/-- The names that a declaration binds before it can no longer fail. A function has none. -/
def Node.boundEarly : Node → List String
  | .typeDecl _ decl => decl.boundEarly
  | _ => []

/-- The node declares a type whose constraints and parent are known. -/
def Node.HeadKnown (node : Node) (scope : ScopeId) (s : Session) : Prop :=
  match node with
  | .typeDecl _ decl => Dispatch.HeadKnown decl scope s
  | _ => False

namespace Session.Left

variable {s t : Session} {scope : ScopeId} {bound : List (String × Value)}

/-- A name that is not bound means what it meant, in all scopes. -/
theorem get?_of_notMem (h : s.Left scope bound t) {name : String} (hname : name ∉ bound.map Prod.fst) (i : ScopeId) :
    t.scopes.get? i name = s.scopes.get? i name := by
  rw [h.rest]
  exact s.scopes.get?_defineAll_of_notMem scope i hname

theorem functions_eq (h : s.Left scope bound t) : t.functions = s.functions := by rw [h.rest]

theorem operators_eq (h : s.Left scope bound t) : t.operators = s.operators := by rw [h.rest]

theorem methods_eq (h : s.Left scope bound t) : t.methods = s.methods := by rw [h.rest]

end Session.Left

namespace Eval

variable {node : Node} {scope : ScopeId} {s t : Session}

theorem declaration_error {n : Nat} {e : RuntimeError} (hnode : node.IsDeclaration)
    (h : eval .dispatch n node scope s = .error (.error e) t) :
    (∃ bound, bound.map Prod.fst <+: node.boundEarly ∧ (bound ≠ [] ↔ node.HeadKnown scope s) ∧ s.Left scope bound t) ∧
      e.fault.kind = .undefinedType := by
  cases n with
  | zero => cases h
  | succ n =>
    obtain ⟨e, hform, rfl⟩ := located_error h
    have hkind : (e.withSpan node.span).fault.kind = e.fault.kind := by
      rw [RuntimeError.withSpan]
    rw [hkind]
    cases node with
    | typeDecl span decl => exact Dispatch.declareType_error hform
    | function span head body =>
      obtain ⟨ht, he⟩ := Dispatch.declareFunction_error hform
      exact ⟨⟨[], List.nil_prefix, iff_of_false (absurd rfl) id, ht⟩, he⟩
    | _ => cases hnode

/-- **A declaration that fails leaves at most names that have to be bound early.** It fails because a type is not known.
It leaves all functions as they were, and all names but those it has bound in its own scope. These are names of the
declared type and of its alternatives, from the first one on and without the last one, and there are some exactly if the
constraints and the parent of the type are known. -/
theorem declaration_failed {n : Nat} {e : RuntimeError} (hnode : node.IsDeclaration)
    (h : eval .dispatch n node scope s = .error (.error e) t) :
    e.fault.kind = .undefinedType ∧
    (t.functions = s.functions ∧ t.operators = s.operators ∧ t.methods = s.methods) ∧
    ∃ bound, bound.map Prod.fst <+: node.boundEarly ∧ (bound ≠ [] ↔ node.HeadKnown scope s) ∧
      t.scopes = s.scopes.defineAll scope bound ∧
      ∀ i name, name ∉ bound.map Prod.fst → t.scopes.get? i name = s.scopes.get? i name := by
  obtain ⟨⟨bound, hbound, hhead, hleft⟩, hkind⟩ := declaration_error hnode h
  have hscopes : t.scopes = s.scopes.defineAll scope bound := by rw [hleft.rest]
  exact ⟨hkind, ⟨hleft.functions_eq, hleft.operators_eq, hleft.methods_eq⟩, bound, hbound, hhead, hscopes,
    fun i name hname => hleft.get?_of_notMem hname i⟩

/-- A type of shapes whose second alternative mentions a type that nobody has declared. -/
def halfKnownShape : Node :=
  .typeDecl .nowhere ⟨⟨"Shape", .nowhere⟩, [], none, .variants
    [⟨⟨"Circle", .nowhere⟩, [⟨⟨"radius", .nowhere⟩, .named .nowhere "Int"⟩]⟩,
      ⟨⟨"Square", .nowhere⟩, [⟨⟨"side", .nowhere⟩, .named .nowhere "Length"⟩]⟩]⟩

def failsIn (p : Session → Bool) : EStateM.Result Halt Session Value → Bool
  | .error (.error _) t => p t
  | _ => false

theorem exists_halfKnownShape_error : ∃ (e : RuntimeError) (t : Session),
    eval .dispatch 1 halfKnownShape ScopeTree.root (.fresh .dispatch .standard) = .error (.error e) t ∧
    (t.scopes.get? ScopeTree.root "Circle").isSome = true := by
  have hcircle : failsIn (fun t => (t.scopes.get? ScopeTree.root "Circle").isSome)
      (eval .dispatch 1 halfKnownShape ScopeTree.root (.fresh .dispatch .standard)) = true := by
    decide
  rw [failsIn.eq_def] at hcircle
  split at hcircle
  · next e t hresult => exact ⟨e, t, hresult, hcircle⟩
  · cases hcircle

/-- The alternative at fault is not bound. -/
theorem square_unbound : ∃ (e : RuntimeError) (t : Session), halfKnownShape.IsDeclaration ∧
    eval .dispatch 1 halfKnownShape ScopeTree.root (.fresh .dispatch .standard) = .error (.error e) t ∧
    e.fault.kind = .undefinedType ∧ t.functions = (Session.fresh .dispatch .standard).functions ∧
    t.scopes.get? ScopeTree.root "Square" = (Session.fresh .dispatch .standard).scopes.get? ScopeTree.root "Square" := by
  obtain ⟨e, t, hresult, -⟩ := exists_halfKnownShape_error
  have hnode : halfKnownShape.IsDeclaration := trivial
  obtain ⟨hkind, ⟨hfunctions, -⟩, bound, hbound, -, -, hsame⟩ := declaration_failed hnode hresult
  have hsquare : "Square" ∉ bound.map Prod.fst := by
    intro hmem
    have hearly : "Square" ∈ halfKnownShape.boundEarly := hbound.subset hmem
    revert hearly
    decide
  exact ⟨e, t, hnode, hresult, hkind, hfunctions, hsame ScopeTree.root "Square" hsquare⟩

/-- The alternative before it is bound, although the declaration fails. -/
theorem circle_left : ∃ (e : RuntimeError) (t : Session),
    eval .dispatch 1 halfKnownShape ScopeTree.root (.fresh .dispatch .standard) = .error (.error e) t ∧
    (Session.fresh .dispatch .standard).scopes.get? ScopeTree.root "Circle" = none ∧
    (t.scopes.get? ScopeTree.root "Circle").isSome = true := by
  obtain ⟨e, t, hresult, hcircle⟩ := exists_halfKnownShape_error
  have hfresh : ((Session.fresh .dispatch .standard).scopes.get? ScopeTree.root "Circle").isNone = true := by
    decide
  exact ⟨e, t, hresult, Option.isNone_iff_eq_none.mp hfresh, hcircle⟩

end Eval

end DispatchLang
