import DispatchLang.Proofs.Eval.Constraints
import DispatchLang.Proofs.Eval.Destructuring
import DispatchLang.Proofs.Eval.Instantiation
import DispatchLang.Proofs.Eval.NamedFunctions
import DispatchLang.Proofs.Scope.Writes
import DispatchLang.Proofs.Typing.PlainTypes
import DispatchLang.Proofs.Typing.Silence

/-!
# Declarations that are checked and evaluated

The checker and a session go through the declaration of a type in the same way, each with an arena of its own. A session
is the *counterpart* of a checker if what names mean to the two are types that are alike. A declaration in which the
checker finds nothing wrong is evaluated, and leaves behind a counterpart, whose type has fields of types that are alike.

There is one difference. The checker keeps the names of types apart from those of values, and a session does not. As
soon as an alternative is bound, its name no longer means a type to the session, while to the checker it still may. So
the names that a declaration mentions must not have been hidden by an earlier alternative (`TypeDecl.HidesNoType`).

## Main definitions

* `Checker.Counterpart`: what names mean to a checker and to a session are types that are alike.
* `Check.Tracks`: where a step of the checker finds nothing wrong, a step of a session succeeds.
* `Checker.offers`: the fields of the constructions with a name.

## Main results

* `Checker.declareType_tracks`: a declaration in which nothing is found wrong is evaluated, and what the checker offers
  can be constructed in the session.
-/

namespace DispatchLang

open TypeArena

variable {shown : String → Bool} {c c' : Checker} {vars vars' : Bindings} {t t' : Session}

/-! ## Names that are hidden -/

namespace TypeExpr

variable {known known' : String → Bool}

mutual

theorem isKnown_true (type : TypeExpr) : type.isKnown (fun _ => true) = true := by
  cases type with
  | named span name => rfl
  | applied span name args => rw [isKnown, Bool.true_and, allKnown_true args]

theorem allKnown_true (types : List TypeExpr) : allKnown (fun _ => true) types = true := by
  cases types with
  | nil => rfl
  | cons type types => rw [allKnown, isKnown_true type, allKnown_true types, Bool.and_self]

end

mutual

theorem isKnown_and {type : TypeExpr} (h : type.isKnown known = true) (h' : type.isKnown known' = true) :
    type.isKnown (fun name => known name && known' name) = true := by
  cases type with
  | named span name =>
    rw [isKnown] at h h' ⊢
    rw [h, h', Bool.and_self]
  | applied span name args =>
    rw [isKnown, Bool.and_eq_true] at h h' ⊢
    exact ⟨by rw [h.1, h'.1, Bool.and_self], allKnown_and h.2 h'.2⟩

theorem allKnown_and {types : List TypeExpr} (h : allKnown known types = true) (h' : allKnown known' types = true) :
    allKnown (fun name => known name && known' name) types = true := by
  cases types with
  | nil => rfl
  | cons type types =>
    rw [allKnown, Bool.and_eq_true] at h h' ⊢
    exact ⟨isKnown_and h.1 h'.1, allKnown_and h.2 h'.2⟩

end

end TypeExpr

/-! ## Counterparts -/

namespace Checker

/-- To a checker and to a session, names mean types that are alike. Of the names of declared types this is asked as far as
they are shown. -/
structure Counterpart (shown : String → Bool) (c : Checker) (vars : Bindings) (t : Session) : Prop where
  regular : c.arena.Regular
  regular' : t.arena.Regular
  rooted : ScopeTree.root < t.scopes.frames.size
  vars : ∀ name, (c.typeVars.lookup name = none ∧ vars.lookup name = none) ∨
    ∃ v v', c.typeVars.lookup name = some v ∧ vars.lookup name = some v' ∧ c.arena.Alike t.arena v v'
  types : ∀ {name}, shown name = true → c.typeVars.lookup name = none → ∀ {id}, c.types.lookup name = some id →
    ∃ id', t.knownTypes ScopeTree.root name = some id' ∧ c.arena.Alike t.arena id id'

/-- A checker and a session have only added types. -/
structure Grown (c c' : Checker) (t t' : Session) : Prop where
  types : c'.types = c.types
  typeVars : c'.typeVars = c.typeVars
  variants : c'.variants = c.variants
  extension : c.arena.Extends c'.arena
  regular : c'.arena.Regular
  rest : t' = { t with arena := t'.arena }
  extension' : t.arena.Extends t'.arena
  regular' : t'.arena.Regular

namespace Grown

variable {c'' : Checker} {t'' : Session}

theorem refl (hr : c.arena.Regular) (hr' : t.arena.Regular) : Grown c c t t :=
  ⟨rfl, rfl, rfl, .refl _, hr, rfl, .refl _, hr'⟩

theorem trans (h : Grown c c' t t') (h' : Grown c' c'' t' t'') : Grown c c'' t t'' where
  types := h'.types.trans h.types
  typeVars := h'.typeVars.trans h.typeVars
  variants := h'.variants.trans h.variants
  extension := h.extension.trans h'.extension
  regular := h'.regular
  rest := by rw [h'.rest, h.rest]
  extension' := h.extension'.trans h'.extension'
  regular' := h'.regular'

theorem scopes (h : Grown c c' t t') : t'.scopes = t.scopes := by rw [h.rest]

theorem knownTypes (h : Grown c c' t t') : t'.knownTypes = t.knownTypes := by
  funext scope name
  rw [Session.knownTypes, Session.knownTypes, h.scopes]

theorem alike (h : Grown c c' t t') (hr : c.arena.Regular) (hr' : t.arena.Regular) {id id' : TypeId}
    (ha : c.arena.Alike t.arena id id') : c'.arena.Alike t'.arena id id' :=
  ha.grown hr.indexed.toOrdered hr'.indexed.toOrdered h.extension h.extension'

end Grown

namespace Counterpart

theorem grown (h : Counterpart shown c vars t) (hg : Grown c c' t t') : Counterpart shown c' vars t' where
  regular := hg.regular
  regular' := hg.regular'
  rooted := hg.scopes ▸ h.rooted
  vars name := by
    rw [hg.typeVars]
    exact (h.vars name).imp_right fun ⟨v, v', hv, hv', ha⟩ => ⟨v, v', hv, hv', hg.alike h.regular h.regular' ha⟩
  types hname hvar id hid := by
    rw [hg.typeVars] at hvar
    rw [hg.types] at hid
    obtain ⟨id', hid', ha⟩ := h.types hname hvar hid
    exact ⟨id', hg.knownTypes ▸ hid', hg.alike h.regular h.regular' ha⟩

theorem meaning (h : Counterpart shown c vars t) {name : String} (hname : shown name = true) {id : TypeId}
    (hid : Check.names c name = some id) :
    ∃ id', within (t.knownTypes ScopeTree.root) vars name = some id' ∧ c.arena.Alike t.arena id id' := by
  rw [Check.names, within] at hid
  rw [within]
  rcases h.vars name with ⟨hnone, hnone'⟩ | ⟨v, v', hv, hv', ha⟩
  · rw [hnone] at hid
    rw [hnone']
    exact h.types hname hnone hid
  · rw [hv] at hid
    rw [hv', ← Option.some.inj hid]
    exact ⟨v', rfl, ha⟩

end Counterpart

end Checker

/-! ## Steps that keep up with each other -/

namespace Check

variable {α β γ δ : Type} {x : Check α} {y : Eval β} {P : Checker → Session → α → β → Prop}
  {Q : Checker → Session → γ → δ → Prop}

/-- If a step of the checker has found nothing wrong, neither now nor before, the step of the session succeeds. -/
def Tracks (c : Checker) (t : Session) (x : Check α) (y : Eval β) (P : Checker → Session → α → β → Prop) : Prop :=
  (x c).2.findings = [] → ∃ b t', y t = .ok b t' ∧ P (x c).2 t' (x c).1 b

namespace Tracks

theorem pure {a : α} {b : β} (h : P c t a b) : Tracks c t (Pure.pure a) (Pure.pure b) P := fun _ => ⟨b, t, rfl, h⟩

theorem bind {f : α → Check γ} {g : β → Eval δ} (h : Tracks c t x y P) (hf : ∀ a, Silent (f a))
    (hstep : ∀ c' t' a b, P c' t' a b → Tracks c' t' (f a) (g b) Q) : Tracks c t (x >>= f) (y >>= g) Q := by
  intro hclean
  -- what is found stays, so nothing was found in the first step
  have hfirst : (x c).2.findings = [] := by
    have hsuffix := (hf (x c).1 (x c).2).findings
    change (f (x c).1 (x c).2).2.findings = [] at hclean
    rw [hclean] at hsuffix
    exact List.suffix_nil.mp hsuffix
  obtain ⟨b, t', hy, hp⟩ := h hfirst
  obtain ⟨d, t'', hg, hq⟩ := hstep _ _ _ _ hp hclean
  exact ⟨d, t'', (Eval.bind_of_ok hy).trans hg, hq⟩

theorem mono {P' : Checker → Session → α → β → Prop} (h : Tracks c t x y P)
    (hp : ∀ c' t' a b, P c' t' a b → P' c' t' a b) : Tracks c t x y P' := by
  intro hclean
  obtain ⟨b, t', hy, hb⟩ := h hclean
  exact ⟨b, t', hy, hp _ _ _ _ hb⟩

/-- A step that the checker takes alone. -/
theorem left {f : α → Check γ} {y : Eval δ} (hf : Tracks (x c).2 t (f (x c).1) y Q) : Tracks c t (x >>= f) y Q := hf

theorem answers {f : α → γ} {Q : Checker → Session → γ → β → Prop} (h : Tracks c t x y P)
    (hq : ∀ c' t' a b, P c' t' a b → Q c' t' (f a) b) : Tracks c t (x >>= fun a => Pure.pure (f a)) y Q := fun hclean =>
  (h hclean).imp fun _ => Exists.imp fun _ hb => ⟨hb.1, hq _ _ _ _ hb.2⟩

/-- A step that the session takes alone. -/
theorem right {g : β → Eval δ} {x : Check γ} {b : β} (hy : y t = .ok b t') (hg : Tracks c t' x (g b) Q) :
    Tracks c t x (y >>= g) Q := by
  intro hclean
  obtain ⟨d, t'', hd, hq⟩ := hg hclean
  exact ⟨d, t'', (Eval.bind_of_ok hy).trans hd, hq⟩

end Tracks

/-! ## Written types -/

/-- Both have only added types and answer types that are alike. -/
structure Resolved (c : Checker) (t : Session) (c' : Checker) (t' : Session) (id id' : TypeId) : Prop where
  grown : c.Grown c' t t'
  alike : c'.arena.Alike t'.arena id id'

/-- Both have only added types and answer several types that are alike, one by one. -/
structure ResolvedAll (c : Checker) (t : Session) (c' : Checker) (t' : Session) (ids ids' : List TypeId) : Prop where
  grown : c.Grown c' t t'
  alike : List.Forall₂ (c'.arena.Alike t'.arena) ids ids'

theorem Resolved.cons {c'' : Checker} {t'' : Session} {id id' : TypeId} {ids ids' : List TypeId}
    (h : Resolved c t c' t' id id') (hrest : ResolvedAll c' t' c'' t'' ids ids') :
    ResolvedAll c t c'' t'' (id :: ids) (id' :: ids') where
  grown := h.grown.trans hrest.grown
  alike := .cons (hrest.grown.alike h.grown.regular h.grown.regular' h.alike) hrest.alike

mutual

/-- A written type in which the checker finds nothing wrong has a meaning in the session. -/
theorem resolveType_tracks {c : Checker} {t : Session} (h : c.Counterpart shown vars t) (type : TypeExpr)
    (hshown : type.isKnown shown = true) :
    Tracks c t (resolveType type) (Dispatch.resolveType vars ScopeTree.root type) (Resolved c t) := by
  cases type with
  | named span name =>
    rw [TypeExpr.isKnown] at hshown
    intro hclean
    rw [resolveType, bind_run, headType_eq] at hclean ⊢
    cases hn : names c name with
    | none =>
      rw [hn] at hclean
      cases hclean
    | some id =>
      obtain ⟨id', hid', ha⟩ := h.meaning hshown hn
      refine ⟨id', t, ?_, .refl h.regular h.regular', ha⟩
      rw [Dispatch.resolveType]
      exact (Eval.bind_of_ok (Dispatch.lookupType_eq name)).trans (by rw [hid']; rfl)
  | applied span name args =>
    rw [TypeExpr.isKnown, Bool.and_eq_true] at hshown
    intro hclean
    rw [resolveType, bind_run, headType_eq] at hclean ⊢
    cases hn : names c name with
    | none =>
      rw [hn] at hclean
      cases hclean
    | some base =>
      rw [hn] at hclean
      obtain ⟨base', hbase', ha⟩ := h.meaning hshown.1 hn
      obtain ⟨ids', t', hargs, hresolved⟩ := resolveTypes_tracks h args hshown.2 hclean
      have hbase := hresolved.grown.alike h.regular h.regular' ha
      have halike := Alike.ofApplied hresolved.grown.regular hresolved.grown.regular' hbase hresolved.alike
      have hlt : ∀ x ∈ (resolveTypes args c).1, x < (resolveTypes args c).2.arena.size :=
        ((List.forall₂_and_left _ ids').mp (hresolved.alike.imp fun _ _ h => ⟨h.lt, h⟩)).1
      have hlt' : ∀ x ∈ ids', x < t'.arena.size :=
        ((List.forall₂_and_left ids' _).mp (hresolved.alike.flip.imp fun _ _ h => ⟨h.lt', h⟩)).1
      refine ⟨(t'.arena.applied base' ids').1, { t' with arena := (t'.arena.applied base' ids').2 }, ?_,
        hresolved.grown.trans ?_, halike⟩
      · rw [Dispatch.resolveType]
        refine (Eval.bind_of_ok (Dispatch.lookupType_eq name)).trans ?_
        rw [hbase']
        exact Eval.bind_of_ok hargs
      · exact ⟨rfl, rfl, rfl, (applied_interns _ _ _).extension, .applied _ _ hresolved.grown.regular hbase.lt hlt, rfl,
          (applied_interns _ _ _).extension, .applied _ _ hresolved.grown.regular' hbase.lt' hlt'⟩

theorem resolveTypes_tracks {c : Checker} {t : Session} (h : c.Counterpart shown vars t) (types : List TypeExpr)
    (hshown : TypeExpr.allKnown shown types = true) :
    Tracks c t (resolveTypes types) (Dispatch.resolveTypes vars ScopeTree.root types) (ResolvedAll c t) := by
  cases types with
  | nil => exact .pure ⟨.refl h.regular h.regular', .nil⟩
  | cons type types =>
    rw [TypeExpr.allKnown, Bool.and_eq_true] at hshown
    rw [resolveTypes, Dispatch.resolveTypes]
    refine (resolveType_tracks h type hshown.1).bind (fun _ => (Silent.resolveTypes types).bind fun _ => .pure _)
      fun c' t' id id' hid => ?_
    exact (resolveTypes_tracks (h.grown hid.grown) types hshown.2).bind (fun _ => .pure _)
      fun c'' t'' ids ids' hids => .pure (hid.cons hids)

end

theorem resolveOption_tracks (h : c.Counterpart shown vars t) (type : Option TypeExpr)
    (hshown : type.all (·.isKnown shown) = true) :
    Tracks c t (resolveOption type) (Dispatch.resolveOption vars ScopeTree.root type) (Resolved c t) := by
  cases type with
  | none => exact .pure ⟨.refl h.regular h.regular', .ofBuiltin h.regular h.regular' (by decide)⟩
  | some type => exact resolveType_tracks h type hshown

def FieldsAlike (A B : TypeArena) (fields fields' : FieldTypes) : Prop :=
  List.Forall₂ (fun f f' => f.1 = f'.1 ∧ A.Alike B f.2 f'.2) fields fields'

theorem FieldsAlike.grown {fields fields' : FieldTypes} (h : FieldsAlike c.arena t.arena fields fields')
    (hg : c.Grown c' t t') (hr : c.arena.Regular) (hr' : t.arena.Regular) : FieldsAlike c'.arena t'.arena fields fields' :=
  h.imp fun _ _ hf => ⟨hf.1, hg.alike hr hr' hf.2⟩

/-- Both have only added types and answer fields that are alike. -/
structure ResolvedFields (c : Checker) (t : Session) (c' : Checker) (t' : Session) (fields fields' : FieldTypes) :
    Prop where
  grown : c.Grown c' t t'
  alike : FieldsAlike c'.arena t'.arena fields fields'

theorem resolveFields_tracks (h : c.Counterpart shown vars t) (fields : List FieldDecl)
    (hshown : ∀ f ∈ fields, f.type.isKnown shown = true) :
    Tracks c t (resolveFields fields) (Dispatch.resolveFields vars ScopeTree.root fields) (ResolvedFields c t) := by
  induction fields generalizing c t with
  | nil => exact .pure ⟨.refl h.regular h.regular', .nil⟩
  | cons f fields ih =>
    obtain ⟨hfirst, hrest⟩ := List.forall_mem_cons.mp hshown
    rw [resolveFields, Dispatch.resolveFields]
    refine (resolveType_tracks h f.type hfirst).bind (fun _ => (Silent.resolveFields fields).bind fun _ => .pure _)
      fun c' t' id id' hid => ?_
    refine (ih (h.grown hid.grown) hrest).bind (fun _ => .pure _) fun c'' t'' more more' hmore => .pure ?_
    exact ⟨hid.grown.trans hmore.grown,
      .cons ⟨rfl, hmore.grown.alike hid.grown.regular hid.grown.regular' hid.alike⟩ hmore.alike⟩

/-! ## Type variables -/

/-- The type variables of a declaration have been entered. -/
structure Entered (shown : String → Bool) (c : Checker) (t : Session) (params : List TypeParam) (c' : Checker)
    (t' : Session) (vars : Bindings) : Prop where
  counterpart : c'.Counterpart shown vars t'
  types : c'.types = c.types
  variants : c'.variants = c.variants
  scopes : t'.scopes = t.scopes
  entered : ∀ p ∈ params, c'.typeVars.lookup p.name.val ≠ none
  kept : ∀ name, c.typeVars.lookup name ≠ none → c'.typeVars.lookup name ≠ none

/-- Entering the same type variable keeps up with each other. -/
theorem enter_counterpart (h : c.Counterpart shown vars t) {constraint constraint' : TypeId}
    (ha : c.arena.Alike t.arena constraint constraint') (name : String) :
    let var := c.arena.var name constraint
    let var' := t.arena.var name constraint'
    Checker.Counterpart shown { c with arena := var.2, typeVars := Assoc.insert name var.1 c.typeVars }
      ((name, var'.1) :: vars) { t with arena := var'.2 } := by
  intro var var'
  have hregular : var.2.Regular := .var name constraint h.regular ha.lt
  have hregular' : var'.2.Regular := .var name constraint' h.regular' ha.lt'
  have hg : c.Grown { c with arena := var.2 } t { t with arena := var'.2 } :=
    ⟨rfl, rfl, rfl, .var _ _ _, hregular, rfl, .var _ _ _, hregular'⟩
  have hgrown := h.grown hg
  refine { hgrown with vars := fun other => ?_, types := fun {other} hother hnone id hid => ?_ }
  · dsimp only
    rw [List.lookup_cons]
    by_cases hname : other = name
    · rw [hname, Assoc.lookup_insert_self, beq_self_eq_true]
      exact .inr ⟨_, _, rfl, rfl, .ofVar hregular (h.regular.varIndexed.var name constraint).2
        (h.regular'.varIndexed.var name constraint').2⟩
    · rw [Assoc.lookup_insert_of_ne hname, beq_eq_false_iff_ne.mpr hname]
      exact hgrown.vars other
  · dsimp only at hnone
    by_cases hname : other = name
    · rw [hname, Assoc.lookup_insert_self] at hnone
      cases hnone
    · rw [Assoc.lookup_insert_of_ne hname] at hnone
      exact hgrown.types hother hnone hid

theorem enterTypeParams_tracks (h : c.Counterpart shown vars t) (params : List TypeParam)
    (hshown : ∀ p ∈ params, p.constraint.all (·.isKnown shown) = true) :
    Tracks c t (enterTypeParams params) (Dispatch.typeParams ScopeTree.root vars params)
      fun c' t' _ vars' => Entered shown c t params c' t' vars' := by
  induction params generalizing c t vars with
  | nil => exact .pure ⟨h, rfl, rfl, rfl, List.forall_mem_nil _, fun _ h => h⟩
  | cons p params ih =>
    obtain ⟨hfirst, hrest⟩ := List.forall_mem_cons.mp hshown
    rw [enterTypeParams, Dispatch.typeParams]
    have henter (id : TypeId) : Silent (do
        modify fun c => { c with typeVars := Assoc.insert p.name.val id c.typeVars }
        return id :: (← enterTypeParams params)) :=
      (Silent.same fun _ => ⟨rfl, rfl⟩).bind fun _ => (Silent.enterTypeParams params).bind fun _ => .pure _
    refine (resolveOption_tracks h p.constraint hfirst).bind
      (fun _ => (Silent.modifyTypes _).bind henter) fun c' t' constraint constraint' hc => ?_
    have hentered := enter_counterpart (h.grown hc.grown) hc.alike p.name.val
    refine .left (.right rfl (.left ?_))
    refine (ih hentered hrest).answers fun c'' t'' _ vars' he => ?_
    have hname : c''.typeVars.lookup p.name.val ≠ none := he.kept _ (by
      rw [Assoc.lookup_insert_self]
      exact Option.some_ne_none _)
    refine ⟨he.counterpart, he.types.trans hc.grown.types, he.variants.trans hc.grown.variants,
      he.scopes.trans hc.grown.scopes, List.forall_mem_cons.mpr ⟨hname, he.entered⟩, fun other hother => ?_⟩
    by_cases heq : other = p.name.val
    · rw [heq]
      exact hname
    · refine he.kept other ?_
      rw [Assoc.lookup_insert_of_ne heq, hc.grown.typeVars]
      exact hother

/-! ## Alternatives -/

/-- The alternatives with fields that the checker knows can be constructed in the session. -/
def Constructible (c : Checker) (t : Session) : Prop :=
  ∀ name info, c.variants.lookup name = some info → info.fields ≠ [] → ∃ n constructor,
    t.scopes.get? ScopeTree.root name = some (.constructor n constructor) ∧
      FieldsAlike c.arena t.arena info.fields constructor.fields

/-- An alternative has been made known to a checker and bound in a session. -/
structure Bound (name : String) (fields fields' : FieldTypes) (c : Checker) (t : Session) (c' : Checker) (t' : Session) :
    Prop where
  types : c'.types = c.types
  typeVars : c'.typeVars = c.typeVars
  /-- The checker adds no type but that of a constructor. -/
  extension : c.arena.Extends c'.arena
  regular : c'.arena.Regular
  arena : t'.arena = t.arena
  rooted : ScopeTree.root < t'.scopes.frames.size
  other : ∀ other ≠ name, c'.variants.lookup other = c.variants.lookup other ∧
    t'.scopes.get? ScopeTree.root other = t.scopes.get? ScopeTree.root other
  own : ∃ type, c'.variants.lookup name = some ⟨type, fields⟩
  /-- An alternative with fields is bound to a constructor. -/
  constructor : fields' ≠ [] → ∃ n constructor, t'.scopes.get? ScopeTree.root name = some (.constructor n constructor) ∧
    constructor.fields = fields'

namespace Bound

variable {name : String} {fields fields' : FieldTypes}

theorem alike (hb : Bound name fields fields' c t c' t') (hr : c.arena.Regular) (hr' : t.arena.Regular)
    {id id' : TypeId} (ha : c.arena.Alike t.arena id id') : c'.arena.Alike t'.arena id id' :=
  ha.grown hr.indexed.toOrdered hr'.indexed.toOrdered hb.extension (hb.arena ▸ .refl _)

theorem fieldsAlike (hb : Bound name fields fields' c t c' t') (hr : c.arena.Regular) (hr' : t.arena.Regular)
    {more more' : FieldTypes} (ha : FieldsAlike c.arena t.arena more more') : FieldsAlike c'.arena t'.arena more more' :=
  ha.imp fun _ _ hf => ⟨hf.1, hb.alike hr hr' hf.2⟩

/-- What the alternative is called no longer means a type, unless it is a type variable. -/
theorem counterpart {isVar : String → Bool} (hb : Bound name fields fields' c t c' t') (h : c.Counterpart shown vars t)
    (hvars : ∀ name, isVar name = true → c.typeVars.lookup name ≠ none) :
    c'.Counterpart (fun other => shown other && (other ≠ name || isVar other)) vars t' := by
  refine ⟨hb.regular, hb.arena ▸ h.regular', hb.rooted, fun other => ?_, fun {other} hother hnone id hid => ?_⟩
  · rw [hb.typeVars]
    exact (h.vars other).imp_right fun ⟨v, v', hv, hv', ha⟩ => ⟨v, v', hv, hv', hb.alike h.regular h.regular' ha⟩
  · rw [Bool.and_eq_true, Bool.or_eq_true, decide_eq_true_iff] at hother
    rw [hb.typeVars] at hnone
    rw [hb.types] at hid
    have hne : other ≠ name := hother.2.resolve_right fun hvar => hvars other hvar hnone
    obtain ⟨id', hid', ha⟩ := h.types hother.1 hnone hid
    refine ⟨id', ?_, hb.alike h.regular h.regular' ha⟩
    rw [Session.knownTypes, (hb.other other hne).2]
    exact hid'

theorem constructible (hb : Bound name fields fields' c t c' t') (hr : c.arena.Regular) (hr' : t.arena.Regular)
    (ha : FieldsAlike c.arena t.arena fields fields') (h : Constructible c t) : Constructible c' t' := by
  intro other info hinfo hne
  by_cases hname : other = name
  · obtain ⟨type, hown⟩ := hb.own
    rw [hname, hown] at hinfo
    obtain rfl := Option.some.inj hinfo
    obtain ⟨n, constructor, hbound, hfields⟩ := hb.constructor fun hnil => by
      rw [hnil] at ha
      exact hne (List.forall₂_nil_right_iff.mp ha)
    rw [hname]
    exact ⟨n, constructor, hbound, hfields ▸ hb.fieldsAlike hr hr' ha⟩
  · obtain ⟨hvariants, hscopes⟩ := hb.other other hname
    rw [hvariants] at hinfo
    obtain ⟨n, constructor, hbound, hfields⟩ := h other info hinfo hne
    exact ⟨n, constructor, hscopes ▸ hbound, hb.fieldsAlike hr hr' hfields⟩

end Bound

/-- Making an alternative known always succeeds, for a checker as well as in a session. -/
theorem declareVariant_bound {type : TypeId} {fields fields' : FieldTypes}
    (h : c.Counterpart shown vars t) (htype : type < c.arena.size) (ha : FieldsAlike c.arena t.arena fields fields')
    (ids : List TypeId) (type' : TypeId) (typeName name : String) : ∃ value u, Dispatch.variantValue type' typeName name fields' t = .ok value u ∧
      Bound name fields fields' c t (declareVariant ids type name fields c).2
        { u with scopes := u.scopes.define ScopeTree.root name value } := by
  have hrun : ∃ value u, Dispatch.variantValue type' typeName name fields' t = .ok value u ∧ u.arena = t.arena ∧
      u.scopes = t.scopes ∧ (fields' ≠ [] → ∃ n, value = .constructor n ⟨type', typeName, name, fields'⟩) := by
    rw [Dispatch.variantValue]
    cases fields' with
    | nil => exact ⟨_, t, rfl, rfl, rfl, fun h => absurd rfl h⟩
    | cons f fields => exact ⟨_, _, rfl, rfl, rfl, fun _ => ⟨_, rfl⟩⟩
  have hknown : let c' := (declareVariant ids type name fields c).2
      c'.types = c.types ∧ c'.typeVars = c.typeVars ∧ c'.variants = Assoc.insert name ⟨type, fields⟩ c.variants ∧
        c.arena.Extends c'.arena ∧ c'.arena.Regular := by
    have hlt : ∀ f ∈ fields, f.2 < c.arena.size :=
      ((List.forall₂_and_left fields fields').mp (ha.imp fun _ _ hf => ⟨hf.2.lt, hf⟩)).1
    rw [declareVariant]
    split
    · exact ⟨rfl, rfl, rfl, .refl _, h.regular⟩
    · exact ⟨rfl, rfl, rfl, (function_interns _ _ _).extension,
        .function _ _ h.regular (List.forall_mem_map.mpr hlt) htype⟩
  obtain ⟨value, u, hvalue, harena, hscopes, hconstructor⟩ := hrun
  obtain ⟨htypes, htypeVars, hvariants, hext, hregular⟩ := hknown
  have hget (other : String) : (u.scopes.define ScopeTree.root name value).get? ScopeTree.root other =
      if other = name then some value else t.scopes.get? ScopeTree.root other := by
    rw [hscopes, ScopeTree.get?_root, ScopeTree.get?_root, ScopeTree.lookup_frame_define h.rooted]
    simp only [true_and]
  refine ⟨value, u, hvalue, htypes, htypeVars, hext, hregular, harena, ?_, fun other hne => ⟨?_, ?_⟩, ⟨type, ?_⟩,
    fun hne => ?_⟩
  · rw [ScopeTree.size_define, hscopes]
    exact h.rooted
  · rw [hvariants, Assoc.lookup_insert_of_ne hne]
  · rw [hget, if_neg hne]
  · rw [hvariants, Assoc.lookup_insert_self]
  · obtain ⟨n, rfl⟩ := hconstructor hne
    exact ⟨n, _, (hget name).trans (if_pos rfl), rfl⟩

/-- The alternatives of a type have been made known, and types have only been added. -/
structure Alternatives (c : Checker) (t : Session) (c' : Checker) (t' : Session)
    (alternatives alternatives' : List (String × FieldTypes)) : Prop where
  types : c'.types = c.types
  extension : c.arena.Extends c'.arena
  extension' : t.arena.Extends t'.arena
  regular : c'.arena.Regular
  regular' : t'.arena.Regular
  rooted : ScopeTree.root < t'.scopes.frames.size
  constructible : Constructible c' t'
  alike : List.Forall₂ (fun v v' => FieldsAlike c'.arena t'.arena v.2 v'.2) alternatives alternatives'

/-- If no alternative mentions a type that an earlier one has hidden, the alternatives in which nothing is found wrong
are declared in the session. A type variable is never hidden. -/
theorem declareVariants_tracks {isVar : String → Bool} (h : c.Counterpart shown vars t)
    (hvars : ∀ name, isVar name = true → c.typeVars.lookup name ≠ none) (hconstructible : Constructible c t)
    (ids : List TypeId) {type type' : TypeId} (htype : type < c.arena.size) (typeName : String)
    {alternatives : List VariantDecl} (hshown : ∀ v ∈ alternatives, ∀ f ∈ v.fields, f.type.isKnown shown = true)
    (hhides : alternatives.Pairwise fun earlier later => ∀ f ∈ later.fields,
      f.type.isKnown (fun name => name ≠ earlier.name.val || isVar name) = true) :
    Tracks c t (declareVariants ids type alternatives)
      (Dispatch.declareVariants vars ScopeTree.root type' typeName alternatives) (Alternatives c t) := by
  induction alternatives generalizing shown c t with
  | nil => exact .pure ⟨rfl, .refl _, .refl _, h.regular, h.regular', h.rooted, hconstructible, .nil⟩
  | cons v alternatives ih =>
    obtain ⟨hfirst, hshown⟩ := List.forall_mem_cons.mp hshown
    obtain ⟨hlater, hhides⟩ := List.pairwise_cons.mp hhides
    rw [declareVariants, Dispatch.declareVariants]
    refine (resolveFields_tracks h v.fields hfirst).bind (fun _ => (Silent.declareVariant _ _ _ _).bind fun _ =>
      (Silent.declareVariants _ _ _).bind fun _ => .pure _) fun c₁ t₁ fields fields' hfields => ?_
    have h₁ := h.grown hfields.grown
    obtain ⟨value, t₂, hvalue, hbound⟩ := declareVariant_bound h₁
      (hfields.grown.extension.lt htype) hfields.alike ids type' typeName v.name.val
    refine .left (.right hvalue (.right rfl ?_))
    have hvars₁ : ∀ name, isVar name = true → c₁.typeVars.lookup name ≠ none := hfields.grown.typeVars ▸ hvars
    have hconstructible₁ : Constructible c₁ t₁ := fun name info hinfo hne => by
      rw [hfields.grown.variants] at hinfo
      obtain ⟨n, constructor, hget, ha⟩ := hconstructible name info hinfo hne
      exact ⟨n, constructor, hfields.grown.scopes ▸ hget, ha.grown hfields.grown h.regular h.regular'⟩
    have h₃ := hbound.counterpart h₁ hvars₁
    have hfields₃ := hbound.fieldsAlike h₁.regular h₁.regular' hfields.alike
    have hconstructible₃ := hbound.constructible h₁.regular h₁.regular' hfields.alike hconstructible₁
    refine (ih h₃ (hbound.typeVars ▸ hvars₁) hconstructible₃ (hbound.extension.lt (hfields.grown.extension.lt htype))
      (fun w hw f hf => TypeExpr.isKnown_and (hshown w hw f hf) (hlater w hw f hf)) hhides).bind (fun _ => .pure _)
      fun c₄ t₄ rest rest' hrest => .pure ?_
    exact {
      types := hrest.types.trans (hbound.types.trans hfields.grown.types)
      extension := (hfields.grown.extension.trans hbound.extension).trans hrest.extension
      extension' := hfields.grown.extension'.trans (hbound.arena ▸ hrest.extension')
      regular := hrest.regular
      regular' := hrest.regular'
      rooted := hrest.rooted
      constructible := hrest.constructible
      alike := .cons (hfields₃.imp fun _ _ hf => ⟨hf.1, hf.2.grown h₃.regular.indexed.toOrdered
        h₃.regular'.indexed.toOrdered hrest.extension hrest.extension'⟩) hrest.alike }

end Check

/-! ## Declarations -/

/-- No field of an alternative mentions a type that an earlier alternative has hidden under its own name. -/
def TypeDecl.HidesNoType (decl : TypeDecl) : Prop :=
  match decl.body with
  | .variants alternatives => alternatives.Pairwise fun earlier later => ∀ f ∈ later.fields,
      f.type.isKnown (fun name => name ≠ earlier.name.val || (decl.typeParams.map (·.name.val)).contains name) = true
  | _ => True

def Checker.offers (c : Checker) (name : String) : Option FieldTypes :=
  match c.types.lookup name with
  | some id =>
    match (c.arena.get id).kind with
    | .struct _ fields => some fields
    | _ => none
  | none => (c.variants.lookup name).map (·.fields)

namespace Check

def addDeclared (decl : TypeDecl) (ids : List TypeId) (parent : TypeId) : Check TypeId := do
  let name := decl.name.val
  let params := decl.typeParams.map (·.name.val)
  let add (kind : TypeKind) : Check TypeId := modifyTypes (·.add ⟨name, kind, some parent⟩)
  let redefine (id : TypeId) (kind : TypeKind) : Check Unit :=
    modify fun c => { c with arena := c.arena.redefine id ⟨name, kind, some parent⟩ }
  match decl.body with
  | .abstract => add .abstract
  | .concrete => add .concrete
  | .struct fields =>
    let id ← add (.struct params [])
    defineType name id
    redefine id (.struct params (← resolveFields fields))
    return id
  | .variants alternatives =>
    let id ← add (.variants params [])
    defineType name id
    redefine id (.variants params (← declareVariants ids id alternatives))
    return id

theorem Silent.addDeclared (decl : TypeDecl) (ids : List TypeId) (parent : TypeId) :
    Silent (Check.addDeclared decl ids parent) := by
  have filled (d : TypeDef) (id : TypeId) :
      Silent (modify fun c => { c with arena := c.arena.redefine id d } : Check PUnit) := .same fun _ => ⟨rfl, rfl⟩
  have named (id : TypeId) : Silent (defineType decl.name.val id) := .same fun _ => ⟨rfl, rfl⟩
  rw [Check.addDeclared]
  dsimp only
  cases decl.body with
  | abstract | concrete => exact .modifyTypes _
  | struct fields =>
    exact (Silent.modifyTypes _).bind fun id => (named id).bind fun _ => (Silent.resolveFields fields).bind fun _ =>
      (filled _ id).bind fun _ => .pure id
  | variants alternatives =>
    exact (Silent.modifyTypes _).bind fun id => (named id).bind fun _ =>
      (Silent.declareVariants _ id alternatives).bind fun _ => (filled _ id).bind fun _ => .pure id

/-- Enters the type variables of a declaration and adds its type. -/
def declareWithin (decl : TypeDecl) : Check TypeId := do
  let ids ← enterTypeParams decl.typeParams
  let parent ← resolveOption decl.parent
  addDeclared decl ids parent

theorem declareType_eq (decl : TypeDecl) :
    declareType decl = withTypeVars (declareWithin decl) >>= defineType decl.name.val := rfl

end Check

namespace Dispatch

open Eval

def addDeclared (decl : TypeDecl) (scope : ScopeId) (vars : Bindings) (parent : TypeId) : Eval TypeId := do
  let name := decl.name.val
  let params := decl.typeParams.map (·.name.val)
  let add (kind : TypeKind) : Eval TypeId := modifyTypes (·.add ⟨name, kind, some parent⟩)
  let redefine (id : TypeId) (kind : TypeKind) : Eval Unit :=
    modify fun s => { s with arena := s.arena.redefine id ⟨name, kind, some parent⟩ }
  match decl.body with
  | .abstract => add .abstract
  | .concrete => add .concrete
  | .struct fields => do
    let id ← add (.struct params [])
    define scope name (.typeRef id name)
    redefine id (.struct params (← resolveFields vars scope fields))
    pure id
  | .variants alternatives => do
    let id ← add (.variants params [])
    define scope name (.typeRef id name)
    redefine id (.variants params (← declareVariants vars scope id name alternatives))
    pure id

/-- Enters the type variables of a declaration and adds its type. -/
def declareWithin (decl : TypeDecl) (scope : ScopeId) : Eval TypeId := do
  let vars ← typeParams scope [] decl.typeParams
  let parent ← resolveOption vars scope decl.parent
  addDeclared decl scope vars parent

theorem declareType_eq (decl : TypeDecl) (scope : ScopeId) : declareType decl scope = (do
    let id ← declareWithin decl scope
    define scope decl.name.val (.typeRef id decl.name.val)
    return .typeRef id decl.name.val) := by
  rw [declareType, declareWithin]
  simp only [bind_assoc]
  refine bind_congr fun vars => bind_congr fun parent => ?_
  rw [addDeclared]
  cases decl.body <;> simp only [bind_assoc, pure_bind]

end Dispatch

namespace Check

/-- The type of a declaration has been added. -/
structure Added (name : String) (c : Checker) (c' : Checker) (t' : Session) (id id' : TypeId) : Prop where
  regular : c'.arena.Regular
  regular' : t'.arena.Regular
  rooted : ScopeTree.root < t'.scopes.frames.size
  types : ∀ other ≠ name, c'.types.lookup other = c.types.lookup other
  own : ∀ {params fields}, (c'.arena.get id).kind = .struct params fields → ∃ params' fields',
    (t'.arena.get id').kind = .struct params' fields' ∧ FieldsAlike c'.arena t'.arena fields fields'
  constructible : Constructible c' t'

section

variable {parent parent' : TypeId} {kind kind' : TypeKind}

theorem regular_add {arena : TypeArena} (hr : arena.Regular) (hk : kind.ids = []) (hp : parent < arena.size)
    (name : String) : (arena.add ⟨name, kind, some parent⟩).2.Regular := by
  refine .add _ hr (List.append_eq_nil_iff.mp hk).1 ?_
  rw [TypeDef.ids, hk]
  exact List.forall_mem_singleton.mpr hp

/-- A type has been added without its fields or alternatives, and given its name. -/
theorem added_counterpart (h : c.Counterpart (fun _ => true) vars t) (hk : kind.ids = [])
    (hp : c.arena.Alike t.arena parent parent') (name : String) :
    let added := (c.arena.add ⟨name, kind, some parent⟩).2
    let added' := (t.arena.add ⟨name, kind, some parent'⟩).2
    Checker.Counterpart (fun _ => true) { c with arena := added, types := Assoc.insert name c.arena.size c.types } vars
      { t with arena := added', scopes := t.scopes.define ScopeTree.root name (.typeRef t.arena.size name) } := by
  intro added added'
  have hregular := regular_add h.regular hk hp.lt name
  have hregular' := regular_add h.regular' hk hp.lt' name
  have hg : c.Grown { c with arena := added } t { t with arena := added' } :=
    ⟨rfl, rfl, rfl, .push rfl fun k => by cases k <;> rfl, hregular, rfl, .push rfl fun k => by cases k <;> rfl,
      hregular'⟩
  have hgrown := h.grown hg
  have hparts := (List.append_eq_nil_iff.mp hk).1
  refine { hgrown with rooted := ?_, types := fun {other} hother hnone id hid => ?_ }
  · rw [ScopeTree.size_define]
    exact h.rooted
  · rw [Session.knownTypes, ScopeTree.get?_root, ScopeTree.lookup_frame_define h.rooted]
    by_cases hname : other = name
    · dsimp only at hid
      rw [hname, Assoc.lookup_insert_self] at hid
      rw [if_pos ⟨rfl, hname⟩, ← Option.some.inj hid]
      exact ⟨_, rfl, .ofAdded h.regular hparts hparts hregular hregular'⟩
    · dsimp only at hid
      rw [Assoc.lookup_insert_of_ne hname] at hid
      rw [if_neg fun heq => hname heq.2, ← ScopeTree.get?_root]
      exact hgrown.types hother hnone hid

theorem filled_regular {arena later : TypeArena} {d d' : TypeDef} (hext : (arena.add d).2.Extends later)
    (hl : later.Regular) (hd : TypeDef.Refills d d') (hm : ∀ x ∈ d'.kind.members, x < later.size) :
    arena.size < later.size ∧ TypeDef.Refills (later.get arena.size) d' ∧ (later.redefine arena.size d').Regular := by
  have hnew := arena.size_lt_add d
  have hlt : arena.size < later.size := hext.lt hnew
  have hrefills : TypeDef.Refills (later.get arena.size) d' := by
    rw [hext.get_eq hnew, get_of_push_self rfl]
    exact hd
  exact ⟨hlt, hrefills, .redefine _ _ hl hlt hrefills hm⟩

theorem FieldsAlike.lt {A B : TypeArena} {fields fields' : FieldTypes} (h : FieldsAlike A B fields fields') :
    (∀ f ∈ fields, f.2 < A.size) ∧ ∀ f ∈ fields', f.2 < B.size :=
  ⟨((List.forall₂_and_left fields fields').mp (h.imp fun _ _ hf => ⟨hf.2.lt, hf⟩)).1,
    ((List.forall₂_and_left fields' fields).mp (h.flip.imp fun _ _ hf => ⟨hf.2.lt', hf⟩)).1⟩

/-- The type of a declaration in which nothing is found wrong is added to the session as well. -/
theorem addDeclared_tracks {decl : TypeDecl} (h : c.Counterpart (fun _ => true) vars t)
    (hvars : ∀ p ∈ decl.typeParams, c.typeVars.lookup p.name.val ≠ none) (hvariants : c.variants = [])
    (hp : c.arena.Alike t.arena parent parent') (hhides : decl.HidesNoType) (ids : List TypeId) :
    Tracks c t (addDeclared decl ids parent) (Dispatch.addDeclared decl ScopeTree.root vars parent')
      (Added decl.name.val c) := by
  have hnone {c' : Checker} {t' : Session} (hv : c'.variants = []) : Constructible c' t' := fun name info hinfo => by
    rw [hv] at hinfo
    cases hinfo
  have hplain {kind : TypeKind} (hk : kind.ids = []) (hnot : ∀ params fields, kind ≠ .struct params fields) :
      Tracks c t (modifyTypes (·.add ⟨decl.name.val, kind, some parent⟩))
        (Eval.modifyTypes (·.add ⟨decl.name.val, kind, some parent'⟩)) (Added decl.name.val c) := by
    refine fun _ => ⟨_, _, rfl, regular_add h.regular hk hp.lt _, regular_add h.regular' hk hp.lt' _, h.rooted,
      fun _ _ => rfl, fun {params fields} hkind => ?_, hnone hvariants⟩
    have hget : ((c.arena.add ⟨decl.name.val, kind, some parent⟩).2.get c.arena.size).kind = kind := by
      rw [get_of_push_self rfl]
    exact absurd (hget.symm.trans hkind) (hnot params fields)
  rw [addDeclared, Dispatch.addDeclared]
  dsimp only
  rw [TypeDecl.HidesNoType] at hhides
  cases hbody : decl.body with
  | abstract => exact hplain rfl nofun
  | concrete => exact hplain rfl nofun
  | struct fields =>
    refine .left (.right rfl (.left (.right rfl ?_)))
    have hadded := added_counterpart h
      (show (TypeKind.struct (decl.typeParams.map (·.name.val)) []).ids = [] from rfl) hp decl.name.val
    refine (resolveFields_tracks hadded fields fun f _ => TypeExpr.isKnown_true f.type).bind
      (fun _ => .bind (.same fun _ => ⟨rfl, rfl⟩) fun _ => .pure _) fun c' t' ids ids' hids => .left (.right rfl (.pure ?_))
    obtain ⟨hlt, hrefills, hregular⟩ := filled_regular hids.grown.extension hids.grown.regular (.struct _ _ _ [] ids)
      (List.forall_mem_map.mpr hids.alike.lt.1)
    obtain ⟨hlt', hrefills', hregular'⟩ := filled_regular hids.grown.extension' hids.grown.regular'
      (.struct _ _ _ [] ids') (List.forall_mem_map.mpr hids.alike.lt.2)
    refine ⟨hregular, hregular', ?_, fun other hne => ?_, fun {params fields} hkind => ?_, ?_⟩
    · rw [hids.grown.scopes, ScopeTree.size_define]
      exact h.rooted
    · change c'.types.lookup other = _
      rw [hids.grown.types, Assoc.lookup_insert_of_ne hne]
    · change ((c'.arena.redefine c.arena.size _).get c.arena.size).kind = _ at hkind
      rw [get_redefine hlt, if_pos rfl] at hkind
      obtain ⟨-, rfl⟩ := TypeKind.struct.inj hkind
      refine ⟨decl.typeParams.map (·.name.val), ids', ?_,
        hids.alike.imp fun _ _ hf => ⟨hf.1, hf.2.redefine hlt hlt' hrefills hrefills'⟩⟩
      change ((t'.arena.redefine t.arena.size _).get t.arena.size).kind = _
      rw [get_redefine hlt', if_pos rfl]
    · exact hnone (hids.grown.variants.trans hvariants)
  | variants alternatives =>
    rw [hbody] at hhides
    refine .left (.right rfl (.left (.right rfl ?_)))
    have hadded := added_counterpart h
      (show (TypeKind.variants (decl.typeParams.map (·.name.val)) []).ids = [] from rfl) hp decl.name.val
    have hisVar : ∀ name, (decl.typeParams.map (·.name.val)).contains name = true → c.typeVars.lookup name ≠ none := by
      intro name hname
      obtain ⟨p, hp, rfl⟩ := List.mem_map.mp (List.contains_iff_mem.mp hname)
      exact hvars p hp
    refine (declareVariants_tracks hadded hisVar (hnone hvariants) ids (size_lt_add _ _) decl.name.val
      (fun v _ f _ => TypeExpr.isKnown_true f.type) hhides).bind (fun _ => .bind (.same fun _ => ⟨rfl, rfl⟩) fun _ => .pure _)
      fun c' t' found found' hfound => .left (.right rfl (.pure ?_))
    have hlt := (List.forall₂_and_left found found').mp (hfound.alike.imp fun _ _ hv => ⟨FieldsAlike.lt hv |>.1, hv⟩)
    have hlt' :=
      (List.forall₂_and_left found' found).mp (hfound.alike.flip.imp fun _ _ hv => ⟨FieldsAlike.lt hv |>.2, hv⟩)
    obtain ⟨hsize, hrefills, hregular⟩ := filled_regular hfound.extension hfound.regular (.variants _ _ _ [] found)
      (List.forall_mem_flatMap.mpr fun v hv => List.forall_mem_map.mpr (hlt.1 v hv))
    obtain ⟨hsize', hrefills', hregular'⟩ := filled_regular hfound.extension' hfound.regular' (.variants _ _ _ [] found')
      (List.forall_mem_flatMap.mpr fun v hv => List.forall_mem_map.mpr (hlt'.1 v hv))
    refine ⟨hregular, hregular', hfound.rooted, fun other hne => ?_, fun {params fields} hkind => ?_,
      fun name info hinfo hne => ?_⟩
    · change c'.types.lookup other = _
      rw [hfound.types, Assoc.lookup_insert_of_ne hne]
    · change ((c'.arena.redefine c.arena.size _).get c.arena.size).kind = _ at hkind
      rw [get_redefine hsize, if_pos rfl] at hkind
      cases hkind
    · obtain ⟨n, constructor, hget, ha⟩ := hfound.constructible name info hinfo hne
      exact ⟨n, constructor, hget, ha.imp fun _ _ hf => ⟨hf.1, hf.2.redefine hsize hsize' hrefills hrefills'⟩⟩

end

/-- What is offered by the checker can be constructed in the session, from fields that are alike. -/
structure Offered (c : Checker) (t : Session) : Prop where
  regular : c.arena.Regular
  regular' : t.arena.Regular
  constructs : ∀ {name declared}, c.offers name = some declared → declared ≠ [] → ∃ declared' build,
    t.Declares .dispatch ScopeTree.root name declared' build ∧ FieldsAlike c.arena t.arena declared declared'

/-- If nothing else than built-in types is known, a declaration in which nothing is found wrong is evaluated, and then
the session can construct what the checker offers. -/
theorem declareType_tracks {decl : TypeDecl} (h : c.Counterpart (fun _ => true) [] t)
    (hbuiltin : ∀ name id, c.types.lookup name = some id → id < builtinTypes.length) (hvariants : c.variants = [])
    (hhides : decl.HidesNoType) :
    Tracks c t (declareType decl) (Dispatch.declareType decl ScopeTree.root) fun c' t' _ _ => Offered c' t' := by
  have hwithin : Tracks c t (withTypeVars (declareWithin decl)) (Dispatch.declareWithin decl ScopeTree.root)
      (Added decl.name.val c) := by
    suffices hinner : Tracks c t (declareWithin decl) (Dispatch.declareWithin decl ScopeTree.root)
        (Added decl.name.val c) from fun hclean => by
      obtain ⟨id', t', hrun, ha⟩ := hinner hclean
      exact ⟨id', t', hrun, ha.regular, ha.regular', ha.rooted, ha.types, ha.own, ha.constructible⟩
    have hall (type : Option TypeExpr) : type.all (·.isKnown fun _ => true) = true := by
      cases type with
      | none => rfl
      | some type => exact TypeExpr.isKnown_true type
    refine (enterTypeParams_tracks h decl.typeParams fun p _ => hall p.constraint).bind
      (fun _ => (Silent.resolveOption _).bind fun _ => Silent.addDeclared _ _ _) fun c₁ t₁ ids vars he => ?_
    refine (resolveOption_tracks he.counterpart decl.parent (hall _)).bind (fun _ => Silent.addDeclared _ _ _)
      fun c₂ t₂ parent parent' hp => ?_
    have htypeVars : ∀ p ∈ decl.typeParams, c₂.typeVars.lookup p.name.val ≠ none := hp.grown.typeVars ▸ he.entered
    refine (addDeclared_tracks (he.counterpart.grown hp.grown) htypeVars
      (hp.grown.variants.trans (he.variants.trans hvariants)) hp.alike hhides ids).mono fun c' t' id id' ha => ?_
    exact { ha with types := fun other hne => by rw [ha.types other hne, hp.grown.types, he.types] }
  rw [declareType_eq, Dispatch.declareType_eq]
  refine hwithin.bind (fun _ => .same fun _ => ⟨rfl, rfl⟩) fun c' t' id id' ha _ => ⟨_, _, rfl, ha.regular, ha.regular',
    fun {name declared} hoffers hne => ?_⟩
  have hget (other : String) : (t'.scopes.define ScopeTree.root decl.name.val (.typeRef id' decl.name.val)).get?
      ScopeTree.root other = if other = decl.name.val then some (.typeRef id' decl.name.val)
        else t'.scopes.get? ScopeTree.root other := by
    rw [ScopeTree.get?_root, ScopeTree.get?_root, ScopeTree.lookup_frame_define ha.rooted]
    simp only [true_and]
  change (match (Assoc.insert decl.name.val id c'.types).lookup name with
    | some id => match (c'.arena.get id).kind with
      | .struct _ fields => some fields
      | _ => none
    | none => (c'.variants.lookup name).map (·.fields)) = some declared at hoffers
  by_cases hname : name = decl.name.val
  · rw [hname, Assoc.lookup_insert_self] at hoffers
    dsimp only at hoffers
    split at hoffers
    · next params fields hkind =>
      obtain rfl := Option.some.inj hoffers
      obtain ⟨params', fields', hkind', hfields⟩ := ha.own hkind
      exact ⟨fields', _, .struct ((hget name).trans (if_pos hname)) hkind', hfields⟩
    · cases hoffers
  · rw [Assoc.lookup_insert_of_ne hname, ha.types name hname] at hoffers
    cases hold : c.types.lookup name with
    | some old =>
      rw [hold] at hoffers
      dsimp only at hoffers
      split at hoffers
      · next params fields hkind =>
        -- built-in types have no fields
        exact absurd (ha.regular.builtin_le_of_struct hkind) (Nat.not_le_of_lt (hbuiltin name old hold))
      · cases hoffers
    | none =>
      rw [hold] at hoffers
      obtain ⟨info, hinfo, rfl⟩ := Option.map_eq_some_iff.mp hoffers
      obtain ⟨n, constructor, hbound, hfields⟩ := ha.constructible name info hinfo hne
      exact ⟨constructor.fields, _, .variant ((hget name).trans ((if_neg hname).trans hbound)), hfields⟩

end Check

end DispatchLang
