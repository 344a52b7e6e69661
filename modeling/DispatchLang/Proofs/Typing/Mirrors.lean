import DispatchLang.Proofs.Arena.Reflection
import DispatchLang.Proofs.Typing.Counterparts

/-!
# A checker and a session that declare the same

A checker and a session of the dispatch strategy go through the same declarations, each with an arena, a list of types
and a list of functions of its own. As long as the checker finds nothing wrong, it *mirrors* the session: the types of
the session are found in the arena of the checker, what names mean as types are images of each other, and a function has
as many methods to the one as to the other, with signatures that are images of each other, in the same order.

More is true here than of counterparts (`Checker.Counterpart`), which need not tell declared types apart. The price is
that the names of functions and alternatives have to be kept apart from those of types: to a session all of them are
names of values, and a later one hides an earlier one.

A type declaration in which the checker finds nothing wrong is evaluated by the session, and the checker still mirrors the
session afterwards. Both add a type without its fields or alternatives, give it its name, and fill in what is declared.
For every alternative with fields the checker also adds the type of its constructor, which the session does not have;
this is a type that the arena of the checker gains by itself.

## Main definitions

* `ValueNames`: the names of the functions and alternatives that a program declares.
* `Checker.Mirrors`: a checker knows the types and functions that a session knows.
* `Check.Advanced`: a checker and a session have only added types, side by side.

## Main results

* `Check.resolveType_mirrors` and the like: written types mean images of each other.
* `Check.enterTypeParams_mirrors`: so do type variables.
* `Check.declareVariants_mirrors`: alternatives are made known.
* `Check.declareType_mirrors`: so are types.
-/

namespace DispatchLang

open TypeArena

variable {f g : TypeId → TypeId} {A A' B B' : TypeArena} {names : ValueNames} {c c' c'' : Checker} {t t' t'' : Session}
  {vars vars' : Bindings}

/-! ## Functions with the same methods -/

/-- The signatures of two methods, of a session and of a checker, are images of each other. -/
def SameSignature (f : TypeId → TypeId) (A B : TypeArena) (m : Method FunctionBody) (m' : Method TypeId) : Prop :=
  List.Forall₂ (Image f A B) m.signature m'.signature

/-- A function of a session and one of a checker have methods with the same signatures in the same order. Nothing is
remembered, no signature stands twice, and methods without type variables mention none. -/
structure SameMethods (f : TypeId → TypeId) (A B : TypeArena) (h : GenericFunction FunctionBody)
    (k : GenericFunction TypeId) : Prop where
  signatures : List.Forall₂ (SameSignature f A B) h.methods k.methods
  distinct : h.methods.Pairwise fun m m' => m.signature ≠ m'.signature
  fresh : h.cache = []
  plain : ∀ m ∈ k.methods, m.typeVars = [] → ∀ p ∈ m.signature, B.hasVars p = false

/-- A session and a checker know functions with the same methods, or neither knows one. -/
inductive SameFunction (f : TypeId → TypeId) (A B : TypeArena) :
    Option (GenericFunction FunctionBody) → Option (GenericFunction TypeId) → Prop where
  | none : SameFunction f A B none none
  | some {h : GenericFunction FunctionBody} {k : GenericFunction TypeId} (hs : SameMethods f A B h k) :
      SameFunction f A B (some h) (some k)

theorem SameMethods.lt {h : GenericFunction FunctionBody} {k : GenericFunction TypeId} (hs : SameMethods f A B h k) :
    ∀ m ∈ k.methods, ∀ p ∈ m.signature, p < B.size :=
  ((List.forall₂_and_left k.methods h.methods).mp (hs.signatures.flip.imp fun _ _ h => ⟨(Image.all_lt h).2, h⟩)).1

/-- Functions keep having the same methods while types are added or filled in. -/
theorem SameFunction.moved {h : Option (GenericFunction FunctionBody)} {k : Option (GenericFunction TypeId)}
    (hs : SameFunction f A B h k) (hr : Retains f A B g A' B') (hvars : ∀ id < B.size, B'.hasVars id = B.hasVars id) :
    SameFunction g A' B' h k := by
  cases hs with
  | none => exact .none
  | some hs =>
    exact .some ⟨hs.signatures.imp fun _ _ h => hr.all h, hs.distinct, hs.fresh, fun m hm hnone p hp => by
      rw [hvars p (hs.lt m hm p hp)]
      exact hs.plain m hm hnone p hp⟩

/-! ## Mirrors -/

/-- The names of the functions and alternatives that a program declares. No name is one of both. -/
structure ValueNames where
  /-- The names of functions. -/
  functions : String → Prop
  /-- The names of alternatives. -/
  variants : String → Prop
  distinct : ∀ {name}, functions name → ¬variants name

/-- Whether a name is one of a function or an alternative. -/
def ValueNames.Has (names : ValueNames) (name : String) : Prop := names.functions name ∨ names.variants name

namespace Checker

/-- A checker knows the types and functions that a session knows, each under indices of its own. What is asked of
functions is asked of those with the given names. -/
structure Mirrors (names : ValueNames) (f : TypeId → TypeId) (t : Session) (vars : Bindings) (c : Checker) : Prop where
  reflects : Reflects f t.arena c.arena
  known : c.In c.arena.size
  rooted : ScopeTree.root < t.scopes.frames.size
  vars : ∀ name, (vars.lookup name = none ∧ c.typeVars.lookup name = none) ∨
    ∃ v v', vars.lookup name = some v ∧ c.typeVars.lookup name = some v' ∧ Image f t.arena c.arena v v'
  types : ∀ {name id'}, c.types.lookup name = some id' →
    ∃ id, t.knownTypes ScopeTree.root name = some id ∧ Image f t.arena c.arena id id'
  /-- A type that has a name is made of no others. -/
  partless : ∀ e ∈ c.types, (c.arena.get e.2).kind.parts = []
  /-- Functions and alternatives have no names of types. -/
  apart : ∀ {name}, names.Has name → c.types.lookup name = none
  functions : ∀ {name}, names.functions name →
    SameFunction f t.arena c.arena (t.functions.lookup name) (c.functions.lookup name)
  /-- Functions are bound to themselves in a session, and not at all in a checker. -/
  bound : ∀ {name h}, names.functions name → t.functions.lookup name = some h →
    t.scopes.get? ScopeTree.root name = some (.generic name)
  unbound : ∀ {name}, names.functions name → c.scopes.findSome? (·.lookup name) = none

/-- No name means a type that mentions type variables. -/
def NamesPlain (c : Checker) : Prop := ∀ {name id}, Check.names c name = some id → c.arena.hasVars id = false

namespace Mirrors

theorem sound (h : c.Mirrors names f t vars) : c.Sound c.arena := ⟨h.reflects.regular', .refl _, h.known, h.partless⟩

/-- A type that has a name mentions no type variables. -/
theorem plain (h : c.Mirrors names f t vars) {name : String} {id' : TypeId} (hid : c.types.lookup name = some id') :
    c.arena.hasVars id' = false :=
  have hmem := Assoc.mem_of_lookup hid
  (over_of_parts h.reflects.regular'.indexed.toOrdered (h.known.types _ hmem) (h.partless _ hmem)).hasVars_eq_false

theorem meaning (h : c.Mirrors names f t vars) {name : String} {id' : TypeId} (hid : Check.names c name = some id') :
    ∃ id, within (t.knownTypes ScopeTree.root) vars name = some id ∧ Image f t.arena c.arena id id' := by
  rw [Check.names, within] at hid
  rw [within]
  rcases h.vars name with ⟨hnone, hnone'⟩ | ⟨v, v', hv, hv', hi⟩
  · rw [hnone'] at hid
    rw [hnone]
    exact h.types hid
  · rw [hv'] at hid
    rw [hv, ← Option.some.inj hid]
    exact ⟨v, rfl, hi⟩

/-- Outside of declarations no name means a type variable. -/
theorem namesPlain (h : c.Mirrors names f t []) : c.NamesPlain := by
  intro name id hid
  rcases h.vars name with ⟨-, hnone⟩ | ⟨v, v', hv, -⟩
  · rw [Check.names, within, hnone] at hid
    exact h.plain hid
  · cases hv

/-- The arenas may be replaced by others in which everything is kept. -/
theorem moved (h : c.Mirrors names f t vars) (hr : Reflects g A' B') (hretains : Retains f t.arena c.arena g A' B')
    (hsize : c.arena.size ≤ B'.size) (hvars : ∀ id < c.arena.size, B'.hasVars id = c.arena.hasVars id)
    (hparts : ∀ id < c.arena.size, (c.arena.get id).kind.parts = [] → (B'.get id).kind.parts = []) :
    Mirrors names g { t with arena := A' } vars { c with arena := B' } where
  reflects := hr
  known :=
    have hknown := h.known.mono hsize
    ⟨hknown.scopes, hknown.types, hknown.functions, hknown.variants, hknown.typeVars⟩
  rooted := h.rooted
  vars name := (h.vars name).imp_right fun hvar => by
    obtain ⟨v, v', hv, hv', hi⟩ := hvar
    exact ⟨v, v', hv, hv', hretains.image hi⟩
  types hid := by
    obtain ⟨id, hid, hi⟩ := h.types hid
    exact ⟨id, hid, hretains.image hi⟩
  partless e he := hparts e.2 (h.known.types e he) (h.partless e he)
  apart := h.apart
  functions hname := (h.functions hname).moved hretains hvars
  bound := h.bound
  unbound := h.unbound

end Mirrors

end Checker

namespace Check

/-! ## Types that are added side by side -/

/-- A checker and a session have only added types, and those of the session are still found. -/
structure Advanced (f : TypeId → TypeId) (c : Checker) (t : Session) (g : TypeId → TypeId) (c' : Checker)
    (t' : Session) : Prop where
  checker : c' = { c with arena := c'.arena }
  session : t' = { t with arena := t'.arena }
  extension : t.arena.Extends t'.arena
  extension' : c.arena.Extends c'.arena
  reflects : Reflects g t'.arena c'.arena
  retains : Retains f t.arena c.arena g t'.arena c'.arena

namespace Advanced

variable {h : TypeId → TypeId}

theorem refl (hr : Reflects f t.arena c.arena) : Advanced f c t f c t := ⟨rfl, rfl, .refl _, .refl _, hr, .refl⟩

theorem trans (ha : Advanced f c t g c' t') (ha' : Advanced g c' t' h c'' t'') : Advanced f c t h c'' t'' where
  checker := by rw [ha'.checker, ha.checker]
  session := by rw [ha'.session, ha.session]
  extension := ha.extension.trans ha'.extension
  extension' := ha.extension'.trans ha'.extension'
  reflects := ha'.reflects
  retains := ha.retains.trans ha'.retains

theorem mirrors (ha : Advanced f c t g c' t') (hm : c.Mirrors names f t vars) : c'.Mirrors names g t' vars := by
  have hordered := hm.reflects.regular'.indexed.toOrdered
  have hmoved := hm.moved ha.reflects ha.retains ha.extension'.size_le (fun id hid => ha.extension'.hasVars_eq hordered hid)
    ha.extension'.parts_eq_nil
  rwa [← ha.checker, ← ha.session] at hmoved

/-- What a name means is still the same, and it still mentions no type variables. -/
theorem namesPlain (ha : Advanced f c t g c' t') (hm : c.Mirrors names f t vars) (hp : c.NamesPlain) : c'.NamesPlain := by
  intro name id hid
  have hsame : Check.names c' name = Check.names c name := by rw [ha.checker]; rfl
  rw [hsame] at hid
  obtain ⟨_, -, hi⟩ := hm.meaning hid
  rw [ha.extension'.hasVars_eq hm.reflects.regular'.indexed.toOrdered hi.lt']
  exact hp hid

end Advanced

/-! ## Written types -/

/-- Both have only added types. They answer types that are images of each other, and if no name means a type that
mentions type variables, neither does the answer. -/
def Meant (f : TypeId → TypeId) (c : Checker) (t : Session) (c' : Checker) (t' : Session) (id' id : TypeId) : Prop :=
  ∃ g, Advanced f c t g c' t' ∧ Image g t'.arena c'.arena id id' ∧ (c.NamesPlain → c'.arena.hasVars id' = false)

/-- The same for several types. -/
def MeantAll (f : TypeId → TypeId) (c : Checker) (t : Session) (c' : Checker) (t' : Session) (ids' ids : List TypeId) :
    Prop :=
  ∃ g, Advanced f c t g c' t' ∧ List.Forall₂ (Image g t'.arena c'.arena) ids ids' ∧
    (c.NamesPlain → ∀ id' ∈ ids', c'.arena.hasVars id' = false)

theorem MeantAll.nil (h : c.Mirrors names f t vars) : MeantAll f c t c t [] [] :=
  ⟨f, .refl h.reflects, .nil, fun _ => List.forall_mem_nil _⟩

theorem MeantAll.cons {id id' : TypeId} {ids ids' : List TypeId} (hm : c.Mirrors names f t vars)
    (ha : Advanced f c t g c' t') (hi : Image g t'.arena c'.arena id id')
    (hp : c.NamesPlain → c'.arena.hasVars id' = false) (h : MeantAll g c' t' c'' t'' ids' ids) :
    MeantAll f c t c'' t'' (id' :: ids') (id :: ids) := by
  obtain ⟨k, ha', his, hps⟩ := h
  refine ⟨k, ha.trans ha', .cons (ha'.retains.image hi) his, fun hplain => List.forall_mem_cons.mpr ⟨?_, ?_⟩⟩
  · rw [ha'.extension'.hasVars_eq ha.reflects.regular'.indexed.toOrdered hi.lt']
    exact hp hplain
  · exact hps (ha.namesPlain hm hplain)

theorem hasVars_applied {base : TypeId} {args : List TypeId} (hr : A.Regular) (hbase : base < A.size)
    (hargs : ∀ x ∈ args, x < A.size) (hplain : ∀ x ∈ args, A.hasVars x = false) :
    (A.applied base args).2.hasVars (A.applied base args).1 = false := by
  have hint := applied_interns A base args
  have hregular := Regular.applied base args hr hbase hargs
  obtain ⟨hid, hk, -⟩ := hregular.indexed.index hint.interned?_eq
  rw [hregular.indexed.toOrdered.hasVars_eq_any hid (by rw [hk]; rfl), hk]
  change args.any _ = false
  rw [List.any_eq_false]
  intro x hx
  rw [hint.extension.hasVars_eq hr.indexed.toOrdered (hargs x hx), hplain x hx]
  exact Bool.false_ne_true

mutual

/-- A written type in which the checker finds nothing wrong means the same to the session. -/
theorem resolveType_mirrors {f : TypeId → TypeId} {c : Checker} {t : Session} (h : c.Mirrors names f t vars)
    (type : TypeExpr) :
    Tracks c t (resolveType type) (Dispatch.resolveType vars ScopeTree.root type) (Meant f c t) := by
  cases type with
  | named span name =>
    intro hclean
    rw [resolveType, bind_run, headType_eq] at hclean ⊢
    cases hn : Check.names c name with
    | none =>
      rw [hn] at hclean
      cases hclean
    | some id' =>
      obtain ⟨id, hid, hi⟩ := h.meaning hn
      refine ⟨id, t, ?_, f, .refl h.reflects, hi, fun hplain => hplain hn⟩
      rw [Dispatch.resolveType]
      exact (Eval.bind_of_ok (Dispatch.lookupType_eq name)).trans (by rw [hid]; rfl)
  | applied span name args =>
    intro hclean
    rw [resolveType, bind_run, headType_eq] at hclean ⊢
    cases hn : Check.names c name with
    | none =>
      rw [hn] at hclean
      cases hclean
    | some base' =>
      rw [hn] at hclean
      obtain ⟨base, hbase, hi⟩ := h.meaning hn
      obtain ⟨ids, t', hargs, g, ha, his, hps⟩ := resolveTypes_mirrors h args hclean
      obtain ⟨k, hreflects, hretains, himage⟩ := ha.reflects.applied (ha.retains.image hi) his
      have hlt := (Image.all_lt his).2
      refine ⟨(t'.arena.applied base ids).1, { t' with arena := (t'.arena.applied base ids).2 }, ?_, k,
        ha.trans ⟨rfl, rfl, (applied_interns _ _ _).extension, (applied_interns _ _ _).extension, hreflects, hretains⟩,
        himage, fun hplain => ?_⟩
      · rw [Dispatch.resolveType]
        refine (Eval.bind_of_ok (Dispatch.lookupType_eq name)).trans ?_
        rw [hbase]
        exact Eval.bind_of_ok hargs
      · exact hasVars_applied ha.reflects.regular' (ha.retains.image hi).lt' hlt (hps hplain)

theorem resolveTypes_mirrors {f : TypeId → TypeId} {c : Checker} {t : Session} (h : c.Mirrors names f t vars)
    (types : List TypeExpr) :
    Tracks c t (resolveTypes types) (Dispatch.resolveTypes vars ScopeTree.root types) (MeantAll f c t) := by
  cases types with
  | nil => exact .pure (.nil h)
  | cons type types =>
    rw [resolveTypes, Dispatch.resolveTypes]
    refine (resolveType_mirrors h type).bind (fun _ => (Silent.resolveTypes types).bind fun _ => .pure _)
      fun c' t' id' id hmeant => ?_
    obtain ⟨g, ha, hi, hp⟩ := hmeant
    exact (resolveTypes_mirrors (ha.mirrors h) types).bind (fun _ => .pure _)
      fun c'' t'' ids' ids hids => .pure (.cons h ha hi hp hids)

end

theorem resolveOption_mirrors (h : c.Mirrors names f t vars) (type : Option TypeExpr) :
    Tracks c t (resolveOption type) (Dispatch.resolveOption vars ScopeTree.root type) (Meant f c t) := by
  cases type with
  | none =>
    exact .pure ⟨f, .refl h.reflects, h.reflects.image_builtin (by decide),
      fun _ => (h.reflects.regular'.simple_builtin (by decide)).2⟩
  | some type => exact resolveType_mirrors h type

theorem resolveParams_mirrors (h : c.Mirrors names f t vars) (params : List Param) :
    Tracks c t (resolveParams params) (Dispatch.resolveParams vars ScopeTree.root params) (MeantAll f c t) := by
  induction params generalizing f c t with
  | nil => exact .pure (.nil h)
  | cons p params ih =>
    rw [resolveParams, Dispatch.resolveParams]
    refine (resolveOption_mirrors h p.annotation).bind (fun _ => (Silent.resolveParams params).bind fun _ => .pure _)
      fun c' t' id' id hmeant => ?_
    obtain ⟨g, ha, hi, hp⟩ := hmeant
    exact (ih (ha.mirrors h)).bind (fun _ => .pure _) fun c'' t'' ids' ids hids => .pure (.cons h ha hi hp hids)

/-- Fields of a session and of a checker with the same names, and types that are images of each other. -/
def SameFields (f : TypeId → TypeId) (A B : TypeArena) (fields fields' : FieldTypes) : Prop :=
  List.Forall₂ (fun p p' => p.1 = p'.1 ∧ Image f A B p.2 p'.2) fields fields'

theorem SameFields.retained {fields fields' : FieldTypes} (h : SameFields f A B fields fields')
    (hr : Retains f A B g A' B') : SameFields g A' B' fields fields' := h.imp fun _ _ hp => ⟨hp.1, hr.image hp.2⟩

/-- The fields of the checker are those of the session, renamed. -/
theorem SameFields.map_eq {fields fields' : FieldTypes} (h : SameFields f A B fields fields') :
    fields.map (fun p => (p.1, f p.2)) = fields' := by
  induction h with
  | nil => rfl
  | cons hp _ ih => rw [List.map_cons, ih, hp.1, hp.2.eq]

theorem SameFields.types {fields fields' : FieldTypes} (h : SameFields f A B fields fields') :
    List.Forall₂ (Image f A B) (fields.map Prod.snd) (fields'.map Prod.snd) := by
  rw [List.forall₂_map_left_iff, List.forall₂_map_right_iff]
  exact h.imp fun _ _ hp => hp.2

theorem resolveFields_mirrors (h : c.Mirrors names f t vars) (fields : List FieldDecl) :
    Tracks c t (resolveFields fields) (Dispatch.resolveFields vars ScopeTree.root fields) fun c' t' fields' fields =>
      ∃ g, Advanced f c t g c' t' ∧ SameFields g t'.arena c'.arena fields fields' := by
  induction fields generalizing f c t with
  | nil => exact .pure ⟨f, .refl h.reflects, .nil⟩
  | cons field fields ih =>
    rw [resolveFields, Dispatch.resolveFields]
    refine (resolveType_mirrors h field.type).bind (fun _ => (Silent.resolveFields fields).bind fun _ => .pure _)
      fun c' t' id' id hmeant => ?_
    obtain ⟨g, ha, hi, -⟩ := hmeant
    refine (ih (ha.mirrors h)).bind (fun _ => .pure _) fun c'' t'' rest' rest hsame => .pure ?_
    obtain ⟨k, ha', hrest⟩ := hsame
    exact ⟨k, ha.trans ha', .cons ⟨rfl, ha'.retains.image hi⟩ hrest⟩

/-! ## Type variables -/

/-- Entering the same type variable keeps the types in sight. -/
theorem enter_mirrors (h : c.Mirrors names f t vars) {constraint constraint' : TypeId}
    (hc : Image f t.arena c.arena constraint constraint') (name : String) :
    let var := t.arena.var name constraint
    let var' := c.arena.var name constraint'
    ∃ g, Checker.Mirrors names g { t with arena := var.2 } ((name, var.1) :: vars)
        { c with arena := var'.2, typeVars := Assoc.insert name var'.1 c.typeVars } ∧
      Retains f t.arena c.arena g var.2 var'.2 := by
  intro var var'
  obtain ⟨g, hreflects, hretains, himage⟩ := h.reflects.var name hc
  have hadvanced : Advanced f c t g { c with arena := var'.2 } { t with arena := var.2 } :=
    ⟨rfl, rfl, .var _ _ _, .var _ _ _, hreflects, hretains⟩
  have hm := hadvanced.mirrors h
  refine ⟨g, { hm with known := ?_, vars := fun other => ?_ }, hretains⟩
  · have hk := hm.known
    exact ⟨hk.scopes, hk.types, hk.functions, hk.variants,
      ScopeTree.forall_mem_insert (q := (· < var'.2.size)) himage.lt' hk.typeVars⟩
  · dsimp only
    rw [List.lookup_cons]
    by_cases hname : other = name
    · rw [hname, Assoc.lookup_insert_self, beq_self_eq_true]
      exact .inr ⟨_, _, rfl, rfl, himage⟩
    · rw [Assoc.lookup_insert_of_ne hname, beq_eq_false_iff_ne.mpr hname]
      exact hm.vars other

/-- The type variables of a declaration have been entered, and nothing else has happened but that types were added. -/
structure VarsEntered (names : ValueNames) (f : TypeId → TypeId) (c : Checker) (t : Session) (c' : Checker) (t' : Session)
    (ids : List TypeId) (vars : Bindings) : Prop where
  mirrors : ∃ g, c'.Mirrors names g t' vars ∧ Retains f t.arena c.arena g t'.arena c'.arena
  checker : c' = { c with arena := c'.arena, typeVars := c'.typeVars }
  session : t' = { t with arena := t'.arena }
  none : ids = [] → c'.typeVars = c.typeVars ∧ c'.arena = c.arena

theorem enterTypeParams_mirrors (h : c.Mirrors names f t vars) (params : List TypeParam) :
    Tracks c t (enterTypeParams params) (Dispatch.typeParams ScopeTree.root vars params) (VarsEntered names f c t) := by
  induction params generalizing f c t vars with
  | nil => exact .pure ⟨⟨f, h, .refl⟩, rfl, rfl, fun _ => ⟨rfl, rfl⟩⟩
  | cons p params ih =>
    rw [enterTypeParams, Dispatch.typeParams]
    have henter (id : TypeId) : Silent (do
        modify fun c => { c with typeVars := Assoc.insert p.name.val id c.typeVars }
        return id :: (← enterTypeParams params)) :=
      (Silent.same fun _ => ⟨rfl, rfl⟩).bind fun _ => (Silent.enterTypeParams params).bind fun _ => .pure _
    refine (resolveOption_mirrors h p.constraint).bind (fun _ => (Silent.modifyTypes _).bind henter)
      fun c' t' constraint' constraint hmeant => ?_
    obtain ⟨g, ha, hi, -⟩ := hmeant
    obtain ⟨k, hentered, hretains⟩ := enter_mirrors (ha.mirrors h) hi p.name.val
    refine .left (.right rfl (.left ?_))
    refine (ih hentered).answers fun c'' t'' _ vars' he => ?_
    obtain ⟨l, hm, hretains'⟩ := he.mirrors
    exact ⟨⟨l, hm, ha.retains.trans (hretains.trans hretains')⟩, by rw [he.checker, ha.checker],
      by rw [he.session, ha.session], fun hnil => absurd hnil (List.cons_ne_nil _ _)⟩

end Check

/-! ## Names that are given -/

/-- In the root, a definition there is seen under its own name only. -/
theorem ScopeTree.get?_root_define {α : Type} {t : ScopeTree α} (h : ScopeTree.root < t.frames.size)
    (name other : String) (value : α) :
    (t.define ScopeTree.root name value).get? ScopeTree.root other =
      if other = name then some value else t.get? ScopeTree.root other := by
  rw [get?_root, get?_root, lookup_frame_define h]
  simp only [true_and]

/-- Binding a name does not change what other names mean. -/
theorem Check.lookup_defineIn_of_ne {name other : String} (h : other ≠ name) (type : TypeId)
    (scopes : List (List (String × TypeId))) :
    (defineIn name type scopes).findSome? (·.lookup other) = scopes.findSome? (·.lookup other) := by
  cases scopes with
  | nil => rfl
  | cons scope scopes => rw [defineIn, List.findSome?_cons, List.findSome?_cons, Assoc.lookup_insert_of_ne h]

def TypeDecl.variantNames (decl : TypeDecl) : List String :=
  match decl.body with
  | .variants alternatives => alternatives.map (·.name.val)
  | _ => []

/-- The alternatives of a declaration have names of alternatives, and the type has a name of its own. -/
structure ValueNames.Admits (names : ValueNames) (decl : TypeDecl) : Prop where
  own : ¬names.Has decl.name.val
  variants : ∀ name ∈ decl.variantNames, names.variants name

namespace Checker.Mirrors

/-- Both may give a name to types that are images of each other. -/
theorem typeDefined (h : c.Mirrors names f t vars) {name : String} (hname : ¬names.Has name) {id id' : TypeId}
    (hi : Image f t.arena c.arena id id') (hparts : (c.arena.get id').kind.parts = []) (shown : String) :
    Checker.Mirrors names f { t with scopes := t.scopes.define ScopeTree.root name (.typeRef id shown) } vars
      { c with types := Assoc.insert name id' c.types } := by
  have hget (other : String) := ScopeTree.get?_root_define h.rooted name other (.typeRef id shown)
  have hsound := (Check.Keeps.defineType name hi.lt' hparts h.sound).1
  refine { h with
    known := hsound.known
    rooted := Nat.lt_of_lt_of_eq h.rooted (ScopeTree.size_define ..).symm
    types := fun {other x} hx => ?_
    partless := hsound.declared
    apart := fun {other} hother => ?_
    bound := fun {other _} hother hf => ?_ }
  · dsimp only at hx
    rw [Session.knownTypes, hget]
    by_cases heq : other = name
    · rw [heq, Assoc.lookup_insert_self] at hx
      rw [if_pos heq, ← Option.some.inj hx]
      exact ⟨id, rfl, hi⟩
    · rw [Assoc.lookup_insert_of_ne heq] at hx
      rw [if_neg heq]
      exact h.types hx
  · have hne : other ≠ name := fun heq => hname (heq ▸ hother)
    rw [Assoc.lookup_insert_of_ne hne]
    exact h.apart hother
  · have hne : other ≠ name := fun heq => hname (.inl (heq ▸ hother))
    rw [hget, if_neg hne]
    exact h.bound hother hf

/-- A session may bind the name of an alternative. -/
theorem variantBound (h : c.Mirrors names f t vars) {name : String} (hname : names.variants name) (value : Value) :
    c.Mirrors names f { t with scopes := t.scopes.define ScopeTree.root name value } vars := by
  have hget (other : String) := ScopeTree.get?_root_define h.rooted name other value
  refine { h with
    rooted := Nat.lt_of_lt_of_eq h.rooted (ScopeTree.size_define ..).symm
    types := fun {other x} hx => ?_
    bound := fun {other _} hother hf => ?_ }
  · have hne : other ≠ name := by
      rintro rfl
      rw [h.apart (.inr hname)] at hx
      cases hx
    rw [Session.knownTypes, hget, if_neg hne]
    exact h.types hx
  · have hne : other ≠ name := fun heq => names.distinct hother (heq ▸ hname)
    rw [hget, if_neg hne]
    exact h.bound hother hf

theorem variantKnown (h : c.Mirrors names f t vars) {name : String} (hname : names.variants name) {type : TypeId}
    (htype : type < c.arena.size) {fields : FieldTypes} (hfields : ∀ field ∈ fields, field.2 < c.arena.size)
    (ids : List TypeId) :
    ∃ g, (Check.declareVariant ids type name fields c).2.Mirrors names g t vars ∧
      Retains f t.arena c.arena g t.arena (Check.declareVariant ids type name fields c).2.arena ∧
      c.arena.Extends (Check.declareVariant ids type name fields c).2.arena := by
  have hne {other : String} (hother : names.functions other) : other ≠ name := fun heq =>
    names.distinct hother (heq ▸ hname)
  have hknown := (Check.Keeps.declareVariant ids htype name hfields h.sound).1.known
  rw [Check.declareVariant] at hknown ⊢
  split at hknown
  · next hempty =>
    rw [if_pos hempty]
    refine ⟨f, { h with known := hknown, unbound := fun {other} hother => ?_ }, .refl, .refl _⟩
    exact (Check.lookup_defineIn_of_ne (hne hother) type c.scopes).trans (h.unbound hother)
  · next hempty =>
    rw [if_neg hempty]
    have hext := (function_interns c.arena (fields.map Prod.snd) type).extension
    obtain ⟨g, hreflects, hretains, -⟩ := h.reflects.grown hext
      (.function _ _ h.reflects.regular' (List.forall_mem_map.mpr hfields) htype)
    have hm := h.moved hreflects hretains hext.size_le
      (fun id hid => hext.hasVars_eq h.reflects.regular'.indexed.toOrdered hid) hext.parts_eq_nil
    refine ⟨g, { hm with known := hknown, functions := fun {other} hother => ?_ }, hretains, hext⟩
    have hsame := hm.functions hother
    change SameFunction _ _ _ _ ((Assoc.insert name _ c.functions).lookup other)
    rwa [Assoc.lookup_insert_of_ne (hne hother)]

/-- Outside of a declaration its type variables mean nothing. -/
theorem outside (h : c.Mirrors names f t vars) : Checker.Mirrors names f t [] { c with typeVars := [] } := by
  have hk := h.known
  exact { h with known := ⟨hk.scopes, hk.types, hk.functions, hk.variants, List.forall_mem_nil _⟩,
                 vars := fun _ => .inl ⟨rfl, rfl⟩ }

theorem typeVars_eq_nil (h : c.Mirrors names f t []) : c.typeVars = [] := by
  cases hvars : c.typeVars with
  | nil => rfl
  | cons var rest =>
    rcases h.vars var.1 with ⟨-, hnone⟩ | ⟨v, v', hv, -⟩
    · rw [hvars, List.lookup_cons, beq_self_eq_true] at hnone
      cases hnone
    · cases hv

end Checker.Mirrors

namespace Check

/-! ## Alternatives -/

def SameAlternatives (f : TypeId → TypeId) (A B : TypeArena) (alternatives alternatives' : List (String × FieldTypes)) :
    Prop :=
  List.Forall₂ (fun v v' => v.1 = v'.1 ∧ SameFields f A B v.2 v'.2) alternatives alternatives'

theorem SameAlternatives.map_eq {alternatives alternatives' : List (String × FieldTypes)}
    (h : SameAlternatives f A B alternatives alternatives') :
    alternatives.map (fun v => (v.1, v.2.map fun p => (p.1, f p.2))) = alternatives' := by
  induction h with
  | nil => rfl
  | cons hv _ ih => rw [List.map_cons, ih, hv.1, hv.2.map_eq]

theorem SameFields.lt {fields fields' : FieldTypes} (h : SameFields f A B fields fields') :
    (∀ p ∈ fields, p.2 < A.size) ∧ ∀ p ∈ fields', p.2 < B.size :=
  ⟨List.forall_mem_map.mp (Image.all_lt h.types).1, List.forall_mem_map.mp (Image.all_lt h.types).2⟩

theorem SameAlternatives.lt {alternatives alternatives' : List (String × FieldTypes)}
    (h : SameAlternatives f A B alternatives alternatives') :
    (∀ v ∈ alternatives, ∀ p ∈ v.2, p.2 < A.size) ∧ ∀ v ∈ alternatives', ∀ p ∈ v.2, p.2 < B.size :=
  ⟨((List.forall₂_and_left alternatives alternatives').mp (h.imp fun _ _ hv => ⟨hv.2.lt.1, hv⟩)).1,
    ((List.forall₂_and_left alternatives' alternatives).mp (h.flip.imp fun _ _ hv => ⟨hv.2.lt.2, hv⟩)).1⟩

/-- Alternatives have been made known, and types have only been added. -/
structure VariantsKnown (names : ValueNames) (f : TypeId → TypeId) (vars : Bindings) (c : Checker) (t : Session)
    (c' : Checker) (t' : Session) (alternatives' alternatives : List (String × FieldTypes)) : Prop where
  extension : t.arena.Extends t'.arena
  extension' : c.arena.Extends c'.arena
  mirrors : ∃ g, c'.Mirrors names g t' vars ∧ Retains f t.arena c.arena g t'.arena c'.arena ∧
    SameAlternatives g t'.arena c'.arena alternatives alternatives'

/-- What the name of an alternative is bound to depends on nothing but the next identity, and only this changes. -/
theorem variantValue_run (type : TypeId) (typeName name : String) (fields : FieldTypes) (t : Session) :
    ∃ value n, Dispatch.variantValue type typeName name fields t = .ok value { t with nextId := n } := by
  rw [Dispatch.variantValue]
  split
  · exact ⟨_, t.nextId, rfl⟩
  · exact ⟨_, t.nextId + 1, rfl⟩

/-- Alternatives in which the checker finds nothing wrong are made known to both. -/
theorem declareVariants_mirrors (h : c.Mirrors names f t vars) (ids : List TypeId) {type' : TypeId}
    (htype : type' < c.arena.size) (type : TypeId) (typeName : String) {alternatives : List VariantDecl}
    (hnames : ∀ v ∈ alternatives, names.variants v.name.val) :
    Tracks c t (declareVariants ids type' alternatives)
      (Dispatch.declareVariants vars ScopeTree.root type typeName alternatives) (VariantsKnown names f vars c t) := by
  induction alternatives generalizing f c t with
  | nil => exact .pure ⟨.refl _, .refl _, f, h, .refl, .nil⟩
  | cons v alternatives ih =>
    obtain ⟨hname, hnames⟩ := List.forall_mem_cons.mp hnames
    rw [declareVariants, Dispatch.declareVariants]
    refine (resolveFields_mirrors h v.fields).bind (fun _ => (Silent.declareVariant _ _ _ _).bind fun _ =>
      (Silent.declareVariants _ _ _).bind fun _ => .pure _) fun c₁ t₁ fields' fields hfound => ?_
    obtain ⟨g, ha, hfields⟩ := hfound
    have htype₁ := ha.extension'.lt htype
    obtain ⟨value, n, hvalue⟩ := variantValue_run type typeName v.name.val fields t₁
    obtain ⟨k, hknown, hretains, hext⟩ := (ha.mirrors h).variantKnown hname htype₁ hfields.lt.2 ids
    have hbound := hknown.variantBound hname value
    have hfresh : Checker.Mirrors names k
        { t₁ with nextId := n, scopes := t₁.scopes.define ScopeTree.root v.name.val value } vars
        (declareVariant ids type' v.name.val fields' c₁).2 := { hbound with }
    refine .left (.right hvalue (.right rfl ?_))
    refine (ih hfresh (hext.lt htype₁) hnames).bind (fun _ => .pure _) fun c₂ t₂ rest' rest hrest => .pure ?_
    obtain ⟨l, hm, hretains', hsame⟩ := hrest.mirrors
    exact ⟨ha.extension.trans hrest.extension, ha.extension'.trans (hext.trans hrest.extension'), l, hm,
      ha.retains.trans (hretains.trans hretains'), .cons ⟨rfl, (hfields.retained hretains).retained hretains'⟩ hsame⟩

/-! ## Types -/

def AddedBoth (names : ValueNames) (vars : Bindings) (c' : Checker) (t' : Session) (id' id : TypeId) : Prop :=
  ∃ g, c'.Mirrors names g t' vars ∧ Image g t'.arena c'.arena id id' ∧ (c'.arena.get id').kind.parts = []

section

variable {parent parent' : TypeId} {kind : TypeKind}

/-- Both may add a type without fields or alternatives. -/
theorem add_mirrors (h : c.Mirrors names f t vars) (hk : kind.ids = []) (hp : Image f t.arena c.arena parent parent')
    (name : String) :
    let added := (t.arena.add ⟨name, kind, some parent⟩).2
    let added' := (c.arena.add ⟨name, kind, some parent'⟩).2
    ∃ g, Checker.Mirrors names g { t with arena := added } vars { c with arena := added' } ∧
      Image g added added' t.arena.size c.arena.size ∧ (added'.get c.arena.size).kind.parts = [] := by
  intro added added'
  obtain ⟨g, hreflects, hretains, himage⟩ := h.reflects.add name hk hp
  have hext : c.arena.Extends added' := .push rfl fun k => by cases k <;> rfl
  have hget : added'.get c.arena.size = ⟨name, kind, some parent'⟩ := get_of_push_self rfl
  refine ⟨g, h.moved hreflects hretains hext.size_le
    (fun id hid => hext.hasVars_eq h.reflects.regular'.indexed.toOrdered hid) hext.parts_eq_nil, himage, ?_⟩
  rw [hget]
  exact (List.append_eq_nil_iff.mp hk).1

/-- Both may fill in the fields or alternatives of the type that they have added and named. -/
theorem fill_mirrors {name : String} {filled filled' : TypeKind}
    (hm : c'.Mirrors names f t' vars) (hext : (A.add ⟨name, kind, some parent⟩).2.Extends t'.arena)
    (hext' : (B.add ⟨name, kind, some parent'⟩).2.Extends c'.arena) (hi : Image f t'.arena c'.arena A.size B.size)
    (hd : TypeDef.Refills ⟨name, kind, some parent⟩ ⟨name, filled, some parent⟩)
    (hd' : TypeDef.Refills ⟨name, kind, some parent'⟩ ⟨name, filled', some parent'⟩)
    (hlt : ∀ x ∈ filled.members, x < t'.arena.size) (hlt' : ∀ x ∈ filled'.members, x < c'.arena.size)
    (hkind : filled' = filled.map f) :
    AddedBoth names vars { c' with arena := c'.arena.redefine B.size ⟨name, filled', some parent'⟩ }
      { t' with arena := t'.arena.redefine A.size ⟨name, filled, some parent⟩ } B.size A.size := by
  obtain ⟨-, hrefills, -⟩ := filled_regular hext hm.reflects.regular hd hlt
  obtain ⟨-, hrefills', -⟩ := filled_regular hext' hm.reflects.regular' hd' hlt'
  obtain ⟨hreflects, hretains⟩ := hm.reflects.redefine hi hrefills hrefills' hlt hlt' hkind
  have hvars (id : TypeId) : (c'.arena.redefine B.size ⟨name, filled', some parent'⟩).hasVars id = c'.arena.hasVars id :=
    hasVars_redefine hi.lt' hrefills'
  have hparts := parts_redefine hi.lt' hrefills'
  exact ⟨f, hm.moved hreflects hretains (Nat.le_of_eq size_redefine.symm) (fun id _ => hvars id) fun id _ => hparts id,
    hretains.image hi, hparts _ hrefills'.parts_eq.1⟩

theorem addDeclared_mirrors {decl : TypeDecl} (h : c.Mirrors names f t vars) (hnames : names.Admits decl)
    (hp : Image f t.arena c.arena parent parent') (ids : List TypeId) :
    Tracks c t (addDeclared decl ids parent') (Dispatch.addDeclared decl ScopeTree.root vars parent)
      (AddedBoth names vars) := by
  have hsimple {kind : TypeKind} (hk : kind.ids = []) :
      Tracks c t (modifyTypes (·.add ⟨decl.name.val, kind, some parent'⟩))
        (Eval.modifyTypes (·.add ⟨decl.name.val, kind, some parent⟩)) (AddedBoth names vars) :=
    fun _ => ⟨_, _, rfl, add_mirrors h hk hp decl.name.val⟩
  rw [addDeclared, Dispatch.addDeclared]
  dsimp only
  obtain ⟨hown, hvariants⟩ := hnames
  rw [TypeDecl.variantNames] at hvariants
  cases hbody : decl.body with
  | abstract | concrete => exact hsimple rfl
  | struct fields =>
    refine .left (.right rfl (.left (.right rfl ?_)))
    obtain ⟨g, hm, himage, hparts⟩ := add_mirrors h
      (show (TypeKind.struct (decl.typeParams.map (·.name.val)) []).ids = [] from rfl) hp decl.name.val
    have hnamed := hm.typeDefined hown himage hparts decl.name.val
    refine (resolveFields_mirrors hnamed fields).bind (fun _ => .bind (.same fun _ => ⟨rfl, rfl⟩) fun _ => .pure _)
      fun c₁ t₁ fields' fields hfound => .left (.right rfl (.pure ?_))
    obtain ⟨k, ha, hfields⟩ := hfound
    refine fill_mirrors (ha.mirrors hnamed) ha.extension ha.extension' (ha.retains.image himage)
      (.struct _ _ _ [] fields) (.struct _ _ _ [] fields') (List.forall_mem_map.mpr hfields.lt.1)
      (List.forall_mem_map.mpr hfields.lt.2) ?_
    rw [TypeKind.map, hfields.map_eq]
  | variants alternatives =>
    rw [hbody] at hvariants
    refine .left (.right rfl (.left (.right rfl ?_)))
    obtain ⟨g, hm, himage, hparts⟩ := add_mirrors h
      (show (TypeKind.variants (decl.typeParams.map (·.name.val)) []).ids = [] from rfl) hp decl.name.val
    have hnamed := hm.typeDefined hown himage hparts decl.name.val
    refine (declareVariants_mirrors hnamed ids himage.lt' t.arena.size decl.name.val
      (List.forall_mem_map.mp hvariants)).bind (fun _ => .bind (.same fun _ => ⟨rfl, rfl⟩) fun _ => .pure _)
      fun c₁ t₁ found' found hfound => .left (.right rfl (.pure ?_))
    obtain ⟨k, hm₁, hretains, hsame⟩ := hfound.mirrors
    refine fill_mirrors hm₁ hfound.extension hfound.extension' (hretains.image himage) (.variants _ _ _ [] found)
      (.variants _ _ _ [] found') (List.forall_mem_flatMap.mpr fun v hv => List.forall_mem_map.mpr (hsame.lt.1 v hv))
      (List.forall_mem_flatMap.mpr fun v hv => List.forall_mem_map.mpr (hsame.lt.2 v hv)) ?_
    rw [TypeKind.map, hsame.map_eq]

end

/-- **A type declaration in which the checker finds nothing wrong is evaluated**, and what is known afterwards is the same
again. -/
theorem declareType_mirrors {decl : TypeDecl} (h : c.Mirrors names f t []) (hnames : names.Admits decl) :
    Tracks c t (declareType decl) (Dispatch.declareType decl ScopeTree.root) fun c' t' _ _ =>
      ∃ g, c'.Mirrors names g t' [] := by
  have hwithin : Tracks c t (withTypeVars (declareWithin decl)) (Dispatch.declareWithin decl ScopeTree.root)
      (AddedBoth names []) := by
    suffices hinner : Tracks c t (declareWithin decl) (Dispatch.declareWithin decl ScopeTree.root)
        fun c' t' id' id => ∃ vars, AddedBoth names vars c' t' id' id by
      intro hclean
      obtain ⟨id, t', hrun, vars, g, hm, himage, hparts⟩ := hinner hclean
      have houtside : Checker.Mirrors names g t' [] { (declareWithin decl c).2 with typeVars := c.typeVars } := by
        rw [h.typeVars_eq_nil]
        exact hm.outside
      exact ⟨id, t', hrun, g, houtside, himage, hparts⟩
    refine (enterTypeParams_mirrors h decl.typeParams).bind
      (fun _ => (Silent.resolveOption _).bind fun _ => Silent.addDeclared _ _ _) fun c₁ t₁ ids vars he => ?_
    obtain ⟨g, hm, -⟩ := he.mirrors
    refine (resolveOption_mirrors hm decl.parent).bind (fun _ => Silent.addDeclared _ _ _)
      fun c₂ t₂ parent' parent hmeant => ?_
    obtain ⟨k, ha, hp, -⟩ := hmeant
    exact (addDeclared_mirrors (ha.mirrors hm) hnames hp ids).mono fun _ _ _ _ hadded => ⟨vars, hadded⟩
  rw [declareType_eq, Dispatch.declareType_eq]
  refine hwithin.bind (fun _ => .same fun _ => ⟨rfl, rfl⟩) fun c' t' id' id hadded _ => ?_
  obtain ⟨g, hm, himage, hparts⟩ := hadded
  exact ⟨_, _, rfl, g, hm.typeDefined hnames.own himage hparts decl.name.val⟩

end Check

end DispatchLang
