import DispatchLang.Proofs.Arena.Written
import DispatchLang.Proofs.Eval.Invocation
import DispatchLang.Typing.Call
import DispatchLang.Typing.Declaration

/-!
# What the checker keeps

A checker hands types from one place to another: from its arena to scopes and tables, from there to signatures
and fields of new types, and from these back to the nodes it looks at. A checker is *sound* if its arena is regular
and every type that it knows of is a type of that arena. Whatever the checker does keeps it sound, and the arena
only grows. `Keeps` says so of one step, together with what is known of the answer.

What is known of an answer is a claim about the number of types: that the types in it are there.

As for sessions (`Blind.filled`), a type that may mention itself is added without its fields and redefined once
these are known. The checker in which it is redefined extends the arena from before the type was added, so what a
sound checker extends is named by `base`.

## Main results

* `Keeps.bind`: steps that keep a checker sound may be sequenced.
* `Keeps.declareType`: declaring a type keeps a checker sound.
* `Keeps.callType`, `Keeps.methodType`: so do calls.
-/

namespace DispatchLang

open TypeArena

/-! ## Sound checkers -/

/-- All types that a checker knows of are among the first `n`. -/
structure Checker.In (n : Nat) (c : Checker) : Prop where
  scopes : ∀ scope ∈ c.scopes, ∀ e ∈ scope, e.2 < n
  types : ∀ e ∈ c.types, e.2 < n
  functions : ∀ e ∈ c.functions, ∀ m ∈ e.2.methods, (∀ x ∈ m.signature, x < n) ∧ m.implementation < n
  variants : ∀ e ∈ c.variants, e.2.type < n ∧ ∀ field ∈ e.2.fields, field.2 < n
  typeVars : ∀ b ∈ c.typeVars, b.2 < n

theorem Checker.In.mono {n m : Nat} {c : Checker} (h : c.In n) (hle : n ≤ m) : c.In m where
  scopes scope hs e he := Nat.lt_of_lt_of_le (h.scopes scope hs e he) hle
  types e he := Nat.lt_of_lt_of_le (h.types e he) hle
  functions e he method hm :=
    ⟨fun x hx => Nat.lt_of_lt_of_le ((h.functions e he method hm).1 x hx) hle,
      Nat.lt_of_lt_of_le (h.functions e he method hm).2 hle⟩
  variants e he :=
    ⟨Nat.lt_of_lt_of_le (h.variants e he).1 hle, fun f hf => Nat.lt_of_lt_of_le ((h.variants e he).2 f hf) hle⟩
  typeVars b hb := Nat.lt_of_lt_of_le (h.typeVars b hb) hle

/-- The arena of a checker is regular and extends a given one, all types that the checker knows of are there, and those
that were declared are made of no others. -/
structure Checker.Sound (base : TypeArena) (c : Checker) : Prop where
  regular : c.arena.Regular
  extension : base.Extends c.arena
  known : c.In c.arena.size
  declared : ∀ e ∈ c.types, (c.arena.get e.2).kind.parts = []

namespace Checker.Sound

variable {base : TypeArena} {c : Checker}

theorem builtin (h : c.Sound base) : builtinTypes.length ≤ c.arena.size := h.regular.indexed.builtin

theorem self (h : c.Sound base) : c.Sound c.arena := ⟨h.regular, .refl _, h.known, h.declared⟩

theorem rebase (h : c.Sound base) {earlier : TypeArena} (he : earlier.Extends base) : c.Sound earlier :=
  ⟨h.regular, he.trans h.extension, h.known, h.declared⟩

/-- The arena may be replaced by a regular one that has at least as many types, if what was made of no types still is. -/
theorem withArena (h : c.Sound base) {arena : TypeArena} (hr : arena.Regular) (he : base.Extends arena)
    (hn : c.arena.size ≤ arena.size)
    (hp : ∀ id < c.arena.size, (c.arena.get id).kind.parts = [] → (arena.get id).kind.parts = []) :
    ({ c with arena } : Checker).Sound base where
  regular := hr
  extension := he
  known :=
    have hknown := h.known.mono hn
    ⟨hknown.scopes, hknown.types, hknown.functions, hknown.variants, hknown.typeVars⟩
  declared e he := hp e.2 (h.known.types e he) (h.declared e he)

end Checker.Sound

namespace Check

/-! ## Claims about answers -/

/-- A type is among the first `n`. -/
def typeBelow (n : Nat) (id : TypeId) : Prop := id < n

/-- Some types are among the first `n`. -/
def typesBelow (n : Nat) (ids : List TypeId) : Prop := ∀ id ∈ ids, id < n

/-- The types that names stand for are among the first `n`. -/
def namedBelow (n : Nat) (fields : List (String × TypeId)) : Prop := ∀ field ∈ fields, field.2 < n

/-- The types of nodes are among the first `n`. -/
def placedBelow (n : Nat) (types : List (TypeId × Span)) : Prop := ∀ type ∈ types, type.1 < n

/-- A type is among the first `n`, if there is one. -/
def foundBelow (n : Nat) (found : Option TypeId) : Prop := ∀ id, found = some id → id < n

/-- Nothing is said of an answer. -/
def anyAnswer {α : Type} (_ : Nat) (_ : α) : Prop := True

theorem typesBelow.mono {n m : Nat} {ids : List TypeId} (h : typesBelow n ids) (hle : n ≤ m) : typesBelow m ids :=
  fun id hid => Nat.lt_of_lt_of_le (h id hid) hle

theorem namedBelow.mono {n m : Nat} {fields : List (String × TypeId)} (h : namedBelow n fields) (hle : n ≤ m) :
    namedBelow m fields := fun f hf => Nat.lt_of_lt_of_le (h f hf) hle

theorem placedBelow.mono {n m : Nat} {types : List (TypeId × Span)} (h : placedBelow n types) (hle : n ≤ m) :
    placedBelow m types := fun t ht => Nat.lt_of_lt_of_le (h t ht) hle

theorem placedBelow.types {n : Nat} {types : List (TypeId × Span)} (h : placedBelow n types) :
    typesBelow n (types.map Prod.fst) := List.forall_mem_map.mpr h

/-! ## Steps of the checker -/

variable {α β : Type}

/-- A step leaves a sound checker sound, the arena of which has not shrunk, and what it answers is as claimed. -/
def Keeps (base : TypeArena) (c : Checker) (x : Check α) (P : Nat → α → Prop) : Prop :=
  c.Sound base → (x c).2.Sound base ∧ c.arena.size ≤ (x c).2.arena.size ∧ P (x c).2.arena.size (x c).1

namespace Keeps

variable {base : TypeArena} {c : Checker} {P : Nat → α → Prop} {Q : Nat → β → Prop}

theorem ofSound {x : Check α} (h : c.Sound base → Keeps base c x P) : Keeps base c x P := fun hs => h hs hs

theorem pure {a : α} (h : P c.arena.size a) : Keeps base c (Pure.pure a) P := fun hs => ⟨hs, Nat.le_refl _, h⟩

/-- Steps may be sequenced. -/
theorem bind {x : Check α} {f : α → Check β} (h : Keeps base c x P)
    (hf : ∀ a c', c.arena.size ≤ c'.arena.size → P c'.arena.size a → Keeps base c' (f a) Q) :
    Keeps base c (x >>= f) Q := by
  intro hs
  obtain ⟨hs', hn, hp⟩ := h hs
  obtain ⟨hs'', hn', hq⟩ := hf _ _ hn hp hs'
  exact ⟨hs'', Nat.le_trans hn hn', hq⟩

theorem mono {x : Check α} {P' : Nat → α → Prop} (h : Keeps base c x P) (hp : ∀ n a, P n a → P' n a) :
    Keeps base c x P' := by
  intro hs
  obtain ⟨hs', hn, hanswer⟩ := h hs
  exact ⟨hs', hn, hp _ _ hanswer⟩

theorem get {f : Checker → Check α} (h : Keeps base c (f c) P) : Keeps base c (MonadState.get >>= f) P := h

theorem read (f : Checker → α) (h : c.Sound base → P c.arena.size (f c)) :
    Keeps base c (do return f (← MonadState.get)) P := ofSound fun hs => get (pure (h hs))

/-- A step may change what is known, as long as the types are there and none is declared. -/
theorem update {f : Checker → Checker} (harena : (f c).arena = c.arena) (htypes : (f c).types = c.types)
    (h : c.In c.arena.size → (f c).In c.arena.size) : Keeps base c (modify f) anyAnswer := by
  intro hs
  change (f c).Sound base ∧ c.arena.size ≤ (f c).arena.size ∧ True
  rw [harena]
  refine ⟨⟨?_, ?_, ?_, ?_⟩, Nat.le_refl _, trivial⟩
  all_goals rw [harena]
  · exact hs.regular
  · exact hs.extension
  · exact h hs.known
  · rw [htypes]
    exact hs.declared

/-- A step may do something to the types. -/
theorem modifyTypes {f : TypeArena → α × TypeArena} (hr : c.arena.Regular → (f c.arena).2.Regular)
    (he : c.arena.Extends (f c.arena).2) (hp : P (f c.arena).2.size (f c.arena).1) :
    Keeps base c (Check.modifyTypes f) P := fun hs =>
  ⟨hs.withArena (hr hs.regular) (hs.extension.trans he) he.size_le he.parts_eq_nil, he.size_le, hp⟩

/-! ### What was found -/

theorem report (cause : FindingCause) (span : Span) : Keeps base c (Check.report cause span) anyAnswer :=
  update rfl rfl fun h => ⟨h.scopes, h.types, h.functions, h.variants, h.typeVars⟩

theorem record (span : Span) (type : TypeId) : Keeps base c (Check.record span type) anyAnswer :=
  update rfl rfl fun h => ⟨h.scopes, h.types, h.functions, h.variants, h.typeVars⟩

/-- Something is reported, and the type above all others is taken instead. -/
theorem reportAny (cause : FindingCause) (span : Span) :
    Keeps base c (do Check.report cause span; return .any) typeBelow :=
  ofSound fun hs => (report cause span).bind fun _ _ hn _ =>
    pure (Nat.lt_of_lt_of_le (by decide) (Nat.le_trans hs.builtin hn))

/-! ### Names -/

theorem lookup (name : String) : Keeps base c (Check.lookup name) foundBelow :=
  read (fun c => c.scopes.findSome? (·.lookup name)) fun hs id hid => by
    obtain ⟨scope, hscope, hfound⟩ := List.exists_of_findSome?_eq_some hid
    exact hs.known.scopes scope hscope _ (Assoc.mem_of_lookup hfound)

theorem lookupType (name : String) : Keeps base c (Check.lookupType name) foundBelow :=
  read (fun c => c.types.lookup name) fun hs _ hid => hs.known.types _ (Assoc.mem_of_lookup hid)

theorem headType (name : String) : Keeps base c (Check.headType name) foundBelow := by
  refine ofSound fun hs => get ?_
  cases hl : c.typeVars.lookup name with
  | some id => exact pure fun x hx => Option.some.inj hx ▸ hs.known.typeVars _ (Assoc.mem_of_lookup hl)
  | none => exact lookupType name

theorem lookupFunction (name : String) : Keeps base c (Check.lookupFunction name)
    fun n found => ∀ f, found = some f → ∀ m ∈ f.methods, typesBelow n m.signature ∧ m.implementation < n :=
  read (fun c => c.functions.lookup name) fun hs _ hf => hs.known.functions _ (Assoc.mem_of_lookup hf)

theorem lookupVariant (name : String) : Keeps base c (Check.lookupVariant name)
    fun n found => ∀ v, found = some v → v.type < n ∧ namedBelow n v.fields :=
  read (fun c => c.variants.lookup name) fun hs _ hv => hs.known.variants _ (Assoc.mem_of_lookup hv)

theorem defineIn_below {n : Nat} {name : String} {type : TypeId} (ht : type < n)
    {scopes : List (List (String × TypeId))} (h : ∀ scope ∈ scopes, namedBelow n scope) :
    ∀ scope ∈ defineIn name type scopes, namedBelow n scope := by
  cases scopes with
  | nil => exact h
  | cons scope scopes =>
    obtain ⟨hscope, hscopes⟩ := List.forall_mem_cons.mp h
    exact List.forall_mem_cons.mpr ⟨ScopeTree.forall_mem_insert (q := (· < n)) ht hscope, hscopes⟩

theorem rebindIn?_below {n : Nat} {name : String} {type : TypeId} (ht : type < n)
    {scopes scopes' : List (List (String × TypeId))} (h : ∀ scope ∈ scopes, namedBelow n scope)
    (hr : rebindIn? name type scopes = some scopes') : ∀ scope ∈ scopes', namedBelow n scope := by
  induction scopes generalizing scopes' with
  | nil => cases hr
  | cons scope scopes ih =>
    obtain ⟨hscope, hscopes⟩ := List.forall_mem_cons.mp h
    rw [rebindIn?] at hr
    split at hr
    · cases hr
      exact List.forall_mem_cons.mpr ⟨ScopeTree.forall_mem_insert (q := (· < n)) ht hscope, hscopes⟩
    · obtain ⟨rest, hrest, rfl⟩ := Option.map_eq_some_iff.mp hr
      exact List.forall_mem_cons.mpr ⟨hscope, ih hscopes hrest⟩

theorem define (name : String) {type : TypeId} (ht : type < c.arena.size) :
    Keeps base c (Check.define name type) anyAnswer :=
  update rfl rfl fun h => ⟨defineIn_below ht h.scopes, h.types, h.functions, h.variants, h.typeVars⟩

theorem assign (name : String) {type : TypeId} (ht : type < c.arena.size) :
    Keeps base c (Check.assign name type) anyAnswer := by
  refine update rfl rfl fun h => ⟨?_, h.types, h.functions, h.variants, h.typeVars⟩
  dsimp only
  cases hr : rebindIn? name type c.scopes with
  | none => exact defineIn_below ht h.scopes
  | some scopes => exact rebindIn?_below ht h.scopes hr

/-- A type that is made of no others may be declared. -/
theorem defineType (name : String) {type : TypeId} (ht : type < c.arena.size)
    (hp : (c.arena.get type).kind.parts = []) : Keeps base c (Check.defineType name type) anyAnswer := fun hs =>
  ⟨⟨hs.regular, hs.extension, ⟨hs.known.scopes, ScopeTree.forall_mem_insert (q := (· < c.arena.size)) ht hs.known.types,
      hs.known.functions, hs.known.variants, hs.known.typeVars⟩,
    ScopeTree.forall_mem_insert (q := fun id => (c.arena.get id).kind.parts = []) hp hs.declared⟩, Nat.le_refl _, trivial⟩

theorem defineVariant (name : String) {variant : VariantInfo} (ht : variant.type < c.arena.size)
    (hf : namedBelow c.arena.size variant.fields) : Keeps base c (Check.defineVariant name variant) anyAnswer :=
  update rfl rfl fun h => ⟨h.scopes, h.types, h.functions,
    ScopeTree.forall_mem_insert
      (q := fun v : VariantInfo => v.type < c.arena.size ∧ ∀ field ∈ v.fields, field.2 < c.arena.size) ⟨ht, hf⟩ h.variants,
    h.typeVars⟩

theorem addMethod (name : String) {m : Method TypeId} (hs : typesBelow c.arena.size m.signature)
    (hi : m.implementation < c.arena.size) : Keeps base c (Check.addMethod name m) anyAnswer := by
  refine update rfl rfl fun h => ⟨h.scopes, h.types, ?_, h.variants, h.typeVars⟩
  refine ScopeTree.forall_mem_insert (q := fun f : GenericFunction TypeId => ∀ m ∈ f.methods,
    (∀ x ∈ m.signature, x < c.arena.size) ∧ m.implementation < c.arena.size)
    (GenericFunction.forall_mem_insertMethod ⟨hs, hi⟩ ?_) h.functions
  cases hl : c.functions.lookup name with
  | none => exact nofun
  | some f => exact h.functions _ (Assoc.mem_of_lookup hl)

/-- What is done in a new scope leaves the others as they are. -/
theorem inScope {x : Check α} (h : Keeps base { c with scopes := [] :: c.scopes } x P) :
    Keeps base c (Check.inScope x) P := by
  intro hs
  have hk := hs.known
  obtain ⟨hs', hn, hp⟩ := h ⟨hs.regular, hs.extension,
    ⟨List.forall_mem_cons.mpr ⟨nofun, hk.scopes⟩, hk.types, hk.functions, hk.variants, hk.typeVars⟩, hs.declared⟩
  have hk' := hs'.known
  exact ⟨⟨hs'.regular, hs'.extension, ⟨fun scope hmem => hk'.scopes scope (List.mem_of_mem_tail hmem), hk'.types,
    hk'.functions, hk'.variants, hk'.typeVars⟩, hs'.declared⟩, hn, hp⟩

/-- The type variables that were there before are still types of the arena. -/
theorem withTypeVars {x : Check α} (h : Keeps base c x P) : Keeps base c (Check.withTypeVars x) P := by
  intro hs
  obtain ⟨hs', hn, hp⟩ := h hs
  have hk' := hs'.known
  exact ⟨⟨hs'.regular, hs'.extension, ⟨hk'.scopes, hk'.types, hk'.functions, hk'.variants,
    (hs.known.mono hn).typeVars⟩, hs'.declared⟩, hn, hp⟩

/-! ### Types that are made of others -/

theorem applied {id : TypeId} {args : List TypeId} (hid : id < c.arena.size) (ha : typesBelow c.arena.size args) :
    Keeps base c (Check.modifyTypes (·.applied id args)) typeBelow := by
  refine ofSound fun hs => modifyTypes (.applied id args · hid ha) (applied_interns _ id args).extension ?_
  exact (Regular.applied id args hs.regular hid ha).indexed.index (applied_interns _ id args).interned?_eq |>.1

theorem arrayOf {id : TypeId} (hid : id < c.arena.size) :
    Keeps base c (Check.modifyTypes (·.arrayOf id)) typeBelow :=
  ofSound fun hs => applied (Nat.lt_of_lt_of_le (by decide) hs.builtin) (List.forall_mem_singleton.mpr hid)

theorem function {params : List TypeId} {result : TypeId} (hp : typesBelow c.arena.size params)
    (hr : result < c.arena.size) : Keeps base c (Check.modifyTypes (·.function params result)) typeBelow := by
  refine ofSound fun hs => modifyTypes (.function params result · hp hr)
    (function_interns _ params result).extension ?_
  exact (Regular.function params result hs.regular hp hr).indexed.index
    (function_interns _ params result).interned?_eq |>.1

theorem var (name : String) {constraint : TypeId} (hc : constraint < c.arena.size) :
    Keeps base c (Check.modifyTypes (·.var name constraint)) typeBelow :=
  ofSound fun hs => modifyTypes (.var name constraint · hc) (.var _ name constraint)
    (hs.regular.varIndexed.var name constraint).2.1

/-! ### Written types -/

mutual

theorem resolveType {c : Checker} (type : TypeExpr) : Keeps base c (Check.resolveType type) typeBelow := by
  cases type with
  | named span name =>
    rw [Check.resolveType]
    refine (headType name).bind fun found c' _ hfound => ?_
    cases found with
    | some id => exact pure (hfound id rfl)
    | none => exact reportAny _ _
  | applied span name args =>
    rw [Check.resolveType]
    refine (headType name).bind fun found c' _ hfound => ?_
    cases found with
    | some id =>
      exact (resolveTypes args).bind fun ids c'' hn hids => applied (Nat.lt_of_lt_of_le (hfound id rfl) hn) hids
    | none => exact reportAny _ _

theorem resolveTypes {c : Checker} (types : List TypeExpr) :
    Keeps base c (Check.resolveTypes types) typesBelow := by
  cases types with
  | nil => exact pure nofun
  | cons type types =>
    rw [Check.resolveTypes]
    exact (resolveType type).bind fun id c' _ hid => (resolveTypes types).bind fun ids c'' hn hids =>
      pure (List.forall_mem_cons.mpr ⟨Nat.lt_of_lt_of_le hid hn, hids⟩)

end

theorem anyType : Keeps base c (Pure.pure .any) typeBelow :=
  ofSound fun hs => pure (Nat.lt_of_lt_of_le (by decide) hs.builtin)

theorem resolveOption (type : Option TypeExpr) : Keeps base c (Check.resolveOption type) typeBelow := by
  cases type with
  | none => exact anyType
  | some type => exact resolveType type

theorem resolveFields (fields : List FieldDecl) : Keeps base c (Check.resolveFields fields) namedBelow := by
  induction fields generalizing c with
  | nil => exact pure nofun
  | cons f fields ih =>
    exact (resolveType f.type).bind fun id c' _ hid => ih.bind fun rest c'' hn hrest =>
      pure (List.forall_mem_cons.mpr ⟨Nat.lt_of_lt_of_le hid hn, hrest⟩)

theorem resolveParams (params : List Param) : Keeps base c (Check.resolveParams params) typesBelow := by
  induction params generalizing c with
  | nil => exact pure nofun
  | cons p params ih =>
    exact (resolveOption p.annotation).bind fun id c' _ hid => ih.bind fun rest c'' hn hrest =>
      pure (List.forall_mem_cons.mpr ⟨Nat.lt_of_lt_of_le hid hn, hrest⟩)

theorem defineParams (params : List Param) : Keeps base c (Check.defineParams params) typesBelow := by
  induction params generalizing c with
  | nil => exact pure nofun
  | cons p params ih =>
    exact (resolveOption p.annotation).bind fun id c' _ hid => (define p.name.val hid).bind fun _ c'' hn _ =>
      ih.bind fun rest _ hn' hrest =>
        pure (List.forall_mem_cons.mpr ⟨Nat.lt_of_lt_of_le hid (Nat.le_trans hn hn'), hrest⟩)

theorem enterTypeParams (params : List TypeParam) : Keeps base c (Check.enterTypeParams params) typesBelow := by
  induction params generalizing c with
  | nil => exact pure nofun
  | cons p params ih =>
    refine (resolveOption p.constraint).bind fun _ c' _ hc => (var p.name.val hc).bind fun id c'' _ hid => ?_
    have henter : Keeps base c''
        (modify fun c => { c with typeVars := Assoc.insert p.name.val id c.typeVars }) anyAnswer :=
      update rfl rfl fun h => ⟨h.scopes, h.types, h.functions, h.variants,
        ScopeTree.forall_mem_insert (q := (· < c''.arena.size)) hid h.typeVars⟩
    exact henter.bind fun _ _ hn _ => ih.bind fun rest _ hn' hrest =>
      pure (List.forall_mem_cons.mpr ⟨Nat.lt_of_lt_of_le hid (Nat.le_trans hn hn'), hrest⟩)

/-! ### Declarations of types -/

theorem declareVariant (vars : List TypeId) {type : TypeId} (ht : type < c.arena.size) (name : String)
    {fields : FieldTypes} (hf : namedBelow c.arena.size fields) :
    Keeps base c (Check.declareVariant vars type name fields) anyAnswer := by
  have hvariant {c' : Checker} (hn : c.arena.size ≤ c'.arena.size) :
      Keeps base c' (Check.defineVariant name ⟨type, fields⟩) anyAnswer :=
    defineVariant name (Nat.lt_of_lt_of_le ht hn) (hf.mono hn)
  rw [Check.declareVariant]
  split
  · exact (define name ht).bind fun _ _ hn _ => hvariant hn
  · have hsignature : typesBelow c.arena.size (fields.map Prod.snd) := List.forall_mem_map.mpr hf
    exact (function hsignature ht).bind fun _ _ hn hid => (addMethod name (m := ⟨vars, _, _⟩) (hsignature.mono hn)
      hid).bind fun _ _ hn' _ => hvariant (Nat.le_trans hn hn')

theorem declareVariants (vars : List TypeId) {type : TypeId} (ht : type < c.arena.size)
    (alternatives : List VariantDecl) : Keeps base c (Check.declareVariants vars type alternatives)
      fun n alternatives => ∀ a ∈ alternatives, namedBelow n a.2 := by
  induction alternatives generalizing c with
  | nil => exact pure nofun
  | cons v alternatives ih =>
    refine (resolveFields v.fields).bind fun fields c' hn hfields => ?_
    have ht' := Nat.lt_of_lt_of_le ht hn
    refine (declareVariant vars ht' v.name.val hfields).bind fun _ c'' hn' _ => ?_
    exact (ih (Nat.lt_of_lt_of_le ht' hn')).bind fun rest _ hn'' hrest =>
      pure (List.forall_mem_cons.mpr ⟨hfields.mono (Nat.le_trans hn' hn''), hrest⟩)

theorem add {name : String} {kind : TypeKind} (hkind : kind.ids = []) {parent : TypeId}
    (hparent : parent < c.arena.size) :
    Keeps base c (Check.modifyTypes (·.add ⟨name, kind, some parent⟩)) typeBelow := by
  refine modifyTypes (.add _ · (List.append_eq_nil_iff.mp hkind).1 ?_)
    (.push rfl fun k => by cases k <;> rfl) ?_
  · rw [TypeDef.ids, hkind]
    exact List.forall_mem_singleton.mpr hparent
  · exact Nat.lt_of_lt_of_eq (Nat.lt_succ_self _) (size_of_push rfl).symm

/-- A type is added and its name is bound. -/
theorem addNamed {name : String} {kind : TypeKind} (hkind : kind.ids = []) {parent : TypeId}
    (hparent : parent < c.arena.size) :
    Keeps base c (Check.modifyTypes (·.add ⟨name, kind, some parent⟩) >>= Check.defineType name) anyAnswer := by
  intro hs
  obtain ⟨hadded, hn, hid⟩ := add hkind hparent hs
  have hget : ((c.arena.add ⟨name, kind, some parent⟩).2.get c.arena.size).kind.parts = [] := by
    rw [get_of_push_self rfl]
    exact (List.append_eq_nil_iff.mp hkind).1
  obtain ⟨hnamed, hn', -⟩ := defineType name hid hget hadded
  exact ⟨hnamed, Nat.le_trans hn hn', trivial⟩

/-- A type is added without its fields or alternatives, its name is bound, these are filled in, and the name is bound
again. -/
theorem filled {γ : Type} {kind : γ → TypeKind} {empty : γ} {body : TypeId → Check γ} {name : String}
    {parent : TypeId} (hparent : parent < c.arena.size) (hempty : (kind empty).ids = [])
    (hrefills : ∀ a, TypeDef.Refills ⟨name, kind empty, some parent⟩ ⟨name, kind a, some parent⟩)
    (hbody : ∀ base c' id, id < c'.arena.size → Keeps base c' (body id) fun n a => typesBelow n (kind a).members) :
    Keeps base c (do
      let id ← Check.modifyTypes (·.add ⟨name, kind empty, some parent⟩)
      Check.defineType name id
      let a ← body id
      modify fun c => { c with arena := c.arena.redefine id ⟨name, kind a, some parent⟩ }
      Check.defineType name id) anyAnswer := by
  intro hs
  let added : Checker := { c with arena := (c.arena.add ⟨name, kind empty, some parent⟩).2 }
  have hsize : added.arena.size = c.arena.size + 1 := size_of_push rfl
  have hnew : c.arena.size < added.arena.size := hsize ▸ Nat.lt_succ_self _
  have hext : c.arena.Extends added.arena := .push rfl fun k => by cases k <;> rfl
  -- Until the type is redefined, the arena extends the one in which it was added.
  have hadded : added.Sound added.arena := (add hempty hparent hs).1.self
  have hempty' : (added.arena.get c.arena.size).kind.parts = [] := by
    rw [get_of_push_self rfl]
    exact (List.append_eq_nil_iff.mp hempty).1
  obtain ⟨hs', hn', hmembers⟩ := ((defineType name hnew hempty').bind fun _ c' hn _ =>
    hbody added.arena c' _ (Nat.lt_of_lt_of_le hnew hn)) hadded
  generalize hout : (Check.defineType name c.arena.size >>= fun _ => body c.arena.size) added = out
    at hs' hn' hmembers
  obtain ⟨a, c'⟩ := out
  have hid : c.arena.size < c'.arena.size := Nat.lt_of_lt_of_le hnew hn'
  have hkind : TypeDef.Refills (c'.arena.get c.arena.size) ⟨name, kind a, some parent⟩ := by
    rw [hs'.extension.get_eq hnew, get_of_push_self rfl]
    exact hrefills a
  have hparts := parts_redefine hid hkind
  have hsize' : (c'.arena.redefine c.arena.size ⟨name, kind a, some parent⟩).size = c'.arena.size := size_redefine
  have hrefilled := (hs'.rebase (hs.extension.trans hext)).withArena (.redefine _ _ hs'.regular hid hkind hmembers)
    (hs.extension.trans ((hext.trans hs'.extension).redefine (Nat.le_refl _) hid _)) (Nat.le_of_eq hsize'.symm) fun id _ => hparts id
  have hlast : (do
      let id ← Check.modifyTypes (·.add ⟨name, kind empty, some parent⟩)
      Check.defineType name id
      let a ← body id
      modify fun c => { c with arena := c.arena.redefine id ⟨name, kind a, some parent⟩ }
      Check.defineType name id : Check Unit) c =
        Check.defineType name c.arena.size
          { c' with arena := c'.arena.redefine c.arena.size ⟨name, kind a, some parent⟩ } := by
    change (let out := (Check.defineType name c.arena.size >>= fun _ => body c.arena.size) added
      Check.defineType name c.arena.size
        { out.2 with arena := out.2.arena.redefine c.arena.size ⟨name, kind out.1, some parent⟩ }) = _
    rw [hout]
  rw [hlast]
  obtain ⟨hnamed, hn'', -⟩ := defineType name (Nat.lt_of_lt_of_eq hid hsize'.symm)
    (hparts _ hkind.parts_eq.1) hrefilled
  exact ⟨hnamed, Nat.le_trans (Nat.le_trans (Nat.le_of_lt hid) (Nat.le_of_eq hsize'.symm)) hn'', trivial⟩

theorem declareType (decl : TypeDecl) : Keeps base c (Check.declareType decl) anyAnswer := by
  -- The name may as well be bound before the type variables are left.
  have hinside {x : Check TypeId} : Keeps base c (Check.withTypeVars (x >>= Check.defineType decl.name.val)) anyAnswer →
      Keeps base c (Check.withTypeVars x >>= Check.defineType decl.name.val) anyAnswer := id
  rw [Check.declareType]
  refine hinside (withTypeVars ?_)
  rw [bind_assoc]
  refine (enterTypeParams decl.typeParams).bind fun vars c' _ _ => ?_
  rw [bind_assoc]
  refine (resolveOption decl.parent).bind fun parent c'' _ hparent => ?_
  cases decl.body with
  | abstract => exact addNamed rfl hparent
  | concrete => exact addNamed rfl hparent
  | struct fields =>
    exact filled hparent rfl (.struct _ _ _ _) fun _ _ id _ => (resolveFields fields).mono
      fun _ _ hfields => List.forall_mem_map.mpr hfields
  | variants alternatives =>
    exact filled hparent rfl (.variants _ _ _ _) fun _ _ id hid => (declareVariants vars hid alternatives).mono
      fun _ _ halternatives => List.forall_mem_flatMap.mpr fun a ha => List.forall_mem_map.mpr (halternatives a ha)

/-! ### Questions about types -/

theorem any_below {n : Nat} (hn : builtinTypes.length ≤ n) : TypeId.any < n := Nat.lt_of_lt_of_le (by decide) hn

theorem withoutVars_lt {arena : TypeArena} {id : TypeId} (hn : builtinTypes.length ≤ arena.size)
    (hid : id < arena.size) : Check.withoutVars arena id < arena.size := by
  rw [Check.withoutVars]
  split
  · exact any_below hn
  · exact hid

theorem resultOf_lt {arena : TypeArena} (ho : arena.Ordered) {id : TypeId} (hid : id < arena.size) :
    Check.resultOf arena id < arena.size := by
  rw [Check.resultOf]
  split
  · next hk => exact ho.ids_lt hid (by rw [hk, TypeKind.ids_function]; exact List.mem_append_right _ (.head _))
  · exact any_below ho.builtin

theorem commonType_lt {n : Nat} (hn : builtinTypes.length ≤ n) {ids : List TypeId} (h : typesBelow n ids) :
    Check.commonType ids < n := by
  cases ids with
  | nil => exact any_below hn
  | cons first rest =>
    rw [Check.commonType]
    split
    · exact h first List.mem_cons_self
    · exact any_below hn

/-! ### Names and fields -/

theorem nameType (name : String) (span : Span) : Keeps base c (Check.nameType name span) typeBelow := by
  rw [Check.nameType]
  refine (lookup name).bind fun found c' _ hfound => ?_
  split
  · exact pure (hfound _ rfl)
  · refine (lookupType name).bind fun known c'' _ _ => ?_
    split
    · exact ofSound fun hs => pure (Nat.lt_of_lt_of_le (by decide) hs.builtin)
    · refine (lookupFunction name).bind fun f? c''' _ hf => ?_
      split
      · split
        · next only hmethods => exact pure (hf _ rfl only (hmethods ▸ List.mem_singleton_self only)).2
        · exact ofSound fun hs => pure (Nat.lt_of_lt_of_le (by decide) hs.builtin)
      · exact reportAny _ _

theorem fieldType (owner : TypeId) (field : Located String) :
    Keeps base c (Check.fieldType owner field) typeBelow := by
  refine ofSound fun hs => get ?_
  have ho := hs.regular.indexed.toOrdered
  dsimp only
  split
  · exact pure (Nat.lt_of_lt_of_le (by decide) hs.builtin)
  · split
    · next fields hk =>
      split
      · next type htype => exact pure (withoutVars_lt hs.builtin (ho.field_lt hk (Assoc.mem_of_lookup htype)))
      · exact reportAny _ _
    · next alternatives hk =>
      split
      · exact reportAny _ _
      · refine pure (withoutVars_lt hs.builtin (commonType_lt hs.builtin fun id hid => ?_))
        obtain ⟨a, ha, hfield⟩ := List.mem_filterMap.mp hid
        refine ho.members owner id ?_
        rw [hk]
        exact List.mem_flatMap.mpr ⟨a, ha, List.mem_map_of_mem (Assoc.mem_of_lookup hfield)⟩
    · exact anyType

/-! ### Calls -/

theorem checkArguments (function : String) (position : Nat) (args : List (TypeId × Span)) (params : List TypeId) :
    Keeps base c (Check.checkArguments function position args params) anyAnswer := by
  induction args generalizing c position params with
  | nil => exact pure trivial
  | cons arg args ih =>
    cases params with
    | nil => exact pure trivial
    | cons param params =>
      refine get ?_
      dsimp only
      split
      · exact (report _ _).bind fun _ _ _ _ => ih _ _
      · exact ih _ _

theorem resolvedType {f : GenericFunction TypeId}
    (hf : ∀ m ∈ f.methods, typesBelow c.arena.size m.signature ∧ m.implementation < c.arena.size)
    {args : List TypeId} (ha : typesBelow c.arena.size args) (span : Span) :
    Keeps base c (Check.resolvedType f args span) typeBelow := by
  refine ofSound fun hs => ?_
  have hcall : CallIn c.arena args f.methods := ⟨hs.regular.indexed, ha, fun m hm => (hf m hm).1⟩
  have hchoose : Keeps base c (Check.modifyTypes (choose f.name f.methods args)) fun n result =>
      ∀ r, result = .ok r → r.method.implementation < n ∧ ∀ b ∈ r.bindings, b.2 < n := by
    refine modifyTypes (hcall.choose_regular · f.name) (hcall.choose_grows f.name).1 fun r hr => ?_
    have hfinds := hcall.chosen hr
    exact ⟨(hcall.choose_grows f.name).1.lt (hf _ hfinds.mem).2, hfinds.bindings_in⟩
  refine hchoose.bind fun result c' _ hresult => ?_
  cases result with
  | error e => exact reportAny _ _
  | ok r =>
    obtain ⟨himplementation, hbindings⟩ := hresult r rfl
    refine ofSound fun hs' => get ?_
    have hresult := resultOf_lt hs'.regular.indexed.toOrdered himplementation
    have hgrows := substitute_grows hs'.regular.indexed hbindings hresult
    have hsubstitute : Keeps base c' (Check.modifyTypes
        (·.substitute r.bindings (Check.resultOf c'.arena r.method.implementation))) typeBelow :=
      modifyTypes (·.substituteWithin _ hbindings hresult) hgrows.extension hgrows.lt
    exact hsubstitute.bind fun type c'' _ htype => ofSound fun hs'' => get (pure (withoutVars_lt hs''.builtin htype))

theorem callType {f : GenericFunction TypeId}
    (hf : ∀ m ∈ f.methods, typesBelow c.arena.size m.signature ∧ m.implementation < c.arena.size)
    {args : List (TypeId × Span)} (ha : placedBelow c.arena.size args) (span : Span) :
    Keeps base c (Check.callType f args span) typeBelow := by
  refine ofSound fun hs => get ?_
  have ho := hs.regular.indexed.toOrdered
  dsimp only
  have hbyArguments : Keeps base c
      (if (args.map Prod.fst).all (isKnown c.arena) then Check.resolvedType f (args.map Prod.fst) span
      else
        return withoutVars c.arena (commonType (f.methods.filterMap fun m =>
          if m.signature.length = args.length then some (resultOf c.arena m.implementation) else none)))
      typeBelow := by
    split
    · exact resolvedType hf ha.types span
    · refine pure (withoutVars_lt hs.builtin (commonType_lt hs.builtin fun id hid => ?_))
      obtain ⟨m, hm, hresult⟩ := List.mem_filterMap.mp hid
      split at hresult
      · exact Option.some.inj hresult ▸ resultOf_lt ho (hf m hm).2
      · cases hresult
  split
  · exact reportAny _ _
  · next only hfilter =>
    split
    · have honly : only ∈ f.methods := (List.mem_filter.mp (hfilter ▸ List.mem_singleton_self only)).1
      exact (checkArguments _ _ _ _).bind fun _ _ hn _ =>
        pure (Nat.lt_of_lt_of_le (resultOf_lt ho (hf only honly).2) hn)
    · exact hbyArguments
  · exact hbyArguments

theorem namedCallType (name : String) {args : List (TypeId × Span)} (ha : placedBelow c.arena.size args)
    (span : Span) : Keeps base c (Check.namedCallType name args span) typeBelow := by
  rw [Check.namedCallType]
  refine (lookupFunction name).bind fun found c' hn hf => ?_
  cases found with
  | some f => exact callType (hf f rfl) (ha.mono hn) span
  | none =>
    refine (lookupType name).bind fun known c'' _ _ => ?_
    split <;> exact reportAny _ _

/-! ### Methods -/

/-- How a call of a method gets its type from those of the arguments keeps later checkers sound. -/
def methodBelow (base : TypeArena) (n : Nat) (type : List TypeId → Check TypeId) : Prop :=
  ∀ {c : Checker} {args}, n ≤ c.arena.size → typesBelow c.arena.size args → Keeps base c (type args) typeBelow

section

variable {n : Nat} {type : List TypeId → Check TypeId}

/-- A type that is known keeps being a type. -/
theorem methodBelow_pure {id : TypeId} (hid : id < n) : methodBelow base n fun _ => Pure.pure id :=
  fun hn _ => pure (Nat.lt_of_lt_of_le hid hn)

theorem methodBelow_builtin {id : TypeId} (hid : id < builtinTypes.length) :
    methodBelow base n fun _ => Pure.pure id :=
  fun _ _ => ofSound fun hs => pure (Nat.lt_of_lt_of_le hid hs.builtin)

theorem methodBelow_arrayOf {id : TypeId} (hid : id < builtinTypes.length) :
    methodBelow base n fun _ => Check.modifyTypes (·.arrayOf id) :=
  fun _ _ => ofSound fun hs => arrayOf (Nat.lt_of_lt_of_le hid hs.builtin)

theorem callbackResult (args : List TypeId) : typesBelow c.arena.size args → Keeps base c
    (match args with
    | [] => return .any
    | f :: _ => do return withoutVars (← MonadState.get).arena (resultOf (← MonadState.get).arena f) : Check TypeId)
    typeBelow := by
  intro ha
  cases args with
  | nil => exact anyType
  | cons f args =>
    refine ofSound fun hs => get (get (pure (withoutVars_lt hs.builtin ?_)))
    exact resultOf_lt hs.regular.indexed.toOrdered (ha f List.mem_cons_self)

theorem arrayMethod? {receiver element : TypeId} (hreceiver : receiver < n) (helement : element < n) (name : String)
    (h : Check.arrayMethod? receiver element name = some type) : methodBelow base n type := by
  unfold Check.arrayMethod? at h
  dsimp only at h
  split at h <;> cases h
  · exact fun _ ha => (callbackResult _ ha).bind fun _ _ _ hid => arrayOf hid
  · exact fun _ ha => callbackResult _ ha
  · exact methodBelow_pure hreceiver
  · exact methodBelow_pure hreceiver
  · exact methodBelow_pure hreceiver
  · exact methodBelow_pure helement
  · exact methodBelow_pure helement
  · exact methodBelow_builtin (by decide)
  · exact methodBelow_builtin (by decide)
  · exact methodBelow_builtin (by decide)
  · split
    · exact methodBelow_pure helement
    · exact methodBelow_builtin (by decide)

theorem stringMethod? (name : String) (h : Check.stringMethod? name = some type) : methodBelow base n type := by
  unfold Check.stringMethod? at h
  split at h <;> cases h
  all_goals first
    | exact methodBelow_builtin (by decide)
    | exact methodBelow_arrayOf (by decide)

theorem objectMethod? (name : String) (h : Check.objectMethod? name = some type) : methodBelow base n type := by
  unfold Check.objectMethod? at h
  split at h <;> cases h
  all_goals first
    | exact methodBelow_builtin (by decide)
    | exact methodBelow_arrayOf (by decide)

end

theorem elementOf?_lt {arena : TypeArena} (ho : arena.Ordered) {receiver element : TypeId}
    (hreceiver : receiver < arena.size) (h : Check.elementOf? arena receiver = some element) :
    element < arena.size := by
  rw [Check.elementOf?] at h
  split at h
  · next base element' _ hk =>
    split at h <;> cases h
    exact ho.ids_lt hreceiver (by rw [hk, TypeKind.ids_applied]; exact List.mem_cons_of_mem _ List.mem_cons_self)
  · split at h <;> cases h
    exact any_below ho.builtin

theorem builtinMethod? {arena : TypeArena} (ho : arena.Ordered) {receiver : TypeId}
    (hreceiver : receiver < arena.size) {name : String} {type : List TypeId → Check TypeId}
    (h : Check.builtinMethod? arena receiver name = some type) : methodBelow base arena.size type := by
  rw [Check.builtinMethod?] at h
  split at h
  · next element helement => exact arrayMethod? hreceiver (elementOf?_lt ho hreceiver helement) name h
  · split at h
    · exact stringMethod? name h
    · split at h
      · exact objectMethod? name h
      · split at h <;> cases h
        exact fun hn _ => ofSound fun hs => get (pure (resultOf_lt hs.regular.indexed.toOrdered
          (Nat.lt_of_lt_of_le hreceiver hn)))

theorem methodType {receiver : TypeId} (hreceiver : receiver < c.arena.size) (method : Located String) :
    Keeps base c (Check.methodType receiver method) fun n type => ∀ {c' : Checker} {args},
      n ≤ c'.arena.size → placedBelow c'.arena.size args → Keeps base c' (type args) typeBelow := by
  refine ofSound fun hs => get ?_
  have ho := hs.regular.indexed.toOrdered
  dsimp only
  split
  · next type htype => exact pure fun hn ha => builtinMethod? ho hreceiver htype hn ha.types
  · split
    · next field hfield =>
      have hfield' : field < c.arena.size := by
        rw [TypeDef.field?] at hfield
        split at hfield
        · next hk => exact ho.field_lt hk (Assoc.mem_of_lookup hfield)
        · cases hfield
      exact pure fun hn _ => ofSound fun hs' => get (pure (resultOf_lt hs'.regular.indexed.toOrdered
        (Nat.lt_of_lt_of_le hfield' hn)))
    · refine (lookupFunction method.val).bind fun found c' hn _ => ?_
      split
      · exact pure fun hn' ha => namedCallType method.val (List.forall_mem_cons.mpr
          ⟨Nat.lt_of_lt_of_le hreceiver (Nat.le_trans hn hn'), ha⟩) method.span
      · exact pure fun _ _ => anyType

end Keeps

end Check

end DispatchLang
