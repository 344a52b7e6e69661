import DispatchLang.Proofs.Node.Scoping
import DispatchLang.Typing.Infer

/-!
# What the checker knows about names

A checker knows a name if one of its scopes binds it or if it lists a type or a function of that name. What it
learns from a step is limited: the innermost scope binds more names, the scopes around it do not, and a type or a
function is listed only where one is declared. `Walks` says so of one step, together with what must hold if
nothing is found wrong in it.

Most steps learn nothing about names at all: they are `Quiet`.

## Main definitions

* `Checker.Known`: the names that a checker knows are visible or loose.
* `Check.Walks`: what a step learns, and what holds if it finds nothing wrong.

## Main results

* `Walks.bind`: steps may be sequenced.
* `Quiet.callType`, `Quiet.methodType`: calls teach the checker no names.
-/

namespace DispatchLang

/-! ## Names that are known -/

def Check.BoundIn (scopes : List (List (String × TypeId))) (name : String) : Prop :=
  ∃ scope ∈ scopes, (scope.lookup name).isSome = true

def Checker.Lists (c : Checker) (name : String) : Prop :=
  (c.types.lookup name).isSome = true ∨ (c.functions.lookup name).isSome = true

def Checker.Known (loose visible : List String) (c : Checker) : Prop :=
  ∀ name, Check.BoundIn c.scopes name ∨ c.Lists name → name ∈ visible ∨ name ∈ loose

namespace Check

/-! ### Scopes -/

theorem isSome_lookup_insert {α : Type} {name other : String} {value : α} {entries : List (String × α)}
    (h : ((Assoc.insert name value entries).lookup other).isSome = true) :
    other = name ∨ (entries.lookup other).isSome = true := by
  by_cases hne : other = name
  · exact .inl hne
  · rw [Assoc.lookup_insert_of_ne hne] at h
    exact .inr h

theorem boundIn_cons {scope : List (String × TypeId)} {scopes : List (List (String × TypeId))} {name : String} :
    BoundIn (scope :: scopes) name ↔ (scope.lookup name).isSome = true ∨ BoundIn scopes name := by
  simp [BoundIn]

theorem boundIn_of_findSome? {scopes : List (List (String × TypeId))} {name : String} {type : TypeId}
    (h : scopes.findSome? (·.lookup name) = some type) : BoundIn scopes name := by
  obtain ⟨scope, hscope, hfound⟩ := List.exists_of_findSome?_eq_some h
  exact ⟨scope, hscope, Option.isSome_of_eq_some hfound⟩

variable {name other : String} {type : TypeId} {scopes scopes' : List (List (String × TypeId))}

/-- Binding a name in the innermost scope binds no other one there. -/
theorem boundIn_defineIn (h : BoundIn (defineIn name type scopes) other) :
    BoundIn scopes other ∨ other = name := by
  cases scopes with
  | nil => exact .inl h
  | cons scope scopes =>
    rw [defineIn, boundIn_cons] at h
    rw [boundIn_cons]
    rcases h with h | h
    · exact (isSome_lookup_insert h).symm.imp_left .inl
    · exact .inl (.inr h)

theorem drop_defineIn (k : Nat) : (defineIn name type scopes).drop (k + 1) = scopes.drop (k + 1) := by
  cases scopes <;> rfl

/-- Binding a name again binds no name in any scope. -/
theorem boundIn_rebindIn? (h : rebindIn? name type scopes = some scopes') (k : Nat)
    (hb : BoundIn (scopes'.drop k) other) : BoundIn (scopes.drop k) other := by
  induction scopes generalizing scopes' k with
  | nil => cases h
  | cons scope scopes ih =>
    rw [rebindIn?] at h
    split at h
    · next hname =>
      cases h
      cases k with
      | zero =>
        rw [List.drop_zero, boundIn_cons] at hb ⊢
        refine hb.imp_left fun hb => ?_
        rcases isSome_lookup_insert hb with rfl | hb
        · exact hname
        · exact hb
      | succ k => exact hb
    · obtain ⟨rest, hrest, rfl⟩ := Option.map_eq_some_iff.mp h
      cases k with
      | zero =>
        rw [List.drop_zero, boundIn_cons] at hb ⊢
        exact hb.imp_right (ih hrest 0)
      | succ k => exact ih hrest k hb

end Check

/-! ## What is learnt -/

/-- What a checker may learn in a step: the innermost scope binds the names `new` or loose ones, the scopes around
it bind no more, and only types and functions of the names `listed` are listed. -/
structure Checker.Learnt (loose new listed : List String) (c c' : Checker) : Prop where
  bound : ∀ name, Check.BoundIn c'.scopes name → Check.BoundIn c.scopes name ∨ name ∈ new ∨ name ∈ loose
  around : ∀ k name, Check.BoundIn (c'.scopes.drop (k + 1)) name → Check.BoundIn (c.scopes.drop (k + 1)) name
  lists : ∀ name, c'.Lists name → c.Lists name ∨ name ∈ listed

namespace Checker

variable {loose new new' listed listed' visible : List String} {c c' c'' : Checker}

theorem Learnt.refl (c : Checker) : Learnt loose new listed c c :=
  ⟨fun _ => .inl, fun _ _ => id, fun _ => .inl⟩

theorem Learnt.trans (h : Learnt loose new listed c c') (h' : Learnt loose new' listed c' c'') :
    Learnt loose (new ++ new') listed c c'' where
  bound name hb := by
    rw [List.mem_append]
    rcases h'.bound name hb with hb | hb | hb
    · exact (h.bound name hb).imp_right (Or.imp_left .inl)
    · exact .inr (.inl (.inr hb))
    · exact .inr (.inr hb)
  around k name hb := h.around k name (h'.around k name hb)
  lists name hl := (h'.lists name hl).elim (h.lists name) .inr

theorem Learnt.mono (h : Learnt loose new listed c c') (hnew : ∀ name ∈ new, name ∈ new' ∨ name ∈ loose)
    (hlisted : ∀ name ∈ listed, name ∈ listed') : Learnt loose new' listed' c c' where
  bound name hb := (h.bound name hb).imp_right fun hb => hb.elim (hnew name) .inr
  around := h.around
  lists name hl := (h.lists name hl).imp_right (hlisted name)

theorem Known.learnt (hk : c.Known loose visible) (h : Learnt loose new listed c c')
    (hlisted : ∀ name ∈ listed, name ∈ new ∨ name ∈ loose) : c'.Known loose (visible ++ new) := by
  have hold {name : String} (hn : name ∈ visible ∨ name ∈ loose) : name ∈ visible ++ new ∨ name ∈ loose :=
    hn.imp_left (List.mem_append_left new)
  have hnew {name : String} (hn : name ∈ new ∨ name ∈ loose) : name ∈ visible ++ new ∨ name ∈ loose :=
    hn.imp_left (List.mem_append_right visible)
  rintro name (hb | hl)
  · exact (h.bound name hb).elim (fun hb => hold (hk name (.inl hb))) hnew
  · exact (h.lists name hl).elim (fun hl => hold (hk name (.inr hl))) fun hl => hnew (hlisted name hl)

theorem Known.kept (hk : c.Known loose visible) (h : Learnt loose [] loose c c') : c'.Known loose visible := by
  have h := hk.learnt h fun _ => .inr
  rwa [List.append_nil] at h

/-- A new scope binds nothing. -/
theorem Known.inner (hk : c.Known loose visible) :
    Known loose visible { c with scopes := [] :: c.scopes } := fun name h =>
  hk name (h.imp_left fun hb => (Check.boundIn_cons.mp hb).resolve_left (by simp))

end Checker

namespace Check

open Checker (Learnt)

variable {α β : Type}

/-! ## Steps that learn no names -/

/-- A step that does not report that something is assigned to which is no target. -/
def Spares (x : Check α) : Prop :=
  ∀ c, (∀ f ∈ c.findings, f.cause ≠ .invalidTarget) → ∀ f ∈ (x c).2.findings, f.cause ≠ .invalidTarget

/-- A step that teaches the checker no names and does not take back what was found wrong. What it finds has nothing to do
with targets of assignments. -/
structure Quiet (x : Check α) : Prop where
  scopes : ∀ c, (x c).2.scopes = c.scopes
  typeVars : ∀ c, (x c).2.typeVars = c.typeVars
  types : ∀ c, (x c).2.types = c.types
  functions : ∀ c, (x c).2.functions = c.functions
  findings : ∀ c, (x c).2.findings = [] → c.findings = []
  spares : Spares x

namespace Quiet

theorem pure (a : α) : Quiet (Pure.pure a) :=
  ⟨fun _ => rfl, fun _ => rfl, fun _ => rfl, fun _ => rfl, fun _ => id, fun _ => id⟩

theorem bind {x : Check α} {f : α → Check β} (h : Quiet x) (hf : ∀ a, Quiet (f a)) : Quiet (x >>= f) where
  scopes c := ((hf _).scopes _).trans (h.scopes c)
  typeVars c := ((hf _).typeVars _).trans (h.typeVars c)
  types c := ((hf _).types _).trans (h.types c)
  functions c := ((hf _).functions _).trans (h.functions c)
  findings c hc := h.findings c ((hf _).findings _ hc)
  spares c hc := (hf _).spares _ (h.spares c hc)

theorem get {f : Checker → Check α} (h : ∀ c, Quiet (f c)) : Quiet (MonadState.get >>= f) where
  scopes c := (h c).scopes c
  typeVars c := (h c).typeVars c
  types c := (h c).types c
  functions c := (h c).functions c
  findings c := (h c).findings c
  spares c := (h c).spares c

theorem modifyTypes (f : TypeArena → α × TypeArena) : Quiet (Check.modifyTypes f) :=
  ⟨fun _ => rfl, fun _ => rfl, fun _ => rfl, fun _ => rfl, fun _ => id, fun _ => id⟩

theorem report (cause : FindingCause) (span : Span) (h : cause ≠ .invalidTarget) :
    Quiet (Check.report cause span) :=
  ⟨fun _ => rfl, fun _ => rfl, fun _ => rfl, fun _ => rfl, fun _ h => absurd h (List.cons_ne_nil _ _),
    fun _ hc => List.forall_mem_cons.mpr ⟨h, hc⟩⟩

theorem record (span : Span) (type : TypeId) : Quiet (Check.record span type) :=
  ⟨fun _ => rfl, fun _ => rfl, fun _ => rfl, fun _ => rfl, fun _ => id, fun _ => id⟩

theorem read (f : Checker → α) : Quiet (do return f (← MonadState.get)) := get fun _ => pure _

theorem reportAny (cause : FindingCause) (span : Span) (h : cause ≠ .invalidTarget) :
    Quiet (do Check.report cause span; return TypeId.any) := (report cause span h).bind fun _ => pure _

theorem headType (name : String) : Quiet (Check.headType name) := by
  refine get fun c => ?_
  split
  · exact pure _
  · exact read _

/-! ### Written types -/

mutual

theorem resolveType (type : TypeExpr) : Quiet (Check.resolveType type) := by
  cases type with
  | named span name =>
    rw [Check.resolveType]
    refine (headType name).bind fun found => ?_
    cases found with
    | some id => exact pure _
    | none => exact reportAny _ _ nofun
  | applied span name args =>
    rw [Check.resolveType]
    refine (headType name).bind fun found => ?_
    cases found with
    | some id => exact (resolveTypes args).bind fun _ => modifyTypes _
    | none => exact reportAny _ _ nofun

theorem resolveTypes (types : List TypeExpr) : Quiet (Check.resolveTypes types) := by
  cases types with
  | nil => exact pure _
  | cons type types =>
    rw [Check.resolveTypes]
    exact (resolveType type).bind fun _ => (resolveTypes types).bind fun _ => pure _

end

theorem resolveOption (type : Option TypeExpr) : Quiet (Check.resolveOption type) := by
  cases type with
  | none => exact pure _
  | some type => exact resolveType type

theorem resolveFields (fields : List FieldDecl) : Quiet (Check.resolveFields fields) := by
  induction fields with
  | nil => exact pure _
  | cons f fields ih => exact (resolveType f.type).bind fun _ => ih.bind fun _ => pure _

theorem resolveParams (params : List Param) : Quiet (Check.resolveParams params) := by
  induction params with
  | nil => exact pure _
  | cons p params ih => exact (resolveOption p.annotation).bind fun _ => ih.bind fun _ => pure _

/-! ### Names, fields and calls -/

theorem nameType (name : String) (span : Span) : Quiet (Check.nameType name span) := by
  rw [Check.nameType]
  refine (read _).bind fun found => ?_
  split
  · exact pure _
  · refine (read _).bind fun known => ?_
    split
    · exact pure _
    · refine (read _).bind fun function => ?_
      split
      · split <;> exact pure _
      · exact reportAny _ _ nofun

theorem fieldType (owner : TypeId) (field : Located String) : Quiet (Check.fieldType owner field) := by
  refine get fun c => ?_
  dsimp only
  split
  · exact pure _
  · split
    · split
      · exact pure _
      · exact reportAny _ _ (by rintro ⟨⟩)
    · split
      · exact reportAny _ _ (by rintro ⟨⟩)
      · exact pure _
    · exact pure _

theorem checkArguments (function : String) (position : Nat) (args : List (TypeId × Span)) (params : List TypeId) :
    Quiet (Check.checkArguments function position args params) := by
  induction args generalizing position params with
  | nil => exact pure _
  | cons arg args ih =>
    cases params with
    | nil => exact pure _
    | cons param params =>
      refine get fun c => ?_
      dsimp only
      split
      · exact (report (.mismatch ..) _ nofun).bind fun _ => ih _ _
      · exact ih _ _

theorem resolvedType (f : GenericFunction TypeId) (args : List TypeId) (span : Span) :
    Quiet (Check.resolvedType f args span) := by
  refine (modifyTypes _).bind fun result => ?_
  cases result with
  | error e => exact reportAny _ _ nofun
  | ok r => exact get fun _ => (modifyTypes _).bind fun _ => get fun _ => pure _

theorem callType (f : GenericFunction TypeId) (args : List (TypeId × Span)) (span : Span) :
    Quiet (Check.callType f args span) := by
  refine get fun c => ?_
  dsimp only
  have hbyArguments : Quiet
      (if (args.map Prod.fst).all (isKnown c.arena) then Check.resolvedType f (args.map Prod.fst) span
      else
        return withoutVars c.arena (commonType (f.methods.filterMap fun m =>
          if m.signature.length = args.length then some (resultOf c.arena m.implementation) else none))) := by
    split
    · exact resolvedType _ _ _
    · exact pure _
  split
  · refine reportAny _ _ ?_
    rw [arityCause]
    split
    · exact nofun
    · split <;> exact nofun
  · split
    · exact (checkArguments _ _ _ _).bind fun _ => pure _
    · exact hbyArguments
  · exact hbyArguments

theorem namedCallType (name : String) (args : List (TypeId × Span)) (span : Span) :
    Quiet (Check.namedCallType name args span) := by
  refine (read _).bind fun found => ?_
  cases found with
  | some f => exact callType f args span
  | none =>
    refine (read _).bind fun known => ?_
    split <;> exact reportAny _ _ nofun

/-! ### Methods -/

theorem callbackResult (args : List TypeId) : Quiet
    (match args with
    | [] => return .any
    | f :: _ => do return withoutVars (← MonadState.get).arena (resultOf (← MonadState.get).arena f) : Check TypeId) := by
  cases args with
  | nil => exact pure _
  | cons f args => exact get fun _ => get fun _ => pure _

section

variable {call : List TypeId → Check TypeId} {args : List TypeId}

theorem arrayMethod? {receiver element : TypeId} {name : String}
    (h : Check.arrayMethod? receiver element name = some call) : Quiet (call args) := by
  unfold Check.arrayMethod? at h
  dsimp only at h
  split at h <;> cases h
  · exact (callbackResult _).bind fun _ => modifyTypes _
  · exact callbackResult _
  all_goals exact pure _

theorem stringMethod? {name : String} (h : Check.stringMethod? name = some call) : Quiet (call args) := by
  unfold Check.stringMethod? at h
  split at h <;> cases h
  all_goals first
    | exact pure _
    | exact modifyTypes _

theorem objectMethod? {name : String} (h : Check.objectMethod? name = some call) : Quiet (call args) := by
  unfold Check.objectMethod? at h
  split at h <;> cases h
  all_goals first
    | exact pure _
    | exact modifyTypes _

theorem builtinMethod? {arena : TypeArena} {receiver : TypeId} {name : String}
    (h : Check.builtinMethod? arena receiver name = some call) : Quiet (call args) := by
  rw [Check.builtinMethod?] at h
  split at h
  · exact arrayMethod? h
  · split at h
    · exact stringMethod? h
    · split at h
      · exact objectMethod? h
      · split at h <;> cases h
        exact get fun _ => pure _

end

/-- How a method call gets its type is decided without learning names. -/
theorem methodType (receiver : TypeId) (method : Located String) : Quiet (Check.methodType receiver method) := by
  refine get fun c => ?_
  dsimp only
  split
  · exact pure _
  · split
    · exact pure _
    · refine (read _).bind fun found => ?_
      split <;> exact pure _

/-- Nor are names learnt when it gets it. -/
theorem methodCall (receiver : TypeId) (method : Located String) (c : Checker) :
    ∀ args, Quiet ((Check.methodType receiver method c).1 args) := by
  let Calls (x : Check (List (TypeId × Span) → Check TypeId)) : Prop := ∀ c args, Quiet ((x c).1 args)
  have hget {f : Checker → Check (List (TypeId × Span) → Check TypeId)} (h : ∀ c, Calls (f c)) :
      Calls (MonadState.get >>= f) := fun c => h c c
  have hpure {call : List (TypeId × Span) → Check TypeId} (h : ∀ args, Quiet (call args)) : Calls (Pure.pure call) :=
    fun _ => h
  refine hget (fun c => ?_) c
  dsimp only
  split
  · next call hcall => exact hpure fun args => builtinMethod? hcall
  · split
    · exact hpure fun _ => get fun _ => pure _
    · refine hget fun c => ?_
      split
      · exact hpure fun args => namedCallType _ _ _
      · exact hpure fun _ => pure _

end Quiet

/-! ## Steps that learn names -/

/-- What a step learns, and what holds if nothing is found wrong by the end of it. -/
def Walks (loose new listed : List String) (c : Checker) (x : Check α) (S : Prop) : Prop :=
  Learnt loose new listed c (x c).2 ∧ ((x c).2.findings = [] → c.findings = [] ∧ S)

namespace Walks

variable {loose new new' listed listed' : List String} {c : Checker} {S T : Prop}

theorem pure {a : α} (h : S) : Walks loose new listed c (Pure.pure a) S := ⟨.refl c, fun hc => ⟨hc, h⟩⟩

/-- Steps may be sequenced. -/
theorem bind {x : Check α} {f : α → Check β} (h : Walks loose new listed c x S)
    (hf : Learnt loose new listed c (x c).2 → Walks loose new' listed (x c).2 (f (x c).1) T) :
    Walks loose (new ++ new') listed c (x >>= f) (S ∧ T) := by
  obtain ⟨hl, hs⟩ := h
  obtain ⟨hl', hs'⟩ := hf hl
  refine ⟨hl.trans hl', fun hc => ?_⟩
  obtain ⟨hc, hs'⟩ := hs' hc
  obtain ⟨hc, hs⟩ := hs hc
  exact ⟨hc, hs, hs'⟩

/-- Steps may be sequenced where what holds after the first one does not matter. -/
theorem seq {x : Check α} {f : α → Check β} (h : Walks loose new listed c x T)
    (hf : Learnt loose new listed c (x c).2 → Walks loose new' listed (x c).2 (f (x c).1) S) :
    Walks loose (new ++ new') listed c (x >>= f) S :=
  ⟨(h.bind hf).1, fun hc => ((h.bind hf).2 hc).imp_right And.right⟩

theorem mono {x : Check α} (h : Walks loose new listed c x S) (hnew : ∀ name ∈ new, name ∈ new' ∨ name ∈ loose)
    (hlisted : ∀ name ∈ listed, name ∈ listed') (hs : S → T) : Walks loose new' listed' c x T :=
  ⟨h.1.mono hnew hlisted, fun hc => (h.2 hc).imp_right hs⟩

/-- What holds may be said in another way. -/
theorem imp {x : Check α} (h : Walks loose new listed c x S) (hs : S → T) : Walks loose new listed c x T :=
  h.mono (fun _ => .inl) (fun _ => id) hs

/-- More names may be allowed to be bound. -/
theorem weaken {x : Check α} (h : Walks loose new listed c x S) (hnew : new ⊆ new') : Walks loose new' listed c x S :=
  h.mono (fun _ hn => .inl (hnew hn)) (fun _ => id) id

/-- The last step of a sequence may bind no names. -/
theorem bindLast {x : Check α} {f : α → Check β} (h : Walks loose new listed c x S)
    (hf : Learnt loose new listed c (x c).2 → Walks loose [] listed (x c).2 (f (x c).1) T) :
    Walks loose new listed c (x >>= f) (S ∧ T) := by
  have h := h.bind hf
  rwa [List.append_nil] at h

theorem last {x : Check α} {f : α → Check β} (h : Walks loose new listed c x T)
    (hf : Learnt loose new listed c (x c).2 → Walks loose [] listed (x c).2 (f (x c).1) S) :
    Walks loose new listed c (x >>= f) S := (h.bindLast hf).imp And.right

theorem quiet {x : Check α} (h : Quiet x) (hs : S) : Walks loose [] listed c x S := by
  refine ⟨⟨fun name hb => .inl ?_, fun k name hb => ?_, fun name hl => .inl ?_⟩, fun hc => ⟨h.findings c hc, hs⟩⟩
  · rwa [h.scopes] at hb
  · rwa [h.scopes] at hb
  · rwa [Checker.Lists, h.types, h.functions] at hl

/-- A quiet step may come after. -/
theorem andThen {x : Check α} {f : α → Check β} (h : Walks loose new listed c x S) (hf : Quiet (f (x c).1)) :
    Walks loose new listed c (x >>= f) S :=
  (h.bindLast fun _ => quiet (S := True) hf trivial).imp And.left

/-- Where something is reported, everything holds if nothing was found wrong. -/
theorem report (cause : FindingCause) (span : Span) : Walks loose [] listed c (Check.report cause span) S :=
  have hl : Learnt loose [] listed c c := .refl c
  ⟨⟨hl.bound, hl.around, hl.lists⟩, fun h => absurd h (List.cons_ne_nil _ _)⟩

theorem wrong (cause : FindingCause) (span : Span) :
    Walks loose [] listed c (do Check.report cause span; return TypeId.any) S :=
  (report cause span).andThen (.pure _)

/-- A quiet step may come before. -/
theorem after {x : Check α} {f : α → Check β} (hx : Quiet x)
    (hf : Learnt loose [] listed c (x c).2 → Walks loose new listed (x c).2 (f (x c).1) S) :
    Walks loose new listed c (x >>= f) S :=
  (quiet (S := True) hx trivial).seq hf

/-! ### Binding names -/

theorem define (name : String) (type : TypeId) : Walks loose [name] listed c (Check.define name type) True := by
  refine ⟨⟨fun other hb => ?_, fun k other hb => ?_, fun _ => .inl⟩, fun hc => ⟨hc, trivial⟩⟩
  · exact (boundIn_defineIn hb).imp_right fun heq => .inl (List.mem_singleton.mpr heq)
  · change BoundIn ((defineIn name type c.scopes).drop (k + 1)) other at hb
    rwa [drop_defineIn] at hb

theorem assign (name : String) (type : TypeId) : Walks loose [name] listed c (Check.assign name type) True := by
  have hscopes : (Check.assign name type c).2.scopes =
      (rebindIn? name type c.scopes).getD (defineIn name type c.scopes) := rfl
  cases hr : rebindIn? name type c.scopes with
  | none =>
    rw [hr, Option.getD_none] at hscopes
    refine ⟨⟨fun other hb => ?_, fun k other hb => ?_, fun _ => .inl⟩, fun hc => ⟨hc, trivial⟩⟩ <;>
      rw [hscopes] at hb
    · exact (boundIn_defineIn hb).imp_right fun heq => .inl (List.mem_singleton.mpr heq)
    · rwa [drop_defineIn] at hb
  | some scopes =>
    rw [hr, Option.getD_some] at hscopes
    refine ⟨⟨fun other hb => ?_, fun k other hb => ?_, fun _ => .inl⟩, fun hc => ⟨hc, trivial⟩⟩ <;>
      rw [hscopes] at hb
    · exact .inl (boundIn_rebindIn? hr 0 hb)
    · exact boundIn_rebindIn? hr _ hb

theorem defineType {name : String} (hname : name ∈ listed) (type : TypeId) :
    Walks loose [] listed c (Check.defineType name type) True := by
  refine ⟨⟨fun _ => .inl, fun _ _ => id, fun other hl => ?_⟩, fun hc => ⟨hc, trivial⟩⟩
  rcases hl with hl | hl
  · rcases isSome_lookup_insert hl with rfl | hl
    · exact .inr hname
    · exact .inl (.inl hl)
  · exact .inl (.inr hl)

theorem addMethod {name : String} (hname : name ∈ listed) (method : Method TypeId) :
    Walks loose [] listed c (Check.addMethod name method) True := by
  refine ⟨⟨fun _ => .inl, fun _ _ => id, fun other hl => ?_⟩, fun hc => ⟨hc, trivial⟩⟩
  rcases hl with hl | hl
  · exact .inl (.inl hl)
  · rcases isSome_lookup_insert hl with rfl | hl
    · exact .inr hname
    · exact .inl (.inr hl)

/-- Type variables are neither bound nor listed. -/
theorem enterTypeParams (params : List TypeParam) : Walks loose [] listed c (Check.enterTypeParams params) True := by
  induction params generalizing c with
  | nil => exact pure trivial
  | cons p params ih =>
    refine after (Quiet.resolveOption p.constraint) fun _ => after (.modifyTypes _) fun _ => ?_
    have henter {c : Checker} (id : TypeId) : Walks loose [] listed c
        (modify fun c => { c with typeVars := Assoc.insert p.name.val id c.typeVars }) True :=
      have hl : Learnt loose [] listed c c := .refl c
      ⟨⟨hl.bound, hl.around, hl.lists⟩, fun hc => ⟨hc, trivial⟩⟩
    exact (henter _).seq fun _ => ih.andThen (.pure _)

/-- What is bound in a scope of its own is not known outside. -/
theorem inScope {x : Check α} (h : ∃ new, Walks loose new listed { c with scopes := [] :: c.scopes } x S) :
    Walks loose [] listed c (Check.inScope x) S := by
  obtain ⟨new, hl, hs⟩ := h
  have hscopes : (Check.inScope x c).2.scopes = (x { c with scopes := [] :: c.scopes }).2.scopes.drop 1 :=
    List.drop_one.symm
  refine ⟨⟨fun name hb => .inl ?_, fun k name hb => ?_, hl.lists⟩, hs⟩
  · rw [hscopes] at hb
    exact hl.around 0 name hb
  · rw [hscopes, List.drop_drop] at hb
    exact hl.around (k + 1) name (by rwa [Nat.add_comm] at hb)

theorem withTypeVars {x : Check α} (h : Walks loose new listed c x S) :
    Walks loose new listed c (Check.withTypeVars x) S :=
  ⟨⟨h.1.bound, h.1.around, h.1.lists⟩, h.2⟩

end Walks

end Check

end DispatchLang
