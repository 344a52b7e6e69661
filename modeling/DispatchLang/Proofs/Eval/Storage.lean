import DispatchLang.Proofs.Eval.Simulation

/-!
# What both strategies do to a session

Names are bound and looked up in the same way under both strategies, and what is printed or compared does
not depend on the types of arrays. The one step that differs is making an array: the dispatch strategy
interns a type for it. All of these steps keep a session sound.

## Main results

* `Session.Sound.withArena`, `Session.Sound.withScopes`, `Session.Sound.withCell`: the three ways in which a
  session changes while a basic program runs.
* `Agree.newArray`: making an array agrees, although only one of the strategies gives it a type.
-/

namespace DispatchLang

open TypeArena

variable {D : Dialect}

/-! ## Built-in signatures -/

theorem operatorTable_plain : ∀ e ∈ operatorTable, ∀ m ∈ e.2, m.IsPlain := by
  have h : ∀ e ∈ operatorTable, ∀ m ∈ e.2, ∀ p ∈ m.signature, p < builtinTypes.length := by
    decide
  exact h

theorem functionTable_plain : ∀ e ∈ functionTable, ∀ m ∈ e.2, m.IsPlain := by
  have h : ∀ e ∈ functionTable, ∀ m ∈ e.2, ∀ p ∈ m.signature, p < builtinTypes.length := by
    decide
  exact h

theorem isPlain_replicate_any {ι : Type} {m : Method ι} (n : Nat)
    (h : m.signature = List.replicate n .any) : m.IsPlain := by
  intro p hp
  rw [h] at hp
  rw [List.eq_of_mem_replicate hp]
  decide

namespace Serves

variable {ι : Type} {arena arena' : TypeArena} {table : List (String × List (Method ι))}
  {functions : List (String × GenericFunction ι)}

theorem grown (h : Serves arena table functions) (ht : ∀ e ∈ table, ∀ m ∈ e.2, m.IsPlain)
    (ha : arena.Grown) (ha' : arena'.Grown) (he : arena.Extends arena') :
    Serves arena' table functions := by
  intro name methods hl
  obtain ⟨f, hf, hm, hfaithful⟩ := h name methods hl
  have hplain : ∀ m ∈ f.methods, m.IsPlain := hm ▸ ht _ (Assoc.mem_of_lookup hl)
  exact ⟨f, hf, hm, hfaithful.grown ha ha' he hplain⟩

/-- A function may be replaced by what it has become. -/
theorem insert (h : Serves arena table functions) {name : String} {f f' : GenericFunction ι}
    (hf : functions.lookup name = some f) (hm : f'.methods = f.methods) (hf' : f'.Faithful arena) :
    Serves arena table (Assoc.insert name f' functions) := by
  intro other methods hl
  obtain ⟨g, hg, hmethods, hfaithful⟩ := h other methods hl
  by_cases heq : other = name
  · subst heq
    rw [hf, Option.some.injEq] at hg
    subst hg
    exact ⟨f', Assoc.lookup_insert_self _ _ _, hm.trans hmethods, hf'⟩
  · exact ⟨g, (Assoc.lookup_insert_of_ne heq _ _).trans hg, hmethods, hfaithful⟩

end Serves

theorem FunctionTable.methods_insert {ι : Type} {table : FunctionTable ι} {name : String} {f f' : GenericFunction ι}
    (h : table.lookup name = some f) (hm : f'.methods = f.methods) :
    ((Assoc.insert name f' table).map fun e => (e.1, e.2.methods)) = table.map fun e => (e.1, e.2.methods) := by
  induction table with
  | nil => cases h
  | cons entry table ih =>
    obtain ⟨key, old⟩ := entry
    rw [List.lookup_cons] at h
    rw [Assoc.insert]
    by_cases hkey : key = name
    · rw [hkey, beq_self_eq_true] at h
      obtain rfl := Option.some.inj h
      rw [if_pos hkey, List.map_cons, List.map_cons, hm]
    · rw [beq_eq_false_iff_ne.mpr (Ne.symm hkey)] at h
      rw [if_neg hkey, List.map_cons, List.map_cons, ih h]

theorem ServesMethods.grown {arena arena' : TypeArena} {functions : FunctionTable MethodBody}
    (h : ServesMethods arena functions) (hi : arena.Indexed) (he : arena.Extends arena')
    (hi' : arena'.Indexed) : ServesMethods arena' functions :=
  ⟨h.extension.trans he, h.listed, h.recalls.grown hi he hi'⟩

/-- The methods of a declared function are plain: any argument will do for each parameter. -/
theorem GenericFunction.IsDeclared.grown {arena arena' : TypeArena} {name : String}
    {f : GenericFunction FunctionBody} (h : f.IsDeclared D arena name) (ha : arena.Grown)
    (ha' : arena'.Grown) (he : arena.Extends arena') : f.IsDeclared D arena' name := by
  obtain ⟨typeVars, params, body, scope, hd, hm, hf⟩ := h
  refine ⟨typeVars, params, body, scope, hd, hm, hf.grown ha ha' he ?_⟩
  rw [hm, List.forall_mem_singleton]
  exact isPlain_replicate_any params.length rfl

/-! ## Types that are added -/

theorem TypeArena.Grown.applied {arena : TypeArena} (h : arena.Grown) {base : TypeId}
    {args : List TypeId} (hb : base < arena.size) (ha : ∀ x ∈ args, x < arena.size) :
    (arena.applied base args).2.Grown ∧ arena.Extends (arena.applied base args).2 := by
  have hinterns := applied_interns arena base args
  have hext := hinterns.extension
  refine ⟨⟨hinterns.indexed h.indexed ?_, h.extension.trans hext⟩, hext⟩
  rw [TypeKind.ids_applied]
  exact List.forall_mem_cons.mpr ⟨hb, ha⟩

theorem TypeArena.Grown.var {arena : TypeArena} (h : arena.Grown) (name : String)
    {constraint : TypeId} (hc : constraint < arena.size) :
    (arena.var name constraint).2.Grown ∧ arena.Extends (arena.var name constraint).2 :=
  have hext := Extends.var arena name constraint
  ⟨⟨h.indexed.var name hc, h.extension.trans hext⟩, hext⟩

theorem TypeArena.Interns.interned?_cases {arena arena' : TypeArena} {kind k : TypeKind}
    {id x : TypeId} (h : arena.Interns kind id arena') (hx : arena'.interned? k = some x) :
    arena.interned? k = some x ∨ arena.interned? kind = none ∧ k = kind ∧ x = id := by
  cases h with
  | found _ => exact .inl hx
  | added hnone _ hindex =>
    rw [hindex] at hx
    split at hx
    · rename_i heq
      exact .inr ⟨hnone, heq, (Option.some.inj hx).symm⟩
    · exact .inl hx

/-- A new applied type is named after its parts. -/
theorem TypeArena.name_applied {arena : TypeArena} {base : TypeId} {args : List TypeId}
    (h : arena.interned? (.applied base args) = none) :
    (arena.applied base args).2.name (arena.applied base args).1 =
      arena.name base ++ "[" ++ ", ".intercalate (arena.names args) ++ "]" := by
  have hl : arena.appliedIndex.lookup (base, args) = none := h
  rw [TypeArena.applied, hl]
  dsimp only [add]
  rw [name, get_of_push_self rfl]

namespace ArraysNamed

variable {arena arena' : TypeArena} (hn : ArraysNamed arena) (h : arena.Grown)
include hn h

theorem old (hext : arena.Extends arena') {element id : TypeId}
    (hid : arena.interned? (.applied .array [element]) = some id) :
    arena'.name id = "Array[" ++ arena'.name element ++ "]" := by
  obtain ⟨hlt, hkind, -⟩ := h.indexed.index hid
  -- The elements are older than the type.
  have hother : element < id := by
    refine h.indexed.toOrdered.elders id element (List.mem_append_right _ ?_)
    rw [hkind]
    exact List.mem_cons_of_mem _ (List.mem_singleton_self _)
  rw [hext.name_eq hlt, hext.name_eq (Nat.lt_trans hother hlt), hn element id hid]

theorem applied {base : TypeId} {args : List TypeId} (hb : base < arena.size)
    (ha : ∀ x ∈ args, x < arena.size) : ArraysNamed (arena.applied base args).2 := by
  obtain ⟨-, hext⟩ := h.applied hb ha
  intro element id hid
  rcases (applied_interns arena base args).interned?_cases hid with hold | ⟨hnone, hk, rfl⟩
  · exact hn.old h hext hold
  · obtain ⟨rfl, rfl⟩ : TypeId.array = base ∧ [element] = args := by
      cases hk
      exact ⟨rfl, rfl⟩
    have harray : arena.name .array = "Array" := h.extension.name_eq (by decide)
    rw [hext.name_eq (ha element (List.mem_singleton_self element)), name_applied hnone, harray, names,
      List.map_singleton, String.intercalate_singleton]
    rfl

theorem var (name : String) (constraint : TypeId) : ArraysNamed (arena.var name constraint).2 := by
  intro element id hid
  refine hn.old h (.var arena name constraint) ?_
  rcases var_cases arena name constraint with ⟨_, -, heq⟩ | ⟨hnone, -, -⟩
  · rwa [heq] at hid
  · rwa [TypeArena.var, hnone] at hid

end ArraysNamed

namespace TypeArena.Tidy

variable {arena : TypeArena} (h : arena.Tidy)
include h

theorem applied {base : TypeId} {args : List TypeId} (hb : base < arena.size)
    (ha : ∀ x ∈ args, x < arena.size) :
    (arena.applied base args).2.Tidy ∧ arena.Extends (arena.applied base args).2 := by
  obtain ⟨hgrown, hext⟩ := h.grown.applied hb ha
  exact ⟨⟨hgrown, h.named.applied h.grown hb ha,
    h.vars.grown (applied_varIndex arena base args) hext.size_le⟩, hext⟩

theorem arrayOf {element : TypeId} (he : element < arena.size) :
    (arena.arrayOf element).2.Tidy ∧ arena.Extends (arena.arrayOf element).2 :=
  h.applied (h.grown.lt_size (by decide)) (List.forall_mem_singleton.mpr he)

/-- A type variable may be added. -/
theorem var (name : String) {constraint : TypeId} (hc : constraint < arena.size) :
    (arena.var name constraint).2.Tidy ∧ arena.Extends (arena.var name constraint).2 := by
  obtain ⟨hgrown, hext⟩ := h.grown.var name hc
  exact ⟨⟨hgrown, h.named.var h.grown name constraint, (h.vars.var name constraint).1⟩, hext⟩

end TypeArena.Tidy

/-! ## Cells that are added -/

theorem Value.Basic.tag_eq {heap heap' : Heap} {value : Value} (h : value.Basic D heap)
    (hc : heap.KeptIn heap') : value.tag heap' = value.tag heap := by
  cases value with
  | array address =>
    obtain ⟨items, type, ha⟩ := h
    obtain ⟨items', ha'⟩ := hc _ _ _ ha
    rw [tag, tag, Heap.arrayType_eq ha, Heap.arrayType_eq ha']
  | _ => rfl

/-- The elements of an array are basic. -/
theorem Heap.Sound.items_basic {heap : Heap} {arena : TypeArena} (h : heap.Sound D arena)
    {address : Nat} : ∀ v ∈ (heap.items address).toList, v.Basic D heap := by
  intro v hv
  rw [items] at hv
  cases hc : heap.cells[address]? with
  | none => rw [hc] at hv; cases hv
  | some cell =>
    rw [hc] at hv
    cases cell with
    | array items type => exact (h address _ hc).1 v hv
    | object entries => cases hv

/-- The values that an object holds are basic. -/
theorem Heap.Sound.entries_basic {heap : Heap} {arena : TypeArena} (h : heap.Sound D arena)
    {address : Nat} : ∀ e ∈ heap.entries address, e.2.Basic D heap := by
  intro e he
  rw [entries] at he
  cases hc : heap.cells[address]? with
  | none => rw [hc] at he; cases he
  | some cell =>
    rw [hc] at he
    cases cell with
    | array items type => cases he
    | object entries => exact h address _ hc e he

theorem elementType_eq {heap heap' : Heap} {items : List Value} (h : ∀ v ∈ items, v.Basic D heap)
    (hc : heap.KeptIn heap') : elementType heap' items = elementType heap items := by
  have hmap : items.map (Value.tag heap') = items.map (Value.tag heap) :=
    List.map_congr_left fun v hv => (h v hv).tag_eq hc
  rw [elementType, elementType, hmap]

theorem Cell.Sound.grown {heap heap' : Heap} {arena arena' : TypeArena} {address : Nat} {cell : Cell}
    (h : cell.Sound D heap arena address)
    (hc : heap.KeptIn heap')
    (hi : arena.Indexed) (he : arena.Extends arena') : cell.Sound D heap' arena' address := by
  cases cell with
  | array items type =>
    obtain ⟨hitems, ⟨element, helement, hindex⟩, hpristine⟩ := h
    refine ⟨fun v hv => (hitems v hv).mono hc,
      ⟨element, helement.grown hi he, he.interned?_eq hi hindex⟩, fun hD => ⟨(hpristine hD).older, ?_⟩⟩
    rw [elementType_eq hitems hc]
    exact he.interned?_eq hi (hpristine hD).marked
  | object entries => exact fun e hmem => (h e hmem).mono hc

namespace Session

variable {t : Session}

namespace Sound

variable (h : t.Sound D)
include h

/-- Names may be bound to basic values. -/
theorem withScopes {scopes : ScopeTree Value} (hs : scopes.All (Value.Basic D t.heap)) :
    ({ t with scopes } : Session).Sound D := { h with scopes := hs }

/-- Types may be added. -/
theorem withArena {arena : TypeArena} (ha : arena.Tidy) (he : t.arena.Extends arena) :
    ({ t with arena } : Session).Sound D where
  tidy := ha
  heap address cell hc := (h.heap address cell hc).grown (.refl _) h.grown.indexed he
  scopes := h.scopes
  operators := h.operators.grown operatorTable_plain h.grown ha.grown he
  functions := h.functions.grown functionTable_plain h.grown ha.grown he
  methods := h.methods.grown h.grown.indexed he ha.grown.indexed
  builtin := h.builtin
  declared e he' hname := (h.declared e he' hname).grown h.grown ha.grown he

theorem withCell {cell : Cell} (hcell : cell.Sound D t.heap t.arena t.heap.size) :
    ({ t with heap := (t.heap.alloc cell).2 } : Session).Sound D where
  tidy := h.tidy
  heap address found hc := by
    rw [Heap.alloc, Array.getElem?_push] at hc
    split at hc
    · rename_i heq
      rw [heq, ← Option.some.inj hc]
      exact hcell.grown (.alloc _ _) h.grown.indexed (.refl _)
    · exact (h.heap address found hc).grown (.alloc _ _) h.grown.indexed (.refl _)
  scopes := h.scopes.mono fun _ hb => hb.mono (.alloc _ _)
  operators := h.operators
  functions := h.functions
  methods := h.methods
  builtin := h.builtin
  declared := h.declared

/-- A function may be replaced by what it has become while it remembers more. -/
theorem withFunction {name : String} {f f' : GenericFunction FunctionBody}
    (hf : t.functions.lookup name = some f) (hm : f'.methods = f.methods)
    (hf' : f'.Faithful t.arena) :
    ({ t with functions := Assoc.insert name f' t.functions } : Session).Sound D where
  tidy := h.tidy
  heap := h.heap
  scopes := h.scopes
  operators := h.operators
  functions := h.functions.insert hf hm hf'
  methods := h.methods
  builtin e he hname := by
    rcases Assoc.eq_or_mem_of_mem_insert he with rfl | he
    · rw [GenericFunction.declaration?_congr hm]
      exact h.builtin _ (Assoc.mem_of_lookup hf) hname
    · exact h.builtin e he hname
  declared e he hname := by
    rcases Assoc.eq_or_mem_of_mem_insert he with rfl | he
    · obtain ⟨typeVars, params, body, scope, hd, hmethods, -⟩ :=
        h.declared _ (Assoc.mem_of_lookup hf) hname
      exact ⟨typeVars, params, body, scope, hd, hm.trans hmethods, hf'⟩
    · exact h.declared e he hname

end Sound

end Session

/-! ## Claims -/

/-- Nothing in particular is required. -/
def anything {α : Type} : Claim α := fun _ _ => True

def basicValue (D : Dialect) : Claim Value := fun t value => value.Basic D t.heap

def basicValues (D : Dialect) : Claim (List Value) := fun t values => ∀ v ∈ values, v.Basic D t.heap

def basicEntries (D : Dialect) : Claim (List (String × Value)) := fun t entries =>
  ∀ e ∈ entries, e.2.Basic D t.heap

theorem basicValues.grows {t t' : Session} {values : List Value} (h : basicValues D t values)
    (hg : t.Grows t') : basicValues D t' values := fun v hv => (h v hv).grows hg

theorem basicEntries.grows {t t' : Session} {entries : List (String × Value)}
    (h : basicEntries D t entries) (hg : t.Grows t') : basicEntries D t' entries :=
  fun e he => (h e he).grows hg

/-! ## Rules -/

namespace Agree

variable {t : Session} {α : Type} {P : Claim α}

/-- An agreement may be shown for sound sessions only. -/
theorem ofSound {x y : Eval α} (h : t.Sound D → Agree D t x y P) : Agree D t x y P := fun hs => h hs hs

/-- The dispatch strategy may first do something that the direct strategy knows nothing of. -/
theorem ahead {x y y' : Eval α} {t' : Session} (h : Agree D t' x y' P) (hu : t'.untyped = t.untyped)
    (hg : t.Grows t') (hs : t.Sound D → t'.Sound D) (hy : y t = y' t') : Agree D t x y P := by
  intro hsound
  have hxy := h (hs hsound)
  rw [hu, ← hy] at hxy
  exact hxy.after hg

theorem lookup (scope : ScopeId) (name : String) :
    Agree D t (Eval.lookup scope name) (Eval.lookup scope name)
      fun t found => ∀ value, found = some value → value.Basic D t.heap :=
  ofSound fun hs => read (fun s => s.scopes.get? scope name) rfl fun _ hv => hs.scopes.get? hv

theorem define (scope : ScopeId) (name : String) {value : Value} (hv : value.Basic D t.heap) :
    Agree D t (Eval.define scope name value) (Eval.define scope name value) anything :=
  modifyGet rfl ⟨.refl _, .refl _⟩ (fun hs => hs.withScopes (hs.scopes.define hv)) trivial

theorem assign (scope : ScopeId) (name : String) {value : Value} (hv : value.Basic D t.heap) :
    Agree D t (Eval.assign scope name value) (Eval.assign scope name value) anything :=
  modifyGet rfl ⟨.refl _, .refl _⟩ (fun hs => hs.withScopes (hs.scopes.assign hv)) trivial

theorem defineAll (scope : ScopeId) {bindings : List (String × Value)}
    (h : basicEntries D t bindings) :
    Agree D t (Eval.defineAll scope bindings) (Eval.defineAll scope bindings) anything := by
  induction bindings generalizing t with
  | nil => exact pure trivial
  | cons binding bindings ih =>
    obtain ⟨hb, hbs⟩ := List.forall_mem_cons.mp h
    exact (define scope binding.1 hb).bind fun _ t' hg _ =>
      ih (basicEntries.grows hbs hg)

theorem newScope (parent : ScopeId) :
    Agree D t (Eval.newScope parent) (Eval.newScope parent) anything :=
  modifyGet rfl ⟨.refl _, .refl _⟩ (fun hs => hs.withScopes (hs.scopes.child parent)) trivial

theorem newId : Agree D t Eval.newId Eval.newId anything :=
  modifyGet rfl ⟨.refl _, .refl _⟩ (fun hs => { hs with }) trivial

theorem printLine (line : String) : Agree D t (Eval.printLine line) (Eval.printLine line) anything := by
  refine modifyGet ?_ ?_ (fun hs => ?_) trivial <;> dsimp only [Session.untyped] <;>
    by_cases hp : t.printing = true
  · rw [if_pos hp, if_pos hp]
  · rw [if_neg hp, if_neg hp]
  · rw [if_pos hp]
    exact ⟨.refl _, .refl _⟩
  · rw [if_neg hp]
    exact .refl _
  · rw [if_pos hp]
    exact { hs with }
  · rw [if_neg hp]
    exact hs

theorem text (value : Value) : Agree D t (Eval.text value) (Eval.text value) anything :=
  read (fun s => value.text s.heap) (Value.text_untyped t.heap value) trivial

theorem texts (values : List Value) : Agree D t (Eval.texts values) (Eval.texts values) anything :=
  read (fun s => values.map (·.text s.heap))
    (List.map_congr_left fun v _ => Value.text_untyped t.heap v) trivial

/-- Both name the type of a value alike, the one by its shape and the other by what it is marked with, as long as arrays
are left as they are. -/
theorem typeText (hD : D.steady = true) {value : Value} (h : value.Basic D t.heap) :
    Agree D t (Eval.typeText .direct value) (Eval.typeText .dispatch value) anything := by
  refine ofSound fun hs => ?_
  have hname : value.shapeName t.untyped.heap = t.arena.name (value.tag t.heap) :=
    (Value.shapeName_untyped t.heap value).trans (hs.heap.name_tag hs.grown hs.named hD h).symm
  refine get (f := fun s => Pure.pure (value.shapeName s.heap))
    (g := fun s => Pure.pure (s.arena.name (value.tag s.heap))) ?_
  rw [hname]
  exact pure trivial

theorem equal (a b : Value) : Agree D t (Eval.equal a b) (Eval.equal a b) anything :=
  read (fun s => a.equal s.heap b) (Value.equal_untyped t.heap a b) trivial

theorem check (result : Except Fault α) (h : ∀ a, result = .ok a → P t a) :
    Agree D t (Eval.check result) (Eval.check result) P := by
  cases result with
  | ok a => exact pure (h a rfl)
  | error e => exact fails ⟨_, _, rfl⟩ ⟨_, _, rfl⟩

theorem checkNumber (result : Except NumberFault α) (h : ∀ a, result = .ok a → P t a) :
    Agree D t (Eval.checkNumber result) (Eval.checkNumber result) P := by
  cases result with
  | ok a => exact pure (h a rfl)
  | error e => exact fails ⟨_, _, rfl⟩ ⟨_, _, rfl⟩

theorem items (address : Nat) :
    Agree D t (Eval.items address) (Eval.items address) (basicValues D) := by
  refine ofSound fun hs => read (fun s => (s.heap.items address).toList) ?_ fun v hv => ?_
  · exact congrArg Array.toList (Heap.items_untyped t.heap address)
  · exact hs.heap.items_basic v hv

theorem alloc {cell : Cell} (h : cell.Sound D t.heap t.arena t.heap.size) :
    Agree D t (Eval.alloc cell.untyped) (Eval.alloc cell)
      fun t address => t.heap.cells[address]? = some cell := by
  refine modifyGet ?_ ⟨.alloc _ _, .refl _⟩ (fun hs => hs.withCell h) Array.getElem?_push_size
  simp [Session.untyped, Heap.alloc, Heap.untyped, Heap.size]

theorem newObject {entries : List (String × Value)} (h : basicEntries D t entries) :
    Agree D t (Eval.newObject entries) (Eval.newObject entries) (basicValue D) :=
  (@alloc D t (.object entries) h).bind fun _ _ _ _ => pure trivial

/-- Making an array agrees, although only one of the strategies gives it a type. -/
theorem newArray {items : List Value} (h : basicValues D t items) :
    Agree D t (Eval.newArray .direct items) (Eval.newArray .dispatch items) (basicValue D) := by
  refine ofSound fun hs => ?_
  have helement : IsShape t.arena (elementType t.heap items) := by
    rcases elementType_cases t.heap items with hany | ⟨v, hv, htag⟩
    · rw [hany]
      exact .builtin (by decide)
    · rw [htag]
      exact hs.heap.tag_isShape (h v hv)
  obtain ⟨htidy, hext⟩ := hs.tidy.arrayOf (helement.lt hs.grown)
  have hsound := hs.withArena htidy hext
  let type := (t.arena.arrayOf (elementType t.heap items)).1
  let t' : Session := { t with arena := (t.arena.arrayOf (elementType t.heap items)).2 }
  have hcell : (Cell.array items.toArray type).Sound D t'.heap t'.arena t'.heap.size := by
    have hmarked := (applied_interns t.arena .array [elementType t.heap items]).interned?_eq
    refine ⟨h, ⟨_, helement.grown hs.grown.indexed hext, hmarked⟩, fun _ => ⟨fun inner hv => ?_, hmarked⟩⟩
    obtain ⟨items', type', hc⟩ := h _ hv
    exact (Array.getElem?_eq_some_iff.mp hc).1
  have hstore : Agree D t' (do return .array (← Eval.alloc (.array items.toArray .any)))
      (do return .array (← Eval.alloc (.array items.toArray type))) (basicValue D) :=
    bind (Q := basicValue D) (alloc hcell) fun _ _ _ hc => pure ⟨_, _, hc⟩
  exact ahead hstore rfl ⟨.refl _, hext⟩ (fun _ => hsound) rfl

end Agree

end DispatchLang
