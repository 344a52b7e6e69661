import DispatchLang.Proofs.Eval.Constraints
import DispatchLang.Proofs.Eval.FailedDeclarations
import DispatchLang.Proofs.Eval.Heeding
import DispatchLang.Proofs.Typing.Balance

/-!
# What names stand for where something is declared

A call respects the constraints of a declaration if names stood for types in which no type variables are left when the
declaration was looked at (`TypeArena.Environment`).

The checker keeps the names of types apart from all others, and only declarations make such names. A declared type is
made of no others, so names are as they should be in every state of the checker.

A session begins with such names as well, and declarations add only such names, also those that fail. Calls need not:
within a function the name of a type parameter stands for a type of an argument, and if a type has been placed below one that
mentions a type parameter of its own declaration, that may be a type variable. A constraint that comes later may then be
missed although it mentions no type parameter at all (`foreign_constraint_missed`).

## Main results

* `Checker.LeadsTo.environment`, `Checker.environment_kept`: names stand for the right types in every state of a checker,
  and so do the type parameters of the declarations that it is inside.
* `Eval.declaration_environment`: declarations that are evaluated leave it so.
-/

namespace DispatchLang

open TypeArena

/-! ## Names of a checker -/

namespace Checker

variable {base : TypeArena} {c : Checker}

theorem Sound.environment (h : c.Sound base) : Environment (c.types.lookup ·) [] c.arena where
  regular := h.regular
  types hid :=
    have hmem := Assoc.mem_of_lookup hid
    over_of_parts h.regular.indexed.toOrdered (h.known.types _ hmem) (h.declared _ hmem)
  vars h := nomatch h

/-- In every state of a checker the names of types stand for types without type variables. -/
theorem LeadsTo.environment (h : initial.LeadsTo c) : Environment (c.types.lookup ·) [] c.arena :=
  (h.sound initial_sound).environment

/-- Inside declarations names remain as they should be, after every node and when type parameters are entered. -/
theorem environment_kept (hs : c.Sound base) (h : Environment (c.types.lookup ·) c.typeVars c.arena) :
    (∀ inPlace node, let c' := (Check.infer inPlace node c).2
      Environment (c'.types.lookup ·) c'.typeVars c'.arena) ∧
    ∀ params, let c' := (Check.enterTypeParams params c).2
      Environment (c'.types.lookup ·) c'.typeVars c'.arena := by
  refine ⟨fun inPlace node => ?_, fun params => ?_⟩
  · have hs' := (Check.Keeps.infer inPlace node hs.self).1
    dsimp only
    rw [((scopes_balanced c).1 inPlace node).2.1]
    exact { hs'.environment with vars := (h.grown hs'.extension hs'.regular).vars }
  · obtain ⟨harena, htypes, hlookup⟩ := Check.enterTypeParams_gives params fun _ => rfl
    obtain ⟨-, hentered⟩ := typeVarsOf_environment h params
    replace hentered := hentered.congr hlookup
    rwa [← harena, ← htypes] at hentered

end Checker

/-! ## Names of a session -/

/-- A type that is there and made of no others. -/
def TypeArena.Partless (arena : TypeArena) (id : TypeId) : Prop := id < arena.size ∧ (arena.get id).kind.parts = []

/-- From one session to a later one, names have only come to stand for types that are made of no others, and such types
have stayed so. -/
structure Session.NamesDeclared (t s : Session) : Prop where
  partless : ∀ {id}, t.arena.Partless id → s.arena.Partless id
  names : ∀ {i name id}, s.knownTypes i name = some id → t.knownTypes i name = some id ∨ s.arena.Partless id

namespace Session.NamesDeclared

variable {s t u : Session} {scope : ScopeId}

theorem refl (t : Session) : t.NamesDeclared t := ⟨id, .inl⟩

theorem trans (h : t.NamesDeclared s) (h' : s.NamesDeclared u) : t.NamesDeclared u :=
  ⟨h'.partless ∘ h.partless, fun hid => (h'.names hid).elim (fun hs => (h.names hs).imp_right h'.partless) .inr⟩

theorem ofLeft (h : t.Left scope [] s) : t.NamesDeclared s := by
  refine ⟨fun {id} ⟨hid, hp⟩ => ?_, fun hid => .inl ?_⟩
  · obtain ⟨more, hmore⟩ := h.types
    have hget : s.arena.get id = t.arena.get id := by
      rw [TypeArena.get, hmore, Array.getElem?_append_left hid, TypeArena.get]
    have hsize : t.arena.size ≤ s.arena.size := by
      rw [TypeArena.size, TypeArena.size, hmore, Array.size_append]
      exact Nat.le_add_right _ _
    exact ⟨Nat.lt_of_lt_of_le hid hsize, hget ▸ hp⟩
  · rw [h.rest] at hid
    exact hid

/-- A name may be bound to anything but a type that is made of others. -/
theorem define (t : Session) (scope : ScopeId) (name : String) {value : Value}
    (hv : ∀ id shown, value = .typeRef id shown → t.arena.Partless id) :
    t.NamesDeclared { t with scopes := t.scopes.define scope name value } := by
  refine ⟨id, fun {i other id} hid => ?_⟩
  rw [knownTypes] at hid
  rcases t.scopes.get?_define_cases scope i name other value with hget | hget <;> rw [hget] at hid
  · right
    cases value with
    | typeRef id' shown => exact Option.some.inj hid ▸ hv id' shown rfl
    | _ => cases hid
  · exact .inl hid

theorem redefine (t : Session) {id : TypeId} {d : TypeDef} (hid : id < t.arena.size) (hd : d.kind.parts = []) :
    t.NamesDeclared { t with arena := t.arena.redefine id d } := by
  refine ⟨fun {x} ⟨hx, hp⟩ => ⟨Nat.lt_of_lt_of_eq hx size_redefine.symm, ?_⟩, .inl⟩
  rw [get_redefine hid]
  split
  · exact hd
  · exact hp

end Session.NamesDeclared

namespace Eval

/-- Whether a computation succeeds or not, names come to stand only for types that are made of no others. -/
def DeclaresNames {α : Type} (t : Session) (x : Eval α) : Prop := ∀ s, Ends x t s → t.NamesDeclared s

namespace DeclaresNames

variable {α β : Type} {t : Session} {x : Eval α}

theorem pure (a : α) : DeclaresNames t (Pure.pure a) := by
  rintro s (h | h) <;> cases h
  exact .refl t

theorem bind {f : α → Eval β} (h : DeclaresNames t x)
    (hf : ∀ a s, x t = .ok a s → t.NamesDeclared s → DeclaresNames s (f a)) : DeclaresNames t (x >>= f) := by
  intro u hends
  rcases hends.bind_cases with ⟨halt, hx⟩ | ⟨a, s, hx, hfa⟩
  · exact h u (.error hx)
  · exact (h s (.ok hx)).trans (hf a s hx (h s (.ok hx)) u hfa)

theorem ofOnlyTypes (h : OnlyTypes x) : DeclaresNames t x := by
  rintro s (hx | hx)
  · exact .ofLeft (h.ok ScopeTree.root hx)
  · exact .ofLeft (h.error ScopeTree.root hx).1

theorem define (scope : ScopeId) (name : String) {value : Value}
    (hv : ∀ id shown, value = .typeRef id shown → t.arena.Partless id) :
    DeclaresNames t (Eval.define scope name value) := by
  rintro s (h | h) <;> cases h
  exact .define t scope name hv

theorem defineType (scope : ScopeId) (name : String) {id : TypeId} (hid : t.arena.Partless id) :
    DeclaresNames t (Eval.define scope name (.typeRef id name)) :=
  define scope name fun _ _ h => (Value.typeRef.inj h).1 ▸ hid

theorem redefine {id : TypeId} {d : TypeDef} (hid : t.arena.Partless id) (hd : d.kind.parts = []) :
    DeclaresNames t (modify fun s => { s with arena := s.arena.redefine id d }) := by
  rintro s (h | h) <;> cases h
  exact .redefine t hid.1 hd

/-- What follows the addition of a type knows it. -/
theorem add {d : TypeDef} (hd : d.kind.parts = []) {f : TypeId → Eval β}
    (hf : ∀ s id, s.arena.Partless id → DeclaresNames s (f id)) :
    DeclaresNames t (Eval.modifyTypes (·.add d) >>= f) := by
  refine (ofOnlyTypes (.modifyTypes (·.types_add d))).bind fun id s hadd _ => hf s id ?_
  cases hadd
  exact ⟨size_lt_add _ _, by rw [get_of_push_self rfl, hd]⟩

end DeclaresNames

end Eval

namespace Dispatch

open Eval (DeclaresNames)

variable {t : Session} {vars : Bindings} {scope : ScopeId}

theorem variantValue_ne_typeRef {type : TypeId} {typeName variant : String} {fields : FieldTypes} {value : Value}
    {s : Session} (h : variantValue type typeName variant fields t = .ok value s) (id : TypeId) (shown : String) :
    value ≠ .typeRef id shown := by
  rw [variantValue] at h
  intro hv
  split at h <;> cases h <;> cases hv

theorem declaresNames_declareVariants (type : TypeId) (typeName : String) (alternatives : List VariantDecl) :
    DeclaresNames t (declareVariants vars scope type typeName alternatives) := by
  induction alternatives generalizing t with
  | nil => exact .pure _
  | cons v alternatives ih =>
    rw [declareVariants]
    refine (DeclaresNames.ofOnlyTypes (onlyTypes_resolveFields vars scope v.fields)).bind fun fields u _ _ => ?_
    have hvariant : DeclaresNames u (variantValue type typeName v.name.val fields) := by
      obtain ⟨value, w, hvalue, hleft⟩ := exists_variantValue scope type typeName v.name.val fields u
      rintro s (h | h) <;> rw [hvalue] at h <;> cases h
      exact .ofLeft hleft
    refine hvariant.bind fun value w hvalue _ => ?_
    exact (DeclaresNames.define scope v.name.val fun id shown h => (variantValue_ne_typeRef hvalue id shown h).elim).bind
      fun _ _ _ _ => ih.bind fun _ _ _ _ => .pure _

theorem declaresNames_declareType (decl : TypeDecl) : DeclaresNames t (declareType decl scope) := by
  have named (u : Session) (id : TypeId) (hid : u.arena.Partless id) : DeclaresNames u (do
      Eval.define scope decl.name.val (.typeRef id decl.name.val)
      return Value.typeRef id decl.name.val) :=
    (DeclaresNames.defineType scope decl.name.val hid).bind fun _ _ _ _ => .pure _
  rw [declareType]
  refine (DeclaresNames.ofOnlyTypes (onlyTypes_typeParams [] scope decl.typeParams)).bind fun vars u _ _ => ?_
  refine (DeclaresNames.ofOnlyTypes (onlyTypes_resolveOption vars scope decl.parent)).bind fun parent v _ _ => ?_
  cases decl.body with
  | abstract => exact .add rfl named
  | concrete => exact .add rfl named
  | struct fields =>
    refine .add rfl fun w id hid => (DeclaresNames.defineType scope decl.name.val hid).bind fun _ w₁ _ h₁ => ?_
    refine (DeclaresNames.ofOnlyTypes (onlyTypes_resolveFields vars scope fields)).bind fun _ w₂ _ h₂ => ?_
    have hid₂ := h₂.partless (h₁.partless hid)
    exact (DeclaresNames.redefine hid₂ rfl).bind fun _ w₃ _ h₃ => named w₃ id (h₃.partless hid₂)
  | variants alternatives =>
    refine .add rfl fun w id hid => (DeclaresNames.defineType scope decl.name.val hid).bind fun _ w₁ _ h₁ => ?_
    refine (declaresNames_declareVariants id decl.name.val alternatives).bind fun _ w₂ _ h₂ => ?_
    have hid₂ := h₂.partless (h₁.partless hid)
    exact (DeclaresNames.redefine hid₂ rfl).bind fun _ w₃ _ h₃ => named w₃ id (h₃.partless hid₂)

theorem declaresNames_declareFunction (head : FunctionHead) (body : Node) :
    DeclaresNames t (declareFunction head body scope) := by
  rw [declareFunction]
  refine (DeclaresNames.ofOnlyTypes (onlyTypes_typeParams [] scope head.typeParams)).bind fun vars u _ _ => ?_
  refine (DeclaresNames.ofOnlyTypes (onlyTypes_resolveParams vars scope head.params)).bind fun signature v _ _ => ?_
  refine DeclaresNames.bind (fun s hends => ?_) fun _ w _ _ => ?_
  · rcases hends with h | h <;> cases h
    exact ⟨id, .inl⟩
  · exact (DeclaresNames.define scope head.name.val fun _ _ h => by cases h).bind fun _ _ _ _ => .pure _

end Dispatch

/-- **Declarations leave names as they should be**, whether they succeed or not. -/
theorem Eval.declaration_environment {d : Dispatcher} {t s : Session} {n : Nat} {node : Node} {scope i : ScopeId}
    (hl : t.Like d) (hnode : node.IsDeclaration) (h : Environment (t.knownTypes i) [] t.arena)
    (hends : Ends (eval .dispatch n node scope) t s) : Environment (s.knownTypes i) [] s.arena := by
  obtain ⟨hr, he⟩ : s.arena.Regular ∧ t.arena.Extends s.arena := by
    have hmatches := eval_transparent n node scope t d hl
    generalize eval .dispatch n node scope (t.equip d) = r' at hmatches
    rcases hends with hrun | hrun <;> rw [hrun] at hmatches
    · cases hmatches with
      | given hl' he _ => exact ⟨hl'.formed.regular, he⟩
    · cases hmatches with
      | halted hl' he => exact ⟨hl'.formed.regular, he⟩
  have hnames : t.NamesDeclared s := by
    cases n with
    | zero =>
      rcases hends with hrun | hrun <;> cases hrun
      exact .refl t
    | succ n =>
      cases node with
      | typeDecl span decl => exact Dispatch.declaresNames_declareType decl s hends.of_located
      | function span head body => exact Dispatch.declaresNames_declareFunction head body s hends.of_located
      | _ => cases hnode
  refine ⟨hr, fun hid => ?_, nofun⟩
  rcases hnames.names hid with hid | ⟨hlt, hparts⟩
  · exact (h.types hid).grown he h.regular.indexed.toOrdered
  · exact over_of_parts hr.indexed.toOrdered hlt hparts

/-! ## A name that stands for a type variable of another declaration -/

/-- A call of `f` binds `S` to the type variable of the declaration of `P`, and `z` keeps it. -/
def foreignName : String :=
  "type P[T] <: Array[T] \x7b x: Int \x7d; fn f[S](x: Array[S]) := S; z := f(P \x7b x: 1 \x7d); fn g[T <: Int](u: z, a: T) := a"

def foreignSession : Session := ((Session.fresh .dispatch .standard).feed .dispatch foreignName).2

/-- The variables of `P` and of `g` have the same name, and only the constraint of the first one is looked at: with two
strings, `g` has the type parameter `T <: Int` bound to `String`. -/
theorem foreign_constraint_missed :
    foreignSession.knownTypes ScopeTree.root "z" = some 12 ∧
      foreignSession.arena.get 12 = ⟨"T", .var .any, none⟩ ∧ foreignSession.arena.get 17 = ⟨"T", .var .int, none⟩ ∧
      (foreignSession.functions.lookup "g").map (fun f => f.methods.map fun m => (m.typeVars, m.signature)) =
        some [([17], [12, 17])] ∧
      foreignSession.arena.unifySignature? [12, 17] [.string, .string] = some [("T", .string)] ∧
      foreignSession.arena.isSubtype .string .int = false := by
  decide +kernel

/-- So names are not as they should be in every session. -/
theorem foreignSession_names : ¬Environment (foreignSession.knownTypes ScopeTree.root) [] foreignSession.arena := by
  intro h
  have hvars : foreignSession.arena.hasVars 12 = true := by decide +kernel
  rw [(h.types foreign_constraint_missed.1).hasVars_eq_false] at hvars
  cases hvars

end DispatchLang
