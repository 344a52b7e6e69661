import DispatchLang.Proofs.Typing.Visibility
import Mathlib.Order.Defs.Unbundled

/-!
# Scopes and type variables are left as they were entered

The checker enters a scope for a block, for the body of a function and for each arm, and type variables for each
declaration. Whatever it finds wrong inside, it goes on and leaves both again: inference ends with as many scopes and
with the same type variables as it began with (`Checker.scopes_balanced`). What is bound inside may change the types of
names that are bound outside, since an assignment reaches them, but it binds no new name there.

A name list per scope is all that has to be followed. A step is `Widened` if only the innermost list grows, at its
end, and it is `Sealed` if no list changes; both say nothing about types. Since scopes are entered only by `inScope`,
which turns the first kind of step into the second, one induction over the syntax is enough.

## Main definitions

* `Checker.names`: the names that each scope binds.
* `Checker.Balanced`, `Checker.Sealed`: what inference does to them.

## Main results

* `Check.Leads.infer`: inference is balanced.
* `Checker.scopes_balanced`: and does not leak names from blocks, functions and arms.
-/

namespace DispatchLang

/-! ## The names of scopes -/

theorem Assoc.names_insert {α : Type} (name : String) (value : α) (entries : List (String × α)) :
    (Assoc.insert name value entries).map Prod.fst =
      entries.map Prod.fst ++ if (entries.lookup name).isSome then [] else [name] := by
  induction entries with
  | nil => rfl
  | cons entry entries ih =>
    obtain ⟨key, old⟩ := entry
    by_cases hkey : key = name
    · simp [Assoc.insert, hkey]
    · have hother : (name == key) = false := beq_eq_false_iff_ne.mpr (Ne.symm hkey)
      simp only [Assoc.insert, if_neg hkey, List.map_cons, ih, List.lookup_cons, hother, List.cons_append]

namespace Checker

/-- The names that the scopes bind, scope by scope. -/
def names (c : Checker) : List (List String) := c.scopes.map (List.map Prod.fst)

/-- Only the innermost scope binds more names than before. -/
def Widened (c c' : Checker) : Prop := ∃ more, c'.names = c.names.modifyHead (· ++ more)

/-- The scopes bind the same names as before. -/
def SameNames (c c' : Checker) : Prop := c'.names = c.names

/-- Only the innermost scope binds more names, and the type variables are those of before. -/
structure Balanced (c c' : Checker) : Prop where
  widened : Widened c c'
  typeVars : c'.typeVars = c.typeVars

/-- The scopes bind the same names, and the type variables are those of before. -/
structure Sealed (c c' : Checker) : Prop where
  names : SameNames c c'
  typeVars : c'.typeVars = c.typeVars

variable {c c' : Checker}

theorem SameNames.widened (h : SameNames c c') : Widened c c' := by
  refine ⟨[], h.trans ?_⟩
  simp only [List.append_nil]
  exact (congrFun List.modifyHead_id _).symm

theorem Sealed.balanced (h : Sealed c c') : Balanced c c' := ⟨h.names.widened, h.typeVars⟩

instance : IsPreorder Checker SameNames where
  refl _ := rfl
  trans _ _ _ h h' := Eq.trans h' h

instance : IsPreorder Checker Widened where
  refl _ := SameNames.widened rfl
  trans c c' c'' h h' := by
    obtain ⟨more, h⟩ := h
    obtain ⟨further, h'⟩ := h'
    refine ⟨more ++ further, ?_⟩
    rw [h', h, List.modifyHead_modifyHead]
    congr 1
    funext scope
    simp

instance : IsPreorder Checker Balanced where
  refl c := ⟨refl c, rfl⟩
  trans _ _ _ h h' := ⟨IsTrans.trans _ _ _ h.widened h'.widened, h'.typeVars.trans h.typeVars⟩

instance : IsPreorder Checker Sealed where
  refl c := ⟨refl c, rfl⟩
  trans _ _ _ h h' := ⟨IsTrans.trans _ _ _ h.names h'.names, h'.typeVars.trans h.typeVars⟩

theorem Widened.length_eq (h : Widened c c') : c'.scopes.length = c.scopes.length := by
  obtain ⟨more, h⟩ := h
  have hlength := congrArg List.length h
  rwa [List.length_modifyHead, names, names, List.length_map, List.length_map] at hlength

/-- The scopes around the innermost one bind what they did. -/
theorem Widened.tail_eq (h : Widened c c') : c'.names.tail = c.names.tail := by
  obtain ⟨more, h⟩ := h
  rw [h, List.tail_modifyHead]

end Checker

namespace Check

open Checker (Widened SameNames Balanced Sealed names)

/-! ### Binding names -/

section

variable (name : String) (type : TypeId) (scopes : List (List (String × TypeId)))

theorem names_defineIn : ∃ more,
    (defineIn name type scopes).map (List.map Prod.fst) = (scopes.map (List.map Prod.fst)).modifyHead (· ++ more) := by
  cases scopes with
  | nil => exact ⟨[], rfl⟩
  | cons scope scopes => exact ⟨_, congrArg (· :: _) (Assoc.names_insert name type scope)⟩

/-- Binding a name again binds no new one. -/
theorem names_rebindIn? {scopes scopes' : List (List (String × TypeId))}
    (h : rebindIn? name type scopes = some scopes') :
    scopes'.map (List.map Prod.fst) = scopes.map (List.map Prod.fst) := by
  induction scopes generalizing scopes' with
  | nil => cases h
  | cons scope scopes ih =>
    rw [rebindIn?] at h
    split at h
    · next hbound =>
      cases h
      simp only [List.map_cons, Assoc.names_insert, if_pos hbound, List.append_nil]
    · obtain ⟨rest, hrest, rfl⟩ := Option.map_eq_some_iff.mp h
      simp only [List.map_cons, ih hrest]

end

/-! ## Where steps lead -/

/-- Whatever checker a step begins with, the one it ends with stands in a relation to it. -/
def Leads {α : Type} (R : Checker → Checker → Prop) (x : Check α) : Prop := ∀ c, R c (x c).2

namespace Leads

variable {α β : Type} {R S : Checker → Checker → Prop} {x : Check α}

theorem mono (h : Leads R x) (hRS : ∀ {c c'}, R c c' → S c c') : Leads S x := fun c => hRS (h c)

theorem get {f : Checker → Check α} (h : ∀ c, Leads R (f c)) : Leads R (MonadState.get >>= f) := fun c => h c c

section

variable [IsPreorder Checker R]

theorem pure (a : α) : Leads R (Pure.pure a : Check α) := fun c => refl c

theorem bind {f : α → Check β} (h : Leads R x) (hf : ∀ a, Leads R (f a)) : Leads R (x >>= f) := by
  intro c
  exact IsTrans.trans _ _ _ (h c) (hf (x c).1 (x c).2)

/-- What follows a step need be known only for what the step answers. -/
theorem followed {f : α → Check β} (h : Leads R x) (hf : ∀ c, Leads R (f (x c).1)) : Leads R (x >>= f) := by
  intro c
  exact IsTrans.trans _ _ _ (h c) (hf c (x c).2)

end

theorem still (h : Quiet x) : Leads Sealed x :=
  fun c => ⟨congrArg (List.map (List.map Prod.fst)) (h.scopes c), h.typeVars c⟩

theorem quiet (h : Quiet x) : Leads Balanced x := (still h).mono Sealed.balanced

theorem report (cause : FindingCause) (span : Span) : Leads Balanced (Check.report cause span) :=
  fun c => Sealed.balanced (c := c) ⟨rfl, rfl⟩

theorem define (name : String) (type : TypeId) : Leads Balanced (Check.define name type) :=
  fun c => ⟨names_defineIn name type c.scopes, rfl⟩

/-- An assignment binds a name in the innermost scope unless there is one to bind again. -/
theorem assign (name : String) (type : TypeId) : Leads Balanced (Check.assign name type) := by
  intro c
  have hscopes : (Check.assign name type c).2.scopes =
      (rebindIn? name type c.scopes).getD (defineIn name type c.scopes) := rfl
  refine ⟨?_, rfl⟩
  cases hrebound : rebindIn? name type c.scopes with
  | none =>
    rw [hrebound] at hscopes
    obtain ⟨more, hmore⟩ := names_defineIn name type c.scopes
    exact ⟨more, (congrArg (List.map _) hscopes).trans hmore⟩
  | some scopes =>
    rw [hrebound] at hscopes
    exact SameNames.widened ((congrArg (List.map _) hscopes).trans (names_rebindIn? name type hrebound))

theorem addMethod (name : String) (method : Method TypeId) : Leads Sealed (Check.addMethod name method) :=
  fun _ => ⟨rfl, rfl⟩

theorem defineType (name : String) (type : TypeId) : Leads Sealed (Check.defineType name type) := fun _ => ⟨rfl, rfl⟩

theorem defineVariant (name : String) (variant : VariantInfo) : Leads Sealed (Check.defineVariant name variant) :=
  fun _ => ⟨rfl, rfl⟩

/-- What is bound in a scope of its own is not bound outside. -/
theorem inScope (h : Leads Balanced x) : Leads Sealed (Check.inScope x) := by
  intro c
  obtain ⟨hwidened, hvars⟩ := h { c with scopes := [] :: c.scopes }
  refine ⟨?_, hvars⟩
  have htail := hwidened.tail_eq
  rw [names, names, ← List.map_tail, ← List.map_tail] at htail
  exact htail

/-- Type variables that are entered are left again. -/
theorem withTypeVars (h : Leads Widened x) : Leads Balanced (Check.withTypeVars x) := fun c => ⟨h c, rfl⟩

theorem withTypeVars_sealed (h : Leads SameNames x) : Leads Sealed (Check.withTypeVars x) := fun c => ⟨h c, rfl⟩

theorem enterTypeParams (params : List TypeParam) : Leads SameNames (Check.enterTypeParams params) := by
  have names {β : Type} {y : Check β} (h : Quiet y) : Leads SameNames y := (still h).mono Sealed.names
  induction params with
  | nil => exact pure _
  | cons p params ih =>
    refine (names (.resolveOption p.constraint)).bind fun _ => (names (.modifyTypes _)).bind fun id => ?_
    have henter : Leads SameNames (modify fun c => { c with typeVars := Assoc.insert p.name.val id c.typeVars }) :=
      fun _ => rfl
    exact henter.bind fun _ => ih.bind fun _ => pure _

/-! ### Patterns and declarations -/

mutual

theorem bindPattern (type : TypeId) (pattern : Node) : Leads Balanced (Check.bindPattern type pattern) := by
  have answer {id : TypeId} : Leads Balanced (do
      Check.record pattern.span id
      return id) := quiet ((Quiet.record _ id).bind fun _ => .pure _)
  have bound (name : Option String) {id : TypeId} : Leads Balanced (do
      if let some name := name then Check.define name id
      Check.record pattern.span id
      return id) := by
    cases name with
    | none => exact answer
    | some name => exact (define name id).bind fun _ => answer
  unfold Check.bindPattern
  cases pattern with
  | capture span name => exact bound name
  | refine span name inner => exact (bindPattern type inner).bind fun _ => bound name
  | construct span name fields =>
    refine (quiet (.patternFields name.val)).bind fun _ => ?_
    split
    · exact (bindFields name.val _ fields).bind fun _ => answer
    · exact (report _ _).bind fun _ => (bindFields name.val none fields).bind fun _ => answer
  | ident span name =>
    refine (quiet (.read _)).bind fun _ => ?_
    split
    · exact answer
    · exact (report _ _).bind fun _ => answer
  | literal span value => exact answer
  | _ => exact (report _ _).bind fun _ => answer

theorem bindFields (owner : String) (declared : Option FieldTypes) (fields : List (Located String × Node)) :
    Leads Balanced (Check.bindFields owner declared fields) := by
  unfold Check.bindFields
  cases fields with
  | nil => exact pure _
  | cons field fields =>
    have rest {type : TypeId} : Leads Balanced (do
        let _ ← Check.bindPattern type field.2
        Check.bindFields owner declared fields) :=
      (bindPattern type field.2).bind fun _ => bindFields owner declared fields
    cases declared with
    | none => exact rest
    | some declared => exact (quiet (.patternFieldType owner declared field.1)).bind fun _ => rest

end

theorem assignTo (target : Node) (type : TypeId) : Leads Balanced (Check.assignTo target type) := by
  cases target with
  | ident span name => exact (assign name type).bind fun _ => quiet (.record _ _)
  | construct _ _ _ | capture _ _ | refine _ _ _ => exact (bindPattern type _).bind fun _ => pure _
  | _ => exact report _ _

theorem defineParams (params : List Param) : Leads Balanced (Check.defineParams params) := by
  induction params with
  | nil => exact pure _
  | cons p params ih =>
    exact (quiet (.resolveOption p.annotation)).bind fun _ => (define p.name.val _).bind fun _ =>
      ih.bind fun _ => pure _

theorem defineAll (entries : List (String × TypeId)) :
    Leads Balanced (entries.forM fun (name, type) => Check.define name type) := by
  induction entries with
  | nil => exact pure _
  | cons entry entries ih => exact (define entry.1 entry.2).bind fun _ => ih

theorem declareVariant (vars : List TypeId) (type : TypeId) (name : String) (fields : FieldTypes) :
    Leads Balanced (Check.declareVariant vars type name fields) := by
  have known := (defineVariant name ⟨type, fields⟩).mono Sealed.balanced
  rw [Check.declareVariant]
  split
  · exact (define name type).bind fun _ => known
  · exact (quiet (.modifyTypes _)).bind fun _ => ((addMethod name _).mono Sealed.balanced).bind fun _ => known

theorem declareVariants (vars : List TypeId) (type : TypeId) (alternatives : List VariantDecl) :
    Leads Balanced (Check.declareVariants vars type alternatives) := by
  induction alternatives with
  | nil => exact pure _
  | cons v alternatives ih =>
    exact (quiet (.resolveFields v.fields)).bind fun _ => (declareVariant vars type _ _).bind fun _ =>
      ih.bind fun _ => pure _

/-- The names that a type declaration binds are those of its alternatives. -/
theorem declareType (decl : TypeDecl) : Leads Balanced (Check.declareType decl) := by
  have named (id : TypeId) : Leads Balanced (Check.defineType decl.name.val id) :=
    (defineType _ id).mono Sealed.balanced
  have filled (d : TypeDef) (id : TypeId) :
      Leads Balanced (modify fun c => { c with arena := c.arena.redefine id d } : Check PUnit) :=
    fun c => Sealed.balanced (c := c) ⟨rfl, rfl⟩
  refine (withTypeVars ?_).bind named
  refine ((enterTypeParams _).mono SameNames.widened).bind fun _ => ?_
  refine (((quiet (.resolveOption _)).bind fun _ => ?_).mono Balanced.widened)
  cases decl.body with
  | abstract | concrete => exact quiet (.modifyTypes _)
  | struct fields =>
    refine (quiet (.modifyTypes _)).bind fun id => (named id).bind fun _ => ?_
    exact (quiet (.resolveFields fields)).bind fun _ => (filled _ id).bind fun _ => pure id
  | variants alternatives =>
    refine (quiet (.modifyTypes _)).bind fun id => (named id).bind fun _ => ?_
    exact (declareVariants _ id alternatives).bind fun _ => (filled _ id).bind fun _ => pure id

/-! ### Nodes -/

/-- A function declaration binds no name, if its body, which has a scope of its own, is balanced. -/
theorem inferFunction (inPlace : Bool) (span : Span) (head : FunctionHead) {body : Node}
    (hbody : Leads Balanced (Check.infer true body)) :
    Leads Sealed (Check.infer inPlace (.function span head body)) := by
  unfold Check.infer
  refine (withTypeVars_sealed ?_).bind fun _ => ?_
  · refine (enterTypeParams head.typeParams).bind fun _ => Leads.mono ?_ Sealed.names
    refine (still (.resolveParams _)).bind fun _ => (still (.modifyTypes _)).bind fun _ => (addMethod _ _).bind fun _ => ?_
    exact (inScope ((defineAll _).bind fun _ => hbody)).bind fun _ => pure _
  · refine (still (.modifyTypes _)).bind fun _ => (addMethod _ _).bind fun _ => ?_
    exact still ((Quiet.record _ _).bind fun _ => .pure _)

theorem inferBlock (span : Span) (params : List Param) {body : List Node}
    (hbody : Leads Balanced (Check.inferLast .nothing body)) :
    Leads Sealed (do
      let (params, result) ← Check.inScope do
        let params ← Check.defineParams params
        return (params, ← Check.inferLast .nothing body)
      let type ← Check.modifyTypes (·.function params result)
      Check.record span type
      return type) := by
  refine (inScope ((defineParams params).bind fun _ => hbody.bind fun _ => pure _)).bind fun _ => ?_
  exact still ((Quiet.modifyTypes _).bind fun _ => (Quiet.record _ _).bind fun _ => .pure _)

mutual

/-- Whatever a node contains, only the innermost scope binds more names after it. -/
theorem infer (inPlace : Bool) (node : Node) : Leads Balanced (Check.infer inPlace node) := by
  have answer {id : TypeId} : Leads Balanced (do
      Check.record node.span id
      return id) := quiet ((Quiet.record _ id).bind fun _ => .pure _)
  have finish {x : Check TypeId} (hx : Leads Balanced x) : Leads Balanced (do
      let id ← x
      Check.record node.span id
      return id) := hx.bind fun _ => answer
  unfold Check.infer
  cases node with
  | function span head body => exact (inferFunction inPlace span head (infer true body)).mono Sealed.balanced
  | block span params body =>
    have hbody := inferLast .nothing body
    dsimp only
    split
    · exact finish hbody
    · exact (inferBlock span params hbody).mono Sealed.balanced
  | literal span value | quoted span body => exact answer
  | ident span name => exact finish (quiet (.nameType name span))
  | binary span op left right =>
    exact (infer false left).bind fun _ => (infer false right).bind fun _ => answer
  | unary span op operand => exact (infer false operand).bind fun _ => answer
  | assign span target value =>
    exact (infer false value).bind fun type => (assignTo target type).bind fun _ => answer
  | field span object field =>
    exact (infer false object).bind fun owner => finish (quiet (.fieldType owner field))
  | call span function args =>
    refine (quiet (.read _)).bind fun callee => (inferPlaced args).bind fun types => ?_
    cases callee with
    | some callee => exact get fun _ => answer
    | none => exact finish (quiet (.namedCallType function.val types function.span))
  | send span receiver method args =>
    refine (infer false receiver).bind fun type => ?_
    refine (quiet (.methodType type method)).followed fun c => (inferPlaced args).bind fun types => ?_
    exact finish (quiet (Quiet.methodCall type method c types))
  | cases span scrutinee arms =>
    refine (infer false scrutinee).bind fun type => ?_
    exact ((inferArms type arms).mono Sealed.balanced).bind fun _ => get fun _ => answer
  | construct span name fields =>
    refine (quiet (.constructed name)).bind fun found => ?_
    cases found with
    | some found =>
      exact (inferFields _ _ _ fields).bind fun _ => (quiet (.reportMissing _ _ _ _)).bind fun _ => answer
    | none => exact (inferEntries fields).bind fun _ => answer
  | typeDecl span decl => exact (declareType decl).bind fun _ => answer
  | capture span name | refine span name pattern =>
    exact (report _ _).bind fun _ => answer
  | array span elements =>
    exact (inferPlaced elements).bind fun _ => finish (quiet (.modifyTypes _))
  | object span entries =>
    exact (inferEntries entries).bind fun _ => answer
  | pair span key value =>
    exact (infer false key).bind fun _ => (infer false value).bind fun _ => answer

theorem inferPlaced (nodes : List Node) : Leads Balanced (Check.inferPlaced nodes) := by
  unfold Check.inferPlaced
  cases nodes with
  | nil => exact pure _
  | cons node nodes => exact (infer false node).bind fun _ => (inferPlaced nodes).bind fun _ => pure _

theorem inferLast (last : TypeId) (nodes : List Node) : Leads Balanced (Check.inferLast last nodes) := by
  unfold Check.inferLast
  cases nodes with
  | nil => exact pure _
  | cons node nodes => exact (infer false node).bind fun _ => inferLast _ nodes

/-- Every arm has a scope of its own. -/
theorem inferArms (scrutinee : TypeId) (arms : List (Node × Node)) : Leads Sealed (Check.inferArms scrutinee arms) := by
  unfold Check.inferArms
  cases arms with
  | nil => exact pure _
  | cons arm arms =>
    exact (inScope ((bindPattern scrutinee arm.1).bind fun _ => infer true arm.2)).bind fun _ =>
      (inferArms scrutinee arms).bind fun _ => pure _

theorem inferFields (owner : String) (declared : FieldTypes) (given : List String)
    (fields : List (Located String × Node)) : Leads Balanced (Check.inferFields owner declared given fields) := by
  unfold Check.inferFields
  cases fields with
  | nil => exact pure _
  | cons field fields =>
    have hrest := inferFields owner declared (field.1.val :: given) fields
    have hvalue := infer false field.2
    have checked {type : TypeId} : Leads Balanced (do
        let expected := withoutVars (← MonadState.get).arena type
        let actual ← Check.infer false field.2
        Check.checkFieldValue owner field.1.val expected actual field.2.span
        Check.inferFields owner declared (field.1.val :: given) fields) :=
      get fun _ => hvalue.bind fun _ => (quiet (.checkFieldValue _ _ _ _ _)).bind fun _ => hrest
    have unchecked : Leads Balanced (do
        Check.report (.literalWithoutField owner field.1.val) field.1.span
        let _ ← Check.infer false field.2
        Check.inferFields owner declared (field.1.val :: given) fields) :=
      (report _ _).bind fun _ => hvalue.bind fun _ => hrest
    dsimp only
    split
    · refine (report _ _).bind fun _ => ?_
      split
      · exact checked
      · exact unchecked
    · split
      · exact checked
      · exact unchecked

theorem inferEntries (entries : List (Located String × Node)) : Leads Balanced (Check.inferEntries entries) := by
  unfold Check.inferEntries
  cases entries with
  | nil => exact pure _
  | cons entry entries => exact (infer false entry.2).bind fun _ => inferEntries entries

end

end Leads

end Check

/-! ## Balance -/

/-- Inference ends with as many scopes and with the same type variables as it began with, and the scopes around the
innermost one bind the same names. A block that is a value, a function declaration and the arms of a choice bind no
name in the innermost scope either. So nothing but the names bound at the top is left of a program. -/
theorem Checker.scopes_balanced (c : Checker) :
    (∀ inPlace node, (Check.infer inPlace node c).2.scopes.length = c.scopes.length ∧
      (Check.infer inPlace node c).2.typeVars = c.typeVars ∧
      (Check.infer inPlace node c).2.names.tail = c.names.tail) ∧
    (∀ span params body, (Check.infer false (.block span params body) c).2.names = c.names) ∧
    (∀ inPlace span head body, (Check.infer inPlace (.function span head body) c).2.names = c.names) ∧
    (∀ scrutinee arms, (Check.inferArms scrutinee arms c).2.names = c.names) ∧
    ∀ program, (c.check program).2.scopes.length = c.scopes.length ∧ (c.check program).2.typeVars = c.typeVars ∧
      (c.check program).2.names.tail = c.names.tail := by
  refine ⟨fun inPlace node => ?_, fun span params body => ?_, fun inPlace span head body => ?_, fun scrutinee arms => ?_,
    fun program => ?_⟩
  · have h := Check.Leads.infer inPlace node c
    exact ⟨h.widened.length_eq, h.typeVars, h.widened.tail_eq⟩
  · have h := Check.Leads.inferBlock span params (Check.Leads.inferLast .nothing body) c
    unfold Check.infer
    exact h.names
  · exact (Check.Leads.inferFunction inPlace span head (Check.Leads.infer true body) c).names
  · exact (Check.Leads.inferArms scrutinee arms c).names
  · have h := Check.Leads.inferPlaced program c
    exact ⟨h.widened.length_eq, h.typeVars, h.widened.tail_eq⟩

end DispatchLang
