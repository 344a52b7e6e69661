import DispatchLang.Node.Basic
import DispatchLang.Proofs.Arena.Unification
import DispatchLang.Proofs.Arena.WellBuilt

/-!
# Written types and declared signatures

A written type is a name, or a name with arguments, and what it means depends on what the names mean: the
type variables of the declaration first, and then the types that are known. Both the evaluation of a
declaration and the checking of one go through the type parameters and then through the parameters in the
same way, whatever else they do. What they have in common is described here by functions on arenas,
`typeOf`, `typeVarsOf` and `signatureOf`, in which a name that means nothing is taken for the type above all
others.

A declaration is made in an *environment*: the types that are known mention no type variables, and the
variables that are known are type variables with these names (`Environment`). What comes out of it is a
signature in which only the variables of the environment and of the declaration occur. So whatever a call
binds a variable to is below the constraint that the variable was declared with (`Environment.respects`).

The constraint is the one that is written, with its own variables in it. A type is below a type variable if
it is below the constraint of that variable, so a constraint that mentions a variable is not held against
what that variable stands for in the same call. Only a constraint without variables that stand for something
is certain to be the same after these are replaced.

## Main results

* `typeOf_over`: in a written type only known variables occur.
* `Environment.respects`: matching respects the constraints of a declaration as they are written.
-/

namespace DispatchLang.TypeArena

variable {arena arena' later : TypeArena} {bindings vars : Bindings} {id constraint : TypeId}
  {name : String} {types : String → Option TypeId}

/-! ## Type variables in a regular arena -/

def IsVar (arena : TypeArena) (name : String) (constraint id : TypeId) : Prop :=
  id < arena.size ∧ arena.get id = ⟨name, .var constraint, none⟩

theorem IsVar.grown (h : arena.IsVar name constraint id) (he : arena.Extends arena') :
    arena'.IsVar name constraint id := ⟨he.lt h.1, (he.get_eq h.1).trans h.2⟩

/-- What the index of type variables holds under a name and a constraint is that type variable. -/
def VarIndexed (arena : TypeArena) : Prop :=
  ∀ name constraint id, arena.varIndex.lookup (name, constraint) = some id →
    arena.IsVar name constraint id

namespace VarIndexed

theorem grown (h : arena.VarIndexed) (he : arena.Extends arena')
    (hv : arena'.varIndex = arena.varIndex) : arena'.VarIndexed := fun name constraint id hl =>
  (h name constraint id (hv ▸ hl)).grown he

/-- Asking for a type variable keeps the index right, and answers that variable. -/
theorem var (h : arena.VarIndexed) (name : String) (constraint : TypeId) :
    (arena.var name constraint).2.VarIndexed ∧
      (arena.var name constraint).2.IsVar name constraint (arena.var name constraint).1 := by
  have he := Extends.var arena name constraint
  rw [TypeArena.var] at he ⊢
  cases hl : arena.varIndex.lookup (name, constraint) with
  | some id => exact ⟨h, h _ _ id hl⟩
  | none =>
    rw [hl] at he
    have hnew : (arena.add ⟨name, .var constraint, none⟩).2.IsVar name constraint arena.size :=
      ⟨Nat.lt_of_lt_of_eq (Nat.lt_succ_self _) (size_of_push rfl).symm, get_of_push_self rfl⟩
    refine ⟨fun name' constraint' id hk => ?_, hnew⟩
    dsimp only at hk
    rw [List.lookup_cons] at hk
    split at hk
    · next heq =>
      obtain ⟨rfl, rfl⟩ := Prod.mk.inj (eq_of_beq heq)
      rw [← Option.some.inj hk]
      exact hnew
    · exact (h _ _ id hk).grown he

theorem redefine (h : arena.VarIndexed) {d : TypeDef} (hid : id < arena.size)
    (hd : TypeDef.Refills (arena.get id) d) : (arena.redefine id d).VarIndexed := by
  intro name constraint x hl
  obtain ⟨hx, hget⟩ := h name constraint x hl
  refine ⟨Nat.lt_of_lt_of_eq hx size_redefine.symm, ?_⟩
  rw [get_redefine hid, if_neg, hget]
  -- What is filled in is no type variable.
  rintro rfl
  rw [hget] at hd
  cases hd

end VarIndexed

theorem Regular.varIndexed (h : arena.Regular) : arena.VarIndexed := by
  induction h with
  | initial => exact fun _ _ _ hl => nomatch hl
  | @add arena d _ _ _ ih =>
    have he : arena.Extends (arena.add d).2 := .push rfl fun k => by cases k <;> rfl
    exact ih.grown he rfl
  | applied base args _ _ _ ih =>
    exact ih.grown (applied_interns _ base args).extension (applied_varIndex _ base args)
  | function params result _ _ _ ih =>
    exact ih.grown (function_interns _ params result).extension (function_varIndex _ params result)
  | redefine id d _ hid hd _ ih => exact ih.redefine hid hd
  | var name constraint _ _ ih => exact (ih.var name constraint).1

/-! ## Occurrences in a growing arena -/

theorem constituentsWithin_le (hi : arena.Ordered) (n : Nat) (id : TypeId) :
    ∀ x ∈ arena.constituentsWithin n id, x ≤ id := by
  induction n generalizing id with
  | zero => exact nofun
  | succ n ih =>
    rw [constituentsWithin]
    refine List.forall_mem_cons.mpr ⟨Nat.le_refl id, fun x hx => ?_⟩
    obtain ⟨y, hy, hxy⟩ := List.mem_flatMap.mp hx
    exact Nat.le_trans (ih y x hxy) (Nat.le_of_lt (inner_lt hi hy))

namespace Extends

variable (he : arena.Extends arena') (hi : arena.Ordered)
include he hi

theorem constituentsWithin_eq (n : Nat) {m : Nat} {id : TypeId} (hid : id < arena.size) (hn : id < n)
    (hm : id < m) : arena'.constituentsWithin m id = arena.constituentsWithin n id := by
  induction n generalizing m id with
  | zero => exact absurd hn (Nat.not_lt_zero id)
  | succ n ih =>
    cases m with
    | zero => exact absurd hm (Nat.not_lt_zero id)
    | succ m =>
      rw [constituentsWithin, constituentsWithin, he.get_eq hid]
      congr 1
      refine List.flatMap_congr fun x hx => ?_
      have hlt : x < id := inner_lt hi hx
      exact ih (Nat.lt_trans hlt hid) (Nat.lt_of_lt_of_le hlt (Nat.le_of_lt_succ hn))
        (Nat.lt_of_lt_of_le hlt (Nat.le_of_lt_succ hm))

theorem constituents_eq (hid : id < arena.size) : arena'.constituents id = arena.constituents id :=
  he.constituentsWithin_eq hi _ hid (Nat.lt_succ_of_lt hid) (Nat.lt_succ_of_lt (he.lt hid))

theorem get_constituent (hid : id < arena.size) {x : TypeId} (hx : x ∈ arena.constituents id) :
    arena'.get x = arena.get x :=
  he.get_eq (Nat.lt_of_le_of_lt (constituentsWithin_le hi _ _ x hx) hid)

theorem occurs_iff (hid : id < arena.size) :
    arena'.Occurs name constraint id ↔ arena.Occurs name constraint id := by
  rw [Occurs, Occurs, he.constituents_eq hi hid]
  refine exists_congr fun x => and_congr_right fun hx => ?_
  rw [TypeArena.name, TypeArena.name, he.get_constituent hi hid hx]

theorem functionFree (hid : id < arena.size) (hf : arena.FunctionFree id) :
    arena'.FunctionFree id := by
  intro x hx
  rw [he.constituents_eq hi hid] at hx
  rw [he.get_constituent hi hid hx]
  exact hf x hx

end Extends

/-! ## Environments -/

/-- A type without function types in which only the given type variables occur. -/
structure Over (arena : TypeArena) (vars : Bindings) (id : TypeId) : Prop where
  lt : id < arena.size
  functionFree : arena.FunctionFree id
  /-- A variable that occurs in the type is the one that is known by its name. -/
  vars : ∀ {name constraint}, arena.Occurs name constraint id →
    ∃ v, vars.lookup name = some v ∧ arena.IsVar name constraint v

theorem Over.grown (h : arena.Over vars id) (he : arena.Extends arena') (hi : arena.Ordered) :
    arena'.Over vars id := by
  refine ⟨he.lt h.lt, he.functionFree hi h.lt h.functionFree, fun ho => ?_⟩
  obtain ⟨v, hv, hvar⟩ := h.vars ((he.occurs_iff hi h.lt).mp ho)
  exact ⟨v, hv, hvar.grown he⟩

theorem IsVar.isOver (h : arena.IsVar name constraint id) (hi : arena.Ordered)
    (hv : vars.lookup name = some id) : arena.Over vars id := by
  have hk : (arena.get id).kind = .var constraint := by rw [h.2]
  refine ⟨h.1, fun x hx params result hx' => ?_, fun ho => ?_⟩
  · rw [TypeArena.constituents_eq hi h.1, hk] at hx
    rw [List.mem_singleton.mp hx, hk] at hx'
    cases hx'
  · obtain ⟨hname, rfl⟩ := (occurs_var hi h.1 hk).mp ho
    rw [TypeArena.name, h.2] at hname
    exact ⟨id, hname ▸ hv, hname ▸ h⟩

theorem over_applied {base : TypeId} {args : List TypeId} (hi : arena.Indexed)
    (hk : (arena.get id).kind = .applied base args) (hid : id < arena.size)
    (hargs : ∀ x ∈ args, arena.Over vars x) : arena.Over vars id := by
  refine ⟨hid, fun x hx params result hx' => ?_, fun ho => ?_⟩
  · rw [TypeArena.constituents_eq hi.toOrdered hid, hk] at hx
    rcases List.mem_cons.mp hx with rfl | hx
    · rw [hk] at hx'
      cases hx'
    · obtain ⟨y, hy, hxy⟩ := List.mem_flatMap.mp hx
      exact (hargs y hy).functionFree x hxy params result hx'
  · rw [occurs_iff_inner hi.toOrdered hid (by rw [hk]; exact nofun), hk] at ho
    obtain ⟨x, hx, ho⟩ := ho
    exact (hargs x hx).vars ho

/-- A type that is made of no others. -/
theorem over_of_parts (hi : arena.Ordered) (hid : id < arena.size) (hp : (arena.get id).kind.parts = []) :
    arena.Over [] id := by
  have hinner : (arena.get id).kind.inner = [] := by
    generalize (arena.get id).kind = kind at hp
    cases kind with
    | applied base args => cases hp
    | function params result => exact absurd hp (List.append_ne_nil_of_right_ne_nil _ (List.cons_ne_nil _ _))
    | _ => rfl
  have hself : ∀ x ∈ arena.constituents id, x = id := by
    rw [TypeArena.constituents_eq hi hid, hinner]
    exact List.forall_mem_singleton.mpr rfl
  refine ⟨hid, fun x hx params result hk => ?_, fun ⟨x, hx, hk, _⟩ => ?_⟩
  · rw [← hself x hx, hk] at hp
    exact absurd hp (List.append_ne_nil_of_right_ne_nil _ (List.cons_ne_nil _ _))
  · rw [← hself x hx, hk] at hp
    cases hp

theorem Over.hasVars_eq_false (h : arena.Over [] id) : arena.hasVars id = false := by
  rw [← Bool.not_eq_true, hasVars_iff]
  rintro ⟨name, constraint, ho⟩
  obtain ⟨v, hv, -⟩ := h.vars ho
  cases hv

/-- What names are known to mean where a declaration stands: types without type variables, and type
variables with these names. -/
structure Environment (types : String → Option TypeId) (vars : Bindings) (arena : TypeArena) :
    Prop where
  regular : arena.Regular
  types : ∀ {name id}, types name = some id → arena.Over [] id
  vars : ∀ {name id}, vars.lookup name = some id →
    ∃ constraint, arena.IsVar name constraint id ∧ arena.FunctionFree constraint

/-- What a name means: a type variable, or else a type. -/
def within (types : String → Option TypeId) (vars : Bindings) (name : String) : Option TypeId :=
  (vars.lookup name).or (types name)

namespace Environment

variable (h : Environment types vars arena)
include h

/-- Only what names stand for matters, not how it is listed. -/
theorem congr {vars' : Bindings} (hv : ∀ name, vars'.lookup name = vars.lookup name) :
    Environment types vars' arena :=
  { h with vars := fun hl => h.vars ((hv _).symm.trans hl) }

theorem grown (he : arena.Extends arena') (hr : arena'.Regular) : Environment types vars arena' where
  regular := hr
  types ht := (h.types ht).grown he h.regular.canonical.toOrdered
  vars hv := by
    obtain ⟨constraint, hvar, hf⟩ := h.vars hv
    have hlt : constraint < arena.size := by
      refine Nat.lt_trans (h.regular.canonical.part_lt ?_) hvar.1
      rw [hvar.2]
      exact List.mem_singleton_self _
    exact ⟨constraint, hvar.grown he, he.functionFree h.regular.canonical.toOrdered hlt hf⟩

theorem meaning_over (hn : within types vars name = some id) : arena.Over vars id := by
  rw [within] at hn
  cases hv : vars.lookup name with
  | some v =>
    rw [hv] at hn
    obtain rfl := Option.some.inj hn
    obtain ⟨constraint, hvar, -⟩ := h.vars hv
    exact hvar.isOver h.regular.canonical.toOrdered hv
  | none =>
    rw [hv] at hn
    have hover := h.types hn
    exact ⟨hover.lt, hover.functionFree, fun ho => nomatch (hover.vars ho).choose_spec.1⟩

/-- The type above all others is made of nothing, since it is the oldest one. -/
theorem over_any : arena.Over vars .any := by
  have hi := h.regular.canonical.toOrdered
  have hlt : TypeId.any < arena.size := Nat.lt_of_lt_of_le (by decide) hi.builtin
  have hpart : ∀ x ∈ arena.constituents .any, ∀ y, y ∉ (arena.get x).kind.parts := by
    intro x hx y hy
    have hle : x ≤ 0 := constituentsWithin_le hi _ _ x hx
    exact Nat.not_lt_zero y (Nat.lt_of_lt_of_le (hi.part_lt hy) hle)
  refine ⟨hlt, fun x hx params result hk => ?_, fun {name constraint} ho => ?_⟩
  · refine hpart x hx result ?_
    rw [hk]
    exact List.mem_append_right _ (List.mem_singleton_self result)
  · obtain ⟨x, hx, hk, -⟩ := ho
    refine (hpart x hx constraint ?_).elim
    rw [hk]
    exact List.mem_singleton_self constraint

end Environment

/-! ## What written types mean -/

mutual

def typeOf (names : String → Option TypeId) : TypeExpr → TypeArena → TypeId × TypeArena
  | .named _ name, arena => ((names name).getD .any, arena)
  | .applied _ name args, arena =>
    match names name with
    | some base =>
      let (args, arena) := typesOf names args arena
      arena.applied base args
    | none => (.any, arena)

/-- The types that several written types mean. -/
def typesOf (names : String → Option TypeId) : List TypeExpr → TypeArena → List TypeId × TypeArena
  | [], arena => ([], arena)
  | type :: types, arena =>
    let (id, arena) := typeOf names type arena
    let (ids, arena) := typesOf names types arena
    (id :: ids, arena)

end

/-- The type that a written type means, or the type above all others if nothing is written. -/
def optionOf (names : String → Option TypeId) : Option TypeExpr → TypeArena → TypeId × TypeArena
  | none, arena => (.any, arena)
  | some type, arena => typeOf names type arena

def paramsOf (names : String → Option TypeId) : List Param → TypeArena → List TypeId × TypeArena
  | [], arena => ([], arena)
  | p :: params, arena =>
    let (id, arena) := optionOf names p.annotation arena
    let (ids, arena) := paramsOf names params arena
    (id :: ids, arena)

/-- The type variables of a declaration, with those that are known already. A constraint may mention the
variables before it. -/
def typeVarsOf (types : String → Option TypeId) :
    Bindings → List TypeParam → TypeArena → Bindings × TypeArena
  | vars, [], arena => (vars, arena)
  | vars, p :: params, arena =>
    let (constraint, arena) := optionOf (within types vars) p.constraint arena
    let (id, arena) := arena.var p.name.val constraint
    typeVarsOf types ((p.name.val, id) :: vars) params arena

theorem typeVarsOf_names (types : String → Option TypeId) (vars : Bindings) (params : List TypeParam)
    (arena : TypeArena) :
    (typeVarsOf types vars params arena).1.map Prod.fst =
      (params.map (·.name.val)).reverse ++ vars.map Prod.fst := by
  induction params generalizing vars arena with
  | nil => rfl
  | cons p params ih =>
    rw [typeVarsOf, List.map_cons, List.reverse_cons, List.append_assoc]
    exact ih _ _

/-! ## Only known variables occur -/

/-- A step extends the arena, which stays regular, and answers a type over some variables. -/
structure Yields (arena : TypeArena) (vars : Bindings) (out : TypeId × TypeArena) : Prop where
  extension : arena.Extends out.2
  regular : out.2.Regular
  answer : out.2.Over vars out.1

/-- The same for a step that answers several types. -/
structure YieldsAll (arena : TypeArena) (vars : Bindings) (out : List TypeId × TypeArena) : Prop where
  extension : arena.Extends out.2
  regular : out.2.Regular
  answers : ∀ id ∈ out.1, out.2.Over vars id

theorem Yields.cons {first : TypeId × TypeArena} {rest : List TypeId × TypeArena}
    (h : arena.Yields vars first) (hrest : first.2.YieldsAll vars rest) :
    arena.YieldsAll vars (first.1 :: rest.1, rest.2) :=
  ⟨h.extension.trans hrest.extension, hrest.regular, List.forall_mem_cons.mpr
    ⟨h.answer.grown hrest.extension h.regular.canonical.toOrdered, hrest.answers⟩⟩

mutual

/-- In a written type only known variables occur. -/
theorem typeOf_over {arena : TypeArena} (h : Environment types vars arena) (type : TypeExpr) :
    arena.Yields vars (typeOf (within types vars) type arena) := by
  cases type with
  | named span name =>
    rw [typeOf]
    refine ⟨.refl arena, h.regular, ?_⟩
    cases hn : within types vars name with
    | some id => exact h.meaning_over hn
    | none => exact h.over_any
  | applied span name args =>
    rw [typeOf]
    cases hn : within types vars name with
    | some base =>
      have hargs := typesOf_over h args
      have hbase : base < (typesOf (within types vars) args arena).2.size :=
        hargs.extension.lt (h.meaning_over hn).lt
      have hregular := Regular.applied base (typesOf (within types vars) args arena).1 hargs.regular
        hbase fun x hx => (hargs.answers x hx).lt
      have hint := applied_interns (typesOf (within types vars) args arena).2 base
        (typesOf (within types vars) args arena).1
      obtain ⟨hid, hk, -⟩ := hregular.canonical.index hint.interned?_eq
      exact ⟨hargs.extension.trans hint.extension, hregular,
        over_applied hregular.canonical.toIndexed hk hid fun x hx =>
          (hargs.answers x hx).grown hint.extension hargs.regular.canonical.toOrdered⟩
    | none => exact ⟨.refl arena, h.regular, h.over_any⟩

theorem typesOf_over {arena : TypeArena} (h : Environment types vars arena) (exprs : List TypeExpr) :
    arena.YieldsAll vars (typesOf (within types vars) exprs arena) := by
  cases exprs with
  | nil => exact ⟨.refl arena, h.regular, nofun⟩
  | cons type exprs =>
    have hfirst := typeOf_over h type
    have hrest := typesOf_over (h.grown hfirst.extension hfirst.regular) exprs
    exact hfirst.cons hrest

end

theorem optionOf_over (h : Environment types vars arena) (type : Option TypeExpr) :
    arena.Yields vars (optionOf (within types vars) type arena) := by
  cases type with
  | none => exact ⟨.refl arena, h.regular, h.over_any⟩
  | some type => exact typeOf_over h type

theorem paramsOf_over (h : Environment types vars arena) (params : List Param) :
    arena.YieldsAll vars (paramsOf (within types vars) params arena) := by
  induction params generalizing arena with
  | nil => exact ⟨.refl arena, h.regular, nofun⟩
  | cons p params ih =>
    have hfirst := optionOf_over h p.annotation
    exact hfirst.cons (ih (h.grown hfirst.extension hfirst.regular))

/-- With the type variables of a declaration the environment is one again. -/
theorem typeVarsOf_environment (h : Environment types vars arena) (params : List TypeParam) :
    arena.Extends (typeVarsOf types vars params arena).2 ∧
      Environment types (typeVarsOf types vars params arena).1
        (typeVarsOf types vars params arena).2 := by
  induction params generalizing vars arena with
  | nil => exact ⟨.refl arena, h⟩
  | cons p params ih =>
    have hc := optionOf_over h p.constraint
    generalize hout : optionOf (within types vars) p.constraint arena = out at hc
    obtain ⟨constraint, next⟩ := out
    obtain ⟨-, hvar⟩ := hc.regular.varIndexed.var p.name.val constraint
    have he := Extends.var next p.name.val constraint
    have hgrown := (h.grown hc.extension hc.regular).grown he
      (.var p.name.val constraint hc.regular hc.answer.lt)
    have hnext : Environment types ((p.name.val, (next.var p.name.val constraint).1) :: vars)
        (next.var p.name.val constraint).2 := by
      refine { hgrown with vars := fun {name id} hv => ?_ }
      rw [List.lookup_cons] at hv
      split at hv
      · next heq =>
        obtain rfl := Option.some.inj hv
        rw [eq_of_beq heq]
        exact ⟨constraint, hvar,
          he.functionFree hc.regular.canonical.toOrdered hc.answer.lt hc.answer.functionFree⟩
      · exact hgrown.vars hv
    obtain ⟨hrest, henv⟩ := ih hnext
    rw [typeVarsOf, hout]
    exact ⟨(hc.extension.trans he).trans hrest, henv⟩

/-! ## What is bound respects the declared constraints -/

/-- What names stand for is below the constraints of the variables with these names. A constraint in which
nothing stands for something is the same after its variables are replaced. -/
def Respects (arena : TypeArena) (vars bindings : Bindings) : Prop :=
  ∀ name type, bindings.lookup name = some type →
    ∃ v constraint, vars.lookup name = some v ∧ arena.IsVar name constraint v ∧
      arena.isSubtype type constraint = true ∧
      ((∀ other c, arena.Occurs other c constraint → bindings.lookup other = none) →
        arena.substitute bindings constraint = (constraint, arena))

/-- Matching arguments against a signature over some variables respects the constraints of these. -/
theorem Environment.respects (h : Environment types vars arena) {signature args : List TypeId}
    (hs : ∀ p ∈ signature, arena.Over vars p)
    (hb : arena.unifySignature? signature args = some bindings) : arena.Respects vars bindings := by
  have hc := h.regular.canonical
  intro name type hx
  obtain ⟨p, hp, constraint, ho, hsub⟩ :=
    hc.unifySignature?_sound (fun p hp => (hs p hp).lt) hb hx
  obtain ⟨v, hv, hvar⟩ := (hs p hp).vars ho
  refine ⟨v, constraint, hv, hvar, hsub, fun hnone => ?_⟩
  obtain ⟨constraint', hvar', hf⟩ := h.vars hv
  have heq : constraint' = constraint := by
    have hget := hvar'.2
    rw [hvar.2] at hget
    exact (TypeKind.var.inj (TypeDef.mk.inj hget).2.1).symm
  have hlt : constraint < arena.size := by
    refine Nat.lt_trans (hc.part_lt ?_) hvar.1
    rw [hvar.2]
    exact List.mem_singleton_self _
  exact hc.substituteWithin_eq_self _ hlt (Nat.lt_succ_of_lt hlt) (heq ▸ hf) hnone

end DispatchLang.TypeArena
