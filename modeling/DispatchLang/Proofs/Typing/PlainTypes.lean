import DispatchLang.Proofs.Arena.Ground
import DispatchLang.Proofs.Arena.Written
import DispatchLang.Proofs.Eval.ArrayTypes

/-!
# Types that plain values cannot tell apart

A plain value is a scalar or an array of scalars of one type. What is above the type of such a value is written in few
ways: it is a built-in type, a type of arrays of just these scalars, or a type variable with something in it. So two
types, in two arenas, need not have much in common to be above the types of the same plain values (`TypeArena.Alike`).
If the first is a built-in type, the second is the same one; if the first is applied to built-in types, so is the second.
Of declared types nothing is asked, as they are above no plain value.

## Main definitions

* `PlainType`: the type of a plain value, whatever the arena.
* `TypeArena.Alike`: a type of one arena is above the same plain values as a type of another one.

Types that are alike also agree on whether they mention type variables, as the checker has nothing to say about those
that do.

## Main results

* `Alike.ofBuiltin`, `Alike.ofAdded`, `Alike.ofVar`, `Alike.ofApplied`: types that are made in the same way are alike.
* `Alike.isSubtype`: what is below the first of two such types is below the second.
-/

namespace DispatchLang

open TypeArena

/-- The type of a plain value. -/
inductive PlainType where
  /-- The value is a scalar. -/
  | scalar (type : TypeId)
  /-- The value is an array of scalars. -/
  | array (element : TypeId)

namespace TypeArena

variable {A A' B B' : TypeArena} {id id' a a' : TypeId}

/-! ## The types of plain values -/

def IsPlain (arena : TypeArena) : PlainType → TypeId → Prop
  | .scalar type, id => id = type ∧ type < builtinTypes.length
  | .array element, id => arena.interned? (.applied .array [element]) = some id ∧ element < builtinTypes.length

theorem Regular.toGrown (h : A.Regular) : A.Grown := ⟨h.indexed, h.extends_initial⟩

theorem IsPlain.lt {plain : PlainType} (h : A.IsPlain plain a) (hr : A.Regular) : a < A.size := by
  cases plain with
  | scalar type => exact hr.toGrown.lt_size (h.1 ▸ h.2)
  | array element => exact (hr.indexed.index h.1).1

/-! ## What is above them -/

/-- Above a built-in type are only built-in types and type variables. -/
theorem Regular.builtin_of_below (hr : A.Regular) (ha : a < builtinTypes.length) (h : A.Below a id) :
    id < builtinTypes.length ∨ (A.get id).kind.isVar = true := by
  have hsimple : ∀ a < builtinTypes.length, (A.get a).kind.name ∈ ["any", "abstract", "concrete"] := by
    intro a ha
    rw [hr.extends_initial.get_eq ha]
    revert a
    decide
  -- what is right above a built-in type is an older one
  induction a using Nat.strongRecOn with
  | _ a ih =>
    rcases h.admits with rfl | rfl | ⟨-, hrule⟩
    · exact .inl ha
    · exact .inl (by decide)
    · have hup : (A.get id).kind.isVar = true ∨ ∃ up, (A.get a).parent = some up ∧ A.Below up id := by
        have ha := hsimple a ha
        generalize (A.get a).kind = kind, (A.get id).kind = above at hrule ha ⊢
        cases above with
        | var constraint => exact .inl rfl
        | _ =>
          cases kind with
          | any | abstract | concrete => exact .inr hrule
          | _ => simp [TypeKind.name] at ha
      rcases hup with hvar | ⟨up, hparent, hbelow⟩
      · exact .inr hvar
      · have hlt : up < a := hr.canonical.toOrdered.parent_lt hparent
        exact ih up hlt (Nat.lt_trans hlt ha) hbelow

theorem Regular.array_of_below (hr : A.Regular) {element : TypeId}
    (ha : A.interned? (.applied .array [element]) = some a) (h : A.Below a id) :
    (A.get id).kind = .applied .array [element] ∨ id < builtinTypes.length ∨ (A.get id).kind.isVar = true := by
  obtain ⟨-, hkind, hparent⟩ := hr.indexed.index ha
  rcases h.admits with rfl | rfl | ⟨-, hrule⟩
  · exact .inl hkind
  · exact .inr (.inl (by decide))
  · have hup : A.Below .array id → (A.get id).kind = .applied .array [element] ∨ id < builtinTypes.length ∨
        (A.get id).kind.isVar = true := fun hbelow => .inr (hr.builtin_of_below (by decide) hbelow)
    rw [hkind, hparent] at hrule
    cases hk : (A.get id).kind with
    | var constraint => exact .inr (.inr rfl)
    | applied base args =>
      rw [hk] at hrule hup
      rcases hrule with ⟨rfl, rfl⟩ | ⟨up, hup', hbelow⟩
      · exact .inl rfl
      · cases hup'
        exact hup hbelow
    | _ =>
      rw [hk] at hrule hup
      obtain ⟨up, hup', hbelow⟩ := hrule
      cases hup'
      exact hup hbelow

/-! ## Types that mention variables -/

/-- Built-in types are made of no others. -/
theorem Regular.simple_builtin (hr : A.Regular) (hid : id < builtinTypes.length) :
    (A.get id).kind.isApplied = false ∧ A.hasVars id = false := by
  have hsimple : ∀ x < builtinTypes.length, (TypeArena.initial.get x).kind.isApplied = false ∧
      TypeArena.initial.hasVars x = false := by decide
  rw [hr.extends_initial.get_eq hid, hr.extends_initial.hasVars_eq Regular.initial.indexed.toOrdered hid]
  exact hsimple id hid

/-- Fields and alternatives are not looked into, so filling them in changes nothing. -/
theorem hasVars_redefine {x : TypeId} {d : TypeDef} (hx : x < A.size) (hd : TypeDef.Refills (A.get x) d) :
    (A.redefine x d).hasVars id = A.hasVars id := by
  have hwithin : ∀ n id, (A.redefine x d).hasVarsWithin n id = A.hasVarsWithin n id := by
    intro n
    induction n with
    | zero => exact fun _ => rfl
    | succ n ih =>
      intro id
      rw [hasVarsWithin, hasVarsWithin, get_redefine hx, funext ih]
      by_cases hsame : id = x
      · rw [if_pos hsame, hsame]
        generalize A.get x = old at hd
        cases hd <;> rfl
      · rw [if_neg hsame]
  rw [hasVars, hasVars, size_redefine, hwithin]

/-! ## Types that are alike -/

/-- The second of two types is the first one, if that is built in. -/
def SameIfBuiltin (id id' : TypeId) : Prop := id < builtinTypes.length → id' = id

/-- A type of one arena is above the same plain values as a type of another one, and mentions type variables if the other
does. -/
structure Alike (A B : TypeArena) (id id' : TypeId) : Prop where
  lt : id < A.size
  lt' : id' < B.size
  builtin : SameIfBuiltin id id'
  /-- The parts of an applied type need to be the same only where they are built in. -/
  applied : ∀ {base args}, (A.get id).kind = .applied base args →
    ∃ base' args', (B.get id').kind = .applied base' args' ∧ SameIfBuiltin base base' ∧
      List.Forall₂ SameIfBuiltin args args'
  vars : A.hasVars id = B.hasVars id'

namespace Alike

theorem grown (h : A.Alike B id id') (hi : A.Ordered) (hi' : B.Ordered) (he : A.Extends A') (he' : B.Extends B') :
    A'.Alike B' id id' where
  lt := he.lt h.lt
  lt' := he'.lt h.lt'
  builtin := h.builtin
  applied hk := by
    rw [he.get_eq h.lt] at hk
    rw [he'.get_eq h.lt']
    exact h.applied hk
  vars := by rw [he.hasVars_eq hi h.lt, he'.hasVars_eq hi' h.lt', h.vars]

/-- What is redefined is no applied type, before or after. -/
theorem redefine (h : A.Alike B id id') {x x' : TypeId} {d d' : TypeDef} (hx : x < A.size) (hx' : x' < B.size)
    (hd : TypeDef.Refills (A.get x) d) (hd' : TypeDef.Refills (B.get x') d') :
    (A.redefine x d).Alike (B.redefine x' d') id id' where
  lt := Nat.lt_of_lt_of_eq h.lt size_redefine.symm
  lt' := Nat.lt_of_lt_of_eq h.lt' size_redefine.symm
  builtin := h.builtin
  applied {base args} hk := by
    rw [get_redefine hx] at hk
    split at hk
    · next heq =>
      have hparts := hd.parts_eq.2
      rw [hk] at hparts
      cases hparts
    · obtain ⟨base', args', hk', hbase, hargs⟩ := h.applied hk
      refine ⟨base', args', ?_, hbase, hargs⟩
      rw [get_redefine hx', if_neg, hk']
      rintro rfl
      have hparts := hd'.parts_eq.1
      rw [hk'] at hparts
      cases hparts
  vars := by rw [hasVars_redefine hx hd, hasVars_redefine hx' hd', h.vars]

/-- Of types that are neither built in nor applied, only what they mention has to be compared. -/
theorem ofSimple (hlt : id < A.size) (hlt' : id' < B.size) (hnew : builtinTypes.length ≤ id)
    (hk : (A.get id).kind.isApplied = false) (hvars : A.hasVars id = B.hasVars id') : A.Alike B id id' where
  lt := hlt
  lt' := hlt'
  builtin h := absurd hnew (Nat.not_le_of_lt h)
  applied happlied := by
    rw [happlied] at hk
    cases hk
  vars := hvars

theorem ofBuiltin (hr : A.Regular) (hr' : B.Regular) (hid : id < builtinTypes.length) : A.Alike B id id where
  lt := hr.toGrown.lt_size hid
  lt' := hr'.toGrown.lt_size hid
  builtin _ := rfl
  applied hk := by
    have hnot := (hr.simple_builtin hid).1
    rw [hk] at hnot
    cases hnot
  vars := (hr.simple_builtin hid).2.trans (hr'.simple_builtin hid).2.symm

/-- Declared types are alike, as long as neither is an older one. -/
theorem ofAdded (hr : A.Regular) {d d' : TypeDef} (hd : d.kind.parts = []) (hd' : d'.kind.parts = [])
    (hregular : (A.add d).2.Regular) (hregular' : (B.add d').2.Regular) : (A.add d).2.Alike (B.add d').2 A.size B.size := by
  have hget : (A.add d).2.get A.size = d := get_of_push_self rfl
  have hget' : (B.add d').2.get B.size = d' := get_of_push_self rfl
  have hlt : A.size < (A.add d).2.size := Nat.lt_of_lt_of_eq (Nat.lt_succ_self _) (size_of_push rfl).symm
  have hlt' : B.size < (B.add d').2.size := Nat.lt_of_lt_of_eq (Nat.lt_succ_self _) (size_of_push rfl).symm
  have hsimple {kind : TypeKind} (hk : kind.parts = []) :
      kind.isApplied = false ∧ kind.isVar = false ∧ kind.inner = [] := by
    cases kind with
    | applied base args => cases hk
    | var constraint => cases hk
    | function params result => exact absurd hk (List.append_ne_nil_of_right_ne_nil _ (List.cons_ne_nil _ _))
    | _ => exact ⟨rfl, rfl, rfl⟩
  refine ofSimple hlt hlt' hr.indexed.builtin (by rw [hget, (hsimple hd).1]) ?_
  rw [hregular.indexed.toOrdered.hasVars_eq_any hlt (by rw [hget, (hsimple hd).2.1]),
    hregular'.indexed.toOrdered.hasVars_eq_any hlt' (by rw [hget', (hsimple hd').2.1]), hget, hget', (hsimple hd).2.2,
    (hsimple hd').2.2]
  rfl

theorem ofVar {name name' : String} {constraint constraint' : TypeId} (hr : A.Regular) (hv : A.IsVar name constraint id)
    (hv' : B.IsVar name' constraint' id') : A.Alike B id id' := by
  have hvars {C : TypeArena} {name : String} {constraint x : TypeId} (hv : C.IsVar name constraint x) :
      C.hasVars x = true := by
    refine hasVars_iff.mpr ⟨C.name x, constraint, x, self_mem_constituents, ?_, rfl⟩
    rw [hv.2]
  refine ofSimple hv.1 hv'.1 (Nat.le_of_not_lt fun hlt => hr.toGrown.kind_ne_var hlt constraint ?_) ?_
    ((hvars hv).trans (hvars hv').symm)
  · rw [hv.2]
  · rw [hv.2]
    rfl

theorem ofApplied (hr : A.Regular) (hr' : B.Regular) {base base' : TypeId} {args args' : List TypeId}
    (hbase : A.Alike B base base') (hargs : List.Forall₂ (A.Alike B) args args') :
    (A.applied base args).2.Alike (B.applied base' args').2 (A.applied base args).1 (B.applied base' args').1 := by
  have hlt : ∀ x ∈ args, x < A.size :=
    ((List.forall₂_and_left args args').mp (hargs.imp fun _ _ h => ⟨h.lt, h⟩)).1
  have hlt' : ∀ x ∈ args', x < B.size :=
    ((List.forall₂_and_left args' args).mp (hargs.flip.imp fun _ _ h => ⟨h.lt', h⟩)).1
  have hint := applied_interns A base args
  have hint' := applied_interns B base' args'
  have hregular := Regular.applied base args hr hbase.lt hlt
  have hregular' := Regular.applied base' args' hr' hbase.lt' hlt'
  obtain ⟨hid, hk, -⟩ := hregular.indexed.index hint.interned?_eq
  obtain ⟨hid', hk', -⟩ := hregular'.indexed.index hint'.interned?_eq
  refine ⟨hid, hid', fun hbuiltin => ?_, fun hk'' => ?_, ?_⟩
  · have habove := hregular.toGrown.above?_eq_none hbuiltin
    rw [hk] at habove
    cases habove
  · obtain ⟨rfl, rfl⟩ := TypeKind.applied.inj (hk.symm.trans hk'')
    exact ⟨base', args', hk', hbase.builtin, hargs.imp fun _ _ h => h.builtin⟩
  · rw [hregular.indexed.toOrdered.hasVars_eq_any hid (by rw [hk]; rfl),
      hregular'.indexed.toOrdered.hasVars_eq_any hid' (by rw [hk']; rfl), hk, hk']
    change args.any _ = args'.any _
    have hsame : List.Forall₂ (fun x y => (A.applied base args).2.hasVars x = (B.applied base' args').2.hasVars y)
        args args' := hargs.imp fun x y h => by
      rw [hint.extension.hasVars_eq hr.indexed.toOrdered h.lt,
        hint'.extension.hasVars_eq hr'.indexed.toOrdered h.lt', h.vars]
    clear hargs hlt hlt' hint hint' hregular hregular' hid hk hid' hk'
    generalize (A.applied base args).2 = C, (B.applied base' args').2 = C' at hsame
    induction hsame with
    | nil => rfl
    | cons h _ ih => rw [List.any_cons, List.any_cons, h, ih]

/-- **Plain values do not tell types apart that are alike.** -/
theorem isSubtype (h : A.Alike B id id') (hr : A.Regular) (hr' : B.Regular) {plain : PlainType}
    (ha : A.IsPlain plain a) (ha' : B.IsPlain plain a') (hvars : A.hasVars id = false)
    (hsub : A.isSubtype a id = true) : B.isSubtype a' id' = true := by
  have hi' := hr'.canonical.toOrdered
  have hbelow : A.Below a id := (hr.canonical.toOrdered.isSubtype_iff_below (ha.lt hr) h.lt).mp hsub
  have hnotvar : ¬(A.get id).kind.isVar = true := ne_true_of_eq_false (isVar_of_hasVars hvars)
  cases plain with
  | scalar type =>
    obtain ⟨rfl, hbuiltin⟩ := ha
    obtain ⟨rfl, -⟩ := ha'
    have hid := (hr.builtin_of_below hbuiltin hbelow).resolve_right hnotvar
    rw [h.builtin hid, hr'.toGrown.isSubtype_eq hbuiltin hid, ← hr.toGrown.isSubtype_eq hbuiltin hid]
    exact hsub
  | array element =>
    rcases hr.array_of_below ha.1 hbelow with hk | hid | hvar
    · obtain ⟨base', args', hk', hbase, hargs⟩ := h.applied hk
      have hbase : base' = .array := hbase (by decide)
      have hargs : args' = [element] := by
        obtain ⟨element', rest, helement, hrest, rfl⟩ := List.forall₂_cons_left_iff.mp hargs
        rw [helement ha.2, List.forall₂_nil_left_iff.mp hrest]
      rw [hbase, hargs] at hk'
      -- types of arrays with the same elements are the same
      have hsame : some a' = some id' := ha'.1.symm.trans (hr'.canonical.interned?_eq hk')
      rw [Option.some.inj hsame, hi'.isSubtype_iff_below h.lt' h.lt']
      exact below_of_admits (.inl rfl)
    · rw [h.builtin hid, isSubtype_arrayOf hr'.toGrown ha'.1 hid, ← isSubtype_arrayOf hr.toGrown ha.1 hid]
      exact hsub
    · exact absurd hvar hnotvar

end Alike

end TypeArena

end DispatchLang
