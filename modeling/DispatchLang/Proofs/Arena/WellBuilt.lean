import DispatchLang.Arena.Subtype
import DispatchLang.Assoc

/-!
# Well-built arenas

A session never writes an arena down; it grows one out of the initial arena, by declaring types, by asking
for interned types, and by filling in the fields of a type whose name was declared before them.
`WellBuilt` lists these steps. What every one of them preserves is an order of age: the parent of a type
and the parts of an interned type are older than the type itself, and only the fields of a struct and the
alternatives of a type may refer to any type there is. That is the invariant `Ordered`.

Type variables are interned by name and constraint. The index that does it is changed by nothing but asking
for a variable. So the variables that it holds are types of the arena, whatever else the arena is grown by
(`VarsIn`).

## Main results

* `WellBuilt.ordered`: every well-built arena is ordered.
* `VarsIn.var`: asking for a variable keeps the index of variables right.
* `applied_varIndex`, `function_varIndex`: interning other types leaves it as it is.
-/

namespace DispatchLang

/-! ## The types a descriptor refers to -/

def TypeKind.parts : TypeKind → List TypeId
  | .applied base args => base :: args
  | .var constraint => [constraint]
  | .function params result => params ++ [result]
  | _ => []

/-- The types of the fields of a struct or of the alternatives of a type. -/
def TypeKind.members : TypeKind → List TypeId
  | .struct _ fields => fields.map Prod.snd
  | .variants _ alternatives => alternatives.flatMap fun alternative => alternative.2.map Prod.snd
  | _ => []

def TypeKind.ids (kind : TypeKind) : List TypeId := kind.parts ++ kind.members

@[simp] theorem TypeKind.ids_applied (base : TypeId) (args : List TypeId) :
    (TypeKind.applied base args).ids = base :: args := List.append_nil _

@[simp] theorem TypeKind.ids_function (params : List TypeId) (result : TypeId) :
    (TypeKind.function params result).ids = params ++ [result] := List.append_nil _

def TypeKind.above? : TypeKind → Option TypeId
  | .applied base _ => some base
  | .function _ _ => some .function
  | _ => none

namespace TypeDef

/-- The types that have to be older than the described one. -/
def elders (d : TypeDef) : List TypeId := d.parent.toList ++ d.kind.parts

/-- All types a descriptor refers to. -/
def ids (d : TypeDef) : List TypeId := d.parent.toList ++ d.kind.ids

/-- One descriptor is another whose fields or alternatives have been filled in. -/
inductive Refills : TypeDef → TypeDef → Prop where
  | struct (name : String) (parent : Option TypeId) (params : List String)
      (fields fields' : FieldTypes) :
      Refills ⟨name, .struct params fields, parent⟩ ⟨name, .struct params fields', parent⟩
  | variants (name : String) (parent : Option TypeId) (params : List String)
      (alternatives alternatives' : List (String × FieldTypes)) :
      Refills ⟨name, .variants params alternatives, parent⟩
        ⟨name, .variants params alternatives', parent⟩

theorem Refills.elders_eq {d d' : TypeDef} (h : Refills d d') : d'.elders = d.elders := by
  cases h <;> rfl

theorem Refills.name_eq {d d' : TypeDef} (h : Refills d d') : d'.name = d.name := by
  cases h <;> rfl

theorem Refills.parts_eq {d d' : TypeDef} (h : Refills d d') : d.kind.parts = [] ∧ d'.kind.parts = [] := by
  cases h <;> exact ⟨rfl, rfl⟩

end TypeDef

namespace TypeArena

/-! ## The steps that build an arena -/

/-- The arenas that arise from the initial one by declaring types, interning types and filling in the
fields of declared types, always over types that are there already. -/
inductive WellBuilt : TypeArena → Prop where
  | initial : WellBuilt .initial
  | add {arena : TypeArena} (d : TypeDef) (h : WellBuilt arena)
      (hd : ∀ x ∈ d.ids, x < arena.size) : WellBuilt (arena.add d).2
  | applied {arena : TypeArena} (base : TypeId) (args : List TypeId) (h : WellBuilt arena)
      (hb : base < arena.size) (ha : ∀ x ∈ args, x < arena.size) :
      WellBuilt (arena.applied base args).2
  | var {arena : TypeArena} (name : String) (constraint : TypeId) (h : WellBuilt arena)
      (hc : constraint < arena.size) : WellBuilt (arena.var name constraint).2
  | function {arena : TypeArena} (params : List TypeId) (result : TypeId) (h : WellBuilt arena)
      (hp : ∀ x ∈ params, x < arena.size) (hr : result < arena.size) :
      WellBuilt (arena.function params result).2
  | redefine {arena : TypeArena} (id : TypeId) (d : TypeDef) (h : WellBuilt arena)
      (hid : id < arena.size) (hd : TypeDef.Refills (arena.get id) d)
      (hm : ∀ x ∈ d.kind.members, x < arena.size) : WellBuilt (arena.redefine id d)

/-! ## Descriptors of an arena that grew -/

variable {arena arena' : TypeArena} {d : TypeDef} {id : TypeId}

theorem get_of_size_le (h : arena.size ≤ id) : arena.get id = ⟨"Any", .any, none⟩ := by
  rw [get, Array.getElem?_eq_none h, Option.getD_none]

theorem size_of_push (h : arena'.types = arena.types.push d) : arena'.size = arena.size + 1 := by
  rw [size, h, Array.size_push, size]

theorem get_of_push (h : arena'.types = arena.types.push d) (hid : id < arena.size) :
    arena'.get id = arena.get id := by
  rw [get, h, Array.getElem?_push_lt hid, get, Array.getElem?_eq_getElem hid]

theorem get_of_push_self (h : arena'.types = arena.types.push d) :
    arena'.get arena.size = d := by
  rw [get, h, size, Array.getElem?_push_size, Option.getD_some]

@[simp] theorem size_redefine : (arena.redefine id d).size = arena.size := by
  rw [redefine, size, Array.size_setIfInBounds, size]

theorem get_redefine (hid : id < arena.size) (x : TypeId) :
    (arena.redefine id d).get x = if x = id then d else arena.get x := by
  rw [get, redefine, Array.getElem?_setIfInBounds]
  by_cases hx : id = x
  · rw [if_pos hx, if_pos hx.symm, if_pos (by exact hid), Option.getD_some]
  · rw [if_neg hx, if_neg (Ne.symm hx), get]

theorem parts_redefine (hid : id < arena.size) (hd : TypeDef.Refills (arena.get id) d) (x : TypeId)
    (hp : (arena.get x).kind.parts = []) : ((arena.redefine id d).get x).kind.parts = [] := by
  rw [get_redefine hid]
  split
  · exact hd.parts_eq.2
  · exact hp

theorem var_cases (arena : TypeArena) (name : String) (constraint : TypeId) :
    (∃ id, arena.varIndex.lookup (name, constraint) = some id ∧
        arena.var name constraint = (id, arena)) ∨
      (arena.varIndex.lookup (name, constraint) = none ∧
        (arena.var name constraint).1 = arena.size ∧
        (arena.var name constraint).2.types = arena.types.push ⟨name, .var constraint, none⟩) := by
  rw [var]
  cases h : arena.varIndex.lookup (name, constraint) with
  | some id => exact .inl ⟨id, rfl, rfl⟩
  | none => exact .inr ⟨rfl, rfl, rfl⟩

/-! ## Interning -/

def interned? (arena : TypeArena) : TypeKind → Option TypeId
  | .applied base args => arena.appliedIndex.lookup (base, args)
  | .function params result => arena.functionIndex.lookup (params, result)
  | _ => none

theorem interned?_eq_none {kind : TypeKind} (h : kind.above? = none) :
    arena.interned? kind = none := by
  cases kind with
  | applied _ _ => cases h
  | function _ _ => cases h
  | _ => rfl

/-- What interning a kind can answer: the type that is there, or else a new one that the index then
holds. -/
inductive Interns (arena : TypeArena) (kind : TypeKind) : TypeId → TypeArena → Prop where
  | found {id : TypeId} (h : arena.interned? kind = some id) : Interns arena kind id arena
  | added {name : String} {arena' : TypeArena} (h : arena.interned? kind = none)
      (htypes : arena'.types = arena.types.push ⟨name, kind, kind.above?⟩)
      (hindex : ∀ k, arena'.interned? k = if k = kind then some arena.size else arena.interned? k) :
      Interns arena kind arena.size arena'

theorem applied_interns (arena : TypeArena) (base : TypeId) (args : List TypeId) :
    arena.Interns (.applied base args) (arena.applied base args).1 (arena.applied base args).2 := by
  rw [applied]
  cases h : arena.appliedIndex.lookup (base, args) with
  | some id => exact .found h
  | none =>
    refine .added h rfl fun k => ?_
    cases k with
    | applied base' args' =>
      simp only [interned?, List.lookup_cons, TypeKind.applied.injEq]
      by_cases heq : base' = base ∧ args' = args
      · rw [if_pos heq, heq.1, heq.2, beq_self_eq_true]
        rfl
      · rw [if_neg heq, beq_eq_false_iff_ne.mpr fun hk => heq (Prod.mk.inj hk)]
        rfl
    | _ => rfl

theorem function_interns (arena : TypeArena) (params : List TypeId) (result : TypeId) :
    arena.Interns (.function params result) (arena.function params result).1
      (arena.function params result).2 := by
  rw [function]
  cases h : arena.functionIndex.lookup (params, result) with
  | some id => exact .found h
  | none =>
    refine .added h rfl fun k => ?_
    cases k with
    | function params' result' =>
      simp only [interned?, List.lookup_cons, TypeKind.function.injEq]
      by_cases heq : params' = params ∧ result' = result
      · rw [if_pos heq, heq.1, heq.2, beq_self_eq_true]
        rfl
      · rw [if_neg heq, beq_eq_false_iff_ne.mpr fun hk => heq (Prod.mk.inj hk)]
        rfl
    | _ => rfl

/-! ## The order of age -/

/-- Parents and the parts of interned types are older than the types they belong to; the types of fields
are there. -/
structure Ordered (arena : TypeArena) : Prop where
  /-- The types every arena begins with are there. -/
  builtin : builtinTypes.length ≤ arena.size
  /-- The parent and the parts of a type are older than it. -/
  elders : ∀ id, ∀ x ∈ (arena.get id).elders, x < id
  /-- The types of fields are types of the arena. -/
  members : ∀ id, ∀ x ∈ (arena.get id).kind.members, x < arena.size

namespace Ordered

theorem initial : Ordered .initial where
  builtin := Nat.le_refl _
  elders id := by
    by_cases hid : id < TypeArena.initial.size
    · revert id; decide
    · rw [get_of_size_le (Nat.le_of_not_lt hid)]
      intro x hx
      cases hx
  members id := by
    by_cases hid : id < TypeArena.initial.size
    · revert id; decide
    · rw [get_of_size_le (Nat.le_of_not_lt hid)]
      intro x hx
      cases hx

theorem push (h : arena.Ordered) (hd : ∀ x ∈ d.ids, x < arena.size)
    (hpush : arena'.types = arena.types.push d) : arena'.Ordered := by
  have hsize : arena'.size = arena.size + 1 := size_of_push hpush
  refine ⟨?_, fun id => ?_, fun id => ?_⟩
  · have hb := h.builtin
    omega
  · rcases Nat.lt_trichotomy id arena.size with hid | rfl | hid
    · rw [get_of_push hpush hid]
      exact h.elders id
    · rw [get_of_push_self hpush]
      refine fun x hx => hd x ?_
      rw [TypeDef.ids, TypeKind.ids, ← List.append_assoc]
      exact List.mem_append_left _ hx
    · rw [get_of_size_le (by omega)]
      intro x hx
      cases hx
  · rcases Nat.lt_trichotomy id arena.size with hid | rfl | hid
    · rw [get_of_push hpush hid]
      rw [hsize]
      exact fun x hx => Nat.lt_succ_of_lt (h.members id x hx)
    · rw [get_of_push_self hpush, hsize]
      refine fun x hx => Nat.lt_succ_of_lt (hd x ?_)
      exact List.mem_append_right _ (List.mem_append_right _ hx)
    · rw [get_of_size_le (by omega)]
      intro x hx
      cases hx

theorem redefine (h : arena.Ordered) (hid : id < arena.size)
    (hd : TypeDef.Refills (arena.get id) d) (hm : ∀ x ∈ d.kind.members, x < arena.size) :
    (arena.redefine id d).Ordered := by
  refine ⟨?_, fun y => ?_, fun y => ?_⟩
  · rw [size_redefine]
    exact h.builtin
  · rw [get_redefine hid]
    by_cases hy : y = id
    · rw [if_pos hy, hd.elders_eq, hy]
      exact h.elders id
    · rw [if_neg hy]
      exact h.elders y
  · rw [get_redefine hid, size_redefine]
    by_cases hy : y = id
    · rw [if_pos hy]
      exact hm
    · rw [if_neg hy]
      exact h.members y

theorem interns (h : arena.Ordered) {kind : TypeKind}
    (hk : ∀ x ∈ kind.ids, x < arena.size)
    (hi : arena.Interns kind id arena') : arena'.Ordered := by
  cases hi with
  | found _ => exact h
  | added _ htypes _ =>
    refine h.push (fun x hx => ?_) htypes
    rcases List.mem_append.mp hx with hx | hx
    · -- The type above an interned type is its base, or that of all functions.
      cases kind with
      | applied base args =>
        rw [List.mem_singleton.mp hx]
        exact hk base (TypeKind.ids_applied base args ▸ List.mem_cons_self)
      | function params result =>
        rw [List.mem_singleton.mp hx]
        exact Nat.lt_of_lt_of_le (by decide) h.builtin
      | _ => cases hx
    · exact hk x hx

theorem var (h : arena.Ordered) (name : String) {constraint : TypeId}
    (hc : constraint < arena.size) : (arena.var name constraint).2.Ordered := by
  rcases var_cases arena name constraint with ⟨id, -, heq⟩ | ⟨-, -, hpush⟩
  · rw [heq]
    exact h
  · refine h.push (fun x hx => ?_) hpush
    rw [List.mem_singleton.mp hx]
    exact hc

/-! ### What the order says -/

variable (h : arena.Ordered)
include h

theorem parent_lt {up : TypeId} (hup : (arena.get id).parent = some up) : up < id := by
  refine h.elders id up (List.mem_append_left _ ?_)
  rw [hup]
  exact List.mem_singleton_self up

theorem part_lt {x : TypeId} (hx : x ∈ (arena.get id).kind.parts) : x < id :=
  h.elders id x (List.mem_append_right _ hx)

theorem field_lt {params : List String} {fields : FieldTypes} {f : String × TypeId}
    (hk : (arena.get id).kind = .struct params fields) (hf : f ∈ fields) : f.2 < arena.size := by
  refine h.members id f.2 ?_
  rw [hk]
  exact List.mem_map_of_mem hf

theorem ids_lt (hid : id < arena.size) {x : TypeId} (hx : x ∈ (arena.get id).kind.ids) :
    x < arena.size := by
  rcases List.mem_append.mp hx with hx | hx
  · exact Nat.lt_trans (h.part_lt hx) hid
  · exact h.members id x hx

end Ordered

/-- The order of age holds initially and is preserved by every step that builds an arena. -/
theorem WellBuilt.ordered (h : arena.WellBuilt) : arena.Ordered := by
  induction h with
  | initial => exact .initial
  | add d _ hd ih => exact ih.push hd rfl
  | applied base args _ hb ha ih =>
    refine ih.interns ?_ (applied_interns _ base args)
    rw [TypeKind.ids_applied]
    exact List.forall_mem_cons.mpr ⟨hb, ha⟩
  | var name constraint _ hc ih => exact ih.var name hc
  | function params result _ hp hr ih =>
    refine ih.interns ?_ (function_interns _ params result)
    rw [TypeKind.ids_function]
    exact List.forall_mem_append.mpr ⟨hp, List.forall_mem_singleton.mpr hr⟩
  | redefine id d _ hid hd hm ih => exact ih.redefine hid hd hm

/-! ## The index of type variables -/

def VarsIn (arena : TypeArena) : Prop :=
  ∀ (key : String × TypeId) (id : TypeId), arena.varIndex.lookup key = some id → id < arena.size

namespace VarsIn

theorem initial : VarsIn .initial := fun _ _ h => by cases h

theorem grown (h : arena.VarsIn) (hv : arena'.varIndex = arena.varIndex)
    (hn : arena.size ≤ arena'.size) : arena'.VarsIn := fun key id hl =>
  Nat.lt_of_lt_of_le (h key id (hv ▸ hl)) hn

/-- Asking for a variable keeps the index right, and the variable is there. -/
theorem var (h : arena.VarsIn) (name : String) (constraint : TypeId) :
    (arena.var name constraint).2.VarsIn ∧
      (arena.var name constraint).1 < (arena.var name constraint).2.size := by
  rw [TypeArena.var]
  cases hl : arena.varIndex.lookup (name, constraint) with
  | some id => exact ⟨h, h _ _ hl⟩
  | none =>
    have hnew : arena.size < (arena.add ⟨name, .var constraint, none⟩).2.size :=
      Nat.lt_of_lt_of_eq (Nat.lt_succ_self _) (size_of_push rfl).symm
    refine ⟨fun key id hk => ?_, hnew⟩
    dsimp only at hk
    rw [List.lookup_cons] at hk
    split at hk
    · rw [← Option.some.inj hk]
      exact hnew
    · exact Nat.lt_trans (h _ _ hk) hnew

end VarsIn

/-! ### What leaves the index as it is -/

theorem applied_varIndex (arena : TypeArena) (base : TypeId) (args : List TypeId) :
    (arena.applied base args).2.varIndex = arena.varIndex := by
  rw [applied]
  split <;> rfl

theorem function_varIndex (arena : TypeArena) (params : List TypeId) (result : TypeId) :
    (arena.function params result).2.varIndex = arena.varIndex := by
  rw [function]
  split <;> rfl

end TypeArena

end DispatchLang
