import DispatchLang.Proofs.Arena.Instances

/-!
# Ground types

A type of an arena is *ground* if it mentions no type variables. Substitution rebuilds a type from the inside out
and interns what it gets on the way, so that it may add types. It adds none where there is nothing to replace: every
part of a ground type is interned already, under the very parts it was made of, and so is the type itself.

Where all variables that occur in a type stand for ground types, what comes out is ground, in the arena as it is by
then. So a second substitution finds nothing to do, whatever the bindings.

No descriptor is ever changed by substitution, and this needs no invariant: it only interns.

## Main results

* `substituteWithin_extends`: substitution extends any arena.
* `Regular.substituteWithin_ground`: replacing all variables by ground types gives a ground type.
* `Regular.substitute_interned`: what substitution does to ground types, to types all of whose variables stand for
  ground types, and to the arena.
* `substitute_not_interned`: the first two fail where applied types are not interned, or a variable is applied.
-/

namespace DispatchLang

theorem TypeKind.inner_withInner {kind : TypeKind} {images : List TypeId} (h : images.length = kind.inner.length) :
    (kind.withInner images).inner = images := by
  cases kind with
  | applied base args => rfl
  | function params result =>
    have hne : images ≠ [] := by
      rintro rfl
      rw [inner, List.length_append] at h
      exact absurd h (Nat.ne_of_lt (Nat.succ_pos _))
    rw [withInner, inner, List.getLastD_eq_getLast?, List.getLast?_eq_some_getLast hne, Option.getD_some,
      List.dropLast_append_getLast hne]
  | _ => exact (List.length_eq_zero_iff.mp h).symm

namespace TypeArena

variable {arena arena' : TypeArena} {bindings : Bindings} {id : TypeId} {ids : List TypeId} {kind : TypeKind}
  {step : TypeId → TypeArena → TypeId × TypeArena}

/-! ## Substitution extends every arena -/

theorem length_mapTypes (step : TypeId → TypeArena → TypeId × TypeArena) (ids : List TypeId) (arena : TypeArena) :
    (mapTypes step ids arena).1.length = ids.length := by
  induction ids generalizing arena with
  | nil => rfl
  | cons id ids ih => rw [mapTypes_cons, List.length_cons, List.length_cons, ih]

theorem mapTypes_extends (hstep : ∀ (id : TypeId) (arena : TypeArena), arena.Extends (step id arena).2) (ids : List TypeId)
    (arena : TypeArena) : arena.Extends (mapTypes step ids arena).2 := by
  induction ids generalizing arena with
  | nil => exact .refl _
  | cons id ids ih => exact (hstep id arena).trans (ih _)

theorem substituteWithin_extends (bindings : Bindings) (n : Nat) (id : TypeId) (arena : TypeArena) :
    arena.Extends (substituteWithin bindings n id arena).2 := by
  induction n generalizing id arena with
  | zero => exact .refl _
  | succ n ih =>
    by_cases ha : (arena.get id).kind.above? = none
    · rw [substituteWithin_eq_standIn n ha]
      exact .refl _
    · rw [substituteWithin_eq_intern n ha]
      exact (mapTypes_extends ih _ arena).trans
        (intern_interns _ (TypeKind.above?_withInner.trans_ne ha)).extension

/-! ## Types that mention variables -/

theorem Extends.hasVars_eq (he : arena.Extends arena') (hi : arena.Ordered) (hid : id < arena.size) : arena'.hasVars id = arena.hasVars id := by
  rw [Bool.eq_iff_iff, hasVars_iff, hasVars_iff]
  exact exists_congr fun name => exists_congr fun constraint => he.occurs_iff hi hid

/-- A type that is no variable itself mentions variables exactly if one of the types it is made of does. -/
theorem Ordered.hasVars_eq_any (hi : arena.Ordered) (hid : id < arena.size) (hk : (arena.get id).kind.isVar = false) :
    arena.hasVars id = (arena.get id).kind.inner.any arena.hasVars := by
  have hnot : ∀ constraint, (arena.get id).kind ≠ .var constraint := by
    intro constraint heq
    rw [heq] at hk
    cases hk
  rw [Bool.eq_iff_iff, List.any_eq_true]
  simp only [hasVars_iff, occurs_iff_inner hi hid hnot]
  constructor
  · rintro ⟨name, constraint, x, hx, ho⟩
    exact ⟨x, hx, name, constraint, ho⟩
  · rintro ⟨x, hx, name, constraint, ho⟩
    exact ⟨name, constraint, x, hx, ho⟩

/-! ## Ground types -/

/-- A type of the arena that mentions no type variables. -/
structure Ground (arena : TypeArena) (id : TypeId) : Prop where
  lt : id < arena.size
  plain : arena.hasVars id = false

def Bindings.Ground (bindings : Bindings) (arena : TypeArena) (id : TypeId) : Prop :=
  ∀ name constraint, arena.Occurs name constraint id →
    ∃ type, bindings.lookup name = some type ∧ arena.Ground type

theorem Ground.grown (h : arena.Ground id) (hi : arena.Ordered) (he : arena.Extends arena') : arena'.Ground id :=
  ⟨he.lt h.lt, (he.hasVars_eq hi h.lt).trans h.plain⟩

theorem Bindings.Ground.inner (h : bindings.Ground arena id) (hi : arena.Ordered) (hid : id < arena.size)
    (he : arena.Extends arena') {x : TypeId} (hx : x ∈ (arena.get id).kind.inner) :
    bindings.Ground arena' x := by
  rintro name constraint ho
  obtain ⟨y, hy, hk, hname⟩ := (he.occurs_iff hi (Nat.lt_trans (inner_lt hi hx) hid)).mp ho
  obtain ⟨type, hlookup, hground⟩ := h name constraint ⟨y, mem_constituents_inner hi hid hx hy, hk, hname⟩
  exact ⟨type, hlookup, hground.grown hi he⟩

namespace Regular

/-- Steps that answer ground types do so one after the other, as what is added later does not matter to them. -/
theorem mapTypes_ground (h : arena.Regular) (hextends : ∀ (id : TypeId) (arena : TypeArena), arena.Extends (step id arena).2)
    (hstep : ∀ id ∈ ids, ∀ {arena'}, arena.Extends arena' → arena'.Regular →
      (step id arena').2.Regular ∧ (step id arena').2.Ground (step id arena').1) :
    (TypeArena.mapTypes step ids arena).2.Regular ∧
      ∀ x ∈ (TypeArena.mapTypes step ids arena).1, (TypeArena.mapTypes step ids arena).2.Ground x := by
  induction ids generalizing arena with
  | nil => exact ⟨h, nofun⟩
  | cons id ids ih =>
    obtain ⟨hregular, hground⟩ := hstep id List.mem_cons_self (.refl arena) h
    obtain ⟨hregular', hgrounds⟩ := ih hregular fun x hx _ he =>
      hstep x (List.mem_cons_of_mem _ hx) ((hextends id arena).trans he)
    rw [mapTypes_cons]
    refine ⟨hregular', List.forall_mem_cons.mpr ⟨?_, hgrounds⟩⟩
    exact hground.grown hregular.indexed.toOrdered (mapTypes_extends hextends ids _)

theorem intern_ground (h : arena.Regular) (ha : kind.above? ≠ none) (hk : ∀ x ∈ kind.ids, x < arena.size)
    (hinner : ∀ x ∈ kind.inner, arena.Ground x) : (arena.intern kind).2.Ground (arena.intern kind).1 := by
  have hgrows := intern_grows h.indexed ha hk
  have hi := hgrows.indexed.toOrdered
  have hkind := (hgrows.indexed.index (intern_interns arena ha).interned?_eq).2.1
  refine ⟨hgrows.lt, ?_⟩
  rw [hi.hasVars_eq_any hgrows.lt, hkind, List.any_eq_false]
  · exact fun x hx => Bool.eq_false_iff.mp ((hinner x hx).grown h.indexed.toOrdered hgrows.extension).plain
  · rw [hkind]
    cases kind with
    | var constraint => exact absurd rfl ha
    | _ => rfl

theorem standIn_ground (h : arena.Regular) (hid : id < arena.size) (ha : (arena.get id).kind.above? = none)
    (hb : bindings.Ground arena id) : arena.Ground (arena.standIn bindings id) := by
  have hi := h.indexed.toOrdered
  rw [standIn]
  cases hk : (arena.get id).kind with
  | var constraint =>
    obtain ⟨type, hlookup, hground⟩ := hb _ _ ((occurs_var hi hid hk).mpr ⟨rfl, rfl⟩)
    dsimp only
    rw [hlookup]
    exact hground
  | applied base args => rw [hk] at ha; cases ha
  | function params result => rw [hk] at ha; cases ha
  | _ => exact ⟨hid, by rw [hasVars, hasVarsWithin, hk]⟩

theorem substituteWithin_ground (n : Nat) {id : TypeId} {arena : TypeArena} (h : arena.Regular) (hid : id < arena.size)
    (hn : id < n) (hb : bindings.Ground arena id) :
    (TypeArena.substituteWithin bindings n id arena).2.Regular ∧
      (TypeArena.substituteWithin bindings n id arena).2.Ground
        (TypeArena.substituteWithin bindings n id arena).1 := by
  induction n generalizing id arena with
  | zero => exact absurd hn (Nat.not_lt_zero id)
  | succ n ih =>
    by_cases ha : (arena.get id).kind.above? = none
    · rw [substituteWithin_eq_standIn n ha]
      exact ⟨h, h.standIn_ground hid ha hb⟩
    · have hi := h.indexed.toOrdered
      have hextends := mapTypes_extends (substituteWithin_extends bindings n) (arena.get id).kind.inner arena
      obtain ⟨hregular, hground⟩ := h.mapTypes_ground
        (substituteWithin_extends bindings n) fun x (hx : x ∈ (arena.get id).kind.inner) _ he hr =>
          have hlt := inner_lt hi hx
          ih hr (he.lt (Nat.lt_trans hlt hid)) (Nat.lt_of_lt_of_le hlt (Nat.le_of_lt_succ hn)) (hb.inner hi hid he hx)
      have hids := withInner_lt h.indexed hid hextends fun x hx => (hground x hx).lt
      rw [substituteWithin_eq_intern n ha]
      refine ⟨hregular.interns (TypeKind.above?_withInner.trans_ne ha) hids,
        hregular.intern_ground (TypeKind.above?_withInner.trans_ne ha) hids ?_⟩
      rw [TypeKind.inner_withInner (length_mapTypes _ _ _)]
      exact hground

/-- A type that mentions no type variables stays what it is, and nothing is added. A type all of whose variables stand
for types without variables becomes one that mentions none, and stays what it is from then on. No descriptor is changed,
whatever the type and the bindings. -/
theorem substitute_interned (h : arena.Regular) (hid : id < arena.size) :
    (arena.hasVars id = false → ∀ bindings, arena.substitute bindings id = (id, arena)) ∧
      (∀ bindings, bindings.Ground arena id →
        (arena.substitute bindings id).2.hasVars (arena.substitute bindings id).1 = false ∧
        ∀ bindings', (arena.substitute bindings id).2.substitute bindings' (arena.substitute bindings id).1 =
          arena.substitute bindings id) ∧
      ∀ bindings, ∀ x < arena.size, (arena.substitute bindings id).2.get x = arena.get x := by
  refine ⟨fun hv bindings => h.substitute_of_plain hid hv, fun bindings hb => ?_, fun bindings x hx => ?_⟩
  · obtain ⟨hregular, hground⟩ := h.substituteWithin_ground _ hid (Nat.lt_succ_of_lt hid) hb
    exact ⟨hground.plain, fun bindings' => hregular.substitute_of_plain hground.lt hground.plain⟩
  · exact (substituteWithin_extends bindings _ id arena).get_eq hx

end Regular

/-! ### Functions that pick an element -/

/-- An arena with a type of functions that take arrays of one type and give an element of it. -/
def pickers : TypeArena :=
  (((TypeArena.initial.var "T" .any).2.applied .array [12]).2.function [13] 12).2

theorem pickers_regular : pickers.Regular :=
  .function _ _ (.applied _ _ (.var _ _ .initial (by decide)) (by decide) (by decide)) (by decide) (by decide)

/-- Picking integers: two types are added, neither of them mentions a variable, and there is nothing left to
replace. -/
theorem pickers_interned : pickers.Regular ∧ 14 < pickers.size ∧ Bindings.Ground [("T", .int)] pickers 14 ∧
    (pickers.substitute [("T", .int)] 14).1 = 16 ∧ (pickers.substitute [("T", .int)] 14).2.hasVars 16 = false ∧
    ∀ bindings, (pickers.substitute [("T", .int)] 14).2.substitute bindings 16 = pickers.substitute [("T", .int)] 14 := by
  have hground : Bindings.Ground [("T", .int)] pickers 14 := by
    have hall : ∀ x ∈ pickers.constituents 14, (pickers.get x).kind.isVar = true → pickers.name x = "T" := by decide
    rintro name constraint ⟨x, hx, hk, rfl⟩
    rw [hall x hx (by rw [hk]; rfl)]
    exact ⟨.int, rfl, by decide, by decide⟩
  have himage : (pickers.substitute [("T", .int)] 14).1 = 16 := by decide
  obtain ⟨-, hclosed, -⟩ := pickers_regular.substitute_interned (by decide : 14 < pickers.size)
  obtain ⟨hplain, hagain⟩ := hclosed _ hground
  rw [himage] at hplain hagain
  exact ⟨pickers_regular, by decide, hground, himage, hplain, hagain⟩

/-! ### Types that are not interned -/

/-- An arena in which `Array[Int]` was declared and not built. -/
def declaredArray : TypeArena :=
  (TypeArena.initial.add ⟨"Array[Int]", .applied .array [.int], some .array⟩).2

def appliedVariable : TypeArena := ((TypeArena.initial.var "T" .any).2.applied 12 [.int]).2

/-- Where applied types are not interned, a type without variables may become another one, which is added; and a
variable that is applied stays what it is, whatever it stands for. -/
theorem substitute_not_interned :
    (declaredArray.WellBuilt ∧ 12 < declaredArray.size ∧ declaredArray.hasVars 12 = false ∧
      (declaredArray.substitute [] 12).1 = 13 ∧ (declaredArray.substitute [] 12).2.size = declaredArray.size + 1) ∧
    appliedVariable.WellBuilt ∧ (appliedVariable.get 13).kind = .applied 12 [.int] ∧
      appliedVariable.hasVars 12 = true ∧ appliedVariable.hasVars .array = false ∧
      (appliedVariable.substitute [("T", .array)] 13).1 = 13 ∧
      ((appliedVariable.substitute [("T", .array)] 13).2.get 13).kind = .applied 12 [.int] :=
  ⟨⟨.add _ .initial (by decide), by decide, by decide, by decide, by decide⟩,
    .applied _ _ (.var _ _ .initial (by decide)) (by decide) (by decide), by decide, by decide, by decide, by decide,
    by decide⟩

end TypeArena

end DispatchLang
