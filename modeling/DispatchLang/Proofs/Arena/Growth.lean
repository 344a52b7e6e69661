import DispatchLang.Proofs.Arena.WellBuilt

/-!
# Arenas that grow

Resolving a call adds types to the arena, so what was true of a type before has to be true of it later.
`Extends` means that an arena has grown: the descriptors of the types that were there are the same, and so
is what the index of interned types knows of them. `Indexed` is the invariant of that index: what it holds
under the parts of a type is that very type.

## Main results

* `WellBuilt.indexed`: in a well-built arena the index of interned types is right.
* `Interns.extension`, `Interns.indexed`: interning a kind extends the arena and keeps its index right.
-/

namespace DispatchLang.TypeArena

variable {arena arena' arena'' : TypeArena} {id : TypeId} {kind : TypeKind}

/-! ## The index of interned types -/

/-- What the index of interned types holds under the parts of a type is that type. -/
structure Indexed (arena : TypeArena) : Prop extends arena.Ordered where
  /-- An interned type is there, with the kind it is interned under and the type above it. -/
  index : ∀ {kind id}, arena.interned? kind = some id →
    id < arena.size ∧ (arena.get id).kind = kind ∧ (arena.get id).parent = kind.above?

/-! ## Extensions -/

/-- One arena has grown out of another: the types that were there are as they were. -/
structure Extends (arena arena' : TypeArena) : Prop where
  size_le : arena.size ≤ arena'.size
  get_eq : ∀ {id}, id < arena.size → arena'.get id = arena.get id
  interned?_iff : ∀ {id kind}, id < arena.size →
    (arena'.interned? kind = some id ↔ arena.interned? kind = some id)

namespace Extends

theorem refl (arena : TypeArena) : arena.Extends arena :=
  ⟨Nat.le_refl _, fun _ => rfl, fun _ => Iff.rfl⟩

theorem trans (h : arena.Extends arena') (h' : arena'.Extends arena'') :
    arena.Extends arena'' := by
  refine ⟨Nat.le_trans h.size_le h'.size_le, fun hid => ?_, fun hid => ?_⟩
  · rw [h'.get_eq (Nat.lt_of_lt_of_le hid h.size_le), h.get_eq hid]
  · rw [h'.interned?_iff (Nat.lt_of_lt_of_le hid h.size_le), h.interned?_iff hid]

theorem push {d : TypeDef} (htypes : arena'.types = arena.types.push d)
    (hindex : ∀ k, arena'.interned? k = arena.interned? k) : arena.Extends arena' := by
  refine ⟨?_, fun hid => get_of_push htypes hid, fun {id k} _ => by rw [hindex]⟩
  rw [size_of_push htypes]
  exact Nat.le_succ _

theorem var (arena : TypeArena) (name : String) (constraint : TypeId) :
    arena.Extends (arena.var name constraint).2 := by
  rcases var_cases arena name constraint with ⟨id, -, heq⟩ | ⟨hnone, -, htypes⟩
  · rw [heq]
    exact refl arena
  · refine push htypes fun k => ?_
    rw [TypeArena.var, hnone]
    cases k <;> rfl

/-- A type that was added since may be redefined. -/
theorem redefine (h : arena.Extends arena') (hold : arena.size ≤ id) (hid : id < arena'.size) (d : TypeDef) :
    arena.Extends (arena'.redefine id d) := by
  have hindex : ∀ k, (arena'.redefine id d).interned? k = arena'.interned? k := fun k => by
    cases k <;> rfl
  refine ⟨?_, fun {x} hx => ?_, fun {x k} hx => ?_⟩
  · rw [size_redefine]
    exact h.size_le
  · rw [get_redefine hid, if_neg (Nat.ne_of_lt (Nat.lt_of_lt_of_le hx hold)), h.get_eq hx]
  · rw [hindex, h.interned?_iff hx]

theorem lt (h : arena.Extends arena') (hid : id < arena.size) : id < arena'.size :=
  Nat.lt_of_lt_of_le hid h.size_le

theorem interned?_eq (h : arena.Extends arena') (hi : arena.Indexed)
    (hk : arena.interned? kind = some id) : arena'.interned? kind = some id :=
  (h.interned?_iff (hi.index hk).1).mpr hk

theorem parts_eq_nil (h : arena.Extends arena') (id : TypeId) (hid : id < arena.size)
    (hp : (arena.get id).kind.parts = []) : (arena'.get id).kind.parts = [] := by
  rwa [h.get_eq hid]

theorem name_eq (h : arena.Extends arena') (hid : id < arena.size) :
    arena'.name id = arena.name id := by
  rw [name, h.get_eq hid, name]

theorem names_eq (h : arena.Extends arena') {ids : List TypeId}
    (hids : ∀ id ∈ ids, id < arena.size) : arena'.names ids = arena.names ids :=
  List.map_congr_left fun id hmem => h.name_eq (hids id hmem)

end Extends

/-! ## Interning extends an arena -/

namespace Interns

theorem extension (h : arena.Interns kind id arena') : arena.Extends arena' := by
  cases h with
  | found _ => exact .refl _
  | added hnone htypes hindex =>
    have hsize := size_of_push htypes
    refine ⟨by omega, fun hid => get_of_push htypes hid, fun {x k} hx => ?_⟩
    rw [hindex]
    by_cases hk : k = kind
    · rw [if_pos hk, hk, hnone, Option.some.injEq]
      exact ⟨fun heq => absurd heq (Nat.ne_of_gt hx), nofun⟩
    · rw [if_neg hk]

theorem indexed (h : arena.Interns kind id arena') (hi : arena.Indexed)
    (hk : ∀ x ∈ kind.ids, x < arena.size) : arena'.Indexed := by
  refine ⟨hi.toOrdered.interns hk h, fun {k x} hx => ?_⟩
  cases h with
  | found _ => exact hi.index hx
  | added hnone htypes hindex =>
    rw [hindex] at hx
    by_cases heq : k = kind
    · rw [if_pos heq, Option.some.injEq] at hx
      rw [← hx, get_of_push_self htypes, size_of_push htypes, heq]
      exact ⟨Nat.lt_succ_self _, rfl, rfl⟩
    · rw [if_neg heq] at hx
      obtain ⟨hlt, hkind, hparent⟩ := hi.index hx
      rw [get_of_push htypes hlt, size_of_push htypes]
      exact ⟨Nat.lt_succ_of_lt hlt, hkind, hparent⟩

theorem interned?_eq (h : arena.Interns kind id arena') : arena'.interned? kind = some id := by
  cases h with
  | found h => exact h
  | added _ _ hindex => rw [hindex, if_pos rfl]

/-- Interning a kind that is in the index already changes nothing. -/
theorem eq_of_interned? {x : TypeId} (h : arena.Interns kind id arena')
    (hk : arena.interned? kind = some x) : id = x ∧ arena' = arena := by
  cases h with
  | found h =>
    rw [h] at hk
    exact ⟨Option.some.inj hk, rfl⟩
  | added hnone _ _ =>
    rw [hnone] at hk
    cases hk

end Interns

/-! ## The index stays right -/

namespace Indexed

theorem initial : Indexed .initial :=
  ⟨.initial, fun {kind id} h => by cases kind <;> cases h⟩

/-- The index stays right when a type is added that it does not hold. -/
theorem push (h : arena.Indexed) {d : TypeDef} (hd : ∀ x ∈ d.ids, x < arena.size)
    (htypes : arena'.types = arena.types.push d)
    (hindex : ∀ k, arena'.interned? k = arena.interned? k) : arena'.Indexed := by
  refine ⟨h.toOrdered.push hd htypes, fun {kind id} hk => ?_⟩
  rw [hindex] at hk
  obtain ⟨hlt, hkind, hparent⟩ := h.index hk
  rw [get_of_push htypes hlt, size_of_push htypes]
  exact ⟨Nat.lt_succ_of_lt hlt, hkind, hparent⟩

theorem redefine (h : arena.Indexed) {d : TypeDef} (hid : id < arena.size)
    (hd : TypeDef.Refills (arena.get id) d) (hm : ∀ x ∈ d.kind.members, x < arena.size) :
    (arena.redefine id d).Indexed := by
  refine ⟨h.toOrdered.redefine hid hd hm, fun {kind x} hk => ?_⟩
  have hk' : arena.interned? kind = some x := by
    cases kind <;> exact hk
  obtain ⟨hlt, hkind, hparent⟩ := h.index hk'
  -- A type whose fields are filled in is a struct or has alternatives, which are never interned.
  have hne : x ≠ id := by
    rintro rfl
    generalize arena.get x = old at hd hkind
    rw [← hkind] at hk
    cases hd <;> cases hk
  rw [size_redefine, get_redefine hid, if_neg hne]
  exact ⟨hlt, hkind, hparent⟩

theorem var (h : arena.Indexed) (name : String) {constraint : TypeId}
    (hc : constraint < arena.size) : (arena.var name constraint).2.Indexed := by
  rcases var_cases arena name constraint with ⟨id, -, heq⟩ | ⟨hnone, -, htypes⟩
  · rw [heq]
    exact h
  · refine h.push (fun x hx => ?_) htypes fun k => ?_
    · rw [List.mem_singleton.mp hx]
      exact hc
    · rw [TypeArena.var, hnone]
      cases k <;> rfl

end Indexed

theorem WellBuilt.indexed (h : arena.WellBuilt) : arena.Indexed := by
  induction h with
  | initial => exact .initial
  | add d _ hd ih => exact ih.push hd rfl fun k => by cases k <;> rfl
  | applied base args _ hb ha ih =>
    refine (applied_interns _ base args).indexed ih ?_
    rw [TypeKind.ids_applied]
    exact List.forall_mem_cons.mpr ⟨hb, ha⟩
  | var name constraint _ hc ih => exact ih.var name hc
  | function params result _ hp hr ih =>
    refine (function_interns _ params result).indexed ih ?_
    rw [TypeKind.ids_function]
    exact List.forall_mem_append.mpr ⟨hp, List.forall_mem_singleton.mpr hr⟩
  | redefine id d _ hid hd hm ih => exact ih.redefine hid hd hm

end DispatchLang.TypeArena
