import DispatchLang.Proofs.Arena.Matching
import DispatchLang.Proofs.Arena.Transitivity

/-!
# Regular arenas

A declaration adds a nominal type to an arena. Types that are made of other types (applied types, type
variables, function types) are never declared but interned. The arenas that come about in this way are
*regular*. In a regular arena the index holds every applied type under its parts, so two applied types with
the same parts are the same type (`Canonical`), and what is right above an applied type is its base.

A chain of parents goes down in age, and the base of an applied type is older than that type. So a chain
meets at most one applied type of each base.

## Main results

* `Regular.extends_initial`: the built-in types are in every regular arena.
* `Regular.canonical`: in a regular arena the index holds all applied types.
* `Regular.instances`: substitution keeps an arena regular.
* `Canonical.eq_of_mem_ancestors`: among a type and what is above it, at most one type is applied to a given
  base.
* `Ordered.isSubtype_ancestor`: a type is below every applied type that is on its chain of parents.
-/

namespace DispatchLang.TypeArena

variable {arena arena' : TypeArena} {id : TypeId} {kind : TypeKind} {d : TypeDef}

/-! ## Regular arenas -/

/-- The well-built arenas in which what was declared is made of no other types. -/
inductive Regular : TypeArena → Prop where
  | initial : Regular .initial
  | add {arena : TypeArena} (d : TypeDef) (h : Regular arena) (hk : d.kind.parts = [])
      (hd : ∀ x ∈ d.ids, x < arena.size) : Regular (arena.add d).2
  | applied {arena : TypeArena} (base : TypeId) (args : List TypeId) (h : Regular arena)
      (hb : base < arena.size) (ha : ∀ x ∈ args, x < arena.size) :
      Regular (arena.applied base args).2
  | var {arena : TypeArena} (name : String) (constraint : TypeId) (h : Regular arena)
      (hc : constraint < arena.size) : Regular (arena.var name constraint).2
  | function {arena : TypeArena} (params : List TypeId) (result : TypeId) (h : Regular arena)
      (hp : ∀ x ∈ params, x < arena.size) (hr : result < arena.size) :
      Regular (arena.function params result).2
  | redefine {arena : TypeArena} (id : TypeId) (d : TypeDef) (h : Regular arena)
      (hid : id < arena.size) (hd : TypeDef.Refills (arena.get id) d)
      (hm : ∀ x ∈ d.kind.members, x < arena.size) : Regular (arena.redefine id d)

theorem Regular.wellBuilt (h : arena.Regular) : arena.WellBuilt := by
  induction h with
  | initial => exact .initial
  | add d _ _ hd ih => exact .add d ih hd
  | applied base args _ hb ha ih => exact .applied base args ih hb ha
  | var name constraint _ hc ih => exact .var name constraint ih hc
  | function params result _ hp hr ih => exact .function params result ih hp hr
  | redefine id d _ hid hd hm ih => exact .redefine id d ih hid hd hm

namespace Regular

/-- No built-in type has fields or alternatives, so none of them is ever redefined. -/
theorem not_builtin_of_refills {old : TypeDef} (h : TypeDef.Refills old d) {id : TypeId}
    (hid : id < TypeArena.initial.size) : TypeArena.initial.get id ≠ old := by
  have hkind : ∀ id < TypeArena.initial.size, (TypeArena.initial.get id).kind.name ≠ "struct" ∧
      (TypeArena.initial.get id).kind.name ≠ "adt" := by decide
  rintro rfl
  have hnot := hkind id hid
  generalize TypeArena.initial.get id = old at h hnot
  cases h with
  | struct _ _ _ _ _ => exact hnot.1 rfl
  | variants _ _ _ _ _ => exact hnot.2 rfl

theorem extends_initial (h : arena.Regular) : TypeArena.initial.Extends arena := by
  induction h with
  | initial => exact .refl _
  | add d _ _ _ ih => exact ih.trans (.push rfl fun k => by cases k <;> rfl)
  | applied base args _ _ _ ih => exact ih.trans (applied_interns _ base args).extension
  | var name constraint _ _ ih => exact ih.trans (.var _ name constraint)
  | function params result _ _ _ ih => exact ih.trans (function_interns _ params result).extension
  | redefine id d _ hid hd _ ih =>
    refine ih.redefine (Nat.le_of_not_lt fun hlt => not_builtin_of_refills hd hlt ?_) hid d
    exact (ih.get_eq hlt).symm

theorem builtin_le_of_struct (h : arena.Regular) {params : List String} {fields : FieldTypes}
    (hk : (arena.get id).kind = .struct params fields) : builtinTypes.length ≤ id := by
  by_contra hlt
  have hid := Nat.lt_of_not_le hlt
  suffices hrefills : TypeDef.Refills (arena.get id) (arena.get id) from
    not_builtin_of_refills hrefills hid (h.extends_initial.get_eq hid).symm
  generalize arena.get id = old at hk
  obtain ⟨name, kind, parent⟩ := old
  cases hk
  exact .struct _ _ _ _ _

end Regular

/-! ## Substitution -/

namespace Regular

theorem interns (h : arena.Regular) (ha : kind.above? ≠ none) (hk : ∀ x ∈ kind.ids, x < arena.size) :
    (arena.intern kind).2.Regular := by
  cases kind with
  | applied base args =>
    rw [TypeKind.ids_applied, List.forall_mem_cons] at hk
    exact .applied base args h hk.1 hk.2
  | function params result =>
    rw [TypeKind.ids_function, List.forall_mem_append, List.forall_mem_singleton] at hk
    exact .function params result h hk.1 hk.2
  | _ => exact absurd rfl ha

theorem mapTypes (step : TypeId → TypeArena → TypeId × TypeArena) {ids : List TypeId} (h : arena.Regular)
    (hstep : ∀ id ∈ ids, ∀ {arena'}, arena.Extends arena' → arena'.Regular →
      arena'.Grows (step id arena') ∧ (step id arena').2.Regular) :
    (mapTypes step ids arena).2.Regular := by
  induction ids generalizing arena with
  | nil => exact h
  | cons id ids ih =>
    obtain ⟨hgrows, hregular⟩ := hstep id List.mem_cons_self (.refl arena) h
    rw [mapTypes_cons]
    exact ih hregular fun x hx _ he => hstep x (List.mem_cons_of_mem _ hx) (hgrows.extension.trans he)

end Regular

/-! ## All applied types are in the index -/

/-- The index of interned types is right, and it holds every applied type. -/
structure Canonical (arena : TypeArena) : Prop extends arena.Indexed where
  /-- An applied type is what the index holds under its parts. -/
  interned?_eq : ∀ {id base args}, (arena.get id).kind = .applied base args →
    arena.interned? (.applied base args) = some id

namespace Canonical

theorem initial : Canonical .initial where
  toIndexed := .initial
  interned?_eq {id base args} hk := by
    have hnone : ∀ id < TypeArena.initial.size, (TypeArena.initial.get id).kind.above? = none := by
      decide
    by_cases hid : id < TypeArena.initial.size
    · have habove := hnone id hid
      rw [hk] at habove
      cases habove
    · rw [get_of_size_le (Nat.le_of_not_lt hid)] at hk
      cases hk

/-- Declaring a type that is made of no others keeps the index complete. -/
theorem push (h : arena.Canonical) (hk : d.kind.parts = []) (hd : ∀ x ∈ d.ids, x < arena.size)
    (htypes : arena'.types = arena.types.push d)
    (hindex : ∀ k, arena'.interned? k = arena.interned? k) : arena'.Canonical where
  toIndexed := h.toIndexed.push hd htypes hindex
  interned?_eq {id base args} happlied := by
    rw [hindex]
    rcases Nat.lt_trichotomy id arena.size with hid | rfl | hid
    · rw [get_of_push htypes hid] at happlied
      exact h.interned?_eq happlied
    · rw [get_of_push_self htypes] at happlied
      rw [happlied] at hk
      cases hk
    · rw [get_of_size_le (by rw [size_of_push htypes]; exact hid)] at happlied
      cases happlied

theorem interns (h : arena.Canonical) (hk : ∀ x ∈ kind.ids, x < arena.size)
    (hi : arena.Interns kind id arena') : arena'.Canonical := by
  refine ⟨hi.indexed h.toIndexed hk, fun {x base args} happlied => ?_⟩
  cases hi with
  | found _ => exact h.interned?_eq happlied
  | added hnone htypes hindex =>
    rw [hindex]
    rcases Nat.lt_trichotomy x arena.size with hx | rfl | hx
    · rw [get_of_push htypes hx] at happlied
      have hold := h.interned?_eq happlied
      rw [if_neg (fun heq => ?_), hold]
      -- The new type would have been in the index before.
      rw [heq, hnone] at hold
      cases hold
    · rw [get_of_push_self htypes] at happlied
      rw [if_pos happlied.symm]
    · rw [get_of_size_le (by rw [size_of_push htypes]; exact hx)] at happlied
      cases happlied

theorem var (h : arena.Canonical) (name : String) {constraint : TypeId}
    (hc : constraint < arena.size) : (arena.var name constraint).2.Canonical := by
  refine ⟨h.toIndexed.var name hc, fun {id base args} happlied => ?_⟩
  rcases var_cases arena name constraint with ⟨id, -, heq⟩ | ⟨hnone, -, htypes⟩
  · rw [heq] at happlied ⊢
    exact h.interned?_eq happlied
  · have hindex : (arena.var name constraint).2.interned? (.applied base args) =
        arena.interned? (.applied base args) := by
      rw [TypeArena.var, hnone]
      rfl
    rw [hindex]
    rcases Nat.lt_trichotomy id arena.size with hid | rfl | hid
    · rw [get_of_push htypes hid] at happlied
      exact h.interned?_eq happlied
    · rw [get_of_push_self htypes] at happlied
      cases happlied
    · rw [get_of_size_le (by rw [size_of_push htypes]; exact hid)] at happlied
      cases happlied

theorem redefine (h : arena.Canonical) (hid : id < arena.size)
    (hd : TypeDef.Refills (arena.get id) d) (hm : ∀ x ∈ d.kind.members, x < arena.size) :
    (arena.redefine id d).Canonical := by
  refine ⟨h.toIndexed.redefine hid hd hm, fun {x base args} happlied => ?_⟩
  rw [get_redefine hid] at happlied
  split at happlied
  · -- What is filled in is a struct or has alternatives.
    generalize arena.get id = old at hd
    cases hd <;> cases happlied
  · exact h.interned?_eq happlied

/-! ### What is right above an applied type -/

variable (h : arena.Canonical)
include h

theorem parent_eq {base : TypeId} {args : List TypeId} (hk : (arena.get id).kind = .applied base args) :
    (arena.get id).parent = some base := (h.index (h.interned?_eq hk)).2.2

theorem applied_eq {base : TypeId} {args : List TypeId}
    (hk : (arena.get id).kind = .applied base args) : arena.applied base args = (id, arena) := by
  obtain ⟨hid, harena⟩ := (applied_interns arena base args).eq_of_interned? (h.interned?_eq hk)
  exact Prod.ext hid harena

end Canonical

theorem Regular.canonical (h : arena.Regular) : arena.Canonical := by
  induction h with
  | initial => exact .initial
  | add d _ hk hd ih => exact ih.push hk hd rfl fun k => by cases k <;> rfl
  | applied base args _ hb ha ih =>
    refine ih.interns ?_ (applied_interns _ base args)
    rw [TypeKind.ids_applied]
    exact List.forall_mem_cons.mpr ⟨hb, ha⟩
  | var name constraint _ hc ih => exact ih.var name hc
  | function params result _ hp hr ih =>
    refine ih.interns ?_ (function_interns _ params result)
    rw [TypeKind.ids_function]
    exact List.forall_mem_append.mpr ⟨hp, List.forall_mem_singleton.mpr hr⟩
  | redefine id d _ hid hd hm ih => exact ih.redefine hid hd hm

namespace Regular

theorem indexed (h : arena.Regular) : arena.Indexed := h.canonical.toIndexed

variable {bindings : Bindings}

theorem substituteWithin (n : Nat) {id : TypeId} {arena : TypeArena} (h : arena.Regular)
    (hb : bindings.In arena) (hid : id < arena.size) :
    (substituteWithin bindings n id arena).2.Regular := by
  induction n generalizing id arena with
  | zero => exact h
  | succ n ih =>
    by_cases ha : (arena.get id).kind.above? = none
    · rw [substituteWithin_eq_standIn n ha]
      exact h
    · have hi := h.indexed
      have hinner : ∀ x ∈ (arena.get id).kind.inner, x < arena.size := fun x hx =>
        hi.toOrdered.ids_lt hid (TypeKind.mem_ids_of_mem_inner hx)
      have hall := mapTypes_grows (TypeArena.substituteWithin bindings n) (arena.get id).kind.inner hi
        (inner_grows n hi hb hid)
      have hregular := h.mapTypes (TypeArena.substituteWithin bindings n) fun x hx _ he hr =>
        ⟨inner_grows n hi hb hid x hx he hr.indexed, ih hr (hb.grown he) (he.lt (hinner x hx))⟩
      rw [substituteWithin_eq_intern n ha]
      exact hregular.interns (TypeKind.above?_withInner.trans_ne ha)
        (withInner_lt hi hid hall.extension hall.lt)

/-- Replacing the variables of a signature keeps an arena regular. -/
theorem instances {signature : List TypeId} (h : arena.Regular) (hb : bindings.In arena)
    (hs : ∀ x ∈ signature, x < arena.size) : (instances bindings signature arena).2.Regular :=
  h.mapTypes _ fun x hx _ he hr => ⟨signature_grows hb hs x hx he hr.indexed,
    hr.substituteWithin _ (hb.grown he) (he.lt (hs x hx))⟩

end Regular

/-! ## Chains of parents -/

theorem Ordered.chain_le (h : arena.Ordered) (n : Nat) (id : TypeId) :
    ∀ x ∈ arena.chain n id, x ≤ id := by
  induction n generalizing id with
  | zero => exact nofun
  | succ n ih =>
    rw [chain]
    refine List.forall_mem_cons.mpr ⟨Nat.le_refl id, fun x hx => ?_⟩
    cases hup : (arena.get id).parent with
    | none => rw [hup] at hx; cases hx
    | some up =>
      rw [hup] at hx
      exact Nat.le_trans (ih up x hx) (Nat.le_of_lt (h.parent_lt hup))

theorem Ordered.parent_mem_chain (h : arena.Ordered) (n : Nat) {id x up : TypeId} (hid : id < n)
    (hx : x ∈ arena.chain n id) (hup : (arena.get x).parent = some up) : up ∈ arena.chain n id := by
  induction n generalizing id with
  | zero => cases hx
  | succ n ih =>
    have hlt : ∀ {next}, (arena.get id).parent = some next → next < n := fun hnext =>
      Nat.lt_of_lt_of_le (h.parent_lt hnext) (Nat.le_of_lt_succ hid)
    rw [chain] at hx ⊢
    rcases List.mem_cons.mp hx with rfl | hx
    · rw [hup]
      refine List.mem_cons_of_mem _ ?_
      obtain ⟨m, rfl⟩ := Nat.exists_eq_succ_of_ne_zero (Nat.ne_zero_of_lt (hlt hup))
      exact List.mem_cons_self
    · cases hnext : (arena.get id).parent with
      | none => rw [hnext] at hx; cases hx
      | some next =>
        rw [hnext] at hx
        exact List.mem_cons_of_mem _ (ih (hlt hnext) hx)

theorem Canonical.eq_of_mem_chain (h : arena.Canonical) (n : Nat) {id x y base : TypeId}
    {args args' : List TypeId} (hx : x ∈ arena.chain n id) (hy : y ∈ arena.chain n id)
    (hkx : (arena.get x).kind = .applied base args)
    (hky : (arena.get y).kind = .applied base args') : x = y := by
  induction n generalizing id with
  | zero => cases hx
  | succ n ih =>
    -- After a type applied to the base comes the base, which is older than every such type.
    have hlast : ∀ {z w args args'}, (arena.get z).kind = .applied base args →
        (arena.get w).kind = .applied base args' → id = z → w ∈ arena.chain (n + 1) id → w = z := by
      rintro z w args args' hkz hkw rfl hw
      rw [chain, h.parent_eq hkz] at hw
      rcases List.mem_cons.mp hw with rfl | hw
      · rfl
      · have hle := h.chain_le n base w hw
        have hlt : base < w := h.part_lt (by rw [hkw]; exact List.mem_cons_self)
        exact absurd hlt (Nat.not_lt_of_le hle)
    by_cases hidx : id = x
    · exact (hlast hkx hky hidx hy).symm
    · by_cases hidy : id = y
      · exact hlast hky hkx hidy hx
      · rw [chain] at hx hy
        cases hup : (arena.get id).parent with
        | none =>
          rw [hup] at hx
          exact absurd (List.mem_singleton.mp hx).symm hidx
        | some up =>
          rw [hup] at hx hy
          exact ih ((List.mem_cons.mp hx).resolve_left fun heq => hidx heq.symm)
            ((List.mem_cons.mp hy).resolve_left fun heq => hidy heq.symm)

theorem Canonical.eq_of_mem_ancestors (h : arena.Canonical) {id x y base : TypeId}
    {args args' : List TypeId} (hx : x ∈ arena.ancestors id) (hy : y ∈ arena.ancestors id)
    (hkx : (arena.get x).kind = .applied base args)
    (hky : (arena.get y).kind = .applied base args') : x = y :=
  h.eq_of_mem_chain _ hx hy hkx hky

theorem Ordered.below_of_mem_chain (h : arena.Ordered) (n : Nat) {id x base : TypeId}
    {args : List TypeId} (hx : x ∈ arena.chain n id)
    (hk : (arena.get x).kind = .applied base args) : arena.Below id x := by
  induction n generalizing id with
  | zero => cases hx
  | succ n ih =>
    rw [chain] at hx
    rcases List.mem_cons.mp hx with rfl | hx
    · exact below_of_admits (.inl rfl)
    · cases hup : (arena.get id).parent with
      | none => rw [hup] at hx; cases hx
      | some up =>
        rw [hup] at hx
        have hany : id ≠ .any := by
          rintro rfl
          exact Nat.not_lt_zero _ (h.parent_lt hup)
        refine below_of_admits (.inr (.inr ⟨hany, ?_⟩))
        rw [hk]
        cases (arena.get id).kind with
        | applied base' args' => exact .inr ⟨up, hup, ih hx⟩
        | _ => exact ⟨up, hup, ih hx⟩

/-- A type that is compared by name or applied, other than the one above all others, is on the chain of parents of
whatever is below it. -/
theorem Canonical.mem_chain_of_below (h : arena.Canonical) (n : Nat) {id x : TypeId} (hid : id < n)
    (hb : arena.Below id x) (hany : x ≠ .any)
    (hk : (arena.get x).kind.isNominal = true ∨ (arena.get x).kind.isApplied = true) : x ∈ arena.chain n id := by
  induction n generalizing id with
  | zero => exact absurd hid (Nat.not_lt_zero id)
  | succ n ih =>
    rw [chain]
    by_cases hsame : id = x
    · exact hsame ▸ List.mem_cons_self
    · -- The rules can only have gone from the type to its parent.
      suffices hup : ∃ up, (arena.get id).parent = some up ∧ arena.Below up x by
        obtain ⟨up, hup, hb⟩ := hup
        rw [hup]
        have hlt : up < n := Nat.lt_of_lt_of_le (h.parent_lt hup) (Nat.le_of_lt_succ hid)
        exact List.mem_cons_of_mem _ (ih hlt hb)
      obtain ⟨-, hrule⟩ := (hb.admits.resolve_left hsame).resolve_left hany
      cases hx : (arena.get x).kind with
      | var constraint => simp [hx, TypeKind.isNominal, TypeKind.isApplied] at hk
      | struct params fields => simp [hx, TypeKind.isNominal, TypeKind.isApplied] at hk
      | function params result => simp [hx, TypeKind.isNominal, TypeKind.isApplied] at hk
      | applied base args =>
        rw [hx] at hrule
        cases hkid : (arena.get id).kind with
        | applied base' args' =>
          rw [hkid] at hrule
          refine hrule.resolve_left ?_
          rintro ⟨rfl, rfl⟩
          exact hsame (Option.some.inj ((h.interned?_eq hkid).symm.trans (h.interned?_eq hx)))
        | _ => rw [hkid] at hrule; exact hrule
      | _ =>
        rw [hx] at hrule
        cases hkid : (arena.get id).kind <;> rw [hkid] at hrule <;> exact hrule

theorem Ordered.isSubtype_ancestor (h : arena.Ordered) {id x base : TypeId} {args : List TypeId}
    (hid : id < arena.size) (hx : x ∈ arena.ancestors id)
    (hk : (arena.get x).kind = .applied base args) : arena.isSubtype id x = true :=
  (h.isSubtype_iff_below hid (chain_lt h _ hid x hx)).mpr (h.below_of_mem_chain _ hx hk)

end DispatchLang.TypeArena
