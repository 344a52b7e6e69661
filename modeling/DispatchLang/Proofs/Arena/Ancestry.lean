import DispatchLang.Proofs.Arena.Regular

/-!
# Types and what is declared above them

One would expect every type to be below its parent, and below the parent of that. The comparison does follow the parents,
but two structs, and two function types, are compared by their parts alone, whatever has been declared. So on the way up
to a struct everything depends on the first struct that is met: if it has the fields of the one above, all types further
down are below that one, too, and if it lacks one of them, none is. On the way up to a type of any other kind nothing can
go wrong, except that a type variable at the end stands for its constraint.

The join of two types, the first that is on both chains of parents, is above both of them under the same conditions.

## Main definitions

* `TypeArena.firstAlike`: the first type on the way up that is compared by parts with the one at the end.

## Main results

* `TypeArena.isSubtype_ancestor_iff`: when a type is below one that is declared above it, and when below a join.
* `TypeArena.points_not_below_parent`: it need not be below its parent.
-/

namespace DispatchLang.TypeArena

variable {arena : TypeArena} {t u a s up : TypeId}

/-! ## Types that are compared by their parts alone -/

/-- Whether two types are compared by their parts alone: two structs or two function types. -/
def areAlike (arena : TypeArena) (a b : TypeId) : Bool :=
  match (arena.get a).kind, (arena.get b).kind with
  | .struct _ _, .struct _ _ => true
  | .function _ _, .function _ _ => true
  | _, _ => false

/-- The first type on the way up from one type that is compared with another one by their parts alone. -/
def firstAlike (arena : TypeArena) (t a : TypeId) : Option TypeId := (arena.ancestors t).find? (arena.areAlike · a)

/-- What is like another type is so because that is a struct or a function type. -/
theorem areAlike_self (h : arena.areAlike s a = true) : arena.areAlike a a = true := by
  rw [areAlike] at h ⊢
  generalize (arena.get s).kind = kind, (arena.get a).kind = kind' at h ⊢
  cases kind <;> cases kind' <;> simp_all

theorem partsAdmit_of_not_alike {R : TypeId → TypeId → Prop} (h : arena.areAlike s a = false)
    (hp : arena.ByParts s a) : arena.PartsAdmit R s a := by
  refine .of_isApplied ?_
  rw [areAlike] at h
  rw [ByParts, byParts] at hp
  generalize (arena.get s).kind = kind, (arena.get a).kind = kind' at h hp ⊢
  cases kind <;> cases kind' <;> simp_all [TypeKind.isApplied]

/-- Only what is like a struct or a function type is compared with it by parts. -/
theorem not_byParts_of_not_alike (hself : arena.areAlike a a = true) (h : arena.areAlike s a = false) :
    ¬arena.ByParts s a := by
  rw [areAlike] at hself h
  rw [ByParts, byParts]
  generalize (arena.get s).kind = kind, (arena.get a).kind = kind' at hself h ⊢
  cases kind <;> cases kind' <;> simp_all

/-! ## Following the parents -/

theorem Ordered.ne_any_of_parent (h : arena.Ordered) (hup : (arena.get t).parent = some up) : t ≠ .any := by
  rintro rfl
  exact Nat.not_lt_zero _ (h.parent_lt hup)

theorem Ordered.below_of_parent (h : arena.Ordered) (hup : (arena.get t).parent = some up)
    (hvar : (arena.get a).kind.isVar = false) (hne : t ≠ a) (halike : arena.areAlike t a = false)
    (hb : arena.Below up a) : arena.Below t a := by
  by_cases hany : a = .any
  · exact below_of_admits (.inr (.inl hany))
  refine below_of_admits ((admits_iff_of_not_var hvar hne hany).mpr ⟨h.ne_any_of_parent hup, ?_⟩)
  by_cases hp : arena.ByParts t a
  · exact .inl ⟨hp, partsAdmit_of_not_alike halike hp⟩
  · exact .inr ⟨hp, up, hup, hb⟩

theorem parent_below (hup : (arena.get t).parent = some up) (hvar : (arena.get a).kind.isVar = false) (hne : t ≠ a)
    (hself : arena.areAlike a a = true) (halike : arena.areAlike t a = false) (hb : arena.Below t a) :
    arena.Below up a := by
  by_cases hany : a = .any
  · exact below_of_admits (.inr (.inl hany))
  rcases ((admits_iff_of_not_var hvar hne hany).mp hb.admits).2 with ⟨hp, -⟩ | ⟨-, up', hup', hb⟩
  · exact absurd hp (not_byParts_of_not_alike hself halike)
  · rw [hup] at hup'
    exact Option.some.inj hup' ▸ hb

/-- On the way up to a type that is neither a struct nor a function type nothing is compared by parts. -/
theorem Ordered.below_of_plain (h : arena.Ordered) (n : Nat) (ha : a ∈ arena.chain n t)
    (hvar : (arena.get a).kind.isVar = false) (hself : arena.areAlike a a = false) : arena.Below t a := by
  have halike (s : TypeId) : arena.areAlike s a = false := by
    refine Bool.eq_false_iff.mpr fun hs => ?_
    rw [areAlike_self hs] at hself
    cases hself
  induction n generalizing t with
  | zero => cases ha
  | succ n ih =>
    by_cases hne : t = a
    · exact hne ▸ .refl t
    rw [chain] at ha
    cases hup : (arena.get t).parent with
    | none =>
      rw [hup] at ha
      exact absurd (List.mem_singleton.mp ha).symm hne
    | some up =>
      rw [hup] at ha
      exact h.below_of_parent hup hvar hne (halike t)
        (ih ((List.mem_cons.mp ha).resolve_left fun heq => hne heq.symm))

/-- On the way up to a struct or a function type everything depends on the first type that is like it. -/
theorem Ordered.below_iff_firstAlike (h : arena.Ordered) (n : Nat) (ha : a ∈ arena.chain n t)
    (hvar : (arena.get a).kind.isVar = false) (hself : arena.areAlike a a = true) :
    arena.Below t a ↔ ∀ s ∈ (arena.chain n t).find? (arena.areAlike · a), arena.Below s a := by
  induction n generalizing t with
  | zero => cases ha
  | succ n ih =>
    rw [chain] at ha ⊢
    rw [List.find?_cons]
    cases halike : arena.areAlike t a with
    | true => exact ⟨fun hb s hs => Option.mem_some_iff.mp hs ▸ hb, fun hall => hall t rfl⟩
    | false =>
      have hne : t ≠ a := by
        rintro rfl
        rw [hself] at halike
        cases halike
      cases hup : (arena.get t).parent with
      | none =>
        rw [hup] at ha
        exact absurd (List.mem_singleton.mp ha).symm hne
      | some up =>
        rw [hup] at ha
        refine Iff.trans ?_ (ih ((List.mem_cons.mp ha).resolve_left fun heq => hne heq.symm))
        exact ⟨parent_below hup hvar hne hself halike, h.below_of_parent hup hvar hne halike⟩

/-- A type variable is made of its constraint, so it is not the type above all others. -/
theorem Ordered.ne_any_of_var (h : arena.Ordered) {constraint : TypeId} (hk : (arena.get a).kind = .var constraint) :
    a ≠ .any := by
  rintro rfl
  have hpart : constraint ∈ (arena.get .any).kind.parts := by
    rw [hk]
    exact List.mem_singleton_self _
  exact Nat.not_lt_zero constraint (h.part_lt hpart)

/-! ## Ancestors and joins -/

/-- What decides whether a type is below one on its way up: the constraint of that one, if it is a type variable, and the
first type on the way that is compared with it by parts, if it is a struct or a function type. -/
def Rises (arena : TypeArena) (t a : TypeId) : Prop :=
  match (arena.get a).kind with
  | .var constraint => t = a ∨ arena.isSubtype t constraint = true
  | _ => ∀ s ∈ arena.firstAlike t a, arena.isSubtype s a = true

theorem rises_iff (hvar : (arena.get a).kind.isVar = false) :
    arena.Rises t a ↔ ∀ s ∈ arena.firstAlike t a, arena.isSubtype s a = true := by
  rw [Rises]
  split
  · next hk =>
    rw [hk] at hvar
    cases hvar
  · rfl

/-- No type on the way up is like one that is compared by name, or applied. -/
theorem rises_of_plain (hvar : (arena.get a).kind.isVar = false) (hself : arena.areAlike a a = false) :
    arena.Rises t a := by
  refine (rises_iff hvar).mpr fun s hs => absurd ?_ (Bool.eq_false_iff.mp hself)
  have hs : arena.areAlike s a = true := List.find?_some (p := (arena.areAlike · a)) hs
  exact areAlike_self hs

/-- Only the type above all others has nothing above it that it is not. -/
theorem Ordered.eq_of_mem_ancestors_any (h : arena.Ordered) (ha : a ∈ arena.ancestors .any) : a = .any :=
  Nat.le_zero.mp (h.chain_le _ _ a ha)

theorem Ordered.isSubtype_iff_rises (h : arena.Ordered) (ht : t < arena.size) (ha : a ∈ arena.ancestors t) :
    arena.isSubtype t a = true ↔ arena.Rises t a := by
  have hmem := chain_lt h (arena.size + 1) ht
  rw [h.isSubtype_iff_below ht (hmem a ha)]
  cases hvar : (arena.get a).kind.isVar with
  | true =>
    cases hk : (arena.get a).kind with
    | var constraint =>
      have hconstraint : constraint < arena.size :=
        Nat.lt_trans (h.part_lt (hk ▸ List.mem_singleton_self _)) (hmem a ha)
      rw [Rises, hk]
      dsimp only
      rw [h.isSubtype_iff_below ht hconstraint]
      by_cases heq : t = a
      · exact iff_of_true (heq ▸ .refl t) (.inl heq)
      · rw [below_iff_admits, admits_var_iff hk heq (h.ne_any_of_var hk), or_iff_right heq, and_iff_right_iff_imp]
        rintro - rfl
        exact heq (h.eq_of_mem_ancestors_any ha).symm
    | _ => rw [hk] at hvar; cases hvar
  | false =>
    cases hself : arena.areAlike a a with
    | false => exact iff_of_true (h.below_of_plain _ ha hvar hself) (rises_of_plain hvar hself)
    | true =>
      rw [rises_iff hvar]
      refine (h.below_iff_firstAlike _ ha hvar hself).trans (forall₂_congr fun s hs => ?_)
      exact (h.isSubtype_iff_below (hmem s (List.mem_of_find?_eq_some hs)) (hmem a ha)).symm

/-- The join of two types is the type above all others or is on both chains of parents. -/
theorem join_eq_any_or (arena : TypeArena) (t u : TypeId) :
    arena.join t u = .any ∨ arena.join t u ∈ arena.ancestors t ∧ arena.join t u ∈ arena.ancestors u := by
  rw [join]
  split
  · next heq =>
    have hself : t ∈ arena.ancestors t := List.mem_cons_self
    exact .inr ⟨hself, heq ▸ hself⟩
  · dsimp only
    cases hfind : (arena.ancestors u).find? (arena.ancestors t).contains with
    | none => exact .inl rfl
    | some x => exact .inr ⟨List.contains_iff_mem.mp (List.find?_some hfind), List.mem_of_find?_eq_some hfind⟩

/-- What decides whether two types are below their join is the same as for any other type above them. -/
theorem Ordered.isSubtype_join_iff (h : arena.Ordered) (ht : t < arena.size) (hu : u < arena.size) :
    arena.isSubtype t (arena.join t u) = true ∧ arena.isSubtype u (arena.join t u) = true ↔
      arena.Rises t (arena.join t u) ∧ arena.Rises u (arena.join t u) := by
  rcases join_eq_any_or arena t u with hany | ⟨hleft, hright⟩
  · have hlt : TypeId.any < arena.size := Nat.lt_of_le_of_lt (Nat.zero_le t) ht
    have habove {s : TypeId} (hs : s < arena.size) : arena.isSubtype s .any = true :=
      (h.isSubtype_iff_below hs hlt).mpr (below_of_admits (.inr (.inl rfl)))
    have hvar : (arena.get .any).kind.isVar = false := by
      cases hk : (arena.get .any).kind with
      | var constraint => exact absurd rfl (h.ne_any_of_var hk)
      | _ => rfl
    have hrises {s : TypeId} (hs : s < arena.size) : arena.Rises s .any :=
      (rises_iff hvar).mpr fun x hx => habove (chain_lt h _ hs x (List.mem_of_find?_eq_some hx))
    rw [hany]
    exact iff_of_true ⟨habove ht, habove hu⟩ ⟨hrises ht, hrises hu⟩
  · rw [h.isSubtype_iff_rises ht hleft, h.isSubtype_iff_rises hu hright]

/-- In a well-built arena a type is below one above it exactly if it rises to it, and two types are below their join exactly
if both rise to that. They do if that is neither a struct, nor a function type, nor a type variable. -/
theorem isSubtype_ancestor_iff (h : arena.WellBuilt) :
    (∀ t < arena.size, ∀ a ∈ arena.ancestors t, arena.isSubtype t a = true ↔ arena.Rises t a) ∧
    (∀ t < arena.size, ∀ u < arena.size,
      arena.isSubtype t (arena.join t u) = true ∧ arena.isSubtype u (arena.join t u) = true ↔
        arena.Rises t (arena.join t u) ∧ arena.Rises u (arena.join t u)) ∧
    ∀ a, (arena.get a).kind.isVar = false → arena.areAlike a a = false → ∀ t, arena.Rises t a :=
  ⟨fun _ ht _ ha => h.ordered.isSubtype_iff_rises ht ha, fun _ ht _ hu => h.ordered.isSubtype_join_iff ht hu,
    fun _ hvar hself _ => rises_of_plain hvar hself⟩

/-- A struct with two fields, a struct right below it that has only one of them, and another one with both and one
more. -/
def points : TypeArena :=
  (((TypeArena.initial.add ⟨"Point", .struct [] [("x", .int), ("y", .int)], some .any⟩).2.add
    ⟨"Mark", .struct [] [("x", .int)], some 12⟩).2.add
    ⟨"Pixel", .struct [] [("x", .int), ("y", .int), ("color", .string)], some 12⟩).2

theorem points_wellBuilt : points.WellBuilt :=
  .add _ (.add _ (.add _ .initial (by decide)) (by decide)) (by decide)

/-- A pixel is below the point that it is declared below, as it has the fields of one. -/
theorem points_pixel_below :
    14 < points.size ∧ 12 ∈ points.ancestors 14 ∧ points.Rises 14 12 ∧ points.isSubtype 14 12 = true := by
  have hrises : points.Rises 14 12 := by
    rw [rises_iff rfl]
    decide
  have hmem : 12 ∈ points.ancestors 14 := by decide
  exact ⟨by decide, hmem, hrises, ((isSubtype_ancestor_iff points_wellBuilt).1 14 (by decide) 12 hmem).mpr hrises⟩

/-- A mark is declared below a point and is not below it, nor is it below its join with the point. -/
theorem points_not_below_parent :
    points.WellBuilt ∧ 13 < points.size ∧ 12 ∈ points.ancestors 13 ∧
      (∀ a ∈ points.ancestors 13, (points.get a).kind.isVar = false) ∧ points.isSubtype 13 12 = false ∧
      points.isSubtype 13 (points.join 13 12) = false :=
  ⟨points_wellBuilt, by decide, by decide, by decide, by decide, by decide⟩

end DispatchLang.TypeArena
