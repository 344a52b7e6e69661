import DispatchLang.Proofs.Arena.Subtyping

/-!
# How far subtyping is transitive

Some pairs of types are compared by what the types are made of: structs, function types, and applied types
with the same base and arguments. All other pairs are compared by way of the parent of the lower type. Each
of the two ways is transitive as long as one stays with it, but the parent of a struct says nothing about
the structs whose fields make them lie below it. A struct with the fields of another need not be below the
parent of that other one (`shapes_not_transitive`), and a struct below a type whose parent is a struct need
not have the fields of the latter.

A triple *crosses* if it goes from one way to the other. Transitivity fails at such triples or nowhere. The
argument is by coinduction: what is below something that is below something else is a relation the rules
admit, apart from the triples that cross.

## Main results

* `isSubtype_trans_iff`: subtyping is reflexive, and it is transitive exactly if it is so at the triples that
  cross, in particular in every arena that is *layered*.
-/

namespace DispatchLang

/-- Whether the types of a kind are compared by name: neither by what they are made of nor by a
constraint. -/
def TypeKind.isNominal : TypeKind → Bool
  | .any | .abstract | .concrete | .variants _ _ => true
  | _ => false

def TypeKind.isApplied : TypeKind → Bool
  | .applied _ _ => true
  | _ => false

/-- Whether the types of a kind stand for those below a constraint. -/
def TypeKind.isVar : TypeKind → Bool
  | .var _ => true
  | _ => false

theorem TypeKind.not_var_of_isNominal {kind : TypeKind} (h : kind.isNominal = true) :
    kind.isVar = false ∧ kind.isApplied = false := by
  cases kind <;> simp_all [isNominal, isVar, isApplied]

namespace TypeArena

variable {arena : TypeArena} {a b c child parent up : TypeId} {R : TypeId → TypeId → Prop}

/-! ## The two ways of comparing -/

/-- Whether two types are compared by what they are made of: two structs, two function types, or two
applied types with the same base and arguments. -/
def byParts (arena : TypeArena) (a b : TypeId) : Bool :=
  match (arena.get a).kind, (arena.get b).kind with
  | .struct _ _, .struct _ _ => true
  | .function _ _, .function _ _ => true
  | .applied base args, .applied base' args' => base = base' && args = args'
  | _, _ => false

/-- Two types are compared by what they are made of. -/
abbrev ByParts (arena : TypeArena) (a b : TypeId) : Prop := arena.byParts a b = true

def PartsAdmit (arena : TypeArena) (R : TypeId → TypeId → Prop) (child parent : TypeId) : Prop :=
  match (arena.get child).kind, (arena.get parent).kind with
  | .struct _ fields, .struct _ fields' =>
    ∀ f ∈ fields', ∃ type, fields.lookup f.1 = some type ∧ R type f.2
  | .function params result, .function params' result' =>
    List.Forall₂ R params' params ∧ R result result'
  | _, _ => True

def ParentAdmits (arena : TypeArena) (R : TypeId → TypeId → Prop) (child parent : TypeId) : Prop :=
  ∃ up, (arena.get child).parent = some up ∧ R up parent

theorem ByParts.symm (h : arena.ByParts a b) : arena.ByParts b a := by
  unfold ByParts byParts at h ⊢
  generalize (arena.get a).kind = kind, (arena.get b).kind = kind' at h ⊢
  cases kind <;> cases kind' <;> simp_all

theorem ByParts.trans (h : arena.ByParts a b) (h' : arena.ByParts b c) : arena.ByParts a c := by
  unfold ByParts byParts at h h' ⊢
  generalize (arena.get a).kind = kind, (arena.get b).kind = kind', (arena.get c).kind = kind''
    at h h' ⊢
  cases kind with
  | applied base args =>
    cases kind' with
    | applied base' args' =>
      obtain ⟨rfl, rfl⟩ : base = base' ∧ args = args' := by simpa using h
      exact h'
    | _ => cases h
  | struct _ _ =>
    cases kind' with
    | struct _ _ => cases kind'' <;> first | rfl | cases h'
    | _ => cases h
  | function _ _ =>
    cases kind' with
    | function _ _ => cases kind'' <;> first | rfl | cases h'
    | _ => cases h
  | _ => cases h

theorem ByParts.hasParts (h : arena.ByParts a b) :
    (arena.get a).kind.isNominal = false ∧ (arena.get a).kind.isVar = false := by
  unfold ByParts byParts at h
  generalize (arena.get a).kind = kind, (arena.get b).kind = kind' at h ⊢
  cases kind <;> cases kind' <;> simp_all [TypeKind.isNominal, TypeKind.isVar]

/-- Above a variable the rules look at its constraint. -/
theorem admits_var_iff {constraint : TypeId} (hk : (arena.get parent).kind = .var constraint)
    (hne : child ≠ parent) (hp : parent ≠ .any) :
    arena.Admits R child parent ↔ child ≠ .any ∧ R child constraint := by
  rw [Admits, or_iff_right hne, or_iff_right hp, hk]

/-- Above anything else they look at the parts of the two types or at the parent of the lower one. -/
theorem admits_iff_of_not_var (hk : (arena.get parent).kind.isVar = false) (hne : child ≠ parent)
    (hp : parent ≠ .any) :
    arena.Admits R child parent ↔ child ≠ .any ∧
      (arena.ByParts child parent ∧ arena.PartsAdmit R child parent ∨
        ¬ arena.ByParts child parent ∧ arena.ParentAdmits R child parent) := by
  rw [Admits, or_iff_right hne, or_iff_right hp, ByParts, byParts, PartsAdmit, ParentAdmits]
  refine and_congr_right fun _ => ?_
  have hparts {p q : Prop} : p ↔ (true = true ∧ p ∨ ¬ true = true ∧ q) := by simp
  have hparent {p q : Prop} : q ↔ (false = true ∧ p ∨ ¬ false = true ∧ q) := by simp
  generalize (arena.get child).kind = kind, (arena.get parent).kind = kind' at hk ⊢
  cases kind' with
  | var constraint => cases hk
  | applied base' args' =>
    cases kind with
    | applied base args => by_cases heq : base = base' ∧ args = args' <;> simp [heq]
    | _ => exact hparent
  | _ => cases kind <;> first | exact hparent | exact hparts

/-! ## Triples that cross -/

/-- A triple crosses if its three pairs are not all compared in the same way: a type variable stands in the
middle, or the first type is compared by its parts with exactly one of the other two. -/
structure Crosses (arena : TypeArena) (a b c : TypeId) : Prop where
  /-- Above a variable all pairs are compared in the same way. -/
  notVar : (arena.get c).kind.isVar = false
  changes : (arena.get b).kind.isVar = true ∨ arena.ByParts a b ∧ ¬ arena.ByParts b c ∨
    arena.ByParts a c ∧ ¬ arena.ByParts a b

/-- The types of an arena that are related by two steps of the greatest relation. -/
def BelowTwice (arena : TypeArena) (a c : TypeId) : Prop :=
  ∃ b, arena.Below a b ∧ arena.Below b c

theorem Below.refl (a : TypeId) : arena.Below a a := ⟨Eq, fun _ _ => .inl, rfl⟩

theorem Below.twice (h : arena.Below a c) : arena.BelowTwice a c := ⟨c, h, .refl c⟩

theorem eq_any_of_below (h : arena.Below .any a) : a = .any := by
  rcases h.admits with heq | heq | ⟨hne, -⟩
  · exact heq.symm
  · exact heq
  · exact absurd rfl hne

theorem forall₂_belowTwice {as bs cs : List TypeId} (h : List.Forall₂ arena.Below as bs)
    (h' : List.Forall₂ arena.Below bs cs) : List.Forall₂ arena.BelowTwice as cs := by
  induction h generalizing cs with
  | nil => exact List.forall₂_nil_left_iff.mpr (List.forall₂_nil_left_iff.mp h')
  | cons hab _ ih =>
    obtain ⟨c, cs, hbc, hrest, rfl⟩ := List.forall₂_cons_left_iff.mp h'
    exact .cons ⟨_, hab, hbc⟩ (ih hrest)

/-- What is above a type by its parts, and again above that by its parts, is above the first one so. -/
theorem PartsAdmit.comp (hab : arena.ByParts a b) (h : arena.PartsAdmit arena.Below a b)
    (h' : arena.PartsAdmit arena.Below b c) : arena.PartsAdmit arena.BelowTwice a c := by
  unfold ByParts byParts at hab
  unfold PartsAdmit at h h' ⊢
  generalize (arena.get a).kind = kind, (arena.get b).kind = kind', (arena.get c).kind = kind''
    at hab h h' ⊢
  split
  · rename_i fields _ fields''
    cases kind' with
    | struct _ fields' =>
      intro f hf
      obtain ⟨type, hl, hb⟩ := h' f hf
      obtain ⟨type', hl', hb'⟩ := h _ (Assoc.mem_of_lookup hl)
      exact ⟨type', hl', type, hb', hb⟩
    | _ => cases hab
  · rename_i params result params'' result''
    cases kind' with
    | function params' result' =>
      exact ⟨forall₂_belowTwice h'.1 h.1, result', h.2, h'.2⟩
    | _ => cases hab
  · trivial

theorem Ordered.lt_of_below (h : arena.Ordered) (ha : a < arena.size) (hb : arena.Below a b) :
    b < arena.size := by
  induction a using Nat.strong_induction_on with
  | _ a ih =>
    by_contra hlt
    have hk : arena.get b = ⟨"Any", .any, none⟩ := get_of_size_le (Nat.le_of_not_lt hlt)
    have hne : a ≠ b := fun heq => hlt (heq ▸ ha)
    have hany : b ≠ .any := fun heq => hlt (heq ▸ Nat.lt_of_lt_of_le (by decide) h.builtin)
    have hvar : (arena.get b).kind.isVar = false := by rw [hk]; rfl
    rcases ((admits_iff_of_not_var hvar hne hany).mp hb.admits).2 with ⟨hp, -⟩ | ⟨-, up, hup, hb⟩
    · have hn := hp.symm.hasParts.1
      rw [hk] at hn
      cases hn
    · have hup := h.parent_lt hup
      exact hlt (ih up hup (Nat.lt_trans hup ha) hb)

theorem Ordered.admits_mono {S : TypeId → TypeId → Prop} (h : arena.Ordered) (ha : a < arena.size)
    (hc : c < arena.size) (had : arena.Admits R a c)
    (hRS : ∀ x y, x < arena.size → y < arena.size → R x y → S x y) : arena.Admits S a c := by
  obtain ⟨goals, hg, hall⟩ := admits_iff.mp had
  refine admits_iff.mpr ⟨goals, hg, fun g hmem => ?_⟩
  obtain ⟨hx, hy⟩ := mem_pairs.mp (h.goal_mem (mem_pairs.mpr ⟨ha, hc⟩) hg hmem).1
  exact hRS _ _ hx hy (hall g hmem)

/-- Two steps of the greatest relation only relate what the rules admit, apart from triples that cross. -/
theorem BelowTwice.admits (hab : arena.Below a b) (hbc : arena.Below b c)
    (hx : arena.Crosses a b c → arena.Below a c) :
    arena.Admits arena.BelowTwice a c := by
  have hbelow : arena.Below a c → arena.Admits arena.BelowTwice a c := fun h =>
    h.admits.mono fun _ _ => Below.twice
  by_cases hac : a = c
  · exact .inl hac
  by_cases hc : c = .any
  · exact .inr (.inl hc)
  by_cases heq : a = b
  · exact hbelow (heq ▸ hbc)
  by_cases heq' : b = c
  · exact hbelow (heq' ▸ hab)
  have hb : b ≠ .any := fun hb => hc (eq_any_of_below (hb ▸ hbc))
  have ha : a ≠ .any := fun ha => hb (eq_any_of_below (ha ▸ hab))
  cases hk : (arena.get c).kind.isVar with
  | true =>
    obtain ⟨constraint, hk⟩ : ∃ constraint, (arena.get c).kind = .var constraint := by
      revert hk
      cases (arena.get c).kind <;> simp [TypeKind.isVar]
    rw [admits_var_iff hk hac hc]
    exact ⟨ha, b, hab, ((admits_var_iff hk heq' hc).mp hbc.admits).2⟩
  | false =>
    by_cases hcross : arena.Crosses a b c
    · exact hbelow (hx hcross)
    have hvar : (arena.get b).kind.isVar = false := by
      by_contra hvar
      exact hcross ⟨hk, .inl (Bool.eq_true_of_not_eq_false hvar)⟩
    rw [admits_iff_of_not_var hk hac hc]
    refine ⟨ha, ?_⟩
    rcases ((admits_iff_of_not_var hvar heq hb).mp hab.admits).2 with ⟨hp, hparts⟩ | ⟨hp, hup⟩
    · -- All three types are compared by their parts.
      have hp' : arena.ByParts b c := by
        by_contra hp'
        exact hcross ⟨hk, .inr (.inl ⟨hp, hp'⟩)⟩
      rcases ((admits_iff_of_not_var hk heq' hc).mp hbc.admits).2 with ⟨-, hparts'⟩ | ⟨hn, -⟩
      · exact .inl ⟨hp.trans hp', hparts.comp hp hparts'⟩
      · exact absurd hp' hn
    · -- The first type is compared with both others by way of its parent.
      have hp' : ¬ arena.ByParts a c := fun hp' => hcross ⟨hk, .inr (.inr ⟨hp', hp⟩)⟩
      obtain ⟨up, hup, hb⟩ := hup
      exact .inr ⟨hp', up, hup, b, hb, hbc⟩

/-- The greatest relation is transitive if it is so at the triples that cross. -/
theorem Ordered.below_trans (h : arena.Ordered)
    (hx : ∀ a b c, a < arena.size → b < arena.size → c < arena.size → arena.Crosses a b c →
      arena.Below a b → arena.Below b c → arena.Below a c)
    (ha : a < arena.size) (hab : arena.Below a b) (hbc : arena.Below b c) : arena.Below a c := by
  refine ⟨fun x y => x < arena.size ∧ arena.BelowTwice x y, ?_, ha, b, hab, hbc⟩
  rintro x z ⟨hlt, y, hxy, hyz⟩
  have hlt' := h.lt_of_below hlt hxy
  have hlt'' := h.lt_of_below hlt' hyz
  exact h.admits_mono hlt hlt''
    (BelowTwice.admits hxy hyz fun hcross => hx x y z hlt hlt' hlt'' hcross hxy hyz)
    fun _ _ hx _ htwice => ⟨hx, htwice⟩

/-! ## Layered arenas -/

/-- An arena is layered if the parents of its types say nothing about what the types are made of: parents
of structs, of function types and of nominal types are nominal, types that are below each other by their
parts have one parent, and variables have none. -/
structure Layered (arena : TypeArena) : Prop where
  /-- A type variable has no parent. -/
  var : ∀ a < arena.size, (arena.get a).kind.isVar = true → (arena.get a).parent = none
  /-- The parent of any other type is nominal, unless that is an applied type. -/
  nominal : ∀ a < arena.size, (arena.get a).kind.isVar = false →
    (arena.get a).kind.isApplied = false → ∀ up ∈ (arena.get a).parent,
      (arena.get up).kind.isNominal = true
  /-- Types that are below each other by their parts have one parent. -/
  parent_eq : ∀ a < arena.size, ∀ b < arena.size, arena.ByParts a b →
    arena.isSubtype a b = true → (arena.get a).parent = (arena.get b).parent

/-- Nothing more is asked of two applied types with the same base and arguments. -/
theorem PartsAdmit.of_isApplied (h : (arena.get a).kind.isApplied = true) :
    arena.PartsAdmit R a b := by
  unfold PartsAdmit
  generalize (arena.get a).kind = kind, (arena.get b).kind = kind' at h ⊢
  cases kind <;> simp_all [TypeKind.isApplied]

theorem Layered.nominal_of_below (hl : arena.Layered) (h : arena.Ordered) (ha : a < arena.size)
    (hn : (arena.get a).kind.isNominal = true) (hvar : (arena.get b).kind.isVar = false)
    (hb : arena.Below a b) : b = .any ∨ (arena.get b).kind.isNominal = true := by
  induction a using Nat.strong_induction_on with
  | _ a ih =>
    by_cases hany : b = .any
    · exact .inl hany
    by_cases heq : a = b
    · exact .inr (heq ▸ hn)
    rcases ((admits_iff_of_not_var hvar heq hany).mp hb.admits).2 with ⟨hp, -⟩ | ⟨-, up, hup, hb⟩
    · rw [hp.hasParts.1] at hn
      cases hn
    · have hlt := h.parent_lt hup
      obtain ⟨hv, happ⟩ := TypeKind.not_var_of_isNominal hn
      exact ih up hlt (Nat.lt_trans hlt ha) (hl.nominal a ha hv happ up hup) hb

theorem Layered.below_of_crosses (hl : arena.Layered) (h : arena.Ordered) (ha : a < arena.size)
    (hb : b < arena.size) (hx : arena.Crosses a b c) (hab : arena.Below a b)
    (hbc : arena.Below b c) : arena.Below a c := by
  by_cases heq : a = b
  · exact heq ▸ hbc
  by_cases heq' : b = c
  · exact heq' ▸ hab
  by_cases hac : a = c
  · exact hac ▸ .refl a
  by_cases hany : c = .any
  · exact below_of_admits (.inr (.inl hany))
  have hne : b ≠ .any := fun hb => hany (eq_any_of_below (hb ▸ hbc))
  have hne' : a ≠ .any := fun ha => hne (eq_any_of_below (ha ▸ hab))
  have hbc' := ((admits_iff_of_not_var hx.notVar heq' hany).mp hbc.admits).2
  have hvar : (arena.get b).kind.isVar = false := by
    by_contra hvar
    rw [Bool.not_eq_false] at hvar
    rcases hbc' with ⟨hp, -⟩ | ⟨-, up, hup, -⟩
    · rw [hp.hasParts.2] at hvar
      cases hvar
    · rw [hl.var b hb hvar] at hup
      cases hup
  have hab' := ((admits_iff_of_not_var hvar heq hne).mp hab.admits).2
  refine below_of_admits ((admits_iff_of_not_var hx.notVar hac hany).mpr ⟨hne', ?_⟩)
  rcases hx.changes with hv | ⟨hp, hn⟩ | ⟨hp, hn⟩
  · rw [hvar] at hv
    cases hv
  · -- The second type goes up to its parent, which is that of the first one.
    obtain ⟨up, hup, hle⟩ := (hbc'.resolve_left fun h => hn h.1).2
    have hsub := (h.isSubtype_iff_below ha hb).mpr hab
    refine .inr ⟨fun hp' => hn (hp.symm.trans hp'), up, ?_, hle⟩
    rw [hl.parent_eq a ha b hb hp hsub, hup]
  · cases happ : (arena.get a).kind.isApplied with
    | true => exact .inl ⟨hp, .of_isApplied happ⟩
    | false =>
      -- All that is above the first type by its parent is nominal, and the third type is not.
      obtain ⟨up, hup, hle⟩ := (hab'.resolve_left fun h => hn h.1).2
      have hlt := h.parent_lt hup
      have hnom := hl.nominal a ha hp.hasParts.2 happ up hup
      have hb' := (hl.nominal_of_below h (Nat.lt_trans hlt ha) hnom hvar hle).resolve_left hne
      have hc' := (hl.nominal_of_below h hb hb' hx.notVar hbc).resolve_left hany
      rw [hp.symm.hasParts.1] at hc'
      cases hc'

/-! ## Subtyping -/

/-- Whether one type is below a third one if it is below a second one and that is below the third. -/
def TransitiveAt (arena : TypeArena) (a b c : TypeId) : Prop :=
  arena.isSubtype a b = true → arena.isSubtype b c = true → arena.isSubtype a c = true

/-- Subtyping is reflexive; it is transitive exactly if it is so at the triples that cross from comparison
by parts to comparison by parents or back; and in a layered arena it is transitive. -/
theorem isSubtype_trans_iff (h : arena.WellBuilt) :
    (∀ a < arena.size, arena.isSubtype a a = true) ∧
    ((∀ a b c, a < arena.size → b < arena.size → c < arena.size → arena.TransitiveAt a b c) ↔
      ∀ a b c, a < arena.size → b < arena.size → c < arena.size → arena.Crosses a b c →
        arena.TransitiveAt a b c) ∧
    (arena.Layered → ∀ a b c, a < arena.size → b < arena.size → c < arena.size →
      arena.TransitiveAt a b c) := by
  have hiff : ∀ {a b}, a < arena.size → b < arena.size →
      (arena.isSubtype a b = true ↔ arena.Below a b) := h.ordered.isSubtype_iff_below
  have htrans : ∀ {a b c}, a < arena.size → b < arena.size → c < arena.size →
      (arena.TransitiveAt a b c ↔ (arena.Below a b → arena.Below b c → arena.Below a c)) := by
    intro a b c ha hb hc
    rw [TransitiveAt, hiff ha hb, hiff hb hc, hiff ha hc]
  refine ⟨fun a ha => (hiff ha ha).mpr (.refl a), ⟨fun hall a b c ha hb hc _ => hall a b c ha hb hc,
    fun hx a b c ha hb hc => ?_⟩, fun hl a b c ha hb hc => ?_⟩
  · refine (htrans ha hb hc).mpr (h.ordered.below_trans (fun x y z hx' hy hz hcross => ?_) ha)
    exact (htrans hx' hy hz).mp (hx x y z hx' hy hz hcross)
  · refine (htrans ha hb hc).mpr (h.ordered.below_trans (fun x y z hx hy _ hcross => ?_) ha)
    exact hl.below_of_crosses h.ordered hx hy hcross

/-- An abstract type with two structs right below it, one with the fields of the other, and types of arrays
and functions over them. -/
def animals : TypeArena :=
  (((((TypeArena.initial.add ⟨"Animal", .abstract, some .any⟩).2.add
    ⟨"Dog", .struct [] [("name", .string)], some 12⟩).2.add
    ⟨"Puppy", .struct [] [("name", .string), ("age", .int)], some 12⟩).2.applied .array [13]).2.function
      [13] 14).2

theorem animals_wellBuilt : animals.WellBuilt :=
  .function _ _ (.applied _ _ (.add _ (.add _ (.add _ .initial (by decide)) (by decide)) (by decide))
    (by decide) (by decide)) (by decide) (by decide)

/-- A puppy has what makes a dog and a dog is an animal, and so is a puppy. -/
theorem animals_transitive :
    animals.Layered ∧ animals.isSubtype 14 13 = true ∧ animals.isSubtype 13 12 = true ∧
      animals.isSubtype 14 12 = true := by
  have hl : animals.Layered :=
    ⟨by decide, by decide, by decide⟩
  have hdog : animals.isSubtype 14 13 = true := by decide
  have hanimal : animals.isSubtype 13 12 = true := by decide
  exact ⟨hl, hdog, hanimal, (isSubtype_trans_iff animals_wellBuilt).2.2 hl 14 13 12 (by decide)
    (by decide) (by decide) hdog hanimal⟩

/-- A struct right below an abstract type, and another one with the same field right below the type above
all others. -/
def shapes : TypeArena :=
  (((TypeArena.initial.add ⟨"Shape", .abstract, some .any⟩).2.add
    ⟨"Square", .struct [] [("side", .int)], some 12⟩).2.add
    ⟨"Tile", .struct [] [("side", .int)], some .any⟩).2

/-- A tile has what makes a square and a square is a shape, but a tile is none. -/
theorem shapes_not_transitive :
    shapes.WellBuilt ∧ 14 < shapes.size ∧ 13 < shapes.size ∧ 12 < shapes.size ∧
      ¬ shapes.TransitiveAt 14 13 12 :=
  ⟨.add _ (.add _ (.add _ .initial (by decide)) (by decide)) (by decide), by decide, by decide,
    by decide, fun h => absurd (h (by decide) (by decide)) (by decide)⟩

end TypeArena

end DispatchLang
