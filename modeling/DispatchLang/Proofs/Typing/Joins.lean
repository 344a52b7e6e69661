import DispatchLang.Proofs.Eval.Unambiguous

/-!
# Joins

The types of an arena form a forest: every type has at most one parent, and parents are older. `join` climbs the
chain of parents of one type until it meets that of the other. Type variables have no parents, and neither need
declared types have one, so there may be nothing to meet. Then the answer is the type above all others, which is
the root of one of the trees but has nothing to do with the others.

Put on top of all trees, it makes a tree of the forest. A type *lies under* another one if that is on its chain of
parents or is the one on top. This is an order, in which the join of two types is their least upper bound
(`join_liesUnder_iff`). Everything else follows from that, because a type is known by what it lies under.

## Main results

* `Ordered.join_lowest`: the join of two types whose chains meet is the lowest type on both.
* `Ordered.join_liesUnder_iff`: joins are least upper bounds.
* `join_semilattice`: joins can be taken in any order, so the type of a match does not depend on the order of its arms'
  types.
-/

namespace DispatchLang

namespace TypeArena

variable {arena : TypeArena} {a b c x y up : TypeId}

/-! ## Chains of parents -/

theorem self_mem_ancestors (arena : TypeArena) (a : TypeId) : a ∈ arena.ancestors a := List.mem_cons_self

theorem Ordered.parent_mem_ancestors (h : arena.Ordered) (hx : x ∈ arena.ancestors a)
    (hup : (arena.get x).parent = some up) : up ∈ arena.ancestors a := by
  by_cases ha : a < arena.size
  · exact h.parent_mem_chain _ (Nat.lt_succ_of_lt ha) hx hup
  · -- nothing is above what is no type of the arena
    have hnone : (arena.get a).parent = none := by rw [get_of_size_le (Nat.le_of_not_lt ha)]
    rw [ancestors, chain, hnone] at hx
    obtain rfl := List.mem_singleton.1 hx
    rw [hnone] at hup
    cases hup

theorem Ordered.mem_ancestors_trans (h : arena.Ordered) (hx : x ∈ arena.ancestors a) (hy : y ∈ arena.ancestors x) :
    y ∈ arena.ancestors a := by
  have hchain (n : Nat) : ∀ x ∈ arena.ancestors a, ∀ y ∈ arena.chain n x, y ∈ arena.ancestors a := by
    induction n with
    | zero => exact fun _ _ => nofun
    | succ n ih =>
      intro x hx y hy
      rw [chain] at hy
      cases hup : (arena.get x).parent with
      | none =>
        rw [hup] at hy
        exact List.mem_singleton.1 hy ▸ hx
      | some up =>
        rw [hup] at hy
        rcases List.mem_cons.1 hy with rfl | hy
        · exact hx
        · exact ih up (h.parent_mem_ancestors hx hup) y hy
  exact hchain _ x hx y hy

theorem Ordered.le_of_mem_ancestors (h : arena.Ordered) (hx : x ∈ arena.ancestors a) : x ≤ a := h.chain_le _ a x hx

/-! ## The lowest type above two types -/

/-- The join of two types whose chains of parents meet is on both chains, and everything on both is above it. -/
theorem Ordered.join_lowest (h : arena.Ordered) (hx : x ∈ arena.ancestors a) (hx' : x ∈ arena.ancestors b) :
    arena.join a b ∈ arena.ancestors a ∧ arena.join a b ∈ arena.ancestors b ∧ x ∈ arena.ancestors (arena.join a b) := by
  by_cases heq : a = b
  · subst heq
    rw [join, if_pos rfl]
    exact ⟨self_mem_ancestors arena a, self_mem_ancestors arena a, hx⟩
  have hjoin : arena.join a b = ((arena.ancestors b).find? (arena.ancestors a).contains).getD .any := if_neg heq
  cases hfind : (arena.ancestors b).find? (arena.ancestors a).contains with
  | none => exact absurd (List.contains_iff_mem.2 hx) (List.find?_eq_none.1 hfind x hx')
  | some low =>
    rw [hjoin, hfind, Option.getD_some]
    obtain ⟨hlow, before, after, hchain, hbefore⟩ := List.find?_eq_some_iff_append.1 hfind
    have hlow' : low ∈ arena.ancestors b := List.mem_of_find?_eq_some hfind
    refine ⟨List.contains_iff_mem.1 hlow, hlow', ?_⟩
    -- of what is on both chains the first one on the way up is the newest
    have hle : x ≤ low := by
      have hdecreasing : (before ++ low :: after).Pairwise (· > ·) := hchain ▸ h.chain_decreasing _ b
      rw [hchain] at hx'
      rcases List.mem_append.1 hx' with hmem | hmem
      · have hmiss := hbefore x hmem
        rw [List.contains_iff_mem.2 hx] at hmiss
        cases hmiss
      · rcases List.mem_cons.1 hmem with rfl | hmem
        · exact Nat.le_refl x
        · exact Nat.le_of_lt (List.rel_of_pairwise_cons (List.pairwise_append.1 hdecreasing).2.1 hmem)
    rcases mem_chain_or_mem_chain _ hlow' hx' with habove | hbelow
    · exact habove
    · obtain rfl := Nat.le_antisymm hle (h.le_of_mem_ancestors hbelow)
      exact hbelow

/-- The join of two types whose chains of parents do not meet. -/
theorem join_eq_any (hmeet : ¬∃ x ∈ arena.ancestors a, x ∈ arena.ancestors b) : arena.join a b = .any := by
  have hjoin := arena.join_eq_any_or a b
  exact hjoin.resolve_right fun h => hmeet ⟨_, h⟩

/-! ## Joins as least upper bounds -/

/-- Whether a type is on the way up from another one, if the type above all others is put on top. -/
def LiesUnder (arena : TypeArena) (a x : TypeId) : Prop := x ∈ arena.ancestors a ∨ x = .any

theorem LiesUnder.refl (arena : TypeArena) (a : TypeId) : arena.LiesUnder a a := .inl (self_mem_ancestors arena a)

theorem Ordered.liesUnder_trans (h : arena.Ordered) (hx : arena.LiesUnder a x) (hy : arena.LiesUnder x y) :
    arena.LiesUnder a y := by
  rcases hy with hy | rfl
  · rcases hx with hx | rfl
    · exact .inl (h.mem_ancestors_trans hx hy)
    · exact .inr (h.eq_of_mem_ancestors_any hy)
  · exact .inr rfl

theorem Ordered.liesUnder_antisymm (h : arena.Ordered) (hx : arena.LiesUnder a x) (ha : arena.LiesUnder x a) :
    a = x := by
  -- a type is no newer than what it lies under, and nothing is older than the type on top
  have hle {a x : TypeId} (hx : arena.LiesUnder a x) : x ≤ a := by
    rcases hx with hx | rfl
    · exact h.le_of_mem_ancestors hx
    · exact Nat.zero_le a
  exact Nat.le_antisymm (hle ha) (hle hx)

theorem Ordered.eq_of_liesUnder_iff (h : arena.Ordered) (heq : ∀ x, arena.LiesUnder a x ↔ arena.LiesUnder b x) : a = b :=
  h.liesUnder_antisymm ((heq b).2 (.refl arena b)) ((heq a).1 (.refl arena a))

theorem Ordered.join_liesUnder_iff (h : arena.Ordered) :
    arena.LiesUnder (arena.join a b) x ↔ arena.LiesUnder a x ∧ arena.LiesUnder b x := by
  by_cases hmeet : ∃ y ∈ arena.ancestors a, y ∈ arena.ancestors b
  · obtain ⟨y, hya, hyb⟩ := hmeet
    obtain ⟨ha, hb, -⟩ := h.join_lowest hya hyb
    constructor
    · intro hx
      exact ⟨h.liesUnder_trans (.inl ha) hx, h.liesUnder_trans (.inl hb) hx⟩
    · rintro ⟨hxa | rfl, hxb | hany⟩
      · exact .inl (h.join_lowest hxa hxb).2.2
      · exact .inr hany
      · exact .inr rfl
      · exact .inr rfl
  · rw [join_eq_any hmeet]
    constructor
    · rintro (hx | rfl)
      · obtain rfl := h.eq_of_mem_ancestors_any hx
        exact ⟨.inr rfl, .inr rfl⟩
      · exact ⟨.inr rfl, .inr rfl⟩
    · rintro ⟨hxa | rfl, hxb | hany⟩
      · exact absurd ⟨x, hxa, hxb⟩ hmeet
      · exact .inr hany
      · exact .inr rfl
      · exact .inr rfl

theorem Ordered.join_comm (h : arena.Ordered) (a b : TypeId) : arena.join a b = arena.join b a := by
  apply h.eq_of_liesUnder_iff
  intro x
  rw [h.join_liesUnder_iff, h.join_liesUnder_iff, and_comm]

theorem Ordered.join_assoc (h : arena.Ordered) (a b c : TypeId) :
    arena.join a (arena.join b c) = arena.join (arena.join a b) c := by
  apply h.eq_of_liesUnder_iff
  intro x
  simp only [h.join_liesUnder_iff, and_assoc]

/-! ## Joins of several types -/

theorem Ordered.foldl_join_liesUnder_iff (h : arena.Ordered) (types : List TypeId) :
    arena.LiesUnder (types.foldl arena.join a) x ↔ ∀ t ∈ a :: types, arena.LiesUnder t x := by
  induction types generalizing a with
  | nil => simp
  | cons t types ih => simp [ih, h.join_liesUnder_iff, and_assoc]

/-- The type of a choice does not depend on the order of the types. -/
theorem Ordered.joinAll_perm (h : arena.Ordered) {types types' : List TypeId} (hperm : types.Perm types') :
    Check.joinAll arena types = Check.joinAll arena types' := by
  cases types with
  | nil => rw [List.nil_perm.1 hperm]
  | cons a types =>
    cases types' with
    | nil => exact absurd hperm (List.not_perm_cons_nil)
    | cons b types' =>
      apply h.eq_of_liesUnder_iff
      intro x
      rw [Check.joinAll, Check.joinAll, h.foldl_join_liesUnder_iff, h.foldl_join_liesUnder_iff]
      simp only [hperm.mem_iff]

end TypeArena

/-! ## The type of a match -/

namespace Check

/-- The type of a match is the join of the types of its arms, in the arena that they leave behind. -/
theorem infer_cases (inPlace : Bool) (span : Span) (scrutinee : Node) (arms : List (Node × Node)) (c : Checker) :
    ((infer inPlace (.cases span scrutinee arms)).run c).1 =
      let (type, c₁) := (infer false scrutinee).run c
      let (types, c₂) := (inferArms type arms).run c₁
      joinAll c₂.arena types := by
  rw [infer]
  rfl

end Check

/-- In a well-built arena joins are idempotent, commutative and associative, and the join of two types is the lowest type
on both of their chains of parents, or the type above all others if these do not meet. So whatever a checker is in the
middle of, the type that it infers for a match is the join of the types of the arms, in whatever order these are. -/
theorem join_semilattice :
    (∀ arena : TypeArena, arena.WellBuilt →
      (∀ a, arena.join a a = a) ∧ (∀ a b, arena.join a b = arena.join b a) ∧
      (∀ a b c, arena.join a (arena.join b c) = arena.join (arena.join a b) c) ∧
      ∀ a b, ((∃ x ∈ arena.ancestors a, x ∈ arena.ancestors b) →
          arena.join a b ∈ arena.ancestors a ∧ arena.join a b ∈ arena.ancestors b ∧
          ∀ x ∈ arena.ancestors a, x ∈ arena.ancestors b → x ∈ arena.ancestors (arena.join a b)) ∧
        ((¬∃ x ∈ arena.ancestors a, x ∈ arena.ancestors b) → arena.join a b = .any)) ∧
    ∀ c, Checker.initial.LeadsTo c → ∀ inPlace span scrutinee arms,
      let (type, c₁) := (Check.infer false scrutinee).run c
      let (types, c₂) := (Check.inferArms type arms).run c₁
      ∀ types', types'.Perm types →
        ((Check.infer inPlace (.cases span scrutinee arms)).run c).1 = Check.joinAll c₂.arena types' := by
  constructor
  · intro arena h
    have ho := h.ordered
    refine ⟨fun a => if_pos rfl, ho.join_comm, ho.join_assoc, fun a b => ⟨?_, TypeArena.join_eq_any⟩⟩
    rintro ⟨x, hxa, hxb⟩
    obtain ⟨ha, hb, -⟩ := ho.join_lowest hxa hxb
    exact ⟨ha, hb, fun y hya hyb => (ho.join_lowest hya hyb).2.2⟩
  · intro c h inPlace span scrutinee arms types hperm
    have hs := Check.Keeps.infer false scrutinee (h.sound Checker.initial_sound)
    have hs' := Check.Keeps.inferArms hs.2.2 arms hs.1
    rw [Check.infer_cases]
    exact hs'.1.regular.indexed.toOrdered.joinAll_perm hperm.symm

/-- A struct with a type variable, and what it is for that variable and for integers. -/
def boxes : TypeArena :=
  ((((TypeArena.initial.add ⟨"Box", .struct ["T"] [("inside", .any)], some .any⟩).2.var "T" .any).2.applied
    12 [13]).2.applied 12 [.int]).2

/-- Two boxes meet at the struct, and a box and the type variable nowhere. The arms of a match are a number and a
text. -/
theorem boxes_join :
    boxes.WellBuilt ∧ 12 ∈ boxes.ancestors 14 ∧ 12 ∈ boxes.ancestors 15 ∧ 12 ∈ boxes.ancestors (boxes.join 14 15) ∧
      boxes.join 14 15 = 12 ∧ boxes.join 13 14 = .any ∧
      boxes.join 13 (boxes.join 14 15) = boxes.join (boxes.join 13 14) 15 ∧
      let arms : List (Node × Node) := [(.literal .nowhere (.int 1), .literal .nowhere (.int 2)),
        (.literal .nowhere (.int 3), .literal .nowhere (.string "x"))]
      let (type, c₁) := (Check.infer false (.literal .nowhere (.int 1))).run .initial
      let (types, c₂) := (Check.inferArms type arms).run c₁
      ((Check.infer false (.cases .nowhere (.literal .nowhere (.int 1)) arms)).run .initial).1 =
        Check.joinAll c₂.arena types.reverse := by
  have hwell : boxes.WellBuilt :=
    .applied _ _ (.applied _ _ (.var _ _ (.add _ .initial (by decide)) (by decide)) (by decide) (by decide)) (by decide)
      (by decide)
  obtain ⟨-, -, hassoc, hmeet⟩ := join_semilattice.1 boxes hwell
  have hleft : 12 ∈ boxes.ancestors 14 := by decide
  have hright : 12 ∈ boxes.ancestors 15 := by decide
  obtain ⟨-, -, hlowest⟩ := (hmeet 14 15).1 ⟨12, hleft, hright⟩
  refine ⟨hwell, hleft, hright, hlowest 12 hleft hright, by decide, (hmeet 13 14).2 (by decide), hassoc 13 14 15, ?_⟩
  intro arms
  exact join_semilattice.2 .initial .refl false .nowhere _ arms _ (List.reverse_perm _)

end DispatchLang
