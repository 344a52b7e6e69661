import DispatchLang.Proofs.Arena.WellBuilt
import Mathlib.Data.Finset.Prod
import Mathlib.Data.List.Forall2
import Mathlib.Logic.Relation

/-!
# Subtyping is the greatest relation its rules admit

A struct may have fields of its own type, or of a type declared after it, so the rules of subtyping do not
define a relation by recursion on the types. They define one as a greatest relation: `Below` relates two
types if some relation relates them and only ever relates what the rules admit. The comparison that runs
keeps a list of the pairs of structs that it is in the middle of comparing and takes these for granted.

## Termination

`Compares` is the comparison without a bound on its depth, as a relation between a question and its
answer. In an ordered arena every comparison other than that of two structs lowers the sum of the two
indices, and every comparison of two structs takes for granted a pair that was not taken for granted
before. There are only so many pairs, so `Compares` always has an answer, and `isSubtype` finds it.

## The list of assumptions

What is below another type as long as certain pairs count as related is `BelowFrom`. A pair that is taken
for granted while its own goals are shown may be dropped from the list afterwards (`BelowFrom.of_goals`),
which is all the comparison needs to be right; in the other direction, a comparison only ever fails at a
pair for which there is no rule.

## Main results

* `compares_isSubtype`: in an ordered arena every comparison has one answer, and `isSubtype` gives it.
* `isSubtype_decides_below`: in a well-built arena that answer is yes exactly if the pair is in the greatest
  relation that the rules admit, that is, exactly if no pair without a rule can be reached from it.
-/

namespace DispatchLang.TypeArena

/-! ## The rules as a relation -/

/-- What one step of the rules admits, given the relation `R` for the pairs it leads to: the same type; the
type above all others on the right, and nothing else above it; on the right a variable stands for its
constraint; applied types with the same base and arguments; structs field by field; functions by parameters
the other way round and by result; in all other cases the parent of the type on the left. -/
def Admits (arena : TypeArena) (R : TypeId → TypeId → Prop) (child parent : TypeId) : Prop :=
  child = parent ∨ parent = .any ∨ child ≠ .any ∧
    match (arena.get child).kind, (arena.get parent).kind with
    | _, .var constraint => R child constraint
    | .applied base args, .applied base' args' =>
      base = base' ∧ args = args' ∨ ∃ up, (arena.get child).parent = some up ∧ R up parent
    | .struct _ fields, .struct _ fields' =>
      ∀ f ∈ fields', ∃ type, fields.lookup f.1 = some type ∧ R type f.2
    | .function params result, .function params' result' =>
      List.Forall₂ R params' params ∧ R result result'
    | _, _ => ∃ up, (arena.get child).parent = some up ∧ R up parent

/-- The greatest relation that relates only what the rules admit. -/
def Below (arena : TypeArena) (child parent : TypeId) : Prop :=
  ∃ R : TypeId → TypeId → Prop, (∀ a b, R a b → arena.Admits R a b) ∧ R child parent

/-- One pair leads to another if the rules reduce the first to the second and some others. -/
def LeadsTo (arena : TypeArena) (pair goal : TypeId × TypeId) : Prop :=
  ∃ goals, arena.obligations pair.1 pair.2 = some goals ∧ goal ∈ goals

variable {arena : TypeArena} {assumed goals : List (TypeId × TypeId)} {child parent : TypeId}

/-! ## What a rule leads to -/

theorem fieldObligations_cons (below above : FieldTypes) (f : String × TypeId) :
    fieldObligations below (f :: above) =
      (below.lookup f.1).bind fun type =>
        (fieldObligations below above).map fun goals => (type, f.2) :: goals := by
  rw [fieldObligations, List.mapM_cons, ← fieldObligations]
  dsimp only
  cases below.lookup f.1 with
  | none => rfl
  | some type => cases fieldObligations below above <;> rfl

theorem fieldObligations_eq_some {below above : FieldTypes} :
    fieldObligations below above = some goals ↔
      List.Forall₂ (fun f g => below.lookup f.1 = some g.1 ∧ g.2 = f.2) above goals := by
  induction above generalizing goals with
  | nil =>
    rw [List.forall₂_nil_left_iff]
    exact ⟨fun h => (Option.some.inj h).symm, fun h => h ▸ rfl⟩
  | cons f above ih =>
    simp only [fieldObligations_cons, Option.bind_eq_some_iff, Option.map_eq_some_iff, ih,
      List.forall₂_cons_left_iff]
    constructor
    · rintro ⟨type, hl, rest, hrest, rfl⟩
      exact ⟨(type, f.2), rest, ⟨hl, rfl⟩, hrest, rfl⟩
    · rintro ⟨⟨c, p⟩, rest, ⟨hl, rfl⟩, hrest, rfl⟩
      exact ⟨c, hl, rest, hrest, rfl⟩

/-- The goals of two structs hold exactly if every field above has one below of a related type. -/
theorem forall_fields_iff {R : TypeId → TypeId → Prop} {below above : FieldTypes} :
    (∀ f ∈ above, ∃ type, below.lookup f.1 = some type ∧ R type f.2) ↔
      ∃ goals, fieldObligations below above = some goals ∧ ∀ g ∈ goals, R g.1 g.2 := by
  simp only [fieldObligations_eq_some]
  induction above with
  | nil => simp
  | cons f above ih =>
    rw [List.forall_mem_cons, ih]
    constructor
    · rintro ⟨⟨type, hl, hr⟩, goals, hg, hall⟩
      refine ⟨(type, f.2) :: goals, .cons ⟨hl, rfl⟩ hg, ?_⟩
      rw [List.forall_mem_cons]
      exact ⟨hr, hall⟩
    · rintro ⟨goals, hg, hall⟩
      rcases List.forall₂_cons_left_iff.mp hg with ⟨g, rest, ⟨hl, heq⟩, hrest, rfl⟩
      rw [List.forall_mem_cons] at hall
      refine ⟨⟨g.1, hl, ?_⟩, rest, hrest, hall.2⟩
      rw [← heq]
      exact hall.1

theorem exists_parent_iff {R : TypeId → TypeId → Prop} :
    (∃ up, (arena.get child).parent = some up ∧ R up parent) ↔
      ∃ goals, arena.parentObligation child parent = some goals ∧ ∀ g ∈ goals, R g.1 g.2 := by
  rw [parentObligation]
  cases (arena.get child).parent <;> simp

/-- The goals of two function types hold exactly if parameters and results are related. -/
theorem forall₂_zip_iff {R : TypeId → TypeId → Prop} {params params' : List TypeId} :
    List.Forall₂ R params' params ↔
      params.length = params'.length ∧ ∀ g ∈ params'.zip params, R g.1 g.2 := by
  rw [List.forall₂_iff_zip]
  exact ⟨fun h => ⟨h.1.symm, fun g hg => h.2 hg⟩, fun h => ⟨h.1.symm, fun hg => h.2 _ hg⟩⟩

/-- Goals that are there hold exactly if each of them does. -/
theorem exists_goals_iff {R : TypeId → TypeId → Prop} :
    (∃ goals', some goals = some goals' ∧ ∀ g ∈ goals', R g.1 g.2) ↔ ∀ g ∈ goals, R g.1 g.2 := by
  constructor
  · rintro ⟨goals', h, hall⟩
    rw [Option.some.inj h]
    exact hall
  · exact fun hall => ⟨goals, rfl, hall⟩

/-- A variable on the right leads to its constraint, whatever stands on the left. -/
theorem exists_goal_iff {R : TypeId → TypeId → Prop} {constraint : TypeId} :
    (∃ goals, some [(child, constraint)] = some goals ∧ ∀ g ∈ goals, R g.1 g.2) ↔ R child constraint := by
  rw [exists_goals_iff, List.forall_mem_singleton]

/-- `obligations` lists what a pair needs to be admitted. -/
theorem admits_iff {R : TypeId → TypeId → Prop} :
    arena.Admits R child parent ↔
      ∃ goals, arena.obligations child parent = some goals ∧ ∀ g ∈ goals, R g.1 g.2 := by
  rw [Admits, obligations]
  by_cases hsame : child = parent ∨ parent = .any
  · rw [if_pos hsame, ← or_assoc, exists_goals_iff]
    exact iff_of_true (.inl hsame) (List.forall_mem_nil _)
  · rw [if_neg hsame, ← or_assoc, or_iff_right hsame]
    by_cases hany : child = .any
    · rw [if_pos hany]
      exact iff_of_false (fun h => h.1 hany) fun ⟨_, h, _⟩ => nomatch h
    · rw [if_neg hany, and_iff_right hany]
      generalize (arena.get child).kind = kind, (arena.get parent).kind = kind'
      cases kind' with
      | var constraint => cases kind <;> exact exists_goal_iff.symm
      | applied base' args' =>
        cases kind with
        | applied base args =>
          by_cases heq : base = base' ∧ args = args'
          · dsimp only
            rw [if_pos heq, exists_goals_iff]
            exact iff_of_true (.inl heq) (List.forall_mem_nil _)
          · simp only [if_neg heq, or_iff_right heq]
            exact exists_parent_iff
        | _ => exact exists_parent_iff
      | struct params' fields' =>
        cases kind with
        | struct params fields => exact forall_fields_iff
        | _ => exact exists_parent_iff
      | function params' result' =>
        cases kind with
        | function params result =>
          dsimp only
          rw [forall₂_zip_iff]
          by_cases hlen : params.length = params'.length
          · rw [if_pos hlen, exists_goals_iff, List.forall_mem_append, List.forall_mem_singleton,
              and_iff_right hlen]
          · rw [if_neg hlen]
            exact iff_of_false (fun h => hlen h.1.1) fun ⟨_, h, _⟩ => nomatch h
        | _ => exact exists_parent_iff
      | _ => cases kind <;> exact exists_parent_iff

theorem Admits.mono {R S : TypeId → TypeId → Prop} (h : arena.Admits R child parent)
    (hRS : ∀ a b, R a b → S a b) : arena.Admits S child parent := by
  rw [admits_iff] at h ⊢
  obtain ⟨goals, hg, hall⟩ := h
  exact ⟨goals, hg, fun g hmem => hRS _ _ (hall g hmem)⟩

/-- What a goal of a pair can be: the pair with a variable replaced by its constraint, the pair moved up to
a parent, two types of fields of one name, or parts of two function types. -/
theorem goal_cases {goal : TypeId × TypeId} (h : arena.obligations child parent = some goals)
    (hg : goal ∈ goals) :
    (∃ constraint, (arena.get parent).kind = .var constraint ∧ goal = (child, constraint)) ∨
    (∃ up, (arena.get child).parent = some up ∧ goal = (up, parent)) ∨
    (arena.areStructs child parent = true ∧ ∃ params fields params' fields',
      (arena.get child).kind = .struct params fields ∧
      (arena.get parent).kind = .struct params' fields' ∧
      ∃ f ∈ fields', fields.lookup f.1 = some goal.1 ∧ goal.2 = f.2) ∨
    goal.1 ∈ (arena.get parent).kind.parts ∧ goal.2 ∈ (arena.get child).kind.parts ∨
    goal.1 ∈ (arena.get child).kind.parts ∧ goal.2 ∈ (arena.get parent).kind.parts := by
  have hparent : arena.parentObligation child parent = some goals →
      ∃ up, (arena.get child).parent = some up ∧ goal = (up, parent) := by
    intro h
    rw [parentObligation, Option.map_eq_some_iff] at h
    obtain ⟨up, hup, rfl⟩ := h
    exact ⟨up, hup, List.mem_singleton.mp hg⟩
  rw [obligations] at h
  split at h
  · rw [← Option.some.inj h] at hg
    cases hg
  split at h
  · cases h
  split at h
  · rename_i hvar
    rw [← Option.some.inj h] at hg
    exact .inl ⟨_, hvar, List.mem_singleton.mp hg⟩
  · split at h
    · rw [← Option.some.inj h] at hg
      cases hg
    · exact .inr (.inl (hparent h))
  · rename_i hchild hparent
    rw [fieldObligations_eq_some] at h
    refine .inr (.inr (.inl ⟨?_, _, _, _, _, hchild, hparent, ?_⟩))
    · rw [areStructs, hchild, hparent]
    · obtain ⟨i, hi, rfl⟩ := List.mem_iff_getElem.mp hg
      rw [List.forall₂_iff_get] at h
      have hi' := h.1 ▸ hi
      exact ⟨_, List.get_mem _ ⟨i, hi'⟩, h.2 i hi' hi⟩
  · rename_i hchild hparent
    split at h
    · rw [← Option.some.inj h, List.mem_append, List.mem_singleton] at hg
      rw [hchild, hparent]
      rcases hg with hg | rfl
      · exact .inr (.inr (.inr (.inl ⟨List.mem_append_left _ (List.of_mem_zip hg).1,
          List.mem_append_left _ (List.of_mem_zip hg).2⟩)))
      · exact .inr (.inr (.inr (.inr ⟨List.mem_append_right _ (List.mem_singleton_self _),
          List.mem_append_right _ (List.mem_singleton_self _)⟩)))
    · cases h
  · exact .inr (.inl (hparent h))

/-! ## The comparison without a bound -/

/-- The pairs that count as related while the goals of a pair are compared. -/
def assuming (arena : TypeArena) (assumed : List (TypeId × TypeId)) (child parent : TypeId) :
    List (TypeId × TypeId) :=
  if arena.areStructs child parent then (child, parent) :: assumed else assumed

/-- Whether a pair is taken for granted. -/
def Assumed (arena : TypeArena) (assumed : List (TypeId × TypeId)) (child parent : TypeId) : Prop :=
  arena.areStructs child parent = true ∧ (child, parent) ∈ assumed

/-- The comparison of two types without a bound on its depth, where the pairs in the list count as
related. The goals of a pair are compared in turn until one fails. -/
inductive Compares (arena : TypeArena) :
    List (TypeId × TypeId) → TypeId → TypeId → Bool → Prop where
  /-- There is no rule for the pair. -/
  | refused {assumed : List (TypeId × TypeId)} {child parent : TypeId}
      (h : arena.obligations child parent = none) : Compares arena assumed child parent false
  /-- The pair is taken for granted. -/
  | granted {assumed goals : List (TypeId × TypeId)} {child parent : TypeId}
      (h : arena.obligations child parent = some goals)
      (ha : arena.Assumed assumed child parent) : Compares arena assumed child parent true
  /-- All goals of the pair hold. -/
  | accepted {assumed goals : List (TypeId × TypeId)} {child parent : TypeId}
      (h : arena.obligations child parent = some goals)
      (ha : ¬ arena.Assumed assumed child parent)
      (hg : ∀ g ∈ goals, Compares arena (arena.assuming assumed child parent) g.1 g.2 true) :
      Compares arena assumed child parent true
  /-- Some goals of the pair hold, and the next one does not. -/
  | failed {assumed before after : List (TypeId × TypeId)} {child parent : TypeId}
      {goal : TypeId × TypeId}
      (h : arena.obligations child parent = some (before ++ goal :: after))
      (ha : ¬ arena.Assumed assumed child parent)
      (hb : ∀ g ∈ before, Compares arena (arena.assuming assumed child parent) g.1 g.2 true)
      (hg : Compares arena (arena.assuming assumed child parent) goal.1 goal.2 false) :
      Compares arena assumed child parent false

/-! ## The greatest relation -/

theorem Below.admits (h : arena.Below child parent) : arena.Admits arena.Below child parent := by
  obtain ⟨R, hR, hr⟩ := h
  exact (hR _ _ hr).mono fun a b hab => ⟨R, hR, hab⟩

theorem below_of_admits (h : arena.Admits arena.Below child parent) : arena.Below child parent := by
  refine ⟨arena.Admits arena.Below, fun a b hab => ?_, h⟩
  exact hab.mono fun _ _ => Below.admits

/-- The greatest relation relates exactly what the rules admit. -/
theorem below_iff_admits :
    arena.Below child parent ↔ arena.Admits arena.Below child parent :=
  ⟨Below.admits, below_of_admits⟩

/-- What is related to the rules holds of every pair that can be reached. -/
theorem Below.of_reachable {pair goal : TypeId × TypeId} (h : arena.Below pair.1 pair.2)
    (hr : Relation.ReflTransGen arena.LeadsTo pair goal) : arena.Below goal.1 goal.2 := by
  induction hr with
  | refl => exact h
  | tail _ hstep ih =>
    obtain ⟨goals, hg, hmem⟩ := hstep
    obtain ⟨goals', hg', hall⟩ := admits_iff.mp ih.admits
    rw [hg] at hg'
    rw [Option.some.inj hg'] at hmem
    exact hall _ hmem

/-- A pair is in the greatest relation exactly if no pair without a rule can be reached from it. -/
theorem below_iff_forall_reachable {pair : TypeId × TypeId} :
    arena.Below pair.1 pair.2 ↔
      ∀ goal, Relation.ReflTransGen arena.LeadsTo pair goal →
        arena.obligations goal.1 goal.2 ≠ none := by
  constructor
  · intro h goal hr
    obtain ⟨goals, hg, -⟩ := admits_iff.mp (h.of_reachable hr).admits
    rw [hg]
    exact Option.some_ne_none goals
  · intro h
    refine ⟨fun a b => ∀ goal, Relation.ReflTransGen arena.LeadsTo (a, b) goal →
      arena.obligations goal.1 goal.2 ≠ none, fun a b hab => ?_, h⟩
    obtain ⟨goals, hg⟩ := Option.ne_none_iff_exists'.mp (hab (a, b) .refl)
    rw [admits_iff]
    exact ⟨goals, hg, fun g hmem goal hr => hab goal (.head ⟨goals, hg, hmem⟩ hr)⟩

/-! ## The list of assumptions -/

/-- The greatest relation that relates only what is on the list or what the rules admit. -/
def BelowFrom (arena : TypeArena) (assumed : List (TypeId × TypeId)) (child parent : TypeId) :
    Prop :=
  ∃ R : TypeId → TypeId → Prop,
    (∀ a b, R a b → (a, b) ∈ assumed ∨ arena.Admits R a b) ∧ R child parent

theorem belowFrom_nil : arena.BelowFrom [] child parent ↔ arena.Below child parent := by
  simp only [BelowFrom, List.not_mem_nil, false_or, Below]

theorem BelowFrom.of_mem (h : (child, parent) ∈ assumed) : arena.BelowFrom assumed child parent :=
  ⟨fun a b => (a, b) ∈ assumed, fun _ _ => .inl, h⟩

theorem BelowFrom.cases (h : arena.BelowFrom assumed child parent) :
    (child, parent) ∈ assumed ∨ arena.Admits (arena.BelowFrom assumed) child parent := by
  obtain ⟨R, hR, hr⟩ := h
  exact (hR _ _ hr).imp_right fun had => had.mono fun a b hab => ⟨R, hR, hab⟩

theorem BelowFrom.cons {pair : TypeId × TypeId} (h : arena.BelowFrom assumed child parent) :
    arena.BelowFrom (pair :: assumed) child parent := by
  obtain ⟨R, hR, hr⟩ := h
  exact ⟨R, fun a b hab => (hR a b hab).imp_left (List.mem_cons_of_mem _), hr⟩

/-- A pair need not be on the list if its goals hold as long as it is. -/
theorem BelowFrom.of_goals (h : arena.obligations child parent = some goals)
    (hg : ∀ g ∈ goals, arena.BelowFrom ((child, parent) :: assumed) g.1 g.2) :
    arena.BelowFrom assumed child parent := by
  -- The pair joins what the longer list relates, and its goals are related there.
  let R : TypeId → TypeId → Prop := fun a b =>
    (a, b) = (child, parent) ∨ arena.BelowFrom ((child, parent) :: assumed) a b
  have hself : arena.Admits R child parent :=
    admits_iff.mpr ⟨goals, h, fun g hmem => .inr (hg g hmem)⟩
  refine ⟨R, fun a b hab => ?_, .inl rfl⟩
  rcases hab with heq | hab
  · cases heq
    exact .inr hself
  · rcases hab.cases with hmem | had
    · rcases List.mem_cons.mp hmem with heq | hmem
      · cases heq
        exact .inr hself
      · exact .inl hmem
    · exact .inr (had.mono fun _ _ => .inr)

theorem BelowFrom.of_assuming (h : arena.obligations child parent = some goals)
    (hg : ∀ g ∈ goals, arena.BelowFrom (arena.assuming assumed child parent) g.1 g.2) :
    arena.BelowFrom assumed child parent := by
  refine .of_goals h fun g hmem => ?_
  have hgoal := hg g hmem
  rw [assuming] at hgoal
  split at hgoal
  · exact hgoal
  · exact hgoal.cons

/-! ## What the comparison answers -/

namespace Compares

/-- A comparison that succeeds has found a pair of the greatest relation that its assumptions allow. -/
theorem belowFrom {answer : Bool} (h : arena.Compares assumed child parent answer) :
    answer = true → arena.BelowFrom assumed child parent := by
  induction h with
  | refused _ => exact nofun
  | granted _ ha => exact fun _ => .of_mem ha.2
  | accepted h _ _ ih => exact fun _ => .of_assuming h fun g hg => ih g hg rfl
  | failed _ _ _ _ _ _ => exact nofun

/-- Whatever is taken for granted, a comparison never rejects a pair of the greatest relation. -/
theorem eq_true_of_below {answer : Bool} (h : arena.Compares assumed child parent answer) :
    arena.Below child parent → answer = true := by
  induction h with
  | refused h =>
    intro hb
    obtain ⟨goals, hg, -⟩ := admits_iff.mp hb.admits
    rw [h] at hg
    cases hg
  | granted _ _ => exact fun _ => rfl
  | accepted _ _ _ _ => exact fun _ => rfl
  | failed h _ _ _ _ ih =>
    intro hb
    obtain ⟨goals, hg, hall⟩ := admits_iff.mp hb.admits
    rw [h] at hg
    refine ih (hall _ ?_)
    rw [← Option.some.inj hg]
    exact List.mem_append_right _ List.mem_cons_self

/-- A comparison has at most one answer. -/
theorem unique {answer answer' : Bool} (h : arena.Compares assumed child parent answer)
    (h' : arena.Compares assumed child parent answer') : answer = answer' := by
  induction h generalizing answer' with
  | refused h =>
    cases h' with
    | refused _ => rfl
    | granted h' _ => rw [h] at h'; cases h'
    | accepted h' _ _ => rw [h] at h'; cases h'
    | failed _ _ _ _ => rfl
  | granted h ha =>
    cases h' with
    | refused h' => rw [h] at h'; cases h'
    | granted _ _ => rfl
    | accepted _ _ _ => rfl
    | failed _ ha' _ _ => exact absurd ha ha'
  | accepted h _ _ ih =>
    cases h' with
    | refused h' => rw [h] at h'; cases h'
    | granted _ _ => rfl
    | accepted _ _ _ => rfl
    | failed h' _ _ hg' =>
      rw [h] at h'
      refine ih _ ?_ hg'
      rw [Option.some.inj h']
      exact List.mem_append_right _ List.mem_cons_self
  | failed h ha _ _ _ ih =>
    cases h' with
    | refused _ => rfl
    | granted _ ha' => exact absurd ha' ha
    | accepted h' _ hg' =>
      rw [h] at h'
      refine ih (hg' _ ?_)
      rw [← Option.some.inj h']
      exact List.mem_append_right _ List.mem_cons_self
    | failed _ _ _ _ => rfl

end Compares

/-! ## Termination -/

def pairs (arena : TypeArena) : Finset (TypeId × TypeId) :=
  Finset.range arena.size ×ˢ Finset.range arena.size

theorem mem_pairs {pair : TypeId × TypeId} :
    pair ∈ arena.pairs ↔ pair.1 < arena.size ∧ pair.2 < arena.size := by
  rw [pairs, Finset.mem_product, Finset.mem_range, Finset.mem_range]

/-- How deep the comparison of a pair can go: for every pair that is not taken for granted yet there may be
a descent in the indices. -/
def remainingDepth (arena : TypeArena) (assumed : List (TypeId × TypeId)) (child parent : Nat) :
    Nat :=
  (arena.pairs \ assumed.toFinset).card * (2 * arena.size + 1) + (child + parent) + 1

theorem remainingDepth_nil_le {pair : TypeId × TypeId} (hp : pair ∈ arena.pairs) :
    arena.remainingDepth [] pair.1 pair.2 ≤ arena.comparisonDepth := by
  have hlt := mem_pairs.mp hp
  have hcard : (arena.pairs \ List.toFinset []).card = arena.size * arena.size := by
    rw [List.toFinset_nil, Finset.sdiff_empty, pairs, Finset.card_product, Finset.card_range]
  rw [remainingDepth, hcard, comparisonDepth, Nat.add_mul]
  have hsum : pair.1 + pair.2 < arena.size + arena.size := Nat.add_lt_add hlt.1 hlt.2
  have harith : ∀ a s N : Nat, s < N + N → a + s + 1 ≤ a + 1 * (2 * N + 1) := by
    intro a s N hs
    omega
  exact harith _ _ _ hsum

theorem Ordered.goal_mem (h : arena.Ordered) (hp : (child, parent) ∈ arena.pairs)
    (hg : arena.obligations child parent = some goals) {goal : TypeId × TypeId} (hmem : goal ∈ goals) :
    goal ∈ arena.pairs ∧
      (arena.areStructs child parent = false → goal.1 + goal.2 < child + parent) := by
  obtain ⟨hc, hp⟩ := mem_pairs.mp hp
  rw [mem_pairs]
  rcases goal_cases hg hmem with ⟨constraint, hk, rfl⟩ | ⟨up, hup, rfl⟩ |
    ⟨hs, params, fields, params', fields', hk, hk', f, hf, hl, heq⟩ | ⟨h₁, h₂⟩ | ⟨h₁, h₂⟩
  · have hlt : constraint < parent := h.part_lt (hk ▸ List.mem_singleton_self constraint)
    exact ⟨⟨hc, Nat.lt_trans hlt hp⟩, fun _ => Nat.add_lt_add_left hlt child⟩
  · have hlt : up < child := h.parent_lt hup
    exact ⟨⟨Nat.lt_trans hlt hc, hp⟩, fun _ => Nat.add_lt_add_right hlt parent⟩
  · refine ⟨⟨?_, ?_⟩, fun hn => ?_⟩
    · exact h.field_lt hk (Assoc.mem_of_lookup hl)
    · rw [heq]
      exact h.field_lt hk' hf
    · rw [hs] at hn
      cases hn
  · have hlt₁ := h.part_lt h₁
    have hlt₂ := h.part_lt h₂
    refine ⟨⟨Nat.lt_trans hlt₁ hp, Nat.lt_trans hlt₂ hc⟩, fun _ => ?_⟩
    rw [Nat.add_comm child]
    exact Nat.add_lt_add hlt₁ hlt₂
  · have hlt₁ := h.part_lt h₁
    have hlt₂ := h.part_lt h₂
    exact ⟨⟨Nat.lt_trans hlt₁ hc, Nat.lt_trans hlt₂ hp⟩, fun _ => Nat.add_lt_add hlt₁ hlt₂⟩

/-- The goals of a pair that is not taken for granted leave less depth. -/
theorem Ordered.remainingDepth_lt (h : arena.Ordered) (hp : (child, parent) ∈ arena.pairs)
    (ha : ¬ arena.Assumed assumed child parent)
    (hg : arena.obligations child parent = some goals) {goal : TypeId × TypeId} (hmem : goal ∈ goals) :
    arena.remainingDepth (arena.assuming assumed child parent) goal.1 goal.2 <
      arena.remainingDepth assumed child parent := by
  obtain ⟨hgoal, hlower⟩ := h.goal_mem hp hg hmem
  rw [remainingDepth, remainingDepth, assuming]
  cases hs : arena.areStructs child parent with
  | false =>
    rw [if_neg Bool.false_ne_true]
    exact Nat.succ_lt_succ (Nat.add_lt_add_left (hlower hs) _)
  | true =>
    have hnew : (child, parent) ∉ assumed := fun hin => ha ⟨hs, hin⟩
    have hcard : (arena.pairs \ ((child, parent) :: assumed).toFinset).card <
        (arena.pairs \ assumed.toFinset).card := by
      refine Finset.card_lt_card (Finset.ssubset_iff_subset_ne.mpr ⟨?_, fun heq => ?_⟩)
      · rw [List.toFinset_cons]
        exact Finset.sdiff_subset_sdiff (Finset.Subset.refl _) (Finset.subset_insert _ _)
      · have hin : (child, parent) ∈ arena.pairs \ assumed.toFinset :=
          Finset.mem_sdiff.mpr ⟨hp, fun hin => hnew (List.mem_toFinset.mp hin)⟩
        rw [← heq, List.toFinset_cons, Finset.mem_sdiff] at hin
        exact hin.2 (Finset.mem_insert_self _ _)
    obtain ⟨h₁, h₂⟩ := mem_pairs.mp hgoal
    have harith : ∀ a b N s t : Nat, a < b → s < N + N →
        a * (2 * N + 1) + s + 1 < b * (2 * N + 1) + t + 1 := by
      intro a b N s t hab hs
      have hmul := Nat.mul_le_mul_right (2 * N + 1) (Nat.succ_le_of_lt hab)
      rw [Nat.succ_mul] at hmul
      omega
    rw [if_pos rfl]
    exact harith _ _ _ _ _ hcard (Nat.add_lt_add h₁ h₂)

/-- One step of the comparison with a bound, for the rules and the assumptions at once. -/
theorem isSubtypeWithin_succ (n : Nat) (hg : arena.obligations child parent = some goals)
    (ha : ¬ arena.Assumed assumed child parent) :
    arena.isSubtypeWithin (n + 1) assumed child parent =
      goals.all fun g => arena.isSubtypeWithin n (arena.assuming assumed child parent) g.1 g.2 := by
  rw [isSubtypeWithin, hg, assuming]
  cases hs : arena.areStructs child parent with
  | false => simp only [Bool.false_eq_true, if_false]
  | true =>
    have hnew : assumed.contains (child, parent) = false := by
      rw [← Bool.not_eq_true, List.contains_iff_mem]
      exact fun hin => ha ⟨hs, hin⟩
    simp only [if_true, hnew, Bool.false_or]

theorem isSubtypeWithin_of_assumed (n : Nat) (hg : arena.obligations child parent = some goals)
    (ha : arena.Assumed assumed child parent) :
    arena.isSubtypeWithin (n + 1) assumed child parent = true := by
  rw [isSubtypeWithin, hg]
  simp only [ha.1, if_true, List.contains_iff_mem.mpr ha.2, Bool.true_or]

/-- A list fails a test exactly if it has a first element that does. -/
theorem exists_first_of_all_eq_false {α : Type} {test : α → Bool} {l : List α}
    (h : l.all test = false) :
    ∃ before x after, l = before ++ x :: after ∧ (∀ y ∈ before, test y = true) ∧ test x = false := by
  induction l with
  | nil => cases h
  | cons x l ih =>
    cases hx : test x with
    | false => exact ⟨[], x, l, rfl, nofun, hx⟩
    | true =>
      rw [List.all_cons, hx, Bool.true_and] at h
      obtain ⟨before, y, after, rfl, hb, hy⟩ := ih h
      exact ⟨x :: before, y, after, rfl, List.forall_mem_cons.mpr ⟨hx, hb⟩, hy⟩

/-- With a bound of at least the remaining depth the comparison finds the answer. -/
theorem Ordered.compares_within (h : arena.Ordered) (n : Nat) :
    ∀ {assumed : List (TypeId × TypeId)} {child parent : TypeId}, (child, parent) ∈ arena.pairs →
      arena.remainingDepth assumed child parent ≤ n →
      arena.Compares assumed child parent (arena.isSubtypeWithin n assumed child parent) := by
  induction n with
  | zero => exact fun _ hle => absurd hle (Nat.not_succ_le_zero _)
  | succ n ih =>
    intro assumed child parent hp hle
    cases hg : arena.obligations child parent with
    | none =>
      rw [isSubtypeWithin, hg]
      exact .refused hg
    | some goals =>
      by_cases ha : arena.Assumed assumed child parent
      · rw [isSubtypeWithin_of_assumed n hg ha]
        exact .granted hg ha
      · have hgoals : ∀ g ∈ goals,
            arena.Compares (arena.assuming assumed child parent) g.1 g.2
              (arena.isSubtypeWithin n (arena.assuming assumed child parent) g.1 g.2) :=
          fun g hmem => ih (h.goal_mem hp hg hmem).1
            (Nat.le_of_lt_succ (Nat.lt_of_lt_of_le (h.remainingDepth_lt hp ha hg hmem) hle))
        rw [isSubtypeWithin_succ n hg ha]
        cases hall : goals.all fun g =>
            arena.isSubtypeWithin n (arena.assuming assumed child parent) g.1 g.2 with
        | true =>
          rw [List.all_eq_true] at hall
          exact .accepted hg ha fun g hmem => hall g hmem ▸ hgoals g hmem
        | false =>
          obtain ⟨before, goal, after, rfl, hb, hf⟩ := exists_first_of_all_eq_false hall
          refine .failed hg ha (fun g hmem => ?_) ?_
          · exact hb g hmem ▸ hgoals g (List.mem_append_left _ hmem)
          · exact hf ▸ hgoals goal (List.mem_append_right _ List.mem_cons_self)

/-- The comparison of two types of an ordered arena ends, and `isSubtype` is its answer. -/
theorem Ordered.compares_isSubtype (h : arena.Ordered) (hc : child < arena.size)
    (hp : parent < arena.size) : arena.Compares [] child parent (arena.isSubtype child parent) :=
  have hpair : (child, parent) ∈ arena.pairs := mem_pairs.mpr ⟨hc, hp⟩
  h.compares_within _ hpair (remainingDepth_nil_le hpair)

/-- In an ordered arena `isSubtype` decides the greatest relation that the rules admit. -/
theorem Ordered.isSubtype_iff_below (h : arena.Ordered) (hc : child < arena.size)
    (hp : parent < arena.size) : arena.isSubtype child parent = true ↔ arena.Below child parent := by
  have hcmp := h.compares_isSubtype hc hp
  exact ⟨fun heq => belowFrom_nil.mp (hcmp.belowFrom heq), fun hb => hcmp.eq_true_of_below hb⟩

/-- In a well-built arena every comparison ends with one answer, the one `isSubtype` gives. It is yes
exactly if the pair is in the greatest relation that the rules admit, that is, exactly if no pair without a
rule can be reached from it. -/
theorem isSubtype_decides_below (h : arena.WellBuilt) (hc : child < arena.size)
    (hp : parent < arena.size) :
    (∀ answer, arena.Compares [] child parent answer ↔ answer = arena.isSubtype child parent) ∧
      (arena.isSubtype child parent = true ↔ arena.Below child parent) ∧
      (arena.isSubtype child parent = true ↔
        ∀ goal, Relation.ReflTransGen arena.LeadsTo (child, parent) goal →
          arena.obligations goal.1 goal.2 ≠ none) := by
  have hcmp := h.ordered.compares_isSubtype hc hp
  have hbelow := h.ordered.isSubtype_iff_below hc hp
  refine ⟨fun answer => ⟨fun ha => ha.unique hcmp, ?_⟩, hbelow, hbelow.trans ?_⟩
  · rintro rfl
    exact hcmp
  · exact @below_iff_forall_reachable arena (child, parent)

/-- Two structs that each have a field of the other's type. -/
def mutualStructs : TypeArena :=
  (((TypeArena.initial.add ⟨"A", .struct [] [], some .any⟩).2.add
    ⟨"B", .struct [] [], some .any⟩).2.redefine 12
      ⟨"A", .struct [] [("next", 13)], some .any⟩).redefine 13
        ⟨"B", .struct [] [("next", 12)], some .any⟩

theorem mutualStructs_wellBuilt : mutualStructs.WellBuilt :=
  .redefine 13 _ (.redefine 12 _ (.add _ (.add _ .initial (by decide)) (by decide)) (by decide)
    (.struct "A" _ [] [] _) (by decide)) (by decide) (.struct "B" _ [] [] _) (by decide)

/-- Each of the two structs is below the other, and the comparison finds out. -/
theorem mutualStructs_below :
    mutualStructs.Compares [] 12 13 true ∧ mutualStructs.Below 12 13 := by
  have h := @isSubtype_decides_below mutualStructs 12 13 mutualStructs_wellBuilt (by decide)
    (by decide)
  have heq : mutualStructs.isSubtype 12 13 = true := by decide
  exact ⟨(h.1 true).mpr heq.symm, h.2.1.mp heq⟩

end DispatchLang.TypeArena
