import DispatchLang.Proofs.Arena.Ancestry
import DispatchLang.Proofs.Method.Exact

/-!
# Two constraints for one parameter

A function has two methods with one parameter each, a type variable, and the constraint of one is below that of the other.
Called with something below both constraints, both methods match, and both signatures become the type of the argument. So
it is left to the declared signatures to say which method is the more specific one: each is matched against the other. But
a type variable on the left of a comparison stands for any type, not for one below its constraint. So the variable with the
tighter constraint matches the one with the looser constraint only if that puts no limit on types at all: if it is the
type above all others, or a type variable that the same is true of, or that has the first variable for its constraint.

The method with the tighter constraint is chosen if it is the only one that matches, or if the looser constraint puts no
limit on types and the tighter one does. Otherwise the call is ambiguous.

## Main definitions

* `TypeArena.Unlimited`: every type variable of a kind is below a constraint, whatever its own constraint is.

## Main results

* `GenericFunction.resolve_constrained`: which of two such methods is chosen.
* `GenericFunction.integers_or_numbers`: for a call with an integer, neither that for integers nor that for numbers.
-/

namespace DispatchLang

open TypeArena

variable {ι : Type} {arena : TypeArena} {t u a c constraint constraint' : TypeId}

namespace TypeArena

/-! ## Constraints of constraints -/

/-- `bounds` with a limit on their number. -/
def boundsWithin (arena : TypeArena) : Nat → TypeId → List TypeId
  | 0, _ => []
  | n + 1, id =>
    id :: match (arena.get id).kind with
      | .var constraint => arena.boundsWithin n constraint
      | _ => []

/-- A type, its constraint if it is a type variable, the constraint of that if it is one, and so on. -/
def bounds (arena : TypeArena) (id : TypeId) : List TypeId := arena.boundsWithin (arena.size + 1) id

/-- A constraint does not keep a type variable out: it is the variable itself or the type above all others, or it is a
type variable with such a constraint. -/
def Unlimited (arena : TypeArena) (t constraint : TypeId) : Prop :=
  t ∈ arena.bounds constraint ∨ .any ∈ arena.bounds constraint

theorem Regular.below_var_iff (h : arena.Regular) (n : Nat) (hc : c < n) (hk : (arena.get t).kind = .var constraint) :
    arena.Below t c ↔ t ∈ arena.boundsWithin n c ∨ .any ∈ arena.boundsWithin n c := by
  induction n generalizing c with
  | zero => exact absurd hc (Nat.not_lt_zero c)
  | succ n ih =>
    have hi := h.indexed.toOrdered
    have hany : t ≠ .any := hi.ne_any_of_var hk
    rw [boundsWithin, List.mem_cons, List.mem_cons]
    by_cases htc : t = c
    · exact iff_of_true (htc ▸ .refl t) (.inl (.inl htc))
    by_cases hca : c = .any
    · exact iff_of_true (below_of_admits (.inr (.inl hca))) (.inr (.inl hca.symm))
    rw [or_iff_right htc, or_iff_right (Ne.symm hca)]
    cases hkc : (arena.get c).kind with
    | var constraint' =>
      have hlt : constraint' < c := hi.part_lt (hkc ▸ List.mem_singleton_self _)
      rw [below_iff_admits, admits_var_iff hkc htc hca, and_iff_right hany]
      exact ih (Nat.lt_of_lt_of_le hlt (Nat.le_of_lt_succ hc))
    | _ =>
      -- The variable has no parts and no parent to go on with.
      refine iff_of_false (fun hb => ?_) (by simp)
      have hvar : (arena.get c).kind.isVar = false := by rw [hkc]; rfl
      rcases ((admits_iff_of_not_var hvar htc hca).mp hb.admits).2 with ⟨hp, -⟩ | ⟨-, up, hup, -⟩
      · have hnot := hp.hasParts.2
        rw [hk] at hnot
        cases hnot
      · rw [h.parent_var hk] at hup
        cases hup

theorem Regular.isSubtype_var_iff (h : arena.Regular) (ht : t < arena.size) (hc : c < arena.size)
    (hk : (arena.get t).kind = .var constraint) : arena.isSubtype t c = true ↔ arena.Unlimited t c := by
  rw [h.indexed.toOrdered.isSubtype_iff_below ht hc]
  exact h.below_var_iff _ (Nat.lt_succ_of_lt hc) hk

/-- A constraint that does not keep a type variable out is above the constraint of the variable, unless that is the type
above all others. -/
theorem below_of_unlimited (n : Nat) (hk : (arena.get t).kind = .var constraint)
    (hne : constraint ≠ .any) (hu : t ∈ arena.boundsWithin n c ∨ .any ∈ arena.boundsWithin n c) :
    arena.Below constraint c := by
  induction n generalizing c with
  | zero => rcases hu with hu | hu <;> cases hu
  | succ n ih =>
    by_cases heq : constraint = c
    · exact heq ▸ .refl constraint
    by_cases hca : c = .any
    · exact below_of_admits (.inr (.inl hca))
    rw [boundsWithin, List.mem_cons, List.mem_cons, or_iff_right (Ne.symm hca)] at hu
    by_cases htc : t = c
    · subst htc
      exact below_of_admits ((admits_var_iff hk heq hca).mpr ⟨hne, .refl constraint⟩)
    · rw [or_iff_right htc] at hu
      cases hkc : (arena.get c).kind with
      | var constraint' =>
        rw [hkc] at hu
        exact below_of_admits ((admits_var_iff hkc heq hca).mpr ⟨hne, ih hu⟩)
      | _ =>
        rw [hkc] at hu
        rcases hu with hu | hu <;> cases hu

/-- A type variable matches what is below its constraint. -/
theorem unifySignature?_var (hk : (arena.get t).kind = .var constraint) :
    arena.unifySignature? [t] [a] = if arena.isSubtype a constraint then some [(arena.name t, a)] else none := by
  rw [unifySignature?, matchAll, unify?, hk]
  dsimp only
  rw [bind?, List.lookup_nil]
  cases arena.isSubtype a constraint <;> rfl

/-- In a call a type variable becomes the type of its argument. -/
theorem instances_var (hk : (arena.get t).kind = .var constraint) :
    instances [(arena.name t, a)] [t] arena = ([a], arena) := by
  rw [instances, mapTypes, substitute, substituteWithin, hk]
  dsimp only
  rw [List.lookup_cons_self, Option.getD_some]
  rfl

end TypeArena

/-! ## Which of the two methods is chosen -/

/-- A method for a type variable overrides another one if its variable is below the constraint of the other, and not the
other way round. -/
theorem overrides_var {m m' : Method ι} (h : arena.Ordered) (ha : a < arena.size)
    (hk : (arena.get t).kind = .var constraint) (hk' : (arena.get u).kind = .var constraint') (hm : m.signature = [t])
    (hm' : m'.signature = [u]) :
    Overrides arena (m, [(arena.name t, a)]) (m', [(arena.name u, a)]) =
      (arena.isSubtype t constraint' && !arena.isSubtype u constraint) := by
  have hrefl : arena.areSubtypes [a] [a] = true :=
    h.areSubtypes_refl fun x hx => List.mem_singleton.mp hx ▸ ha
  rw [Overrides]
  dsimp only [Candidate.dominates]
  rw [hm, hm', instances_var hk]
  dsimp only
  rw [instances_var hk', hrefl, unifySignature?_var hk, unifySignature?_var hk']
  cases arena.isSubtype t constraint' <;> cases arena.isSubtype u constraint <;> rfl

namespace GenericFunction

variable {f : GenericFunction ι} {m m' : Method ι} {tight loose : TypeId}

/-- Variables with different constraints are different. -/
theorem signature_ne_constrained (h : arena.Regular) (hu : u < arena.size) (hkt : (arena.get t).kind = .var tight)
    (hku : (arena.get u).kind = .var loose) (hnot : arena.isSubtype loose tight = false) (hm : m.signature = [t])
    (hm' : m'.signature = [u]) : m.signature ≠ m'.signature := by
  have hi := h.indexed.toOrdered
  have hloose : loose < arena.size := Nat.lt_trans (hi.part_lt (hku ▸ List.mem_singleton_self _)) hu
  rw [hm, hm']
  intro heq
  rw [(List.cons.inj heq).1, hku] at hkt
  cases hkt
  rw [(hi.isSubtype_iff_below hloose hloose).mpr (.refl _)] at hnot
  cases hnot

/-- The method for the tighter constraint wins if the other one does not match, or if only the looser constraint puts no
limit on type variables; and the other one never does. -/
theorem wins_constrained (h : arena.Regular) (ht : t < arena.size) (hu : u < arena.size) (ha : a < arena.size)
    (hkt : (arena.get t).kind = .var tight) (hku : (arena.get u).kind = .var loose)
    (hnot : arena.isSubtype loose tight = false) (hat : arena.isSubtype a tight = true)
    (hm : m.signature = [t]) (hm' : m'.signature = [u]) {methods : List (Method ι)}
    (hmethods : methods = [m, m'] ∨ methods = [m', m]) :
    (Wins arena methods [a] m [(arena.name t, a)] ↔
      arena.isSubtype a loose = false ∨ arena.Unlimited t loose ∧ ¬arena.Unlimited u tight) ∧
    ∀ bindings, ¬Wins arena methods [a] m' bindings := by
  have hi := h.indexed.toOrdered
  have htight : tight < arena.size := Nat.lt_trans (hi.part_lt (hkt ▸ List.mem_singleton_self _)) ht
  have hloose : loose < arena.size := Nat.lt_trans (hi.part_lt (hku ▸ List.mem_singleton_self _)) hu
  have hover := @overrides_var ι arena t u a tight loose m m' hi ha hkt hku hm hm'
  have hover' := @overrides_var ι arena u t a loose tight m' m hi ha hku hkt hm' hm
  have htu := h.isSubtype_var_iff ht hloose hkt
  have hut := h.isSubtype_var_iff hu htight hku
  have hmatch : arena.unifySignature? m.signature [a] = some [(arena.name t, a)] := by
    rw [hm, unifySignature?_var hkt, if_pos hat]
  have hmatch' (bindings : Bindings) : arena.unifySignature? m'.signature [a] = some bindings ↔
      arena.isSubtype a loose = true ∧ [(arena.name u, a)] = bindings := by
    rw [hm', unifySignature?_var hku]
    cases arena.isSubtype a loose <;> simp
  have hne := signature_ne_constrained h hu hkt hku hnot hm hm'
  have hmem : m ∈ methods ∧ m' ∈ methods ∧ ∀ x ∈ methods, x = m ∨ x = m' := by
    rcases hmethods with rfl | rfl <;> simp [or_comm]
  refine ⟨⟨fun hw => ?_, fun hchosen => ⟨hmem.1, hmatch, fun x hx hs bindings hb => ?_⟩⟩, fun bindings hw => ?_⟩
  · cases hal : arena.isSubtype a loose with
    | false => exact .inl rfl
    | true =>
      have hw := hw.overrides m' hmem.2.1 hne.symm _ ((hmatch' _).mpr ⟨hal, rfl⟩)
      rw [hover, Bool.and_eq_true, Bool.not_eq_true', ← Bool.not_eq_true, htu, hut] at hw
      exact .inr hw
  · rcases hmem.2.2 x hx with rfl | rfl
    · exact absurd rfl hs
    · obtain ⟨hal, rfl⟩ := (hmatch' _).mp hb
      rw [hover, Bool.and_eq_true, Bool.not_eq_true', ← Bool.not_eq_true, htu, hut]
      exact hchosen.resolve_left fun hfalse => Bool.eq_false_iff.mp hfalse hal
  · obtain ⟨-, rfl⟩ := (hmatch' _).mp hw.unifies
    have hw := hw.overrides m hmem.1 hne _ hmatch
    rw [hover', Bool.and_eq_true, Bool.not_eq_true', ← Bool.not_eq_true, htu, hut] at hw
    -- A variable that the tighter constraint does not keep out has a constraint below it, or none at all.
    by_cases hany : loose = .any
    · refine hw.2 (.inr ?_)
      rw [bounds, boundsWithin, hany]
      exact List.mem_cons_self
    · have hbelow := below_of_unlimited _ hku hany hw.1
      rw [← hi.isSubtype_iff_below hloose htight, hnot] at hbelow
      cases hbelow

theorem callable_constrained (h : arena.Regular) (ht : t < arena.size) (hu : u < arena.size) (ha : a < arena.size)
    (hkt : (arena.get t).kind = .var tight) (hku : (arena.get u).kind = .var loose)
    (hnot : arena.isSubtype loose tight = false) (hm : m.signature = [t]) (hm' : m'.signature = [u])
    {methods : List (Method ι)} (hmethods : methods = [m, m'] ∨ methods = [m', m]) : Callable arena [a] methods where
  indexed := h.indexed
  args_lt x hx := List.mem_singleton.mp hx ▸ ha
  methods_in x hx := by
    have hx : x = m ∨ x = m' := by rcases hmethods with rfl | rfl <;> simp_all [or_comm]
    rcases hx with rfl | rfl <;> unfold Method.In
    · rw [hm]
      exact List.forall_mem_singleton.mpr ht
    · rw [hm']
      exact List.forall_mem_singleton.mpr hu
  distinct := by
    have hne := signature_ne_constrained h hu hkt hku hnot hm hm'
    rcases hmethods with rfl | rfl
    · exact List.pairwise_pair.mpr hne
    · exact List.pairwise_pair.mpr hne.symm

/-- A function has a method for each of two type variables, in any order, and the constraint of the first, which is above
the argument, is not above that of the second. The first method is chosen if the second does not match, or if only the
second constraint puts no limit on type variables. Otherwise the call is ambiguous. -/
theorem resolve_constrained (h : arena.Regular) (ht : t < arena.size) (hu : u < arena.size) (ha : a < arena.size)
    (hkt : (arena.get t).kind = .var tight) (hku : (arena.get u).kind = .var loose)
    (hnot : arena.isSubtype loose tight = false) (hat : arena.isSubtype a tight = true)
    (hm : m.signature = [t]) (hm' : m'.signature = [u]) (hmethods : f.methods = [m, m'] ∨ f.methods = [m', m])
    (hf : f.Trusts [a] arena) :
    ((∃ r, (f.resolve [a] arena).result = .ok r ∧ r.method = m ∧ r.bindings = [(arena.name t, a)]) ↔
      arena.isSubtype a loose = false ∨ arena.Unlimited t loose ∧ ¬arena.Unlimited u tight) ∧
    (¬(arena.isSubtype a loose = false ∨ arena.Unlimited t loose ∧ ¬arena.Unlimited u tight) →
      ∃ named, (f.resolve [a] arena).result = .error (.ambiguous f.name (arena.names [a]) named)) := by
  obtain ⟨hwins, hnever⟩ := wins_constrained h ht hu ha hkt hku hnot hat hm hm' hmethods
  have hmem : ∀ x ∈ f.methods, x = m ∨ x = m' := by rcases hmethods with heq | heq <;> simp [heq, or_comm]
  have hdec := (callable_constrained h ht hu ha hkt hku hnot hm hm' hmethods).choose_decides f.name
  rw [← hwins, hf.result_eq]
  generalize (choose f.name f.methods [a] arena).1 = result at hdec
  cases hdec with
  | noMethod hno =>
    have hnone : arena.unifySignature? m.signature [a] = none :=
      hno m (by rcases hmethods with heq | heq <;> simp [heq])
    rw [hm, unifySignature?_var hkt, if_pos hat] at hnone
    cases hnone
  | ambiguous _ hno => exact ⟨iff_of_false (fun ⟨r, hr, _⟩ => nomatch hr) (hno m _), fun _ => ⟨_, rfl⟩⟩
  | method r hr hw =>
    rcases hmem _ hw.mem with hsame | hsame
    · have hb := hw.unifies
      rw [hsame, hm, unifySignature?_var hkt, if_pos hat, Option.some_inj] at hb
      rw [hsame, ← hb] at hw
      exact ⟨iff_of_true ⟨r, rfl, hsame, hb.symm⟩ hw, fun hnot => absurd hw hnot⟩
    · rw [hsame] at hw
      exact absurd hw (hnever _)

/-! ### Integers, numbers and anything -/

/-- Type variables for integers, for numbers and for anything. -/
def limits : TypeArena :=
  (((TypeArena.initial.var "T" .int).2.var "U" .number).2.var "V" .any).2

theorem limits_regular : limits.Regular :=
  .var _ _ (.var _ _ (.var _ _ .initial (by decide)) (by decide)) (by decide)

/-- A function with a method for each of two types. -/
def between (first second : TypeId) : GenericFunction String :=
  ⟨"f", [⟨[first], [first], "first"⟩, ⟨[second], [second], "second"⟩], [], false⟩

/-- Of methods for integers and for anything, in this order or in the other one, that for integers is chosen. -/
theorem integers_or_anything :
    (∃ r, ((between 12 14).resolve [TypeId.int] limits).result = .ok r ∧ r.method = ⟨[12], [12], "first"⟩ ∧
      r.bindings = [("T", .int)]) ∧
    ∃ r, ((between 14 12).resolve [TypeId.int] limits).result = .ok r ∧ r.method = ⟨[12], [12], "second"⟩ ∧
      r.bindings = [("T", .int)] := by
  have hunlimited : limits.Unlimited 12 .any ∧ ¬limits.Unlimited 14 .int := by
    unfold Unlimited
    decide
  have hnot : limits.isSubtype .any .int = false := by decide
  have hsub : limits.isSubtype .int .int = true := by decide
  have hlt : 12 < limits.size ∧ 14 < limits.size ∧ TypeId.int < limits.size := by decide
  exact ⟨(resolve_constrained limits_regular hlt.1 hlt.2.1 hlt.2.2 rfl rfl hnot hsub rfl rfl (.inl rfl) (.inl rfl)).1.mpr
      (.inr hunlimited),
    (resolve_constrained limits_regular hlt.1 hlt.2.1 hlt.2.2 rfl rfl hnot hsub rfl rfl (.inr rfl) (.inl rfl)).1.mpr
      (.inr hunlimited)⟩

/-- Of methods for integers and for numbers, called with an integer, none is chosen. -/
theorem integers_or_numbers :
    limits.Regular ∧ limits.isSubtype .int .number = true ∧ limits.isSubtype .number .int = false ∧
      ((between 12 13).resolve [TypeId.int] limits).result.isOk = false ∧
      ((between 13 12).resolve [TypeId.int] limits).result.isOk = false :=
  ⟨limits_regular, by decide, by decide, by decide, by decide⟩

end GenericFunction

end DispatchLang
