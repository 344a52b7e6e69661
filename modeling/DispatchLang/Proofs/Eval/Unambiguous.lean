import DispatchLang.Proofs.Arena.Ancestry
import DispatchLang.Proofs.Eval.Methods
import DispatchLang.Proofs.Method.Exact
import DispatchLang.Proofs.Typing.Histories

/-!
# Built-in calls are never ambiguous

Signatures of built-in operators overlap: an integer is a number, and a string may be added to anything, on
either side. User-declared types may be put below any built-in type, so there is no list of all the types that
a call can be made with. What saves the tables is that every type has at most one parent. So the built-in types above
a type form a chain (`Canonical.comparable`), and two signatures that match one call can be compared at every position.

For a table that has, with any two signatures that can be compared like this, also their position-wise lower one
(`MeetClosed`), the signatures that match a call have a least one, and its method overrides all others. The
operators are such a table. In the tables of methods it is simpler: no two signatures of one name can be compared at
every position, so at most one method matches.

All this is about tables that a session begins with. They are not extended by any declaration: declared functions
are kept apart from operators and methods.

## Main results

* `Wins.of_meetClosed`: a call that some signature of such a table matches is won by a least one.
* `Session.builtin_unambiguous`: in all states, no call of an operator or a built-in method is ambiguous, and a string
  is concatenated with whatever is added to it.
-/

namespace DispatchLang

open TypeArena

variable {ι : Type} {arena : TypeArena} {args : List TypeId} {methods : List (Method ι)}

/-! ## What is above a type -/

namespace TypeArena

theorem mem_chain_or_mem_chain (n : Nat) {id x y : TypeId} (hx : x ∈ arena.chain n id) (hy : y ∈ arena.chain n id) :
    y ∈ arena.chain n x ∨ x ∈ arena.chain n y := by
  -- The chain of a type that is longer by one holds the shorter one.
  have hmono (n : Nat) (a b : TypeId) (h : b ∈ arena.chain n a) : b ∈ arena.chain (n + 1) a := by
    induction n generalizing a with
    | zero => cases h
    | succ n ih =>
      rw [chain] at h ⊢
      cases hup : (arena.get a).parent with
      | none => rwa [hup] at h
      | some up =>
        rw [hup] at h
        exact (List.mem_cons.mp h).elim (· ▸ List.mem_cons_self) fun h => List.mem_cons_of_mem _ (ih up h)
  induction n generalizing id with
  | zero => cases hx
  | succ n ih =>
    by_cases hidx : id = x
    · exact .inl (hidx ▸ hy)
    by_cases hidy : id = y
    · exact .inr (hidy ▸ hx)
    rw [chain] at hx hy
    cases hup : (arena.get id).parent with
    | none =>
      rw [hup] at hx
      exact absurd (List.mem_singleton.mp hx).symm hidx
    | some up =>
      rw [hup] at hx hy
      have hx := (List.mem_cons.mp hx).resolve_left fun heq => hidx heq.symm
      have hy := (List.mem_cons.mp hy).resolve_left fun heq => hidy heq.symm
      exact (ih hx hy).imp (hmono n x y) (hmono n y x)

/-- Built-in types are compared by name. -/
theorem Grown.nominal (h : arena.Grown) {p : TypeId} (hp : p < builtinTypes.length) :
    (arena.get p).kind.isNominal = true ∧ (arena.get p).kind.isVar = false ∧ arena.areAlike p p = false := by
  have hbuiltin : ∀ p < builtinTypes.length, (TypeArena.initial.get p).kind.isNominal = true ∧
      (TypeArena.initial.get p).kind.isVar = false ∧ TypeArena.initial.areAlike p p = false := by decide
  have hget := h.extension.get_eq hp
  rw [areAlike, hget]
  exact hbuiltin p hp

theorem Grown.below_of_mem_chain (h : arena.Grown) {n : Nat} {id p : TypeId} (hp : p < builtinTypes.length)
    (hmem : p ∈ arena.chain n id) : arena.Below id p :=
  h.indexed.toOrdered.below_of_plain n hmem (h.nominal hp).2.1 (h.nominal hp).2.2

/-- Of two built-in types above one type, one is above the other. -/
theorem Regular.comparable (h : arena.Regular) {id p q : TypeId} (hid : id < arena.size)
    (hp : p < builtinTypes.length) (hq : q < builtinTypes.length) (hidp : arena.isSubtype id p = true)
    (hidq : arena.isSubtype id q = true) :
    TypeArena.initial.isSubtype p q = true ∨ TypeArena.initial.isSubtype q p = true := by
  have hgrown : arena.Grown := ⟨h.indexed, h.extends_initial⟩
  have hi := h.indexed.toOrdered
  by_cases hpany : p = .any
  · exact .inr (hpany ▸ isSubtype_any q)
  by_cases hqany : q = .any
  · exact .inl (hqany ▸ isSubtype_any p)
  rw [hi.isSubtype_iff_below hid (hgrown.lt_size hp)] at hidp
  rw [hi.isSubtype_iff_below hid (hgrown.lt_size hq)] at hidq
  have hpmem := h.canonical.mem_chain_of_below (id + 1) (Nat.lt_succ_self id) hidp hpany (.inl (hgrown.nominal hp).1)
  have hqmem := h.canonical.mem_chain_of_below (id + 1) (Nat.lt_succ_self id) hidq hqany (.inl (hgrown.nominal hq).1)
  rw [← hgrown.isSubtype_eq hp hq, ← hgrown.isSubtype_eq hq hp, hi.isSubtype_iff_below (hgrown.lt_size hp)
    (hgrown.lt_size hq), hi.isSubtype_iff_below (hgrown.lt_size hq) (hgrown.lt_size hp)]
  exact (mem_chain_or_mem_chain _ hpmem hqmem).imp (hgrown.below_of_mem_chain hq) (hgrown.below_of_mem_chain hp)

end TypeArena

/-! ## Signatures that match one call -/

/-- Whether two signatures can be compared at every position. -/
def overlap : List TypeId → List TypeId → Bool
  | [], [] => true
  | p :: ps, q :: qs =>
    (TypeArena.initial.isSubtype p q || TypeArena.initial.isSubtype q p) && overlap ps qs
  | _, _ => false

/-- The lower one of two types that can be compared. -/
def lower (p q : TypeId) : TypeId := if TypeArena.initial.isSubtype p q then p else q

def BuiltinTypes (signature : List TypeId) : Prop := ∀ p ∈ signature, p < builtinTypes.length

theorem overlap_of_areSubtypes (h : arena.Regular) (ha : ∀ x ∈ args, x < arena.size) {ps qs : List TypeId}
    (hps : BuiltinTypes ps) (hqs : BuiltinTypes qs) (hp : arena.areSubtypes args ps = true)
    (hq : arena.areSubtypes args qs = true) : overlap ps qs = true := by
  rw [areSubtypes_iff] at hp hq
  induction hp generalizing qs with
  | nil =>
    cases hq
    rfl
  | cons hap _ ih =>
    cases hq with
    | cons haq hrest =>
      obtain ⟨ha, has⟩ := List.forall_mem_cons.mp ha
      obtain ⟨hp, hps⟩ := List.forall_mem_cons.mp hps
      obtain ⟨hq, hqs⟩ := List.forall_mem_cons.mp hqs
      rw [overlap, Bool.and_eq_true, Bool.or_eq_true]
      exact ⟨h.comparable ha hp hq hap haq, ih has hps hqs hrest⟩

/-- What is below two signatures is below their position-wise lower one. -/
theorem areSubtypes_lower {ps qs : List TypeId} (hp : arena.areSubtypes args ps = true)
    (hq : arena.areSubtypes args qs = true) : arena.areSubtypes args (List.zipWith lower ps qs) = true := by
  rw [areSubtypes_iff] at hp hq ⊢
  induction hp generalizing qs with
  | nil =>
    cases hq
    exact .nil
  | cons hap _ ih =>
    cases hq with
    | cons haq hrest =>
      refine .cons ?_ (ih hrest)
      rw [lower]
      split
      · exact hap
      · exact haq

theorem builtin_refl : ∀ p < builtinTypes.length, TypeArena.initial.isSubtype p p = true := by decide

theorem builtin_trans : ∀ p < builtinTypes.length, ∀ q < builtinTypes.length, ∀ r < builtinTypes.length,
    TypeArena.initial.isSubtype p q = true → TypeArena.initial.isSubtype q r = true →
      TypeArena.initial.isSubtype p r = true := by decide

theorem builtin_antisymm : ∀ p < builtinTypes.length, ∀ q < builtinTypes.length,
    TypeArena.initial.isSubtype p q = true → TypeArena.initial.isSubtype q p = true → p = q := by decide

/-- If two signatures can be compared at every position, both are above the position-wise lower one. -/
theorem lower_below {ps qs : List TypeId} (hps : BuiltinTypes ps) (hqs : BuiltinTypes qs)
    (h : overlap ps qs = true) : TypeArena.initial.areSubtypes (List.zipWith lower ps qs) ps = true ∧
      TypeArena.initial.areSubtypes (List.zipWith lower ps qs) qs = true := by
  induction ps generalizing qs with
  | nil =>
    cases qs with
    | nil => exact ⟨rfl, rfl⟩
    | cons q qs => cases h
  | cons p ps ih =>
    cases qs with
    | nil => cases h
    | cons q qs =>
      obtain ⟨hp, hps⟩ := List.forall_mem_cons.mp hps
      obtain ⟨hq, hqs⟩ := List.forall_mem_cons.mp hqs
      rw [overlap, Bool.and_eq_true, Bool.or_eq_true] at h
      obtain ⟨hleft, hright⟩ := ih hps hqs h.2
      rw [List.zipWith_cons_cons, areSubtypes, areSubtypes, hleft, hright, Bool.and_true, Bool.and_true, lower]
      by_cases hpq : TypeArena.initial.isSubtype p q = true
      · rw [if_pos hpq]
        exact ⟨builtin_refl p hp, hpq⟩
      · rw [if_neg hpq]
        exact ⟨h.1.resolve_left hpq, builtin_refl q hq⟩

theorem areSubtypes_trans_builtin {ps qs rs : List TypeId} (hps : BuiltinTypes ps) (hqs : BuiltinTypes qs)
    (hrs : BuiltinTypes rs) (h : TypeArena.initial.areSubtypes ps qs = true)
    (h' : TypeArena.initial.areSubtypes qs rs = true) : TypeArena.initial.areSubtypes ps rs = true := by
  rw [areSubtypes_iff] at h h' ⊢
  induction h generalizing rs with
  | nil =>
    cases h'
    exact .nil
  | cons hpq _ ih =>
    cases h' with
    | cons hqr hrest =>
      obtain ⟨hp, hps⟩ := List.forall_mem_cons.mp hps
      obtain ⟨hq, hqs⟩ := List.forall_mem_cons.mp hqs
      obtain ⟨hr, hrs⟩ := List.forall_mem_cons.mp hrs
      exact .cons (builtin_trans _ hp _ hq _ hr hpq hqr) (ih hps hqs hrs hrest)

theorem areSubtypes_antisymm_builtin {ps qs : List TypeId} (hps : BuiltinTypes ps) (hqs : BuiltinTypes qs)
    (h : TypeArena.initial.areSubtypes ps qs = true) (h' : TypeArena.initial.areSubtypes qs ps = true) : ps = qs := by
  rw [areSubtypes_iff] at h h'
  induction h with
  | nil => rfl
  | cons hpq _ ih =>
    cases h' with
    | cons hqp hrest =>
      obtain ⟨hp, hps⟩ := List.forall_mem_cons.mp hps
      obtain ⟨hq, hqs⟩ := List.forall_mem_cons.mp hqs
      rw [builtin_antisymm _ hp _ hq hpq hqp, ih hps hqs hrest]

/-! ## The least signature that matches -/

/-- With two signatures that can be compared at every position, a table has the position-wise lower one. -/
def MeetClosed (methods : List (Method ι)) : Prop :=
  ∀ m ∈ methods, ∀ m' ∈ methods, overlap m.signature m'.signature = true →
    ∃ m'' ∈ methods, m''.signature = List.zipWith lower m.signature m'.signature

instance (methods : List (Method ι)) : Decidable (MeetClosed methods) :=
  inferInstanceAs (Decidable (∀ m ∈ methods, ∀ m' ∈ methods, overlap m.signature m'.signature = true →
    ∃ m'' ∈ methods, m''.signature = List.zipWith lower m.signature m'.signature))

/-- The signatures that match a call have a least one. -/
theorem exists_least (h : arena.Regular) (ha : ∀ x ∈ args, x < arena.size) (hm : ∀ m ∈ methods, m.IsPlain)
    (hclosed : MeetClosed methods) {some : Method ι} (hsome : some ∈ methods)
    (hmatch : arena.areSubtypes args some.signature = true) :
    ∃ m ∈ methods, arena.areSubtypes args m.signature = true ∧
      ∀ m' ∈ methods, arena.areSubtypes args m'.signature = true →
        TypeArena.initial.areSubtypes m.signature m'.signature = true := by
  -- By induction over part of the table: a signature that matches is lower than all of that part that do.
  suffices hpart : ∀ part : List (Method ι), (∀ m ∈ part, m ∈ methods) →
      ∃ m ∈ methods, arena.areSubtypes args m.signature = true ∧
        ∀ m' ∈ part, arena.areSubtypes args m'.signature = true →
          TypeArena.initial.areSubtypes m.signature m'.signature = true from hpart methods fun _ hmem => hmem
  intro part
  induction part with
  | nil => exact fun _ => ⟨some, hsome, hmatch, nofun⟩
  | cons m' part ih =>
    intro hpart
    obtain ⟨hm', hpart⟩ := List.forall_mem_cons.mp hpart
    obtain ⟨m, hmem, hargs, hleast⟩ := ih hpart
    by_cases hargs' : arena.areSubtypes args m'.signature = true
    · have hover := overlap_of_areSubtypes h ha (hm m hmem) (hm m' hm') hargs hargs'
      obtain ⟨least, hmem', hsig⟩ := hclosed m hmem m' hm' hover
      obtain ⟨hbelow, hbelow'⟩ := lower_below (hm m hmem) (hm m' hm') hover
      rw [← hsig] at hbelow hbelow'
      refine ⟨least, hmem', hsig ▸ areSubtypes_lower hargs hargs', List.forall_mem_cons.mpr ⟨fun _ => hbelow', ?_⟩⟩
      intro other hother hargs''
      exact areSubtypes_trans_builtin (hm least hmem') (hm m hmem) (hm other (hpart other hother)) hbelow
        (hleast other hother hargs'')
    · exact ⟨m, hmem, hargs, List.forall_mem_cons.mpr ⟨fun hyes => absurd hyes hargs', hleast⟩⟩

/-- Of two signatures that match, the lower one overrides the other. -/
theorem overrides_of_lower (h : arena.Grown) {m m' : Method ι} (hm : m.IsPlain) (hm' : m'.IsPlain)
    (hne : m'.signature ≠ m.signature) (hbelow : TypeArena.initial.areSubtypes m.signature m'.signature = true)
    (bindings bindings' : Bindings) : Overrides arena (m, bindings) (m', bindings') = true := by
  have habove : TypeArena.initial.areSubtypes m'.signature m.signature = false :=
    Bool.eq_false_iff.mpr fun h' => hne (areSubtypes_antisymm_builtin hm' hm h' hbelow)
  rw [Overrides]
  dsimp only
  rw [h.instances_eq hm, h.instances_eq hm', Candidate.dominates]
  dsimp only
  rw [areSubtypes_plain h hm hm', areSubtypes_plain h hm' hm, hbelow, habove]
  rfl

/-- A call that some signature of such a table matches is won by the least one. -/
theorem Wins.of_meetClosed (h : arena.Regular) (ha : ∀ x ∈ args, x < arena.size) (hm : ∀ m ∈ methods, m.IsPlain)
    (hclosed : MeetClosed methods) {some : Method ι} (hsome : some ∈ methods)
    (hmatch : arena.areSubtypes args some.signature = true) :
    ∃ m bindings, Wins arena methods args m bindings ∧
      TypeArena.initial.areSubtypes m.signature some.signature = true := by
  have hgrown : arena.Grown := ⟨h.indexed, h.extends_initial⟩
  obtain ⟨m, hmem, hargs, hleast⟩ := exists_least h ha hm hclosed hsome hmatch
  refine ⟨m, [], ⟨hmem, ?_, fun m' hmem' hne bindings' hunifies => ?_⟩, hleast some hsome hmatch⟩
  · rw [hgrown.unifySignature?_eq (hm m hmem), if_pos hargs]
  · rw [hgrown.unifySignature?_eq (hm m' hmem')] at hunifies
    by_cases hargs' : arena.areSubtypes args m'.signature = true
    · exact overrides_of_lower hgrown (hm m hmem) (hm m' hmem') hne (hleast m' hmem' hargs') _ _
    · rw [if_neg hargs'] at hunifies
      cases hunifies

/-! ## Methods of arrays -/

section

open Session (freshArray freshElement freshArena)

/-- A type of a signature is a built-in one, or the type of arrays that the methods of arrays are declared for. -/
def IsParameter (p : TypeId) : Prop := p < builtinTypes.length ∨ p = freshArray

instance (p : TypeId) : Decidable (IsParameter p) := inferInstanceAs (Decidable (_ ∨ _))

variable (h : arena.Regular) (hfresh : arena.interned? (.applied .array [freshElement]) = some freshArray)
include h hfresh

/-- What a type of a signature matches is below its base type. -/
theorem isSubtype_of_unify? {p a : TypeId} (hp : IsParameter p) (ha : a < arena.size) {bindings bindings' : Bindings}
    (hu : arena.unify? bindings p a = some bindings') : arena.isSubtype a (baseType p) = true := by
  have hgrown : arena.Grown := ⟨h.indexed, h.extends_initial⟩
  have hi := h.indexed.toOrdered
  by_cases hlt : p < builtinTypes.length
  · rw [hgrown.unify?_eq hlt] at hu
    rw [baseType, if_pos hlt]
    by_contra hno
    rw [if_neg hno] at hu
    cases hu
  · obtain rfl := hp.resolve_left hlt
    obtain ⟨hsize, hkind, hparent⟩ := h.indexed.index hfresh
    have harray : TypeId.array < builtinTypes.length := by decide
    rw [baseType, if_neg hlt, hi.isSubtype_iff_below ha (hgrown.lt_size harray)]
    rw [unify?, hkind] at hu
    dsimp only at hu
    split at hu
    · obtain ⟨candidate, hmem, hcandidate⟩ := List.exists_of_findSome?_eq_some hu
      cases hk : (arena.get candidate).kind with
      | applied base params =>
        rw [hk] at hcandidate
        dsimp only at hcandidate
        split at hcandidate
        · next hbase =>
          -- Right above a type of arrays is the type of all arrays.
          have hup := h.canonical.parent_eq hk
          rw [← hbase] at hup
          exact hgrown.below_of_mem_chain harray (hi.parent_mem_chain _ (Nat.lt_succ_of_lt ha) hmem hup)
        · cases hcandidate
      | _ =>
        rw [hk] at hcandidate
        cases hcandidate
    · split at hu
      · next hsub =>
        have hb := (hi.isSubtype_iff_below ha hsize).mp hsub
        have hmem := h.canonical.mem_chain_of_below (arena.size + 1) (Nat.lt_succ_of_lt ha) hb
          (fun hany => hlt (hany ▸ by decide)) (.inr (by rw [hkind]; rfl))
        exact hgrown.below_of_mem_chain harray (hi.parent_mem_chain _ (Nat.lt_succ_of_lt ha) hmem hparent)
      · cases hu

theorem areSubtypes_of_unifySignature? {signature : List TypeId} (hs : ∀ p ∈ signature, IsParameter p)
    (ha : ∀ x ∈ args, x < arena.size) {bindings : Bindings}
    (hu : arena.unifySignature? signature args = some bindings) :
    arena.areSubtypes args (signature.map baseType) = true := by
  rw [unifySignature?] at hu
  generalize ([] : Bindings) = before at hu
  induction signature generalizing args before with
  | nil =>
    cases args with
    | nil => rfl
    | cons a args => cases hu
  | cons p signature ih =>
    cases args with
    | nil => cases hu
    | cons a args =>
      obtain ⟨hp, hs⟩ := List.forall_mem_cons.mp hs
      obtain ⟨ha, has⟩ := List.forall_mem_cons.mp ha
      rw [matchAll] at hu
      obtain ⟨between, hfirst, hrest⟩ := Option.bind_eq_some_iff.mp hu
      rw [List.map_cons, areSubtypes, Bool.and_eq_true]
      exact ⟨isSubtype_of_unify? h hfresh hp ha hfirst, ih hs has between hrest⟩

/-- If no two signatures can be compared at every position, a method that matches wins. -/
theorem Wins.of_apart (ha : ∀ x ∈ args, x < arena.size) (hm : ∀ m ∈ methods, ∀ p ∈ m.signature, IsParameter p)
    (hapart : ∀ m ∈ methods, ∀ m' ∈ methods, m'.signature ≠ m.signature →
      overlap (m.signature.map baseType) (m'.signature.map baseType) = false)
    {m : Method ι} {bindings : Bindings} (hmem : m ∈ methods)
    (hu : arena.unifySignature? m.signature args = some bindings) : Wins arena methods args m bindings := by
  refine ⟨hmem, hu, fun m' hmem' hne bindings' hu' => ?_⟩
  have hbuiltin (signature : List TypeId) : BuiltinTypes (signature.map baseType) :=
    List.forall_mem_map.mpr fun _ _ => baseType_lt
  have hover := overlap_of_areSubtypes h ha (hbuiltin _) (hbuiltin _)
    (areSubtypes_of_unifySignature? h hfresh (hm m hmem) ha hu)
    (areSubtypes_of_unifySignature? h hfresh (hm m' hmem') ha hu')
  rw [hapart m hmem m' hmem' hne] at hover
  cases hover

end

/-! ## No call is ambiguous -/

/-- A call that some method wins, if any matches, is not ambiguous; what it resolves to is a method that wins. -/
theorem choose_of_wins (h : Callable arena args methods) (name : String)
    (hw : ∀ m ∈ methods, arena.unifySignature? m.signature args ≠ none →
      ∃ m' bindings, Wins arena methods args m' bindings) :
    (choose name methods args arena).1 = .error (.noMethod name (arena.names args)) ∧
        (∀ m ∈ methods, arena.unifySignature? m.signature args = none) ∨
      ∃ r : Resolution ι, (choose name methods args arena).1 = .ok r ∧ Wins arena methods args r.method r.bindings := by
  generalize hresult : (choose name methods args arena).1 = result
  have hdecides := h.choose_decides name
  rw [hresult] at hdecides
  cases hdecides with
  | noMethod hnone => exact .inl ⟨rfl, hnone⟩
  | method r _ hwins => exact .inr ⟨r, rfl, hwins⟩
  | ambiguous hmatch hno =>
    obtain ⟨m, hmem, hne⟩ := hmatch
    obtain ⟨m', bindings, hwins⟩ := hw m hmem hne
    exact absurd hwins (hno m' bindings)

/-- A table of plain methods that has no signature twice, and the position-wise lower one of any two. -/
structure Orderly (methods : List (Method ι)) : Prop where
  plain : ∀ m ∈ methods, m.IsPlain
  distinct : methods.Pairwise fun m m' => m.signature ≠ m'.signature
  closed : MeetClosed methods

/-- A table of methods of which no two signatures can be compared at every position. -/
structure Apart (methods : List (Method ι)) : Prop where
  params : ∀ m ∈ methods, ∀ p ∈ m.signature, IsParameter p
  distinct : methods.Pairwise fun m m' => m.signature ≠ m'.signature
  apart : ∀ m ∈ methods, ∀ m' ∈ methods, m'.signature ≠ m.signature →
    overlap (m.signature.map baseType) (m'.signature.map baseType) = false

theorem operators_orderly : ∀ e ∈ Tables.build false Tables.operators, Orderly e.2.methods := by
  have h : ∀ e ∈ Tables.build false Tables.operators,
      (∀ m ∈ e.2.methods, ∀ p ∈ m.signature, p < builtinTypes.length) ∧
      (e.2.methods.Pairwise fun m m' => m.signature ≠ m'.signature) ∧ MeetClosed e.2.methods := by decide
  exact fun e he => ⟨(h e he).1, (h e he).2.1, (h e he).2.2⟩

/-- Methods of one name have signatures that cannot be compared. -/
theorem methods_apart : ∀ e ∈ Tables.build false (Tables.methods Session.freshElement Session.freshArray),
    Apart e.2.methods := by
  have h : ∀ e ∈ Tables.build false (Tables.methods Session.freshElement Session.freshArray),
      (∀ m ∈ e.2.methods, ∀ p ∈ m.signature, IsParameter p) ∧
      (e.2.methods.Pairwise fun m m' => m.signature ≠ m'.signature) ∧
      ∀ m ∈ e.2.methods, ∀ m' ∈ e.2.methods, m'.signature ≠ m.signature →
        overlap (m.signature.map baseType) (m'.signature.map baseType) = false := by decide
  exact fun e he => ⟨(h e he).1, (h e he).2.1, (h e he).2.2⟩

namespace GenericFunction

/-- Resolving a call of a function, with arguments of any types, never finds it to be ambiguous. -/
def Unambiguous (f : GenericFunction ι) (arena : TypeArena) : Prop :=
  ∀ args : List TypeId, (∀ x ∈ args, x < arena.size) → ∀ name shown candidates,
    (f.resolve args arena).result ≠ .error (.ambiguous name shown candidates)

variable {f : GenericFunction ι} (h : arena.Regular) (hf : f.Recalls arena)
include h hf

theorem unambiguous_of_wins (hdistinct : f.methods.Pairwise fun m m' => m.signature ≠ m'.signature)
    (hw : ∀ args : List TypeId, (∀ x ∈ args, x < arena.size) → ∀ m ∈ f.methods,
      arena.unifySignature? m.signature args ≠ none → ∃ m' bindings, Wins arena f.methods args m' bindings) :
    f.Unambiguous arena := by
  intro args ha name shown candidates hresult
  rw [(hf.resolve_eq_choose args).1] at hresult
  rcases choose_of_wins ⟨h.indexed, ha, hf.methods_in, hdistinct⟩ f.name (hw args ha) with ⟨heq, -⟩ | ⟨r, heq, -⟩
  · rw [heq] at hresult
    cases hresult
  · rw [heq] at hresult
    cases hresult

theorem unambiguous_of_orderly (ht : Orderly f.methods) : f.Unambiguous arena := by
  have hgrown : arena.Grown := ⟨h.indexed, h.extends_initial⟩
  refine unambiguous_of_wins h hf ht.distinct fun args ha m hmem hne => ?_
  rw [hgrown.unifySignature?_eq (ht.plain m hmem)] at hne
  have hmatch : arena.areSubtypes args m.signature = true := by
    by_contra hno
    exact hne (if_neg hno)
  obtain ⟨m', bindings, hwins, -⟩ := Wins.of_meetClosed h ha ht.plain ht.closed hmem hmatch
  exact ⟨m', bindings, hwins⟩

theorem unambiguous_of_apart
    (hfresh : arena.interned? (.applied .array [Session.freshElement]) = some Session.freshArray)
    (ht : Apart f.methods) : f.Unambiguous arena := by
  refine unambiguous_of_wins h hf ht.distinct fun args ha m hmem hne => ?_
  obtain ⟨bindings, hu⟩ := Option.ne_none_iff_exists'.mp hne
  exact ⟨m, bindings, .of_apart h hfresh ha ht.params ht.apart hmem hu⟩

/-- What a call of such a function resolves to has a signature that is below every one that matches. -/
theorem resolve_of_orderly (ht : Orderly f.methods) {args : List TypeId} (ha : ∀ x ∈ args, x < arena.size)
    {m : Method ι} (hmem : m ∈ f.methods) (hmatch : arena.areSubtypes args m.signature = true) :
    ∃ r : Resolution ι, (f.resolve args arena).result = .ok r ∧ r.method ∈ f.methods ∧
      TypeArena.initial.areSubtypes r.method.signature m.signature = true := by
  have hcall : Callable arena args f.methods := ⟨h.indexed, ha, hf.methods_in, ht.distinct⟩
  obtain ⟨m', bindings, hwins, hbelow⟩ := Wins.of_meetClosed h ha ht.plain ht.closed hmem hmatch
  rw [(hf.resolve_eq_choose args).1]
  rcases choose_of_wins hcall f.name fun _ _ _ => ⟨m', bindings, hwins⟩ with ⟨-, hnone⟩ | ⟨r, heq, hr⟩
  · have hunifies := hwins.unifies
    rw [hnone m' hwins.mem] at hunifies
    cases hunifies
  · obtain ⟨hmethod, -⟩ := hr.unique hcall hwins
    exact ⟨r, heq, hmethod ▸ hwins.mem, hmethod ▸ hbelow⟩

end GenericFunction

/-! ## In all states -/

namespace FunctionTable

/-- A table that only differs from the built-in one in what it remembers has its functions. -/
theorem exists_lookup {table : FunctionTable ι} {entries : List (TableEntry ι)}
    (h : table.plain = plain (Tables.build false entries)) {name : String}
    (hname : ((Tables.build false entries).lookup name).isSome = true) :
    ∃ f, table.lookup name = some f ∧ ∃ e ∈ Tables.build false entries, e.1 = name ∧ f.methods = e.2.methods := by
  obtain ⟨g, hg⟩ := Option.isSome_iff_exists.mp hname
  have hlookup := plain_lookup table name
  rw [h, plain_lookup, hg] at hlookup
  obtain ⟨f, hf, heq⟩ := Option.map_eq_some_iff.mp hlookup.symm
  exact ⟨f, hf, (name, g), Assoc.mem_of_lookup hg, rfl, (congrArg (·.methods) heq : f.forgetful.methods = g.forgetful.methods)⟩

end FunctionTable

namespace Session

variable {t s : Session} {d : Dispatcher}

def evaluated (depth : Nat) (node : Node) (scope : ScopeId) (t : Session) : Session :=
  match Eval.eval .dispatch depth node scope t with
  | .ok _ s => s
  | .error _ s => s

/-- What a session goes through: it may be stopped before any node that it is about to evaluate, and it may also be
looked at after a node has been evaluated, as it is when an operator or a method is applied to operands. -/
inductive GoesThrough (t : Session) : Session → Prop where
  | before {s : Session} (h : t.LeadsTo s) : GoesThrough t s
  | after {s : Session} (h : GoesThrough t s) (depth : Nat) (node : Node) (scope : ScopeId) :
      GoesThrough t (s.evaluated depth node scope)

theorem Like.after (h : t.Like d) (depth : Nat) (node : Node) (scope : ScopeId) :
    ∃ d', (t.evaluated depth node scope).Like d' := by
  have heval := eval_transparent depth node scope t d h
  rw [Session.evaluated]
  generalize Eval.eval .dispatch depth node scope t = r, Eval.eval .dispatch depth node scope (t.equip d) = r' at heval
  cases heval with
  | given hl _ _ => exact ⟨_, hl⟩
  | halted hl _ => exact ⟨_, hl⟩

theorem GoesThrough.formed (h : t.GoesThrough s) (hl : t.Like d) : ∃ d', s.Like d' := by
  induction h with
  | before h => exact (h.formed hl).imp fun _ h => h.1
  | after _ depth node scope ih =>
    obtain ⟨d', hl'⟩ := ih
    exact hl'.after depth node scope

/-- The methods for sums of a string and anything: whatever is below one of their signatures concatenates. -/
theorem plus_concat : ∀ e ∈ Tables.build false Tables.operators, e.1 = "+" →
    (∃ m ∈ e.2.methods, m.signature = [.string, .any]) ∧ (∃ m ∈ e.2.methods, m.signature = [.any, .string]) ∧
    ∀ m ∈ e.2.methods, TypeArena.initial.areSubtypes m.signature [.string, .any] = true ∨
      TypeArena.initial.areSubtypes m.signature [.any, .string] = true → m.implementation = .concat := by
  decide

/-- In all states that a session goes through, a built-in operator or method is there and calling it is never
ambiguous, whatever the types of the arguments are; and a sum with a string is a concatenation. -/
theorem builtin_unambiguous {options : Options} (h : (fresh .dispatch options).GoesThrough t) :
    (∀ e ∈ Tables.operators, ∃ f, t.operators.lookup e.name = some f ∧ f.Unambiguous t.arena) ∧
    (∀ e ∈ Tables.methods freshElement freshArray,
      ∃ f, t.methods.lookup e.name = some f ∧ f.Unambiguous t.arena) ∧
    ∃ f, t.operators.lookup "+" = some f ∧ ∀ left < t.arena.size, ∀ right < t.arena.size,
      t.arena.isSubtype left .string = true ∨ t.arena.isSubtype right .string = true →
        ∃ r, (f.resolve [left, right] t.arena).result = .ok r ∧ r.method.implementation = .concat := by
  obtain ⟨d, hl⟩ := h.formed (fresh_like options.assignment options.cache options.cache)
  have hregular := hl.formed.regular
  have hnamed : ∀ e ∈ Tables.operators, ((Tables.build false Tables.operators).lookup e.name).isSome = true := by
    decide
  have hnamed' : ∀ e ∈ Tables.methods freshElement freshArray,
      ((Tables.build false (Tables.methods freshElement freshArray)).lookup e.name).isSome = true := by decide
  refine ⟨fun e he => ?_, fun e he => ?_, ?_⟩
  · obtain ⟨f, hf, g, hg, -, hmethods⟩ := FunctionTable.exists_lookup hl.complete.operators (hnamed e he)
    refine ⟨f, hf, GenericFunction.unambiguous_of_orderly hregular (hl.own.operators _ (Assoc.mem_of_lookup hf)) ?_⟩
    exact hmethods ▸ operators_orderly g hg
  · obtain ⟨f, hf, g, hg, -, hmethods⟩ := FunctionTable.exists_lookup hl.complete.methods (hnamed' e he)
    refine ⟨f, hf, GenericFunction.unambiguous_of_apart hregular (hl.own.methods _ (Assoc.mem_of_lookup hf))
      hl.formed.elements ?_⟩
    exact hmethods ▸ methods_apart g hg
  · obtain ⟨f, hf, g, hg, hname, hmethods⟩ := FunctionTable.exists_lookup hl.complete.operators
      (show ((Tables.build false Tables.operators).lookup "+").isSome = true by decide)
    have horderly : Orderly f.methods := hmethods ▸ operators_orderly g hg
    obtain ⟨⟨first, hfirst, hfirstsig⟩, ⟨second, hsecond, hsecondsig⟩, hconcat⟩ := plus_concat g hg hname
    rw [← hmethods] at hfirst hsecond hconcat
    have hrecalls := hl.own.operators _ (Assoc.mem_of_lookup hf)
    refine ⟨f, hf, fun left hleft right hright hstring => ?_⟩
    have hargs : ∀ x ∈ [left, right], x < t.arena.size := by simp [hleft, hright]
    rcases hstring with hstring | hstring
    · obtain ⟨r, hr, hmem, hbelow⟩ := GenericFunction.resolve_of_orderly hregular hrecalls horderly hargs hfirst
        (by simp [hfirstsig, areSubtypes, hstring, isSubtype_any])
      exact ⟨r, hr, hconcat r.method hmem (.inl (hfirstsig ▸ hbelow))⟩
    · obtain ⟨r, hr, hmem, hbelow⟩ := GenericFunction.resolve_of_orderly hregular hrecalls horderly hargs hsecond
        (by simp [hsecondsig, areSubtypes, hstring, isSubtype_any])
      exact ⟨r, hr, hconcat r.method hmem (.inr (hsecondsig ▸ hbelow))⟩

/-- Types below built-in ones, also below one of arrays. -/
def namedQuantities : String := "type Meters <: Int; type Label <: String; type Lengths <: Array[Meters]"

/-- A label may be added to a length on either side, and labels and lists of lengths may be asked what they contain. -/
theorem namedQuantities_unambiguous :
    let t := ((fresh .dispatch .standard).feed .dispatch namedQuantities).2
    (t.arena.isSubtype 14 .int = true ∧ t.arena.isSubtype 15 .string = true ∧ t.arena.isSubtype 17 .array = true) ∧
    (∃ f, t.methods.lookup "contains" = some f ∧ f.Unambiguous t.arena) ∧
    ∃ f, t.operators.lookup "+" = some f ∧
      (∃ r, (f.resolve [15, 14] t.arena).result = .ok r ∧ r.method.implementation = .concat) ∧
      ∃ r, (f.resolve [14, 15] t.arena).result = .ok r ∧ r.method.implementation = .concat := by
  have hsize : ((fresh .dispatch .standard).feed .dispatch namedQuantities).2.arena.size = 18 := by decide +kernel
  have hlabel : ((fresh .dispatch .standard).feed .dispatch namedQuantities).2.arena.isSubtype 15 .string = true := by
    decide +kernel
  obtain ⟨-, hmethods, f, hf, hplus⟩ := builtin_unambiguous
    (show (fresh .dispatch .standard).GoesThrough _ from .before (.fed .refl namedQuantities))
  refine ⟨⟨by decide +kernel, hlabel, by decide +kernel⟩, ?_, f, hf, ?_, ?_⟩
  · exact hmethods ⟨"contains", [], [.string, .string], .primitive .stringContains⟩ (by simp [Tables.methods])
  · exact hplus 15 (by rw [hsize]; decide) 14 (by rw [hsize]; decide) (.inl hlabel)
  · exact hplus 14 (by rw [hsize]; decide) 15 (by rw [hsize]; decide) (.inr hlabel)

end Session

end DispatchLang
