import DispatchLang.Proofs.Arena.Regular

/-!
# What matching asks of type variables

Matching works on the bindings as it goes, from left to right. To say what it accepts, it is taken apart
into two steps. The first one compares the types and lists what it asks of the type variables that it
meets, without looking at any bindings: `demands` for one parameter, `demandsExactly` inside the arguments
of applied types, and `pairwise` for lists. The second step, `meet`, binds the variables one demand after
the other. That the two steps together are matching is `unifySignature?_eq_meet`.

The demands that are listed name exactly the variables that occur in the types of the signature
(`occurs_of_demands`, `exists_mem_demands`), and a list of demands can be met exactly if one assignment
meets each of them (`meet_sound`, `exists_meet`).

An applied parameter that mentions variables is matched against the first applied type of its base among
the argument and what is above it that it matches. In a regular arena there is at most one such type, and
that is the one the demands are about (`findSome?_instance`).

## Main results

* `Canonical.unifySignature?_eq_meet`: matching a signature meets the demands of its parameters in turn.
* `meet_isMet`, `meet_sound`, `exists_meet`: what comes out of meeting demands, and when they can be met.
* `Canonical.unifySignature?_sound`: what a name is bound to is below the constraint of a variable of that
  name in the signature.
-/

namespace DispatchLang.TypeArena

variable {arena : TypeArena} {bindings bindings' assignment : Bindings} {param arg id : TypeId}
  {params args signature : List TypeId}

/-! ## Types that occur in a type -/

/-- `constituents` with a bound on the depth of the type. -/
def constituentsWithin (arena : TypeArena) : Nat → TypeId → List TypeId
  | 0, _ => []
  | n + 1, id => id :: (arena.get id).kind.inner.flatMap (arena.constituentsWithin n)

def constituents (arena : TypeArena) (id : TypeId) : List TypeId :=
  arena.constituentsWithin (arena.size + 1) id

def varsOf (arena : TypeArena) (signature : List TypeId) : List TypeId :=
  (signature.flatMap arena.constituents).filter fun id => (arena.get id).kind matches .var _

def Occurs (arena : TypeArena) (name : String) (constraint : TypeId) (id : TypeId) : Prop :=
  ∃ x ∈ arena.constituents id, (arena.get x).kind = .var constraint ∧ arena.name x = name

theorem constituentsWithin_eq (h : arena.Ordered) (n : Nat) {m : Nat} {id : TypeId} (hn : id < n)
    (hm : id < m) : arena.constituentsWithin n id = arena.constituentsWithin m id := by
  induction n generalizing m id with
  | zero => exact absurd hn (Nat.not_lt_zero id)
  | succ n ih =>
    cases m with
    | zero => exact absurd hm (Nat.not_lt_zero id)
    | succ m =>
      rw [constituentsWithin, constituentsWithin]
      congr 1
      refine List.flatMap_congr fun x hx => ?_
      have hlt : x < id := inner_lt h hx
      exact ih (Nat.lt_of_lt_of_le hlt (Nat.le_of_lt_succ hn))
        (Nat.lt_of_lt_of_le hlt (Nat.le_of_lt_succ hm))

theorem constituents_eq (h : arena.Ordered) (hid : id < arena.size) :
    arena.constituents id = id :: (arena.get id).kind.inner.flatMap arena.constituents := by
  rw [constituents, constituentsWithin]
  congr 1
  refine List.flatMap_congr fun x hx => ?_
  have hlt : x < id := inner_lt h hx
  exact constituentsWithin_eq h _ (Nat.lt_trans hlt hid)
    (Nat.lt_succ_of_lt (Nat.lt_trans hlt hid))

theorem mem_constituents_inner (h : arena.Ordered) (hid : id < arena.size) {x y : TypeId}
    (hx : x ∈ (arena.get id).kind.inner) (hy : y ∈ arena.constituents x) :
    y ∈ arena.constituents id := by
  rw [constituents_eq h hid]
  exact List.mem_cons_of_mem _ (List.mem_flatMap_of_mem hx hy)

theorem self_mem_constituents : id ∈ arena.constituents id := by
  rw [constituents, constituentsWithin]
  exact List.mem_cons_self

theorem occurs_iff_inner (h : arena.Ordered) (hid : id < arena.size)
    (hk : ∀ constraint, (arena.get id).kind ≠ .var constraint) {name : String} {constraint : TypeId} :
    arena.Occurs name constraint id ↔
      ∃ x ∈ (arena.get id).kind.inner, arena.Occurs name constraint x := by
  constructor
  · rintro ⟨x, hx, hkind, hname⟩
    rw [constituents_eq h hid] at hx
    rcases List.mem_cons.mp hx with rfl | hx
    · exact absurd hkind (hk constraint)
    · obtain ⟨y, hy, hxy⟩ := List.mem_flatMap.mp hx
      exact ⟨y, hy, x, hxy, hkind, hname⟩
  · rintro ⟨y, hy, x, hx, hkind, hname⟩
    exact ⟨x, mem_constituents_inner h hid hy hx, hkind, hname⟩

theorem occurs_var (h : arena.Ordered) (hid : id < arena.size) {own : TypeId}
    (hk : (arena.get id).kind = .var own) {name : String} {constraint : TypeId} :
    arena.Occurs name constraint id ↔ arena.name id = name ∧ own = constraint := by
  constructor
  · rintro ⟨x, hx, hkind, hname⟩
    rw [constituents_eq h hid, hk] at hx
    rw [List.mem_singleton.mp hx] at hkind hname
    rw [hk] at hkind
    exact ⟨hname, TypeKind.var.inj hkind⟩
  · rintro ⟨hname, rfl⟩
    exact ⟨id, self_mem_constituents, hk, hname⟩

theorem hasVarsWithin_eq_any (n : Nat) (id : TypeId) :
    arena.hasVarsWithin n id =
      (arena.constituentsWithin n id).any fun x => (arena.get x).kind matches .var _ := by
  induction n generalizing id with
  | zero => rfl
  | succ n ih =>
    rw [hasVarsWithin, constituentsWithin, List.any_cons, List.any_flatMap]
    simp only [← ih]
    cases (arena.get id).kind with
    | function params result =>
      simp only [TypeKind.inner, List.any_append, List.any_cons, List.any_nil, Bool.or_false,
        Bool.false_or]
    | _ => simp [TypeKind.inner]

theorem hasVars_iff : arena.hasVars id = true ↔ ∃ name constraint, arena.Occurs name constraint id := by
  rw [hasVars, hasVarsWithin_eq_any, List.any_eq_true]
  constructor
  · rintro ⟨x, hx, hvar⟩
    cases hk : (arena.get x).kind with
    | var constraint => exact ⟨arena.name x, constraint, x, hx, hk, rfl⟩
    | _ => rw [hk] at hvar; cases hvar
  · rintro ⟨name, constraint, x, hx, hk, -⟩
    exact ⟨x, hx, by rw [hk]⟩

theorem mem_varsOf {x : TypeId} :
    x ∈ arena.varsOf signature ↔
      (∃ p ∈ signature, x ∈ arena.constituents p) ∧
        ∃ constraint, (arena.get x).kind = .var constraint := by
  rw [varsOf, List.mem_filter, List.mem_flatMap]
  refine and_congr_right fun _ => ?_
  cases (arena.get x).kind <;> simp

theorem exists_occurs_iff {name : String} {constraint : TypeId} :
    (∃ p ∈ signature, arena.Occurs name constraint p) ↔
      ∃ x ∈ arena.varsOf signature, (arena.get x).kind = .var constraint ∧ arena.name x = name := by
  constructor
  · rintro ⟨p, hp, x, hx, hk, hname⟩
    exact ⟨x, mem_varsOf.mpr ⟨⟨p, hp, hx⟩, constraint, hk⟩, hk, hname⟩
  · rintro ⟨x, hx, hk, hname⟩
    obtain ⟨⟨p, hp, hxp⟩, -⟩ := mem_varsOf.mp hx
    exact ⟨p, hp, x, hxp, hk, hname⟩

/-! ## Demands -/

/-- What matching asks of a type variable: to stand for a type. -/
structure Demand where
  /-- The name of the variable. -/
  name : String
  /-- Its constraint. -/
  constraint : TypeId
  /-- What it has to stand for. -/
  type : TypeId

def Demand.IsMet (d : Demand) (assignment : Bindings) : Prop :=
  assignment.lookup d.name = some d.type

/-- The demands of the elements of two lists of one length. -/
def pairwise (step : TypeId → TypeId → Option (List Demand)) :
    List TypeId → List TypeId → Option (List Demand)
  | [], [] => some []
  | p :: ps, a :: as => do return (← step p a) ++ (← pairwise step ps as)
  | _, _ => none

/-- The demands of matching without regard to subtyping, with a bound on the depth of the signature
type. -/
def demandsExactly (arena : TypeArena) : Nat → TypeId → TypeId → Option (List Demand)
  | 0, _, _ => none
  | n + 1, param, arg =>
    match (arena.get param).kind with
    | .var constraint => some [⟨arena.name param, constraint, arg⟩]
    | .applied base params =>
      match (arena.get arg).kind with
      | .applied base' args =>
        if base = base' then pairwise (arena.demandsExactly n) params args else none
      | _ => none
    | _ => if param = arg then some [] else none

def isInstance (arena : TypeArena) (base id : TypeId) : Bool :=
  match (arena.get id).kind with
  | .applied base' _ => base = base'
  | _ => false

/-- The first type applied to a base among a type and what is above it. -/
def instance? (arena : TypeArena) (base id : TypeId) : Option TypeId :=
  (arena.ancestors id).find? (arena.isInstance base)

/-- The demands of matching an argument against a signature type. -/
def demands (arena : TypeArena) (param arg : TypeId) : Option (List Demand) :=
  match (arena.get param).kind with
  | .var constraint => some [⟨arena.name param, constraint, arg⟩]
  | .applied base _ =>
    if arena.hasVars param then
      (arena.instance? base arg).bind (arena.demandsExactly (arena.size + 2) param)
    else if arena.isSubtype arg param then some [] else none
  | _ => if arena.isSubtype arg param then some [] else none

def meet (arena : TypeArena) : Bindings → List Demand → Option Bindings
  | bindings, [] => some bindings
  | bindings, d :: ds => do arena.meet (← arena.bind? bindings d.name d.constraint d.type) ds

theorem bind?_eq_some {name : String} {constraint type : TypeId} :
    arena.bind? bindings name constraint type = some bindings' ↔
      (bindings.lookup name = some type ∧ bindings' = bindings) ∨
        (bindings.lookup name = none ∧ arena.isSubtype type constraint = true ∧
          bindings' = (name, type) :: bindings) := by
  rw [bind?]
  cases bindings.lookup name with
  | none => simp [eq_comm (a := bindings')]
  | some bound => simp [eq_comm (a := bindings')]

theorem meet_cons {d : Demand} {ds : List Demand} :
    arena.meet bindings (d :: ds) = some bindings' ↔
      ∃ next, arena.bind? bindings d.name d.constraint d.type = some next ∧
        arena.meet next ds = some bindings' := by
  rw [meet, Option.bind_eq_bind, Option.bind_eq_some_iff]

theorem meet_append (ds ds' : List Demand) :
    arena.meet bindings (ds ++ ds') = (arena.meet bindings ds).bind fun next => arena.meet next ds' := by
  induction ds generalizing bindings with
  | nil => rfl
  | cons d ds ih =>
    rw [List.cons_append, meet, meet]
    cases arena.bind? bindings d.name d.constraint d.type with
    | none => rfl
    | some next => exact ih

theorem meet_singleton (d : Demand) :
    arena.meet bindings [d] = arena.bind? bindings d.name d.constraint d.type := by
  rw [meet]
  cases arena.bind? bindings d.name d.constraint d.type <;> rfl

/-! ## Matching is listing demands and meeting them -/

theorem matchAll_eq_meet {match? : Bindings → TypeId → TypeId → Option Bindings}
    {step : TypeId → TypeId → Option (List Demand)}
    (h : ∀ p ∈ params, ∀ a ∈ args, ∀ bindings,
      match? bindings p a = (step p a).bind (arena.meet bindings)) :
    matchAll match? bindings params args = (pairwise step params args).bind (arena.meet bindings) := by
  induction params generalizing args bindings with
  | nil => cases args <;> rfl
  | cons p params ih =>
    cases args with
    | nil => rfl
    | cons a args =>
      have ih := fun bindings => @ih bindings args fun q hq b hb =>
        h q (List.mem_cons_of_mem _ hq) b (List.mem_cons_of_mem _ hb)
      rw [matchAll, pairwise, h p List.mem_cons_self a List.mem_cons_self]
      cases step p a with
      | none => rfl
      | some ds =>
        simp only [Option.bind_eq_bind, Option.bind_some, ih]
        cases pairwise step params args with
        | none => cases arena.meet bindings ds <;> rfl
        | some ds' => exact (meet_append ds ds').symm

theorem matchExactly_eq_meet (n : Nat) :
    arena.matchExactly n bindings param arg =
      (arena.demandsExactly n param arg).bind (arena.meet bindings) := by
  induction n generalizing bindings param arg with
  | zero => rfl
  | succ n ih =>
    rw [matchExactly, demandsExactly]
    cases (arena.get param).kind with
    | var constraint => exact (meet_singleton ⟨arena.name param, constraint, arg⟩).symm
    | applied base params =>
      cases (arena.get arg).kind with
      | applied base' args =>
        dsimp only
        split
        · exact matchAll_eq_meet fun _ _ _ _ _ => ih
        · rfl
      | _ => rfl
    | _ => dsimp only; split <;> rfl

/-- A search among types of which at most one counts is a look at that one. -/
theorem findSome?_instance {α : Type} (test : TypeId → Bool) {look : TypeId → Option α}
    (hlook : ∀ x, test x = false → look x = none) {l : List TypeId}
    (hone : ∀ x ∈ l, ∀ y ∈ l, test x = true → test y = true → x = y) :
    l.findSome? look = (l.find? test).bind look := by
  induction l with
  | nil => rfl
  | cons x l ih =>
    have ih := ih fun y hy z hz => hone y (List.mem_cons_of_mem _ hy) z (List.mem_cons_of_mem _ hz)
    rw [List.findSome?_cons, List.find?_cons]
    cases hx : test x with
    | false => rw [hlook x hx, ih]
    | true =>
      rw [Option.bind_some]
      cases hl : look x with
      | some y => rfl
      | none =>
        refine List.findSome?_eq_none_iff.mpr fun y hy => ?_
        cases hy' : test y with
        | false => exact hlook y hy'
        | true =>
          rw [hone y (List.mem_cons_of_mem _ hy) x List.mem_cons_self hy' hx]
          exact hl

theorem isInstance_iff {base : TypeId} :
    arena.isInstance base id = true ↔ ∃ args, (arena.get id).kind = .applied base args := by
  rw [isInstance]
  cases (arena.get id).kind <;> simp [eq_comm]

theorem Canonical.instance?_eq (h : arena.Canonical) {base x : TypeId} (hx : x ∈ arena.ancestors arg)
    (hk : (arena.get x).kind = .applied base args) : arena.instance? base arg = some x := by
  have hinst : arena.isInstance base x = true := isInstance_iff.mpr ⟨args, hk⟩
  cases hfind : arena.instance? base arg with
  | none => exact absurd hinst (List.find?_eq_none.mp hfind x hx)
  | some y =>
    obtain ⟨args', hk'⟩ := isInstance_iff.mp (List.find?_some hfind)
    rw [h.eq_of_mem_ancestors (List.mem_of_find?_eq_some hfind) hx hk' hk]

theorem Canonical.unify?_eq_meet (h : arena.Canonical) :
    arena.unify? bindings param arg = (arena.demands param arg).bind (arena.meet bindings) := by
  have hplain : (if arena.isSubtype arg param then some bindings else none) =
      (if arena.isSubtype arg param then some [] else none : Option (List Demand)).bind
        (arena.meet bindings) := by
    split <;> rfl
  rw [unify?, demands]
  cases hk : (arena.get param).kind with
  | var constraint => exact (meet_singleton ⟨arena.name param, constraint, arg⟩).symm
  | applied base params =>
    dsimp only
    split
    · rw [findSome?_instance (arena.isInstance base), instance?, Option.bind_assoc]
      · congr 1
        funext x
        rw [← matchExactly_eq_meet, matchExactly, hk]
      · intro x hx
        rw [isInstance] at hx
        cases hkx : (arena.get x).kind with
        | applied base' args =>
          rw [hkx] at hx
          exact if_neg (of_decide_eq_false hx)
        | _ => rfl
      · intro x hx y hy hix hiy
        obtain ⟨_, hkx⟩ := isInstance_iff.mp hix
        obtain ⟨_, hky⟩ := isInstance_iff.mp hiy
        exact h.eq_of_mem_ancestors hx hy hkx hky
    · exact hplain
  | _ => exact hplain

theorem Canonical.unifySignature?_eq_meet (h : arena.Canonical) :
    arena.unifySignature? signature args =
      (pairwise arena.demands signature args).bind (arena.meet []) :=
  matchAll_eq_meet fun _ _ _ _ _ => h.unify?_eq_meet

/-! ## Meeting demands -/

/-- A name that stands for a type goes on to stand for it. -/
theorem bind?_keeps {name : String} {constraint type : TypeId}
    (h : arena.bind? bindings name constraint type = some bindings') {x : String} {t : TypeId}
    (hx : bindings.lookup x = some t) : bindings'.lookup x = some t := by
  rcases bind?_eq_some.mp h with ⟨-, rfl⟩ | ⟨hnone, -, rfl⟩
  · exact hx
  · have hne : x ≠ name := by
      rintro rfl
      rw [hnone] at hx
      cases hx
    rw [List.lookup_cons, beq_eq_false_iff_ne.mpr hne]
    exact hx

theorem bind?_isMet {d : Demand}
    (h : arena.bind? bindings d.name d.constraint d.type = some bindings') : d.IsMet bindings' := by
  rcases bind?_eq_some.mp h with ⟨hsome, rfl⟩ | ⟨-, -, rfl⟩
  · exact hsome
  · rw [Demand.IsMet, List.lookup_cons, beq_self_eq_true]

theorem meet_keeps {ds : List Demand} (h : arena.meet bindings ds = some bindings') {x : String}
    {t : TypeId} (hx : bindings.lookup x = some t) : bindings'.lookup x = some t := by
  induction ds generalizing bindings with
  | nil => exact Option.some.inj h ▸ hx
  | cons d ds ih =>
    obtain ⟨next, hnext, hrest⟩ := meet_cons.mp h
    exact ih hrest (bind?_keeps hnext hx)

theorem meet_isMet {ds : List Demand} (h : arena.meet bindings ds = some bindings') :
    ∀ d ∈ ds, d.IsMet bindings' := by
  induction ds generalizing bindings with
  | nil => exact nofun
  | cons d ds ih =>
    obtain ⟨next, hnext, hrest⟩ := meet_cons.mp h
    exact List.forall_mem_cons.mpr ⟨meet_keeps hrest (bind?_isMet hnext), ih hrest⟩

/-- What a name stands for was demanded, and it is below the constraint of the variable that it was
demanded of first. -/
theorem meet_sound {ds : List Demand} (h : arena.meet bindings ds = some bindings') {x : String}
    {t : TypeId} (hx : bindings'.lookup x = some t) :
    bindings.lookup x = some t ∨
      ∃ d ∈ ds, d.name = x ∧ d.type = t ∧ arena.isSubtype t d.constraint = true := by
  induction ds generalizing bindings with
  | nil => exact .inl (Option.some.inj h ▸ hx)
  | cons d ds ih =>
    obtain ⟨next, hnext, hrest⟩ := meet_cons.mp h
    rcases ih hrest with hold | ⟨d', hd', hfound⟩
    · rcases bind?_eq_some.mp hnext with ⟨-, rfl⟩ | ⟨-, hsub, rfl⟩
      · exact .inl hold
      · rw [List.lookup_cons] at hold
        cases hname : x == d.name with
        | false =>
          rw [hname] at hold
          exact .inl hold
        | true =>
          rw [hname] at hold
          obtain rfl := Option.some.inj hold
          exact .inr ⟨d, List.mem_cons_self, (eq_of_beq hname).symm, rfl, hsub⟩
    · exact .inr ⟨d', List.mem_cons_of_mem _ hd', hfound⟩

theorem exists_meet {ds : List Demand} (hb : ∀ x t, bindings.lookup x = some t →
      assignment.lookup x = some t)
    (hds : ∀ d ∈ ds, d.IsMet assignment ∧ arena.isSubtype d.type d.constraint = true) :
    ∃ bindings', arena.meet bindings ds = some bindings' := by
  induction ds generalizing bindings with
  | nil => exact ⟨bindings, rfl⟩
  | cons d ds ih =>
    obtain ⟨⟨hmet, hsub⟩, hds⟩ := List.forall_mem_cons.mp hds
    rw [Demand.IsMet] at hmet
    cases hl : bindings.lookup d.name with
    | some t =>
      have heq : t = d.type := Option.some.inj ((hb _ _ hl).symm.trans hmet)
      obtain ⟨bindings', hrest⟩ := ih hb hds
      exact ⟨bindings', meet_cons.mpr ⟨_, bind?_eq_some.mpr (.inl ⟨heq ▸ hl, rfl⟩), hrest⟩⟩
    | none =>
      have hb' : ∀ x t, ((d.name, d.type) :: bindings).lookup x = some t →
          assignment.lookup x = some t := by
        intro x t hx
        rw [List.lookup_cons] at hx
        cases hname : x == d.name with
        | false =>
          rw [hname] at hx
          exact hb x t hx
        | true =>
          rw [hname] at hx
          rw [eq_of_beq hname, hmet]
          exact hx
      obtain ⟨bindings', hrest⟩ := ih hb' hds
      exact ⟨bindings', meet_cons.mpr ⟨_, bind?_eq_some.mpr (.inr ⟨hl, hsub, rfl⟩), hrest⟩⟩

/-! ## Whose demands there are -/

theorem pairwise_cons {step : TypeId → TypeId → Option (List Demand)} {p a : TypeId}
    {ds : List Demand} :
    pairwise step (p :: params) (a :: args) = some ds ↔
      ∃ first rest, step p a = some first ∧ pairwise step params args = some rest ∧
        ds = first ++ rest := by
  rw [pairwise]
  simp only [Option.bind_eq_bind, Option.bind_eq_some_iff, Option.pure_def, Option.some.injEq]
  constructor
  · rintro ⟨first, hfirst, rest, hrest, rfl⟩
    exact ⟨first, rest, hfirst, hrest, rfl⟩
  · rintro ⟨first, rest, hfirst, hrest, rfl⟩
    exact ⟨first, hfirst, rest, hrest, rfl⟩

theorem pairwise_iff {step : TypeId → TypeId → Option (List Demand)} {P : Demand → Prop} :
    (∃ ds, pairwise step params args = some ds ∧ ∀ d ∈ ds, P d) ↔
      List.Forall₂ (fun p a => ∃ ds, step p a = some ds ∧ ∀ d ∈ ds, P d) params args := by
  induction params generalizing args with
  | nil =>
    cases args with
    | nil => exact ⟨fun _ => .nil, fun _ => ⟨[], rfl, nofun⟩⟩
    | cons a args => exact ⟨(nomatch ·), (nomatch ·)⟩
  | cons p params ih =>
    cases args with
    | nil => exact ⟨(nomatch ·), (nomatch ·)⟩
    | cons a args =>
      rw [List.forall₂_cons, ← ih]
      constructor
      · rintro ⟨ds, hds, hP⟩
        obtain ⟨first, rest, hfirst, hrest, rfl⟩ := pairwise_cons.mp hds
        obtain ⟨hPfirst, hPrest⟩ := List.forall_mem_append.mp hP
        exact ⟨⟨first, hfirst, hPfirst⟩, rest, hrest, hPrest⟩
      · rintro ⟨⟨first, hfirst, hPfirst⟩, rest, hrest, hPrest⟩
        exact ⟨first ++ rest, pairwise_cons.mpr ⟨first, rest, hfirst, hrest, rfl⟩,
          List.forall_mem_append.mpr ⟨hPfirst, hPrest⟩⟩

theorem forall_pairwise {step : TypeId → TypeId → Option (List Demand)} {P : Demand → Prop}
    {ds : List Demand} (h : pairwise step params args = some ds)
    (hstep : ∀ p ∈ params, ∀ a ∈ args, ∀ ds', step p a = some ds' → ∀ d ∈ ds', P d) :
    ∀ d ∈ ds, P d := by
  induction params generalizing args ds with
  | nil =>
    cases args with
    | nil => exact Option.some.inj h ▸ nofun
    | cons a args => cases h
  | cons p params ih =>
    cases args with
    | nil => cases h
    | cons a args =>
      obtain ⟨first, rest, hfirst, hrest, rfl⟩ := pairwise_cons.mp h
      refine List.forall_mem_append.mpr
        ⟨hstep p List.mem_cons_self a List.mem_cons_self first hfirst, ih hrest ?_⟩
      exact fun q hq b hb => hstep q (List.mem_cons_of_mem _ hq) b (List.mem_cons_of_mem _ hb)

theorem exists_pairwise {step : TypeId → TypeId → Option (List Demand)} {P : Demand → Prop}
    {ds : List Demand} {p : TypeId} (h : pairwise step params args = some ds) (hp : p ∈ params)
    (hstep : ∀ a ∈ args, ∀ ds', step p a = some ds' → ∃ d ∈ ds', P d) : ∃ d ∈ ds, P d := by
  induction params generalizing args ds with
  | nil => cases hp
  | cons q params ih =>
    cases args with
    | nil => cases h
    | cons a args =>
      obtain ⟨first, rest, hfirst, hrest, rfl⟩ := pairwise_cons.mp h
      rcases List.mem_cons.mp hp with rfl | hp
      · obtain ⟨d, hd, hP⟩ := hstep a List.mem_cons_self first hfirst
        exact ⟨d, List.mem_append_left _ hd, hP⟩
      · obtain ⟨d, hd, hP⟩ := ih hrest hp fun b hb => hstep b (List.mem_cons_of_mem _ hb)
        exact ⟨d, List.mem_append_right _ hd, hP⟩

theorem occurs_of_demandsExactly (h : arena.Ordered) (n : Nat) {param arg : TypeId}
    {ds : List Demand} (hp : param < arena.size) (hds : arena.demandsExactly n param arg = some ds) :
    ∀ d ∈ ds, arena.Occurs d.name d.constraint param := by
  induction n generalizing param arg ds with
  | zero => cases hds
  | succ n ih =>
    rw [demandsExactly] at hds
    cases hk : (arena.get param).kind with
    | var constraint =>
      rw [hk] at hds
      rw [← Option.some.inj hds]
      exact List.forall_mem_singleton.mpr ((occurs_var h hp hk).mpr ⟨rfl, rfl⟩)
    | applied base params =>
      rw [hk] at hds
      cases hka : (arena.get arg).kind with
      | applied base' args =>
        rw [hka] at hds
        dsimp only at hds
        split at hds
        · refine forall_pairwise hds fun q hq a _ ds' hds' d hd => ?_
          have hin : q ∈ (arena.get param).kind.inner := by rw [hk]; exact hq
          have hlt : q < param := inner_lt h hin
          rw [occurs_iff_inner h hp (by rw [hk]; exact nofun)]
          exact ⟨q, hin, ih (Nat.lt_trans hlt hp) hds' d hd⟩
        · cases hds
      | _ => rw [hka] at hds; cases hds
    | _ =>
      rw [hk] at hds
      dsimp only at hds
      split at hds
      · rw [← Option.some.inj hds]
        exact nofun
      · cases hds

def FunctionFree (arena : TypeArena) (id : TypeId) : Prop :=
  ∀ x ∈ arena.constituents id, ∀ params result, (arena.get x).kind ≠ .function params result

theorem FunctionFree.inner (hf : arena.FunctionFree id) (h : arena.Ordered) (hid : id < arena.size)
    {x : TypeId} (hx : x ∈ (arena.get id).kind.inner) : arena.FunctionFree x :=
  fun y hy => hf y (mem_constituents_inner h hid hx hy)

theorem exists_mem_demandsExactly (h : arena.Ordered) (n : Nat) {param arg : TypeId}
    {ds : List Demand} (hp : param < arena.size) (hf : arena.FunctionFree param)
    (hds : arena.demandsExactly n param arg = some ds) {name : String} {constraint : TypeId}
    (ho : arena.Occurs name constraint param) :
    ∃ d ∈ ds, d.name = name ∧ d.constraint = constraint := by
  induction n generalizing param arg ds with
  | zero => cases hds
  | succ n ih =>
    rw [demandsExactly] at hds
    cases hk : (arena.get param).kind with
    | var own =>
      rw [hk] at hds
      rw [← Option.some.inj hds]
      exact ⟨_, List.mem_singleton_self _, (occurs_var h hp hk).mp ho⟩
    | applied base params =>
      rw [hk] at hds
      cases hka : (arena.get arg).kind with
      | applied base' args =>
        rw [hka] at hds
        dsimp only at hds
        rw [occurs_iff_inner h hp (by rw [hk]; exact nofun)] at ho
        obtain ⟨q, hq, ho⟩ := ho
        have hlt : q < param := inner_lt h hq
        split at hds
        · exact exists_pairwise hds (by rw [hk] at hq; exact hq) fun a _ ds' hds' =>
            ih (Nat.lt_trans hlt hp) (hf.inner h hp hq) hds' ho
        · cases hds
      | _ => rw [hka] at hds; cases hds
    | function params result => exact absurd hk (hf param self_mem_constituents params result)
    | _ =>
      rw [occurs_iff_inner h hp (by rw [hk]; exact nofun), hk] at ho
      obtain ⟨q, hq, -⟩ := ho
      cases hq

theorem occurs_of_demands (h : arena.Ordered) {ds : List Demand} (hp : param < arena.size)
    (hds : arena.demands param arg = some ds) :
    ∀ d ∈ ds, arena.Occurs d.name d.constraint param := by
  have hplain : (if arena.isSubtype arg param then some [] else none) = some ds →
      ∀ d ∈ ds, arena.Occurs d.name d.constraint param := by
    intro hds
    split at hds
    · rw [← Option.some.inj hds]
      exact nofun
    · cases hds
  rw [demands] at hds
  split at hds
  · rename_i constraint hk
    rw [← Option.some.inj hds]
    exact List.forall_mem_singleton.mpr ((occurs_var h hp hk).mpr ⟨rfl, rfl⟩)
  · split at hds
    · obtain ⟨x, -, hds⟩ := Option.bind_eq_some_iff.mp hds
      exact occurs_of_demandsExactly h _ hp hds
    · exact hplain hds
  · exact hplain hds

theorem exists_mem_demands (h : arena.Ordered) {ds : List Demand} (hp : param < arena.size)
    (hf : arena.FunctionFree param) (hds : arena.demands param arg = some ds) {name : String}
    {constraint : TypeId} (ho : arena.Occurs name constraint param) :
    ∃ d ∈ ds, d.name = name ∧ d.constraint = constraint := by
  rw [demands] at hds
  split at hds
  · rename_i own hk
    rw [← Option.some.inj hds]
    exact ⟨_, List.mem_singleton_self _, (occurs_var h hp hk).mp ho⟩
  · rw [if_pos (hasVars_iff.mpr ⟨name, constraint, ho⟩)] at hds
    obtain ⟨x, -, hds⟩ := Option.bind_eq_some_iff.mp hds
    exact exists_mem_demandsExactly h _ hp hf hds ho
  · rename_i hvar happlied
    -- Nothing occurs in a type of another kind.
    rw [occurs_iff_inner h hp hvar] at ho
    obtain ⟨q, hq, -⟩ := ho
    cases hk : (arena.get param).kind with
    | applied base params => exact absurd hk (happlied base params)
    | function params result => exact absurd hk (hf param self_mem_constituents params result)
    | _ => rw [hk] at hq; cases hq

/-- What a name stands for after matching is below the constraint of a variable of that name that occurs in
the signature. -/
theorem Canonical.unifySignature?_sound (h : arena.Canonical) (hs : ∀ p ∈ signature, p < arena.size)
    (hb : arena.unifySignature? signature args = some bindings) {name : String} {type : TypeId}
    (hx : bindings.lookup name = some type) :
    ∃ p ∈ signature, ∃ constraint, arena.Occurs name constraint p ∧
      arena.isSubtype type constraint = true := by
  rw [h.unifySignature?_eq_meet] at hb
  obtain ⟨ds, hds, hmeet⟩ := Option.bind_eq_some_iff.mp hb
  obtain ⟨d, hd, rfl, rfl, hsub⟩ := (meet_sound hmeet hx).resolve_left nofun
  have hoccurs := forall_pairwise (P := fun d => ∃ p ∈ signature, arena.Occurs d.name d.constraint p)
    hds fun p hp _ _ _ hstep d hd => ⟨p, hp, occurs_of_demands h.toOrdered (hs p hp) hstep d hd⟩
  obtain ⟨p, hp, ho⟩ := hoccurs d hd
  exact ⟨p, hp, d.constraint, ho, hsub⟩

end DispatchLang.TypeArena
