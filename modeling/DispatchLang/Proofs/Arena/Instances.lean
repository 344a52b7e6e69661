import DispatchLang.Proofs.Arena.Representation
import DispatchLang.Proofs.Arena.Unification

/-!
# What becomes of a signature in a call

When the types of some arguments match a signature, its type variables are replaced by what they stand for. A type
without variables stays what it is. A variable becomes the type of its argument, and an applied type that mentions
variables becomes the applied type of the same base that it was matched with, which is the type of the argument or above
it. So the types that a signature becomes are there already, and they are above the types of the arguments.

There is one exception. Function types are compared with the types of arguments, but never taken apart, so a variable
inside a function type may be bound by another parameter, and then the function type becomes another one, which need not
be above its argument. A signature in which no function type mentions variables is *firm*.

## Main definitions

* `TypeArena.Firm`: no function type that mentions variables occurs in a type.

## Main results

* `Regular.instances_of_plain`: types without variables stay what they are.
* `Regular.instances_above`: what a firm signature becomes is above the types of the arguments, and where it is the type
  of an argument, no type of the signature with variables is below that.
-/

namespace DispatchLang

def TypeKind.isFunction : TypeKind → Bool
  | .function _ _ => true
  | _ => false

theorem TypeKind.withInner_inner (kind : TypeKind) : kind.withInner kind.inner = kind := by
  cases kind with
  | function params result => rw [inner, withInner, List.dropLast_concat, List.getLastD_concat]
  | _ => rfl

namespace TypeArena

variable {arena : TypeArena} {bindings : Bindings} {id param arg image : TypeId} {signature args images : List TypeId}

/-! ## Interned types -/

/-- Asked for the parts of a type that is made of others, the arena answers that type and stays as it is. -/
theorem Regular.intern_eq (h : arena.Regular) (hid : id < arena.size) (ha : (arena.get id).kind.above? ≠ none) :
    arena.intern (arena.get id).kind = (id, arena) := by
  cases hk : (arena.get id).kind with
  | applied base args => exact h.canonical.applied_eq hk
  | function params result =>
    obtain ⟨key, hkey⟩ := h.consistent.exists_key id (by rw [hk]; exact kind_parts_ne_nil (.function params result))
    have hkind := describe_kind arena key
    rw [← hkey, hk] at hkind
    cases key with
    | function params' result' =>
      cases hkind
      have hfound : arena.functionIndex.lookup (params, result) = some id :=
        (h.consistent.keyed?_iff (.function params result) id).mpr ⟨hid, hkey⟩
      rw [intern, TypeArena.function, hfound]
    | _ => cases hkind
  | _ => rw [hk] at ha; exact absurd rfl ha

theorem Regular.parent_var (h : arena.Regular) {constraint : TypeId} (hk : (arena.get id).kind = .var constraint) :
    (arena.get id).parent = none := by
  obtain ⟨key, hkey⟩ := h.consistent.exists_key id (by rw [hk]; exact List.cons_ne_nil _ _)
  have hkind := describe_kind arena key
  rw [← hkey, hk] at hkind
  cases key with
  | var name constraint' => rw [hkey, describe]
  | _ => cases hkind

/-! ## Types without variables -/

/-- What is inside a type without variables has none. -/
theorem Ordered.hasVars_inner (h : arena.Ordered) (hid : id < arena.size) (hv : arena.hasVars id = false) {x : TypeId}
    (hx : x ∈ (arena.get id).kind.inner) : arena.hasVars x = false := by
  refine Bool.eq_false_iff.mpr fun hvx => ?_
  obtain ⟨name, constraint, y, hy, hvar⟩ := hasVars_iff.mp hvx
  exact Bool.eq_false_iff.mp hv (hasVars_iff.mpr ⟨name, constraint, y, mem_constituents_inner h hid hx hy, hvar⟩)

theorem isVar_of_hasVars (hv : arena.hasVars id = false) : (arena.get id).kind.isVar = false := by
  cases hk : (arena.get id).kind with
  | var constraint =>
    refine absurd (hasVars_iff.mpr ⟨arena.name id, constraint, id, self_mem_constituents, hk, rfl⟩) ?_
    exact Bool.eq_false_iff.mp hv
  | _ => rfl

/-- Steps that find what is there add nothing. -/
theorem mapTypes_of_forall₂ {step : TypeId → TypeArena → TypeId × TypeArena} {ids images : List TypeId}
    (h : List.Forall₂ (fun id image => step id arena = (image, arena)) ids images) :
    mapTypes step ids arena = (images, arena) := by
  induction h with
  | nil => rfl
  | cons hid _ ih =>
    rw [mapTypes_cons, hid]
    dsimp only
    rw [ih]

namespace Regular

variable (h : arena.Regular)
include h

/-- A type without variables stays what it is. -/
theorem substituteWithin_of_plain (n : Nat) (hid : id < arena.size) (hn : id < n) (hv : arena.hasVars id = false) :
    TypeArena.substituteWithin bindings n id arena = (id, arena) := by
  induction n generalizing id with
  | zero => exact absurd hn (Nat.not_lt_zero id)
  | succ n ih =>
    by_cases ha : (arena.get id).kind.above? = none
    · rw [substituteWithin_eq_standIn n ha, standIn]
      have hvar := isVar_of_hasVars hv
      split
      · next hk =>
        rw [hk] at hvar
        cases hvar
      · rfl
    · have hi := h.indexed.toOrdered
      have hinner : ∀ x ∈ (arena.get id).kind.inner,
          TypeArena.substituteWithin bindings n x arena = (x, arena) := fun x hx =>
        have hlt := inner_lt hi hx
        ih (Nat.lt_trans hlt hid) (Nat.lt_of_lt_of_le hlt (Nat.le_of_lt_succ hn)) (hi.hasVars_inner hid hv hx)
      rw [substituteWithin_eq_intern n ha, mapTypes_of_forall₂ (List.forall₂_same.mpr hinner),
        TypeKind.withInner_inner]
      exact h.intern_eq hid ha

theorem substitute_of_plain (hid : id < arena.size) (hv : arena.hasVars id = false) :
    arena.substitute bindings id = (id, arena) := h.substituteWithin_of_plain _ hid (Nat.lt_succ_of_lt hid) hv

/-- Types without variables stay what they are. -/
theorem instances_of_plain (hs : ∀ x ∈ signature, x < arena.size ∧ arena.hasVars x = false) :
    TypeArena.instances bindings signature arena = (signature, arena) :=
  mapTypes_of_forall₂ (List.forall₂_same.mpr fun x hx => h.substitute_of_plain (hs x hx).1 (hs x hx).2)

end Regular

/-! ## Firm types -/

/-- No function type that mentions type variables occurs in a type. -/
def Firm (arena : TypeArena) (id : TypeId) : Prop :=
  ∀ x ∈ arena.constituents id, (arena.get x).kind.isFunction = true → arena.hasVars x = false

theorem Firm.inner (hf : arena.Firm id) (h : arena.Ordered) (hid : id < arena.size) {x : TypeId}
    (hx : x ∈ (arena.get id).kind.inner) : arena.Firm x := fun y hy => hf y (mem_constituents_inner h hid hx hy)

theorem Firm.hasVars_eq (hf : arena.Firm id) (hvar : (arena.get id).kind.isVar = false)
    (happ : (arena.get id).kind.isApplied = false) : arena.hasVars id = false := by
  cases hk : (arena.get id).kind with
  | var constraint => rw [hk] at hvar; cases hvar
  | applied base args => rw [hk] at happ; cases happ
  | function params result => exact hf id self_mem_constituents (by rw [hk]; rfl)
  | _ => rw [hasVars, hasVarsWithin, hk]

namespace Regular

variable (h : arena.Regular)
include h

/-- Replacing the variables of a firm type by what matching it exactly asks for gives the type that it was matched
with. -/
theorem substituteWithin_of_demands (n m : Nat) {ds : List Demand} (hp : param < arena.size) (ha : arg < arena.size)
    (hn : param < n) (hf : arena.Firm param) (hds : arena.demandsExactly m param arg = some ds)
    (hmet : ∀ d ∈ ds, d.IsMet bindings) : TypeArena.substituteWithin bindings n param arena = (arg, arena) := by
  induction n generalizing m param arg ds with
  | zero => exact absurd hn (Nat.not_lt_zero param)
  | succ n ih =>
    have hplain (heq : param = arg) (hv : arena.hasVars param = false) :
        TypeArena.substituteWithin bindings (n + 1) param arena = (arg, arena) :=
      heq ▸ h.substituteWithin_of_plain _ hp hn hv
    cases m with
    | zero => cases hds
    | succ m =>
      rw [demandsExactly] at hds
      cases hk : (arena.get param).kind with
      | var constraint =>
        rw [hk] at hds
        cases hds
        have hbound : bindings.lookup (arena.name param) = some arg := hmet _ (List.mem_singleton_self _)
        rw [TypeArena.substituteWithin, hk]
        dsimp only
        rw [hbound, Option.getD_some]
      | applied base params =>
        rw [hk] at hds
        cases hka : (arena.get arg).kind with
        | applied base' args =>
          rw [hka] at hds
          dsimp only at hds
          split at hds
          · next hbase =>
            obtain ⟨hlength, hall⟩ := List.forall₂_iff_zip.mp (pairwise_iff.mp ⟨ds, hds, hmet⟩)
            have hargs : List.Forall₂ (fun x y => TypeArena.substituteWithin bindings n x arena = (y, arena))
                params args := by
              refine List.forall₂_iff_zip.mpr ⟨hlength, fun {x y} hxy => ?_⟩
              obtain ⟨hx, hy⟩ := List.of_mem_zip hxy
              obtain ⟨ds', hds', hmet'⟩ := hall hxy
              have hx : x ∈ (arena.get param).kind.inner := by rw [hk]; exact hx
              have hlt := inner_lt h.indexed.toOrdered hx
              exact ih m (Nat.lt_trans hlt hp)
                (Nat.lt_trans (h.indexed.toOrdered.part_lt (parts_of_applied hka hy)) ha)
                (Nat.lt_of_lt_of_le hlt (Nat.le_of_lt_succ hn)) (hf.inner h.indexed.toOrdered hp hx) hds' hmet'
            rw [TypeArena.substituteWithin, hk]
            dsimp only
            rw [mapTypes_of_forall₂ hargs, hbase]
            exact h.canonical.applied_eq hka
          · cases hds
        | _ => rw [hka] at hds; cases hds
      | _ =>
        rw [hk] at hds
        dsimp only at hds
        split at hds
        · next heq => exact hplain heq (hf.hasVars_eq (by rw [hk]; rfl) (by rw [hk]; rfl))
        · cases hds

theorem image_of_demands {ds : List Demand} (hp : param < arena.size) (ha : arg < arena.size)
    (hf : arena.Firm param) (hds : arena.demands param arg = some ds) (hmet : ∀ d ∈ ds, d.IsMet bindings) :
    ∃ image < arena.size, arena.substitute bindings param = (image, arena) ∧ arena.isSubtype arg image = true := by
  have hi := h.indexed.toOrdered
  have hplain (hv : arena.hasVars param = false)
      (hds : (if arena.isSubtype arg param then some [] else none) = some ds) :
      ∃ image < arena.size, arena.substitute bindings param = (image, arena) ∧ arena.isSubtype arg image = true := by
    split at hds
    · next hsub => exact ⟨param, hp, h.substitute_of_plain hp hv, hsub⟩
    · cases hds
  rw [demands] at hds
  cases hk : (arena.get param).kind with
  | var constraint =>
    rw [hk] at hds
    cases hds
    have hbound : bindings.lookup (arena.name param) = some arg := hmet _ (List.mem_singleton_self _)
    refine ⟨arg, ha, ?_, (hi.isSubtype_iff_below ha ha).mpr (.refl arg)⟩
    rw [TypeArena.substitute, TypeArena.substituteWithin, hk]
    dsimp only
    rw [hbound, Option.getD_some]
  | applied base params =>
    rw [hk] at hds
    dsimp only at hds
    split at hds
    · obtain ⟨x, hinst, hds⟩ := Option.bind_eq_some_iff.mp hds
      have hmem : x ∈ arena.ancestors arg := List.mem_of_find?_eq_some hinst
      have hx := chain_lt hi _ ha x hmem
      obtain ⟨args, hkx⟩ := isInstance_iff.mp (List.find?_some hinst)
      exact ⟨x, hx, h.substituteWithin_of_demands _ _ hp hx (Nat.lt_succ_of_lt hp) hf hds hmet,
        hi.isSubtype_ancestor ha hmem hkx⟩
    · next hv => exact hplain (Bool.eq_false_iff.mpr hv) hds
  | _ =>
    rw [hk] at hds
    exact hplain (hf.hasVars_eq (by rw [hk]; rfl) (by rw [hk]; rfl)) hds

theorem kind_of_substitute {base : TypeId} {params : List TypeId}
    (hk : (arena.get param).kind = .applied base params) (hs : arena.substitute bindings param = (image, arena)) :
    ∃ args, (arena.get image).kind = .applied base args := by
  have ha : (arena.get param).kind.above? ≠ none := by rw [hk]; exact Option.some_ne_none _
  rw [TypeArena.substitute, substituteWithin_eq_intern _ ha, hk] at hs
  generalize TypeArena.mapTypes (TypeArena.substituteWithin bindings arena.size)
    (TypeKind.applied base params).inner arena = mapped at hs
  have hint : mapped.2.Interns (.applied base mapped.1) _ _ :=
    mapped.2.intern_interns (Option.some_ne_none _)
  rw [TypeKind.withInner] at hs
  rw [hs] at hint
  exact ⟨_, (h.indexed.index hint.interned?_eq).2.1⟩

theorem eq_of_image (hp : param < arena.size) (ha : arg < arena.size)
    (hf : arena.Firm param) (hs : arena.substitute bindings param = (arg, arena)) (hv : arena.hasVars arg = false)
    (hany : arg ≠ .any) (hbelow : arena.isSubtype param arg = true) : param = arg := by
  have hi := h.indexed.toOrdered
  cases hvp : arena.hasVars param with
  | false =>
    rw [h.substitute_of_plain hp hvp] at hs
    exact congrArg Prod.fst hs
  | true =>
    rw [hi.isSubtype_iff_below hp ha] at hbelow
    by_contra hne
    cases hk : (arena.get param).kind with
    | var constraint =>
      rcases ((admits_iff_of_not_var (isVar_of_hasVars hv) hne hany).mp hbelow.admits).2 with
        ⟨hparts, -⟩ | ⟨-, up, hup, -⟩
      · have hvar := hparts.hasParts.2
        rw [hk] at hvar
        cases hvar
      · rw [h.parent_var hk] at hup
        cases hup
    | applied base params =>
      obtain ⟨args, hka⟩ := h.kind_of_substitute hk hs
      have hchain := h.canonical.mem_chain_of_below _ (Nat.lt_succ_of_lt hp) hbelow hany
        (.inr (by rw [hka]; rfl))
      exact hne (h.canonical.eq_of_mem_ancestors List.mem_cons_self hchain hk hka)
    | _ =>
      rw [hf.hasVars_eq (by rw [hk]; rfl) (by rw [hk]; rfl)] at hvp
      cases hvp

theorem instances_above (hs : ∀ p ∈ signature, p < arena.size ∧ arena.Firm p) (ha : ∀ x ∈ args, x < arena.size)
    (hu : arena.unifySignature? signature args = some bindings) :
    ∃ images, TypeArena.instances bindings signature arena = (images, arena) ∧
      List.Forall₂ (fun p image => arena.substitute bindings p = (image, arena)) signature images ∧
      List.Forall₂ (fun arg image => image < arena.size ∧ arena.isSubtype arg image = true) args images := by
  rw [h.canonical.unifySignature?_eq_meet, Option.bind_eq_some_iff] at hu
  obtain ⟨ds, hds, hmeet⟩ := hu
  have hall := pairwise_iff.mp ⟨ds, hds, meet_isMet hmeet⟩
  clear hds hmeet
  suffices himages : ∃ images,
      List.Forall₂ (fun p image => arena.substitute bindings p = (image, arena)) signature images ∧
      List.Forall₂ (fun arg image => image < arena.size ∧ arena.isSubtype arg image = true) args images by
    obtain ⟨images, hsubst, habove⟩ := himages
    exact ⟨images, mapTypes_of_forall₂ hsubst, hsubst, habove⟩
  induction hall with
  | nil => exact ⟨[], .nil, .nil⟩
  | cons hstep _ ih =>
    obtain ⟨hp, hs⟩ := List.forall_mem_cons.mp hs
    obtain ⟨ha, has⟩ := List.forall_mem_cons.mp ha
    obtain ⟨ds, hds, hmet⟩ := hstep
    obtain ⟨image, hlt, hsubst, habove⟩ := h.image_of_demands hp.1 ha hp.2 hds hmet
    obtain ⟨images, hsubsts, haboves⟩ := ih hs has
    exact ⟨image :: images, .cons hsubst hsubsts, .cons ⟨hlt, habove⟩ haboves⟩

end Regular

end TypeArena

end DispatchLang
