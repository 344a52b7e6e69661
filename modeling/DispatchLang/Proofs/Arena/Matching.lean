import DispatchLang.Arena.Unify
import DispatchLang.Proofs.Arena.Substitution

/-!
# Matching after a renaming

Matching the types of arguments against a signature only looks at these types, at what they are made of,
and at what is above them. A renaming of the types respects all of this, so it respects matching: the
variables stand for the same types under other indices. The operations below have a bound on their depth
that depends on the size of the arena; any bound above the index of the type does.

An arena that has grown is the case in which the indices are the same.

## Main results

* `unifySignature?_in`: what the variables stand for are types of the arena.
* `Embeds.unifySignature?_eq`: matching is the same after a renaming.
* `Extends.unifySignature?_eq`: matching is the same in an extension.
-/

namespace DispatchLang.TypeArena

variable {arena arena' : TypeArena} {bindings bindings' : Bindings} {id param arg : TypeId}

theorem parts_of_applied {base : TypeId} {args : List TypeId}
    (hk : (arena.get id).kind = .applied base args) {x : TypeId} (hx : x ∈ args) :
    x ∈ (arena.get id).kind.parts := by
  rw [hk]
  exact List.mem_cons_of_mem _ hx

theorem chain_lt (hi : arena.Ordered) (n : Nat) (hid : id < arena.size) :
    ∀ x ∈ arena.chain n id, x < arena.size := by
  induction n generalizing id with
  | zero => exact nofun
  | succ n ih =>
    rw [chain]
    refine List.forall_mem_cons.mpr ⟨hid, ?_⟩
    cases hup : (arena.get id).parent with
    | none => exact nofun
    | some up => exact ih (Nat.lt_trans (hi.parent_lt hup) hid)

/-! ## What variables stand for -/

theorem matchAll_in {step : Bindings → TypeId → TypeId → Option Bindings} {params args : List TypeId}
    (hstep : ∀ p ∈ params, ∀ a ∈ args, ∀ {bindings bindings' : Bindings}, bindings.In arena →
      step bindings p a = some bindings' → bindings'.In arena)
    (hb : bindings.In arena) (h : matchAll step bindings params args = some bindings') :
    bindings'.In arena := by
  induction params generalizing bindings args with
  | nil =>
    cases args with
    | nil => exact Option.some.inj h ▸ hb
    | cons a args => cases h
  | cons p params ih =>
    cases args with
    | nil => cases h
    | cons a args =>
      rw [matchAll, Option.bind_eq_bind, Option.bind_eq_some_iff] at h
      obtain ⟨next, hnext, hrest⟩ := h
      exact ih (fun p hp a ha => hstep p (List.mem_cons_of_mem _ hp) a (List.mem_cons_of_mem _ ha))
        (hstep p List.mem_cons_self a List.mem_cons_self hb hnext) hrest

theorem bind?_in {name : String} {constraint type : TypeId} (ht : type < arena.size)
    (hb : bindings.In arena) (h : arena.bind? bindings name constraint type = some bindings') :
    bindings'.In arena := by
  rw [bind?] at h
  split at h <;> split at h
  · exact Option.some.inj h ▸ hb
  · cases h
  · rw [← Option.some.inj h]
    exact List.forall_mem_cons.mpr ⟨ht, hb⟩
  · cases h

theorem matchExactly_in (hi : arena.Ordered) (n : Nat) {param arg : TypeId}
    {bindings bindings' : Bindings} (ha : arg < arena.size) (hb : bindings.In arena)
    (h : arena.matchExactly n bindings param arg = some bindings') : bindings'.In arena := by
  induction n generalizing param arg bindings bindings' with
  | zero => cases h
  | succ n ih =>
    rw [matchExactly] at h
    split at h
    · exact bind?_in ha hb h
    · split at h
      · rename_i hk
        split at h
        · exact matchAll_in (fun p _ a hmem _ _ hb h =>
            ih (Nat.lt_trans (hi.part_lt (parts_of_applied hk hmem)) ha) hb h) hb h
        · cases h
      · cases h
    · split at h
      · exact Option.some.inj h ▸ hb
      · cases h

theorem unify?_in (hi : arena.Ordered) (ha : arg < arena.size) (hb : bindings.In arena)
    (h : arena.unify? bindings param arg = some bindings') : bindings'.In arena := by
  have hplain : (if arena.isSubtype arg param then some bindings else none) = some bindings' →
      bindings'.In arena := by
    intro h
    split at h
    · exact Option.some.inj h ▸ hb
    · cases h
  rw [unify?] at h
  split at h
  · exact bind?_in ha hb h
  · split at h
    · obtain ⟨candidate, hmem, hfound⟩ := List.exists_of_findSome?_eq_some h
      have hcandidate : candidate < arena.size := chain_lt hi _ ha candidate hmem
      split at hfound
      · rename_i hk
        split at hfound
        · exact matchAll_in (fun p _ a hmem _ _ hb h =>
            matchExactly_in hi _ (Nat.lt_trans (hi.part_lt (parts_of_applied hk hmem)) hcandidate)
              hb h) hb hfound
        · cases hfound
      · cases hfound
    · exact hplain h
  · exact hplain h

theorem unifySignature?_in (hi : arena.Ordered) {signature args : List TypeId}
    (ha : ∀ x ∈ args, x < arena.size)
    (h : arena.unifySignature? signature args = some bindings) : bindings.In arena :=
  matchAll_in (fun _ _ a hmem _ _ hb h => unify?_in hi (ha a hmem) hb h)
    (fun _ hb => absurd hb List.not_mem_nil) h

/-! ## Variables and parents after a renaming -/

namespace Embeds

variable {f : TypeId → TypeId} (h : Embeds f arena arena') (hi' : arena'.Ordered)
include h hi'

theorem part_lt (hid : id < arena.size) {x : TypeId} (hx : x ∈ (arena.get id).kind.parts) : f x < f id := by
  refine hi'.part_lt ?_
  rw [h.kind hid, TypeKind.parts_map]
  exact List.mem_map_of_mem hx

theorem parent_lt (hid : id < arena.size) {up : TypeId} (hup : (arena.get id).parent = some up) :
    f up < f id := by
  refine hi'.parent_lt ?_
  rw [h.parent hid, hup, Option.map_some]

theorem hasVarsWithin_eq (hi : arena.Ordered) (n : Nat) {m : Nat} {id : TypeId} (hid : id < arena.size)
    (hn : id < n) (hm : f id < m) : arena'.hasVarsWithin m (f id) = arena.hasVarsWithin n id := by
  induction n generalizing m id with
  | zero => exact absurd hn (Nat.not_lt_zero id)
  | succ n ih =>
    cases m with
    | zero => exact absurd hm (Nat.not_lt_zero _)
    | succ m =>
      have hpart : ∀ x ∈ (arena.get id).kind.parts,
          arena'.hasVarsWithin m (f x) = arena.hasVarsWithin n x := fun x hx =>
        have hlt : x < id := hi.part_lt hx
        ih (Nat.lt_trans hlt hid) (Nat.lt_of_lt_of_le hlt (Nat.le_of_lt_succ hn))
          (Nat.lt_of_lt_of_le (h.part_lt hi' hid hx) (Nat.le_of_lt_succ hm))
      rw [hasVarsWithin, hasVarsWithin, h.kind hid]
      cases hk : (arena.get id).kind with
      | applied base args =>
        rw [hk, TypeKind.parts, List.forall_mem_cons] at hpart
        simp only [TypeKind.map, List.any_eq]
        grind
      | function params result =>
        rw [hk, TypeKind.parts, List.forall_mem_append, List.forall_mem_singleton] at hpart
        simp only [TypeKind.map, List.any_map]
        grind
      | _ => rfl

theorem hasVars_eq (hi : arena.Ordered) (hid : id < arena.size) :
    arena'.hasVars (f id) = arena.hasVars id :=
  h.hasVarsWithin_eq hi' hi _ hid (Nat.lt_succ_of_lt hid) (Nat.lt_succ_of_lt (h.lt hid))

theorem chain_eq (hi : arena.Ordered) (n : Nat) {m : Nat} {id : TypeId} (hid : id < arena.size)
    (hn : id < n) (hm : f id < m) : arena'.chain m (f id) = (arena.chain n id).map f := by
  induction n generalizing m id with
  | zero => exact absurd hn (Nat.not_lt_zero id)
  | succ n ih =>
    cases m with
    | zero => exact absurd hm (Nat.not_lt_zero _)
    | succ m =>
      rw [chain, chain, h.parent hid, List.map_cons]
      cases hup : (arena.get id).parent with
      | none => rfl
      | some up =>
        have hlt : up < id := hi.parent_lt hup
        dsimp only [Option.map_some]
        rw [ih (Nat.lt_trans hlt hid) (Nat.lt_of_lt_of_le hlt (Nat.le_of_lt_succ hn))
          (Nat.lt_of_lt_of_le (h.parent_lt hi' hid hup) (Nat.le_of_lt_succ hm))]

theorem ancestors_eq (hi : arena.Ordered) (hid : id < arena.size) :
    arena'.ancestors (f id) = (arena.ancestors id).map f :=
  h.chain_eq hi' hi _ hid (Nat.lt_succ_of_lt hid) (Nat.lt_succ_of_lt (h.lt hid))

end Embeds

/-! ## Matching after a renaming -/

theorem findSome?_map_congr {α β γ : Type} {f : α → Option β} {g : α → Option γ} {k : β → γ} {l : List α}
    (h : ∀ x ∈ l, g x = (f x).map k) : l.findSome? g = (l.findSome? f).map k := by
  induction l with
  | nil => rfl
  | cons x l ih =>
    rw [List.findSome?_cons, List.findSome?_cons, h x List.mem_cons_self]
    cases f x with
    | some y => rfl
    | none => exact ih fun y hy => h y (List.mem_cons_of_mem _ hy)

/-- Elements are matched in turn after a renaming if each of them is. -/
theorem matchAll_rename {f : TypeId → TypeId} {step step' : Bindings → TypeId → TypeId → Option Bindings}
    {params args : List TypeId}
    (hstep : ∀ p ∈ params, ∀ a ∈ args, ∀ {bindings : Bindings}, bindings.In arena →
      step' (bindings.rename f) (f p) (f a) = (step bindings p a).map (Bindings.rename f))
    (hin : ∀ p ∈ params, ∀ a ∈ args, ∀ {bindings bindings' : Bindings}, bindings.In arena →
      step bindings p a = some bindings' → bindings'.In arena) (hb : bindings.In arena) :
    matchAll step' (bindings.rename f) (params.map f) (args.map f) =
      (matchAll step bindings params args).map (Bindings.rename f) := by
  induction params generalizing bindings args with
  | nil => cases args <;> rfl
  | cons p params ih =>
    cases args with
    | nil => rfl
    | cons a args =>
      rw [List.map_cons, List.map_cons, matchAll, matchAll,
        hstep p List.mem_cons_self a List.mem_cons_self hb]
      cases hnext : step bindings p a with
      | none => rfl
      | some next =>
        exact ih (fun p hp a ha => hstep p (List.mem_cons_of_mem _ hp) a (List.mem_cons_of_mem _ ha))
          (fun p hp a ha => hin p (List.mem_cons_of_mem _ hp) a (List.mem_cons_of_mem _ ha))
          (hin p List.mem_cons_self a List.mem_cons_self hb hnext)

namespace Embeds

variable {f : TypeId → TypeId} (h : Embeds f arena arena') (hi : arena.Ordered) (hi' : arena'.Ordered)
include h hi hi'

theorem bind?_eq (hb : bindings.In arena) {name : String} {constraint type : TypeId}
    (hc : constraint < arena.size) (ht : type < arena.size) :
    arena'.bind? (bindings.rename f) name (f constraint) (f type) =
      (arena.bind? bindings name constraint type).map (Bindings.rename f) := by
  rw [bind?, bind?, Bindings.lookup_rename, h.isSubtype_eq hi hi' ht hc]
  cases hl : bindings.lookup name with
  | none =>
    dsimp only [Option.map_none]
    split <;> rfl
  | some bound =>
    dsimp only [Option.map_some]
    rw [if_congr (h.eq_iff (hb _ (Assoc.mem_of_lookup hl)) ht) rfl rfl]
    split <;> rfl

theorem matchExactly_eq (n : Nat) {m : Nat} {param arg : TypeId} {bindings : Bindings}
    (hb : bindings.In arena) (hp : param < arena.size) (ha : arg < arena.size) (hn : param < n)
    (hm : f param < m) :
    arena'.matchExactly m (bindings.rename f) (f param) (f arg) =
      (arena.matchExactly n bindings param arg).map (Bindings.rename f) := by
  induction n generalizing m param arg bindings with
  | zero => exact absurd hn (Nat.not_lt_zero param)
  | succ n ih =>
    cases m with
    | zero => exact absurd hm (Nat.not_lt_zero _)
    | succ m =>
      have hsame : (if f param = f arg then some (bindings.rename f) else none) =
          (if param = arg then some bindings else none).map (Bindings.rename f) := by
        rw [if_congr (h.eq_iff hp ha) rfl rfl]
        split <;> rfl
      rw [matchExactly, matchExactly, h.kind hp, h.kind ha]
      cases hk : (arena.get param).kind with
      | var constraint =>
        have hc : constraint < param := hi.part_lt (hk ▸ List.mem_singleton_self constraint)
        dsimp only [TypeKind.map]
        rw [h.varName hp hk]
        exact h.bind?_eq hi hi' hb (Nat.lt_trans hc hp) ha
      | applied base params =>
        cases hk' : (arena.get arg).kind with
        | applied base' args =>
          have hbase : base < arena.size := Nat.lt_trans (hi.part_lt (hk ▸ List.mem_cons_self)) hp
          have hbase' : base' < arena.size := Nat.lt_trans (hi.part_lt (hk' ▸ List.mem_cons_self)) ha
          dsimp only [TypeKind.map]
          rw [if_congr (h.eq_iff hbase hbase') rfl rfl]
          split
          · refine matchAll_rename (fun p hmem a hmem' bindings hb => ?_) (fun p _ a hmem _ _ hb hout =>
              matchExactly_in hi _ (Nat.lt_trans (hi.part_lt (parts_of_applied hk' hmem)) ha) hb hout) hb
            have hlt : p < param := hi.part_lt (parts_of_applied hk hmem)
            have hlt' : a < arg := hi.part_lt (parts_of_applied hk' hmem')
            exact ih hb (Nat.lt_trans hlt hp) (Nat.lt_trans hlt' ha)
              (Nat.lt_of_lt_of_le hlt (Nat.le_of_lt_succ hn))
              (Nat.lt_of_lt_of_le (h.part_lt hi' hp (parts_of_applied hk hmem)) (Nat.le_of_lt_succ hm))
          · rfl
        | _ => rfl
      | _ => exact hsame

/-- Matching the type of an argument is the same after a renaming. -/
theorem unify?_eq (hb : bindings.In arena) (hp : param < arena.size) (ha : arg < arena.size) :
    arena'.unify? (bindings.rename f) (f param) (f arg) =
      (arena.unify? bindings param arg).map (Bindings.rename f) := by
  have hplain : (if arena'.isSubtype (f arg) (f param) then some (bindings.rename f) else none) =
      (if arena.isSubtype arg param then some bindings else none).map (Bindings.rename f) := by
    rw [h.isSubtype_eq hi hi' ha hp]
    split <;> rfl
  rw [unify?, unify?, h.kind hp, h.hasVars_eq hi' hi hp, h.ancestors_eq hi' hi ha]
  cases hk : (arena.get param).kind with
  | var constraint =>
    have hc : constraint < param := hi.part_lt (hk ▸ List.mem_singleton_self constraint)
    dsimp only [TypeKind.map]
    rw [h.varName hp hk]
    exact h.bind?_eq hi hi' hb (Nat.lt_trans hc hp) ha
  | applied base params =>
    dsimp only [TypeKind.map]
    split
    · rw [List.findSome?_map]
      refine findSome?_map_congr fun candidate hmem => ?_
      have hcandidate : candidate < arena.size := chain_lt hi _ ha candidate hmem
      rw [Function.comp_apply, h.kind hcandidate]
      cases hk' : (arena.get candidate).kind with
      | applied base' args =>
        have hbase : base < arena.size := Nat.lt_trans (hi.part_lt (hk ▸ List.mem_cons_self)) hp
        have hbase' : base' < arena.size :=
          Nat.lt_trans (hi.part_lt (hk' ▸ List.mem_cons_self)) hcandidate
        dsimp only [TypeKind.map]
        rw [if_congr (h.eq_iff hbase hbase') rfl rfl]
        split
        · refine matchAll_rename (fun p hmem a hmem' bindings hb => ?_) (fun p _ a hmem _ _ hb hout =>
            matchExactly_in hi _ (Nat.lt_trans (hi.part_lt (parts_of_applied hk' hmem)) hcandidate) hb hout)
            hb
          have hlt : p < arena.size := Nat.lt_trans (hi.part_lt (parts_of_applied hk hmem)) hp
          have hlt' : a < arena.size :=
            Nat.lt_trans (hi.part_lt (parts_of_applied hk' hmem')) hcandidate
          exact h.matchExactly_eq hi hi' _ hb hlt hlt' (Nat.lt_succ_of_lt hlt)
            (Nat.lt_succ_of_lt (h.lt hlt))
        · rfl
      | _ => rfl
    · exact hplain
  | _ => exact hplain

/-- Matching the types of all arguments is the same after a renaming. -/
theorem unifySignature?_eq {signature args : List TypeId} (hs : ∀ x ∈ signature, x < arena.size)
    (ha : ∀ x ∈ args, x < arena.size) :
    arena'.unifySignature? (signature.map f) (args.map f) =
      (arena.unifySignature? signature args).map (Bindings.rename f) :=
  @matchAll_rename arena [] f arena.unify? arena'.unify? signature args
    (fun p hp a hmem _ hb => h.unify?_eq hi hi' hb (hs p hp) (ha a hmem))
    (fun _ _ a hmem _ _ hb hout => unify?_in hi (ha a hmem) hb hout)
    fun _ hb => absurd hb List.not_mem_nil

end Embeds

/-! ## Matching in an extension -/

namespace Extends

variable (he : arena.Extends arena') (hi : arena.Ordered) (hi' : arena'.Ordered)
include he hi hi'

theorem isSubtype_eq {child parent : TypeId} (hc : child < arena.size) (hp : parent < arena.size) :
    arena'.isSubtype child parent = arena.isSubtype child parent :=
  he.embeds.isSubtype_eq hi hi' hc hp

theorem chain_eq (n : Nat) {m : Nat} (hid : id < arena.size) (hn : id < n) (hm : id < m) :
    arena'.chain m id = arena.chain n id :=
  (he.embeds.chain_eq hi' hi n hid hn hm).trans (List.map_id' _)

/-- Matching the types of all arguments is the same in an extension. -/
theorem unifySignature?_eq {signature args : List TypeId} (hs : ∀ x ∈ signature, x < arena.size)
    (ha : ∀ x ∈ args, x < arena.size) :
    arena'.unifySignature? signature args = arena.unifySignature? signature args := by
  have heq := he.embeds.unifySignature?_eq hi hi' hs ha
  rw [List.map_id', List.map_id'] at heq
  rw [heq]
  cases hb : arena.unifySignature? signature args with
  | none => rfl
  | some bindings =>
    exact congrArg some (Bindings.rename_eq (unifySignature?_in hi ha hb) fun _ _ => rfl)

end Extends

end DispatchLang.TypeArena
