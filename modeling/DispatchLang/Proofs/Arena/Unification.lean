import DispatchLang.Proofs.Arena.Demands

/-!
# Matching finds the only assignment

Matching binds greedily, from left to right, and looks for the type of an argument in one chain of parents
after the other. What it is meant to find can be said without any order: an assignment of types to the
type variables of the signature that *fits* the arguments (`Fits`). A bare variable is assigned the type of
its argument; an applied parameter that mentions variables becomes the argument or a type above it once
they are replaced; every other parameter is above its argument; and all constraints are respected.

A signature determines such an assignment, if there is one: each variable occurs somewhere, and there the
argument says what it is. The assignment is then what matching returns. That an applied parameter becomes
the very type that is there, and not one that looks like it, is because applied types are interned: in a
regular arena, building an applied type out of the parts of one that is there gives back that one
(`substituteWithin_applied_iff`).

The matching of the model answers new bindings or nothing. One that works on bindings in place may have
bound some variables before it finds out that a type does not match, and has to take a copy where it may
still go on after that. `unifyInPlace` does that, and leaves the bindings as they were when it fails
(`unifyInPlace_eq`).

## Main results

* `substituteWithin_eq_iff`: replacing the variables of a type gives a certain type of the arena if and only
  if the assignment meets the demands of matching the two exactly.
* `unifySignature?_complete`: matching succeeds if and only if there is an assignment that fits, and finds
  it.
* `assignment_not_matched`: where applied types are not interned, it need not.
-/

namespace DispatchLang.TypeArena

variable {arena arena' : TypeArena} {bindings bindings' assignment : Bindings} {param arg id : TypeId}
  {params args signature : List TypeId} {kind : TypeKind}

/-! ## Substitution that gives a type that is there -/

theorem forall₂_congr_of_mem {α β : Type} {R S : α → β → Prop} {as : List α} {bs : List β}
    (h : ∀ a ∈ as, ∀ b ∈ bs, R a b ↔ S a b) : List.Forall₂ R as bs ↔ List.Forall₂ S as bs := by
  rw [List.forall₂_iff_zip, List.forall₂_iff_zip]
  refine and_congr_right fun _ => forall_congr' fun a => forall_congr' fun b => ?_
  exact forall_congr' fun hab => h a (List.of_mem_zip hab).1 b (List.of_mem_zip hab).2

theorem Interns.eq_of_lt (h : arena.Interns kind id arena') (hi : arena.Indexed)
    (hid : id < arena.size) : arena' = arena ∧ (arena.get id).kind = kind := by
  cases h with
  | found hfound => exact ⟨rfl, (hi.index hfound).2.1⟩
  | added _ _ _ => exact absurd hid (Nat.lt_irrefl _)

/-- Steps that add nothing if they give types of the arena. -/
theorem mapTypes_eq_map {step : TypeId → TypeArena → TypeId × TypeArena}
    (hstep : ∀ id ∈ params, (step id arena).1 < arena.size → (step id arena).2 = arena)
    (himages : (∀ x ∈ (mapTypes step params arena).1, x < arena.size) ∨
      ∀ x ∈ params, (step x arena).1 < arena.size) :
    mapTypes step params arena = (params.map fun id => (step id arena).1, arena) := by
  induction params with
  | nil => rfl
  | cons id params ih =>
    rw [mapTypes_cons] at himages ⊢
    have hfirst : (step id arena).1 < arena.size := by
      rcases himages with h | h
      · exact h _ List.mem_cons_self
      · exact h id List.mem_cons_self
    have hstay : (step id arena).2 = arena := hstep id List.mem_cons_self hfirst
    rw [hstay] at himages ⊢
    rw [ih (fun x hx => hstep x (List.mem_cons_of_mem _ hx))
      (himages.imp (fun h x hx => h x (List.mem_cons_of_mem _ hx))
        (fun h x hx => h x (List.mem_cons_of_mem _ hx))), List.map_cons]

theorem substituteWithin_applied_stays (hi : arena.Indexed) (n : Nat) {base : TypeId}
    (hs : assignment.In arena) (hid : id < arena.size) (hk : (arena.get id).kind = .applied base params)
    (hstep : ∀ x ∈ params, (substituteWithin assignment n x arena).1 < arena.size →
      (substituteWithin assignment n x arena).2 = arena)
    (hlt : (substituteWithin assignment (n + 1) id arena).1 < arena.size) :
    (substituteWithin assignment (n + 1) id arena).2 = arena ∧
      (arena.get (substituteWithin assignment (n + 1) id arena).1).kind =
        .applied base (params.map fun x => (substituteWithin assignment n x arena).1) := by
  rw [substituteWithin, hk] at hlt ⊢
  dsimp only at hlt ⊢
  have hgrow : arena.GrowsAll (mapTypes (substituteWithin assignment n) params arena) := by
    have hinner := inner_grows n hi hs hid
    rw [hk] at hinner
    exact mapTypes_grows _ _ hi hinner
  have hint := applied_interns (mapTypes (substituteWithin assignment n) params arena).2 base
    (mapTypes (substituteWithin assignment n) params arena).1
  obtain ⟨hsame, hkind⟩ := hint.eq_of_lt hgrow.indexed (hgrow.extension.lt hlt)
  rw [hgrow.extension.get_eq hlt] at hkind
  have himages : ∀ x ∈ (mapTypes (substituteWithin assignment n) params arena).1, x < arena.size :=
    fun x hx => Nat.lt_trans (hi.toOrdered.part_lt (parts_of_applied hkind hx)) hlt
  have hmap := mapTypes_eq_map hstep (.inl himages)
  rw [hsame, hkind, hmap]
  exact ⟨rfl, rfl⟩

/-- Substitution that gives a type of the arena adds none. -/
theorem substituteWithin_stays (hi : arena.Indexed) (hs : assignment.In arena) (n : Nat)
    {id : TypeId} (hid : id < arena.size) (hf : arena.FunctionFree id)
    (hlt : (substituteWithin assignment n id arena).1 < arena.size) :
    (substituteWithin assignment n id arena).2 = arena := by
  induction n generalizing id with
  | zero => rfl
  | succ n ih =>
    cases hk : (arena.get id).kind with
    | applied base params =>
      refine (substituteWithin_applied_stays hi n hs hid hk (fun x hx => ?_) hlt).1
      have hin : x ∈ (arena.get id).kind.inner := by rw [hk]; exact hx
      exact ih (Nat.lt_trans (inner_lt hi.toOrdered hin) hid) (hf.inner hi.toOrdered hid hin)
    | function params result => exact absurd hk (hf id self_mem_constituents params result)
    | _ => rw [substituteWithin, hk]

namespace Canonical

variable (h : arena.Canonical)
include h

/-- Replacing the variables of an applied type gives a type that is there exactly if that type is the
base applied to what replacing the variables of the arguments gives. -/
theorem substituteWithin_applied_iff (hs : assignment.In arena) (n : Nat) {base : TypeId}
    (hid : id < arena.size) (hf : arena.FunctionFree id)
    (hk : (arena.get id).kind = .applied base params) (ha : arg < arena.size) :
    (substituteWithin assignment (n + 1) id arena).1 = arg ↔
      (arena.get arg).kind =
        .applied base (params.map fun x => (substituteWithin assignment n x arena).1) := by
  have hstep : ∀ x ∈ params, (substituteWithin assignment n x arena).1 < arena.size →
      (substituteWithin assignment n x arena).2 = arena := fun x hx => by
    have hin : x ∈ (arena.get id).kind.inner := by rw [hk]; exact hx
    exact substituteWithin_stays h.toIndexed hs n
      (Nat.lt_trans (inner_lt h.toOrdered hin) hid) (hf.inner h.toOrdered hid hin)
  constructor
  · rintro rfl
    exact (substituteWithin_applied_stays h.toIndexed n hs hid hk hstep ha).2
  · intro hka
    have himages : ∀ x ∈ params, (substituteWithin assignment n x arena).1 < arena.size := fun x hx =>
      Nat.lt_trans (h.part_lt (parts_of_applied hka (List.mem_map_of_mem hx))) ha
    rw [substituteWithin, hk]
    dsimp only
    rw [mapTypes_eq_map hstep (.inr himages), h.applied_eq hka]

/-- Replacing the variables of a type gives a certain type that is there exactly if the assignment meets
the demands of matching the two. -/
theorem substituteWithin_eq_iff (hs : assignment.In arena) (n m : Nat) {param arg : TypeId}
    (hp : param < arena.size) (ha : arg < arena.size) (hn : param < n) (hm : param < m)
    (hf : arena.FunctionFree param)
    (htotal : ∀ name constraint, arena.Occurs name constraint param →
      (assignment.lookup name).isSome) :
    (substituteWithin assignment n param arena).1 = arg ↔
      ∃ ds, arena.demandsExactly m param arg = some ds ∧ ∀ d ∈ ds, d.IsMet assignment := by
  induction n generalizing m param arg with
  | zero => exact absurd hn (Nat.not_lt_zero param)
  | succ n ih =>
    cases m with
    | zero => exact absurd hm (Nat.not_lt_zero param)
    | succ m =>
      cases hk : (arena.get param).kind with
      | var constraint =>
        obtain ⟨type, htype⟩ :=
          Option.isSome_iff_exists.mp (htotal _ _ ((occurs_var h.toOrdered hp hk).mpr ⟨rfl, rfl⟩))
        rw [substituteWithin, demandsExactly, hk]
        simp [Demand.IsMet, htype]
      | applied base params =>
        rw [h.substituteWithin_applied_iff hs n hp hf hk ha, demandsExactly, hk]
        cases hka : (arena.get arg).kind with
        | applied base' args =>
          dsimp only
          by_cases hbase : base = base'
          · have hinner : ∀ x ∈ params, x ∈ (arena.get param).kind.inner := fun x hx => by
              rw [hk]
              exact hx
            rw [if_pos hbase, pairwise_iff, TypeKind.applied.injEq, and_iff_right hbase.symm,
              eq_comm, ← List.forall₂_eq_eq_eq, List.forall₂_map_left_iff]
            refine forall₂_congr_of_mem fun x hx a hxa => ?_
            have hlt : x < param := inner_lt h.toOrdered (hinner x hx)
            refine ih m (Nat.lt_trans hlt hp)
              (Nat.lt_trans (h.part_lt (parts_of_applied hka hxa)) ha)
              (Nat.lt_of_lt_of_le hlt (Nat.le_of_lt_succ hn))
              (Nat.lt_of_lt_of_le hlt (Nat.le_of_lt_succ hm))
              (hf.inner h.toOrdered hp (hinner x hx)) fun name constraint ho => ?_
            refine htotal name constraint ?_
            rw [occurs_iff_inner h.toOrdered hp (by simp [hk])]
            exact ⟨x, hinner x hx, ho⟩
          · rw [if_neg hbase, TypeKind.applied.injEq]
            exact iff_of_false (fun heq => hbase heq.1.symm) (by simp)
        | _ => exact iff_of_false TypeKind.noConfusion (by simp)
      | function params result => exact absurd hk (hf param self_mem_constituents params result)
      | _ =>
        rw [substituteWithin, demandsExactly, hk]
        by_cases heq : param = arg <;> simp [heq]

/-- A type without variables that stand for something stays what it is. -/
theorem substituteWithin_eq_self (n : Nat) {id : TypeId} (hid : id < arena.size) (hn : id < n)
    (hf : arena.FunctionFree id)
    (hnone : ∀ name constraint, arena.Occurs name constraint id → assignment.lookup name = none) :
    substituteWithin assignment n id arena = (id, arena) := by
  induction n generalizing id with
  | zero => exact absurd hn (Nat.not_lt_zero id)
  | succ n ih =>
    cases hk : (arena.get id).kind with
    | var constraint =>
      rw [substituteWithin, hk]
      dsimp only
      rw [hnone _ _ ((occurs_var h.toOrdered hid hk).mpr ⟨rfl, rfl⟩), Option.getD_none]
    | applied base params =>
      have hself : ∀ x ∈ params, substituteWithin assignment n x arena = (x, arena) := fun x hx => by
        have hin : x ∈ (arena.get id).kind.inner := by rw [hk]; exact hx
        have hlt : x < id := inner_lt h.toOrdered hin
        refine ih (Nat.lt_trans hlt hid) (Nat.lt_of_lt_of_le hlt (Nat.le_of_lt_succ hn))
          (hf.inner h.toOrdered hid hin) fun name constraint ho => hnone name constraint ?_
        rw [occurs_iff_inner h.toOrdered hid (by simp [hk])]
        exact ⟨x, hin, ho⟩
      have hmap : mapTypes (substituteWithin assignment n) params arena = (params, arena) := by
        rw [mapTypes_eq_map (fun x hx _ => by rw [hself x hx]) (.inr fun x hx => ?_)]
        · rw [List.map_congr_left fun x hx => by rw [hself x hx], List.map_id']
        · rw [hself x hx]
          exact Nat.lt_trans (h.part_lt (parts_of_applied hk hx)) hid
      rw [substituteWithin, hk]
      dsimp only
      rw [hmap, h.applied_eq hk]
    | function params result => exact absurd hk (hf id self_mem_constituents params result)
    | _ => rw [substituteWithin, hk]

end Canonical

/-! ## Assignments that fit -/

def Meets (arena : TypeArena) (assignment : Bindings) (param arg : TypeId) : Prop :=
  match (arena.get param).kind with
  | .var _ => assignment.lookup (arena.name param) = some arg
  | .applied _ _ =>
    if arena.hasVars param then (arena.substitute assignment param).1 ∈ arena.ancestors arg
    else arena.isSubtype arg param = true
  | _ => arena.isSubtype arg param = true

theorem meets_applied {base : TypeId} (hk : (arena.get param).kind = .applied base params)
    (hv : arena.hasVars param = true) :
    arena.Meets assignment param arg ↔ (arena.substitute assignment param).1 ∈ arena.ancestors arg := by
  rw [Meets, hk]
  dsimp only
  rw [if_pos hv]

/-- An assignment of types of the arena to the type variables of a signature that fits the types of some
arguments. -/
structure Fits (arena : TypeArena) (signature args : List TypeId) (assignment : Bindings) : Prop where
  /-- Types of the arena are assigned. -/
  types : assignment.In arena
  /-- They are assigned to the variables that occur in the signature and to nothing else. -/
  assigned : ∀ name, (assignment.lookup name).isSome ↔
    ∃ v ∈ arena.varsOf signature, arena.name v = name
  /-- There are as many arguments as parameters, and the parameters fit them one by one. -/
  params : List.Forall₂ (arena.Meets assignment) signature args
  /-- What is assigned to a variable is below its constraint. -/
  constraints : ∀ v ∈ arena.varsOf signature, ∀ constraint, (arena.get v).kind = .var constraint →
    ∀ type, assignment.lookup (arena.name v) = some type → arena.isSubtype type constraint = true

/-- A signature whose types are in the arena, without function types, in which all variables of one name
have one constraint. -/
structure IsSignature (arena : TypeArena) (signature : List TypeId) : Prop where
  types : ∀ p ∈ signature, p < arena.size
  functionFree : ∀ p ∈ signature, arena.FunctionFree p
  oneConstraint : ∀ v ∈ arena.varsOf signature, ∀ w ∈ arena.varsOf signature,
    arena.name v = arena.name w → (arena.get v).kind = (arena.get w).kind

namespace Canonical

variable (h : arena.Canonical)
include h

/-- An assignment fits a parameter exactly if it meets the demands of matching it. -/
theorem meets_iff (hs : assignment.In arena) (hp : param < arena.size) (ha : arg < arena.size)
    (hf : arena.FunctionFree param)
    (htotal : ∀ name constraint, arena.Occurs name constraint param →
      (assignment.lookup name).isSome) :
    arena.Meets assignment param arg ↔
      ∃ ds, arena.demands param arg = some ds ∧ ∀ d ∈ ds, d.IsMet assignment := by
  have hplain : arena.isSubtype arg param = true ↔
      ∃ ds : List Demand, (if arena.isSubtype arg param then some [] else none) = some ds ∧
        ∀ d ∈ ds, d.IsMet assignment := by
    cases arena.isSubtype arg param <;> simp
  rw [Meets, demands]
  cases hk : (arena.get param).kind with
  | var constraint => simp [Demand.IsMet]
  | applied base params =>
    dsimp only
    split
    · -- The image of the parameter is the type of its base that is on the chain, if there is one.
      have hexact := fun {x : TypeId} (hx : x < arena.size) =>
        h.substituteWithin_eq_iff hs (arena.size + 1) (arena.size + 2) hp hx (Nat.lt_succ_of_lt hp)
          (Nat.lt_succ_of_lt (Nat.lt_succ_of_lt hp)) hf htotal
      constructor
      · intro hmem
        have hx := chain_lt h.toOrdered _ ha _ hmem
        obtain ⟨ds, hds, hmet⟩ := (hexact hx).mp rfl
        have hkx := (h.substituteWithin_applied_iff hs arena.size hp hf hk hx).mp rfl
        refine ⟨ds, ?_, hmet⟩
        rw [h.instance?_eq hmem hkx, Option.bind_some]
        exact hds
      · rintro ⟨ds, hds, hmet⟩
        obtain ⟨x, hinst, hds⟩ := Option.bind_eq_some_iff.mp hds
        have hmem : x ∈ arena.ancestors arg := List.mem_of_find?_eq_some hinst
        have himage := (hexact (chain_lt h.toOrdered _ ha _ hmem)).mpr ⟨ds, hds, hmet⟩
        rw [substitute, himage]
        exact hmem
    · exact hplain
  | _ => exact hplain

/-- A parameter that an assignment fits is above its argument once its variables are replaced, and its
image is a type that is there already. -/
theorem image_of_meets (hs : assignment.In arena) (hp : param < arena.size) (ha : arg < arena.size)
    (hf : arena.FunctionFree param) (hm : arena.Meets assignment param arg) :
    ∃ image, arena.substitute assignment param = (image, arena) ∧ arena.isSubtype arg image = true := by
  have hself : (∀ name constraint, ¬ arena.Occurs name constraint param) →
      arena.isSubtype arg param = true →
      ∃ image, arena.substitute assignment param = (image, arena) ∧
        arena.isSubtype arg image = true := fun hnone hsub =>
    ⟨param, h.substituteWithin_eq_self _ hp (Nat.lt_succ_of_lt hp) hf
      fun name constraint ho => absurd ho (hnone name constraint), hsub⟩
  rw [Meets] at hm
  cases hk : (arena.get param).kind with
  | var constraint =>
    rw [hk] at hm
    refine ⟨arg, ?_, (h.isSubtype_iff_below ha ha).mpr (below_of_admits (.inl rfl))⟩
    rw [substitute, substituteWithin, hk]
    dsimp only at hm ⊢
    rw [hm, Option.getD_some]
  | applied base params =>
    rw [hk] at hm
    dsimp only at hm
    split at hm
    · have hx := chain_lt h.toOrdered _ ha _ hm
      have hkx := (h.substituteWithin_applied_iff hs arena.size hp hf hk hx).mp rfl
      exact ⟨_, Prod.ext rfl (substituteWithin_stays h.toIndexed hs _ hp hf hx),
        h.isSubtype_ancestor ha hm hkx⟩
    · rename_i hvars
      exact hself (fun name constraint ho => hvars (hasVars_iff.mpr ⟨name, constraint, ho⟩)) hm
  | function params result => exact absurd hk (hf param self_mem_constituents params result)
  | _ =>
    rw [hk] at hm
    refine hself (fun name constraint ho => ?_) hm
    rw [occurs_iff_inner h.toOrdered hp (by simp [hk]), hk] at ho
    obtain ⟨x, hx, -⟩ := ho
    cases hx

end Canonical

/-! ## The assignment that matching finds -/

section Complete

variable (h : arena.Canonical) (hs : arena.IsSignature signature) (ha : ∀ a ∈ args, a < arena.size)
include h hs

/-- Something is demanded of a variable exactly if it occurs in the signature. -/
theorem IsSignature.demanded_iff {ds : List Demand}
    (hds : pairwise arena.demands signature args = some ds) {name : String} {constraint : TypeId} :
    (∃ d ∈ ds, d.name = name ∧ d.constraint = constraint) ↔
      ∃ v ∈ arena.varsOf signature, (arena.get v).kind = .var constraint ∧ arena.name v = name := by
  rw [← exists_occurs_iff]
  constructor
  · rintro ⟨d, hd, rfl, rfl⟩
    have hoccurs := forall_pairwise (P := fun d => ∃ p ∈ signature, arena.Occurs d.name d.constraint p)
      hds fun p hp _ _ _ hstep d hd =>
        ⟨p, hp, occurs_of_demands h.toOrdered (hs.types p hp) hstep d hd⟩
    exact hoccurs d hd
  · rintro ⟨p, hp, ho⟩
    exact exists_pairwise hds hp fun _ _ _ hstep =>
      exists_mem_demands h.toOrdered (hs.types p hp) (hs.functionFree p hp) hstep ho

include ha

/-- The parameters fit the arguments exactly if all their demands are met. -/
theorem IsSignature.meets_all_iff (hin : assignment.In arena)
    (htotal : ∀ v ∈ arena.varsOf signature, (assignment.lookup (arena.name v)).isSome) :
    List.Forall₂ (arena.Meets assignment) signature args ↔
      ∃ ds, pairwise arena.demands signature args = some ds ∧ ∀ d ∈ ds, d.IsMet assignment := by
  rw [pairwise_iff]
  refine forall₂_congr_of_mem fun p hp a hmem => ?_
  refine h.meets_iff hin (hs.types p hp) (ha a hmem) (hs.functionFree p hp) fun name constraint ho => ?_
  obtain ⟨v, hv, -, rfl⟩ := exists_occurs_iff.mp ⟨p, hp, ho⟩
  exact htotal v hv

/-- If an assignment fits, matching succeeds. -/
theorem Fits.exists_bindings (hfit : arena.Fits signature args assignment) :
    ∃ bindings, arena.unifySignature? signature args = some bindings := by
  obtain ⟨ds, hds, hmet⟩ := (hs.meets_all_iff h ha hfit.types fun v hv =>
    (hfit.assigned _).mpr ⟨v, hv, rfl⟩).mp hfit.params
  obtain ⟨bindings, hbindings⟩ : ∃ bindings, arena.meet [] ds = some bindings := by
    have hnone : ∀ x t, ([] : Bindings).lookup x = some t → assignment.lookup x = some t := nofun
    refine exists_meet hnone fun d hd => ⟨hmet d hd, ?_⟩
    obtain ⟨v, hv, hk, hname⟩ := (hs.demanded_iff h hds).mp ⟨d, hd, rfl, rfl⟩
    refine hfit.constraints v hv d.constraint hk d.type ?_
    rw [hname]
    exact hmet d hd
  refine ⟨bindings, ?_⟩
  rw [h.unifySignature?_eq_meet, hds]
  exact hbindings

/-- What matching finds is an assignment that fits. -/
theorem IsSignature.fits_bindings (hb : arena.unifySignature? signature args = some bindings) :
    arena.Fits signature args bindings := by
  have hin : bindings.In arena := unifySignature?_in h.toOrdered ha hb
  rw [h.unifySignature?_eq_meet] at hb
  obtain ⟨ds, hds, hmeet⟩ := Option.bind_eq_some_iff.mp hb
  have hsound : ∀ {name type}, bindings.lookup name = some type →
      ∃ d ∈ ds, d.name = name ∧ d.type = type ∧ arena.isSubtype type d.constraint = true :=
    fun hx => (meet_sound hmeet hx).resolve_left nofun
  have htotal : ∀ v ∈ arena.varsOf signature, (bindings.lookup (arena.name v)).isSome := by
    intro v hv
    obtain ⟨-, constraint, hk⟩ := mem_varsOf.mp hv
    obtain ⟨d, hd, hname, -⟩ := (hs.demanded_iff h hds).mpr ⟨v, hv, hk, rfl⟩
    have hmet : d.IsMet bindings := meet_isMet hmeet d hd
    rw [← hname, hmet]
    rfl
  refine ⟨hin, fun name => ⟨fun hsome => ?_, ?_⟩, ?_, fun v hv constraint hk type hx => ?_⟩
  · obtain ⟨type, hx⟩ := Option.isSome_iff_exists.mp hsome
    obtain ⟨d, hd, hname, -⟩ := hsound hx
    obtain ⟨v, hv, -, hv'⟩ := (hs.demanded_iff h hds).mp ⟨d, hd, hname, rfl⟩
    exact ⟨v, hv, hv'⟩
  · rintro ⟨v, hv, rfl⟩
    exact htotal v hv
  · exact (hs.meets_all_iff h ha hin htotal).mpr ⟨ds, hds, meet_isMet hmeet⟩
  · -- The variable that was bound first has the constraint of every other one of its name.
    obtain ⟨d, hd, hname, -, hsub⟩ := hsound hx
    obtain ⟨w, hw, hkw, hnamew⟩ := (hs.demanded_iff h hds).mp ⟨d, hd, hname, rfl⟩
    have heq := hs.oneConstraint v hv w hw hnamew.symm
    rw [hk, hkw] at heq
    rw [TypeKind.var.inj heq]
    exact hsub

/-- No assignment but the one that matching finds fits. -/
theorem Fits.lookup_eq (hfit : arena.Fits signature args assignment)
    (hb : arena.unifySignature? signature args = some bindings) (name : String) :
    assignment.lookup name = bindings.lookup name := by
  have hfit' := hs.fits_bindings h ha hb
  obtain ⟨ds, hds, hmet⟩ := (hs.meets_all_iff h ha hfit.types fun v hv =>
    (hfit.assigned _).mpr ⟨v, hv, rfl⟩).mp hfit.params
  obtain ⟨ds', hds', hmet'⟩ := (hs.meets_all_iff h ha hfit'.types fun v hv =>
    (hfit'.assigned _).mpr ⟨v, hv, rfl⟩).mp hfit'.params
  obtain rfl : ds = ds' := Option.some.inj (hds.symm.trans hds')
  by_cases hvar : ∃ v ∈ arena.varsOf signature, arena.name v = name
  · obtain ⟨v, hv, rfl⟩ := hvar
    obtain ⟨-, constraint, hk⟩ := mem_varsOf.mp hv
    obtain ⟨d, hd, hname, -⟩ := (hs.demanded_iff h hds).mpr ⟨v, hv, hk, rfl⟩
    rw [← hname, hmet d hd, hmet' d hd]
  · rw [Option.not_isSome_iff_eq_none.mp (mt (hfit.assigned name).mp hvar),
      Option.not_isSome_iff_eq_none.mp (mt (hfit'.assigned name).mp hvar)]

end Complete

/-! ## Matching in place -/

/-- `bind?` on bindings in place: the answer is whether the variable stands for the type now. -/
def bindInPlace (arena : TypeArena) (name : String) (constraint type : TypeId) :
    StateM Bindings Bool := do
  match (← getThe Bindings).lookup name with
  | some bound => return bound = type
  | none =>
    if arena.isSubtype type constraint then
      modify ((name, type) :: ·)
      return true
    return false

/-- Goes through two lists until a step fails. -/
def allInPlace (step : TypeId → TypeId → StateM Bindings Bool) :
    List TypeId → List TypeId → StateM Bindings Bool
  | p :: ps, a :: as => do if ← step p a then allInPlace step ps as else return false
  | _, _ => return true

/-- `matchExactly` on bindings in place. If it fails, some variables may have been bound. -/
def exactlyInPlace (arena : TypeArena) : Nat → TypeId → TypeId → StateM Bindings Bool
  | 0, _, _ => return false
  | n + 1, param, arg =>
    match (arena.get param).kind with
    | .var constraint => arena.bindInPlace (arena.name param) constraint arg
    | .applied base params =>
      match (arena.get arg).kind with
      | .applied base' args =>
        if base = base' ∧ params.length = args.length then
          allInPlace (arena.exactlyInPlace n) params args
        else return false
      | _ => return false
    | _ => return param = arg

/-- Tries one candidate after the other, each on a copy of the bindings, and keeps the copy of the first
one that succeeds. -/
def firstInPlace (attempt : TypeId → StateM Bindings Bool) : List TypeId → StateM Bindings Bool
  | [] => return false
  | candidate :: candidates => do
    let (matched, trial) := attempt candidate (← getThe Bindings)
    if matched then
      set trial
      return true
    firstInPlace attempt candidates

def unifyInPlace (arena : TypeArena) (param arg : TypeId) : StateM Bindings Bool :=
  match (arena.get param).kind with
  | .var constraint => arena.bindInPlace (arena.name param) constraint arg
  | .applied base params =>
    if arena.hasVars param then
      firstInPlace (fun candidate =>
        match (arena.get candidate).kind with
        | .applied base' args =>
          if base = base' ∧ params.length = args.length then
            allInPlace (arena.exactlyInPlace (arena.size + 1)) params args
          else return false
        | _ => return false) (arena.ancestors arg)
    else return arena.isSubtype arg param
  | _ => return arena.isSubtype arg param

/-- An action in place answers yes, with the new bindings, or no, with whatever it has made of them. -/
def Mirrors (action : StateM Bindings Bool) (match? : Bindings → Option Bindings) : Prop :=
  ∀ bindings, match match? bindings with
    | some bindings' => action bindings = (true, bindings')
    | none => (action bindings).1 = false

theorem Mirrors.fst_eq_false {action : StateM Bindings Bool} {match? : Bindings → Option Bindings}
    (h : Mirrors action match?) (hm : match? bindings = none) : (action bindings).1 = false := by
  have hb := h bindings
  rw [hm] at hb
  exact hb

theorem Mirrors.eq_true {action : StateM Bindings Bool} {match? : Bindings → Option Bindings}
    (h : Mirrors action match?) (hm : match? bindings = some bindings') :
    action bindings = (true, bindings') := by
  have hb := h bindings
  rw [hm] at hb
  exact hb

/-- What an action in place makes of the bindings, if a failure leaves them as they were. -/
def inPlace (bindings : Bindings) (answer : Option Bindings) : Bool × Bindings :=
  (answer.isSome, answer.getD bindings)

theorem mirrors_of_inPlace {action : StateM Bindings Bool} {match? : Bindings → Option Bindings}
    (h : ∀ bindings, action bindings = inPlace bindings (match? bindings)) : Mirrors action match? := by
  intro bindings
  rw [h]
  cases match? bindings <;> rfl

theorem return_inPlace {c : Prop} [Decidable c] :
    (return decide c : StateM Bindings Bool) bindings =
      inPlace bindings (if c then some bindings else none) := by
  by_cases hc : c
  · rw [if_pos hc, decide_eq_true hc]
    rfl
  · rw [if_neg hc, decide_eq_false hc]
    rfl

theorem bindInPlace_eq (name : String) (constraint type : TypeId) (bindings : Bindings) :
    arena.bindInPlace name constraint type bindings =
      inPlace bindings (arena.bind? bindings name constraint type) := by
  have hrun : arena.bindInPlace name constraint type bindings =
      match bindings.lookup name with
      | some bound => (decide (bound = type), bindings)
      | none =>
        if arena.isSubtype type constraint then (true, (name, type) :: bindings)
        else (false, bindings) := by
    show (match bindings.lookup name with
      | some bound => (return bound = type : StateM Bindings Bool)
      | none => if arena.isSubtype type constraint then do
          modify ((name, type) :: ·)
          return true
        else return false) bindings = _
    cases bindings.lookup name with
    | some bound => rfl
    | none => dsimp only; split <;> rfl
  rw [hrun, bind?]
  cases bindings.lookup name with
  | some bound => by_cases hb : bound = type <;> simp [hb, inPlace]
  | none => cases arena.isSubtype type constraint <;> rfl

theorem allInPlace_mirrors {step : TypeId → TypeId → StateM Bindings Bool}
    {match? : Bindings → TypeId → TypeId → Option Bindings}
    (hstep : ∀ p a, Mirrors (step p a) (match? · p a)) (hlen : params.length = args.length) :
    Mirrors (allInPlace step params args) (matchAll match? · params args) := by
  induction params generalizing args with
  | nil =>
    cases args with
    | nil => exact fun _ => rfl
    | cons a args => cases hlen
  | cons p params ih =>
    cases args with
    | nil => cases hlen
    | cons a args =>
      intro bindings
      have hrun : allInPlace step (p :: params) (a :: args) bindings =
          if (step p a bindings).1 then allInPlace step params args (step p a bindings).2
          else (false, (step p a bindings).2) := by
        show (if (step p a bindings).1 then allInPlace step params args else return false)
          (step p a bindings).2 = _
        split <;> rfl
      dsimp only
      rw [hrun, matchAll]
      cases hm : match? bindings p a with
      | none =>
        rw [(hstep p a).fst_eq_false hm]
        rfl
      | some next =>
        rw [(hstep p a).eq_true hm]
        exact ih (Nat.succ.inj hlen) next

theorem matchAll_eq_none {match? : Bindings → TypeId → TypeId → Option Bindings}
    (hlen : params.length ≠ args.length) : matchAll match? bindings params args = none := by
  induction params generalizing bindings args with
  | nil =>
    cases args with
    | nil => exact absurd rfl hlen
    | cons a args => rfl
  | cons p params ih =>
    cases args with
    | nil => rfl
    | cons a args =>
      rw [matchAll]
      cases match? bindings p a with
      | none => rfl
      | some next => exact ih fun heq => hlen (congrArg Nat.succ heq)

theorem appliedInPlace_mirrors {step : TypeId → TypeId → StateM Bindings Bool}
    {match? : Bindings → TypeId → TypeId → Option Bindings}
    (hstep : ∀ p a, Mirrors (step p a) (match? · p a)) (base : TypeId) (params : List TypeId)
    (kind : TypeKind) :
    Mirrors
      (match kind with
        | .applied base' args =>
          if base = base' ∧ params.length = args.length then allInPlace step params args
          else return false
        | _ => return false)
      (fun bindings => match kind with
        | .applied base' args => if base = base' then matchAll match? bindings params args else none
        | _ => none) := by
  cases kind with
  | applied base' args =>
    dsimp only
    by_cases hbase : base = base'
    · by_cases hlen : params.length = args.length
      · rw [if_pos ⟨hbase, hlen⟩]
        simp only [if_pos hbase]
        exact allInPlace_mirrors hstep hlen
      · rw [if_neg fun h => hlen h.2]
        simp only [if_pos hbase, matchAll_eq_none hlen]
        exact fun _ => rfl
    · rw [if_neg fun h => hbase h.1]
      simp only [if_neg hbase]
      exact fun _ => rfl
  | _ => exact fun _ => rfl

theorem exactlyInPlace_mirrors (n : Nat) (param arg : TypeId) :
    Mirrors (arena.exactlyInPlace n param arg) (arena.matchExactly n · param arg) := by
  induction n generalizing param arg with
  | zero => exact fun _ => rfl
  | succ n ih =>
    simp only [exactlyInPlace, matchExactly]
    cases (arena.get param).kind with
    | var constraint => exact mirrors_of_inPlace (bindInPlace_eq _ _ _)
    | applied base params => exact appliedInPlace_mirrors ih base params _
    | _ => exact mirrors_of_inPlace fun _ => return_inPlace

theorem firstInPlace_eq {attempt : TypeId → StateM Bindings Bool}
    {match? : Bindings → TypeId → Option Bindings} (h : ∀ x, Mirrors (attempt x) (match? · x))
    (candidates : List TypeId) (bindings : Bindings) :
    firstInPlace attempt candidates bindings =
      inPlace bindings (candidates.findSome? (match? bindings)) := by
  induction candidates with
  | nil => rfl
  | cons x candidates ih =>
    have hrun : firstInPlace attempt (x :: candidates) bindings =
        if (attempt x bindings).1 then (true, (attempt x bindings).2)
        else firstInPlace attempt candidates bindings := by
      show (if (attempt x bindings).1 then do
          set (attempt x bindings).2
          return true
        else firstInPlace attempt candidates) bindings = _
      split <;> rfl
    rw [hrun, List.findSome?_cons]
    cases hm : match? bindings x with
    | none =>
      rw [(h x).fst_eq_false hm]
      exact ih
    | some next =>
      rw [(h x).eq_true hm]
      rfl

/-- Matching in place does what matching does, and a failure leaves the bindings as they were. -/
theorem unifyInPlace_eq (param arg : TypeId) (bindings : Bindings) :
    arena.unifyInPlace param arg bindings = inPlace bindings (arena.unify? bindings param arg) := by
  have hplain : (return arena.isSubtype arg param : StateM Bindings Bool) bindings =
      inPlace bindings (if arena.isSubtype arg param then some bindings else none) := by
    cases arena.isSubtype arg param <;> rfl
  rw [unifyInPlace, unify?]
  cases (arena.get param).kind with
  | var constraint => exact bindInPlace_eq _ _ _ _
  | applied base params =>
    dsimp only
    split
    · exact firstInPlace_eq (fun x => appliedInPlace_mirrors
        (exactlyInPlace_mirrors (arena.size + 1)) base params _) _ _
    · exact hplain
  | _ => exact hplain

/-! ## Matching is sound and complete -/

/-- In a regular arena matching a signature succeeds exactly if there is an assignment that fits, and then
finds that assignment, which is the only one; every argument is below its parameter once the variables are
replaced, for which no type has to be added. In place, a failed match leaves the bindings alone. -/
theorem unifySignature?_complete (h : arena.Regular) (hs : arena.IsSignature signature)
    (ha : ∀ a ∈ args, a < arena.size) :
    ((∃ bindings, arena.unifySignature? signature args = some bindings) ↔
        ∃ assignment, arena.Fits signature args assignment) ∧
      (∀ bindings, arena.unifySignature? signature args = some bindings →
        arena.Fits signature args bindings ∧
          (∀ assignment, arena.Fits signature args assignment →
            ∀ name, assignment.lookup name = bindings.lookup name) ∧
          List.Forall₂ (fun param arg => ∃ image, arena.substitute bindings param = (image, arena) ∧
            arena.isSubtype arg image = true) signature args) ∧
      ∀ param arg bindings, arena.unifyInPlace param arg bindings =
        match arena.unify? bindings param arg with
        | some found => (true, found)
        | none => (false, bindings) := by
  have hc := h.canonical
  refine ⟨⟨?_, ?_⟩, fun bindings hb => ?_, fun param arg bindings => ?_⟩
  · rintro ⟨bindings, hb⟩
    exact ⟨bindings, hs.fits_bindings hc ha hb⟩
  · rintro ⟨assignment, hfit⟩
    exact hfit.exists_bindings hc hs ha
  · have hfit := hs.fits_bindings hc ha hb
    refine ⟨hfit, fun assignment hfit' => hfit'.lookup_eq hc hs ha hb, ?_⟩
    refine List.forall₂_iff_zip.mpr ⟨hfit.params.length_eq, fun {param arg} hmem => ?_⟩
    obtain ⟨hparam, harg⟩ := List.of_mem_zip hmem
    exact hc.image_of_meets hfit.types (hs.types param hparam) (ha arg harg)
      (hs.functionFree param hparam) (List.forall₂_zip hfit.params hmem)
  · rw [unifyInPlace_eq]
    cases arena.unify? bindings param arg <;> rfl

/-- An arena with a type variable `T`, the type `Array[T]` and the type `Array[Int]`. -/
def arrays : TypeArena :=
  (((TypeArena.initial.var "T" .any).2.applied .array [12]).2.applied .array [.int]).2

theorem arrays_regular : arrays.Regular :=
  .applied _ _ (.applied _ _ (.var _ _ .initial (by decide)) (by decide) (by decide)) (by decide)
    (by decide)

theorem arrays_isSignature : arrays.IsSignature [13, 12] where
  types := by decide
  functionFree p hp x hx params result hk := by
    have hkinds : ∀ p ∈ [13, 12], ∀ x ∈ arrays.constituents p,
        (arrays.get x).kind.name ≠ "function" := by decide
    exact hkinds p hp x hx (by rw [hk]; rfl)
  oneConstraint := by decide

/-- An array of integers and an integer fit `Array[T]` and `T`, with `Int` for `T` and with nothing
else. -/
theorem arrays_fit :
    arrays.Fits [13, 12] [14, .int] [("T", .int)] ∧
      ∀ assignment, arrays.Fits [13, 12] [14, .int] assignment → assignment.lookup "T" = some .int := by
  obtain ⟨-, hfound, -⟩ := @unifySignature?_complete arrays [14, .int] [13, 12] arrays_regular
    arrays_isSignature (by decide)
  obtain ⟨hfit, honly, -⟩ := hfound [("T", .int)] (by decide)
  exact ⟨hfit, fun assignment hfit' => honly assignment hfit' "T"⟩

/-- An arena in which `Array[Int]` was declared and not built, with `Array[T]` for a type variable. -/
def declaredInts : TypeArena :=
  (((TypeArena.initial.add ⟨"Array[Int]", .applied .array [.int], some .array⟩).2.var "T" .any).2.applied
    .array [13]).2

/-- An arena in which `Array[Int]` was built and then declared to be a type of its own. -/
def redeclaredInts : TypeArena :=
  ((((TypeArena.initial.applied .array [.int]).2.var "T" .any).2.applied .array [13]).2).redefine 12
    ⟨"Array[Int]", .concrete, some .array⟩

/-- Where applied types are not interned, matching finds an assignment that does not fit, and misses one that
does: the parameter becomes a type other than the argument that looks like it, or that very type, whose
descriptor does not say so. -/
theorem assignment_not_matched :
    (declaredInts.WellBuilt ∧ declaredInts.unifySignature? [14] [12] = some [("T", .int)] ∧
      ¬ declaredInts.Fits [14] [12] [("T", .int)]) ∧
    (redeclaredInts.get 12).parent = ((TypeArena.initial.applied .array [.int]).2.get 12).parent ∧
      redeclaredInts.unifySignature? [14] [12] = none ∧ redeclaredInts.Fits [14] [12] [("T", .int)] := by
  have hbuilt : declaredInts.WellBuilt :=
    .applied _ _ (.var _ _ (.add _ .initial (by decide)) (by decide)) (by decide) (by decide)
  have hk : (declaredInts.get 14).kind = .applied .array [13] := by decide
  have hk' : (redeclaredInts.get 14).kind = .applied .array [13] := by decide
  refine ⟨⟨hbuilt, by decide, fun hfit => ?_⟩, by decide, by decide, ?_⟩
  · have hmeets : declaredInts.Meets [("T", .int)] 14 12 := (List.forall₂_cons.mp hfit.params).1
    exact absurd ((meets_applied hk (by decide)).mp hmeets) (by decide)
  · have hvars : redeclaredInts.varsOf [14] = [13] := by decide
    have hname : redeclaredInts.name 13 = "T" := by decide
    refine ⟨List.forall_mem_singleton.mpr (by decide), fun name => ?_,
      .cons ((meets_applied hk' (by decide)).mpr (by decide)) .nil, ?_⟩
    · rw [hvars]
      by_cases hT : "T" = name
      · subst hT
        exact iff_of_true rfl ⟨13, List.mem_singleton_self 13, hname⟩
      · refine iff_of_false (by simp [List.lookup_cons, beq_eq_false_iff_ne.mpr (Ne.symm hT)]) ?_
        rintro ⟨v, hv, rfl⟩
        rw [List.mem_singleton.mp hv] at hT
        exact hT hname.symm
    · rw [hvars, List.forall_mem_singleton, hname]
      rintro constraint hconstraint type htype
      cases htype
      cases (show TypeKind.var .any = .var constraint from hconstraint)
      decide

end DispatchLang.TypeArena
