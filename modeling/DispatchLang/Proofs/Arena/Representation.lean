import DispatchLang.Proofs.Arena.Written

/-!
# How an arena represents types

An arena keeps descriptors by index and, apart from them, three indices of the types that are made of other types.
Each of the parts is changed by itself. `Consistent` says how they fit together: what is looked up under the parts of
a type (its `TypeKey`) is the one type whose descriptor is the one for these parts, and every such type is looked
up under its parts. Besides, what a type is made of and what is above it is older than the type, so a chain of
parents goes down and ends.

## Main results

* `Regular.consistent`: regular arenas are consistent.
* `Ordered.ancestors_eq`: the bound that the search for what is above a type has is never met.
* `Ordered.chain_decreasing`: what is above a type goes down.
* `Regular.represents`: all of it together.
-/

namespace DispatchLang

/-! ## Keys -/

/-- What a type is interned under. -/
inductive TypeKey where
  /-- A base and arguments. -/
  | applied (base : TypeId) (args : List TypeId)
  /-- A name and a constraint. -/
  | var (name : String) (constraint : TypeId)
  /-- Parameters and a result. -/
  | function (params : List TypeId) (result : TypeId)
deriving DecidableEq

def TypeKey.kind : TypeKey → TypeKind
  | .applied base args => .applied base args
  | .var _ constraint => .var constraint
  | .function params result => .function params result

namespace TypeArena

variable {arena arena' : TypeArena} {id : TypeId} {key : TypeKey} {d : TypeDef}

def keyed? (arena : TypeArena) : TypeKey → Option TypeId
  | .applied base args => arena.appliedIndex.lookup (base, args)
  | .var name constraint => arena.varIndex.lookup (name, constraint)
  | .function params result => arena.functionIndex.lookup (params, result)

/-- The descriptor that a key stands for. -/
def describe (arena : TypeArena) : TypeKey → TypeDef
  | .applied base args =>
    ⟨arena.name base ++ "[" ++ ", ".intercalate (arena.names args) ++ "]", .applied base args, some base⟩
  | .var name constraint => ⟨name, .var constraint, none⟩
  | .function params result =>
    ⟨"(" ++ ", ".intercalate (arena.names params) ++ ") -> " ++ arena.name result, .function params result,
      some .function⟩

/-- The descriptors and the indices of an arena fit together. -/
structure Consistent (arena : TypeArena) : Prop extends arena.Ordered where
  /-- An index holds a type under a key exactly if its descriptor is the one that the key stands for. -/
  keyed?_iff : ∀ key id, arena.keyed? key = some id ↔ id < arena.size ∧ arena.get id = arena.describe key
  /-- Types that are made of others have keys. -/
  exists_key : ∀ id, (arena.get id).kind.parts ≠ [] → ∃ key, arena.get id = arena.describe key

/-! ## What a descriptor is made of -/

theorem describe_kind (arena : TypeArena) (key : TypeKey) : (arena.describe key).kind = key.kind := by
  cases key <;> rfl

theorem kind_parts_ne_nil (key : TypeKey) : key.kind.parts ≠ [] := by
  cases key with
  | function params result => exact List.append_ne_nil_of_right_ne_nil _ (List.cons_ne_nil _ _)
  | _ => exact List.cons_ne_nil _ _

/-- Keys that stand for the same descriptor are the same. -/
theorem key_eq {key' : TypeKey} (h : arena.describe key = arena'.describe key') : key = key' := by
  have hname := congrArg TypeDef.name h
  have hkind := congrArg TypeDef.kind h
  cases key <;> cases key' <;> cases hkind <;> first | rfl | (cases hname; rfl)

/-- What a key stands for depends on nothing but the names of the parts. -/
theorem describe_congr (h : ∀ x ∈ key.kind.parts, arena'.name x = arena.name x) :
    arena'.describe key = arena.describe key := by
  have hnames {ids : List TypeId} (hids : ∀ x ∈ ids, arena'.name x = arena.name x) :
      arena'.names ids = arena.names ids := List.map_congr_left hids
  cases key with
  | applied base args =>
    obtain ⟨hbase, hargs⟩ := List.forall_mem_cons.mp h
    rw [describe, describe, hbase, hnames hargs]
  | var name constraint => rfl
  | function params result =>
    obtain ⟨hparams, hresult⟩ := List.forall_mem_append.mp h
    rw [describe, describe, hnames hparams, hresult result (List.mem_singleton_self _)]

theorem kind_of_describe (h : d = arena.describe key) : d.kind = key.kind := by
  rw [h, describe_kind]

theorem name_of_push (h : arena'.types = arena.types.push d) {x : TypeId} (hx : x < arena.size) :
    arena'.name x = arena.name x := by
  rw [name, get_of_push h hx, name]

/-- A type that stays as it is stands for the same key, if names stay as they are. -/
theorem Ordered.eq_describe_iff (h : arena.Ordered) (hid : id < arena.size) (hget : arena'.get id = arena.get id)
    (hname : ∀ x < arena.size, arena'.name x = arena.name x) :
    arena'.get id = arena'.describe key ↔ arena.get id = arena.describe key := by
  have hcongr (hk : (arena.get id).kind = key.kind) : arena'.describe key = arena.describe key :=
    describe_congr fun x hx => hname x (Nat.lt_trans (h.part_lt (hk ▸ hx)) hid)
  rw [hget]
  constructor
  · intro heq
    rwa [← hcongr (kind_of_describe heq)]
  · intro heq
    rwa [hcongr (kind_of_describe heq)]

namespace Consistent

/-! ## Steps that build an arena -/

theorem initial : Consistent .initial := by
  have hparts (id : TypeId) : (TypeArena.initial.get id).kind.parts = [] := by
    by_cases hid : id < TypeArena.initial.size
    · revert id
      decide
    · rw [get_of_size_le (Nat.le_of_not_lt hid)]
      rfl
  refine ⟨.initial, fun key id => iff_of_false (by cases key <;> nofun) fun h => kind_parts_ne_nil key ?_,
    fun id hid => absurd (hparts id) hid⟩
  rw [← kind_of_describe h.2]
  exact hparts id

/-- Adding a type keeps an arena consistent, if the indices are told about it exactly if a key stands for it. -/
theorem push (h : arena.Consistent) (hd : ∀ x ∈ d.ids, x < arena.size)
    (htypes : arena'.types = arena.types.push d) (hparts : d.kind.parts ≠ [] → ∃ key, d = arena.describe key)
    (hnew : ∀ key, d = arena.describe key → arena.keyed? key = none ∧ arena'.keyed? key = some arena.size)
    (hold : ∀ key, d ≠ arena.describe key → arena'.keyed? key = arena.keyed? key) : arena'.Consistent := by
  have hsize := size_of_push htypes
  have hname : ∀ x < arena.size, arena'.name x = arena.name x := fun x => name_of_push htypes
  have hself (key : TypeKey) : d = arena'.describe key ↔ d = arena.describe key := by
    have hcongr (hk : d.kind = key.kind) : arena'.describe key = arena.describe key :=
      describe_congr fun x hx => hname x <| hd x <|
        List.mem_append_right _ (List.mem_append_left _ (hk ▸ hx))
    constructor <;> intro heq
    · rwa [← hcongr (kind_of_describe heq)]
    · rwa [hcongr (kind_of_describe heq)]
  refine ⟨h.toOrdered.push hd htypes, fun key id => ?_, fun id hid => ?_⟩
  · rcases Nat.lt_trichotomy id arena.size with hlt | rfl | hgt
    · -- a type that was there
      have hget := get_of_push htypes hlt
      rw [h.toOrdered.eq_describe_iff hlt hget hname, and_iff_right (hsize ▸ Nat.lt_succ_of_lt hlt)]
      by_cases hkey : d = arena.describe key
      · rw [(hnew key hkey).2, Option.some.injEq]
        refine iff_of_false (Nat.ne_of_gt hlt) fun heq => ?_
        have hfound := (h.keyed?_iff key id).mpr ⟨hlt, heq⟩
        rw [(hnew key hkey).1] at hfound
        cases hfound
      · rw [hold key hkey, h.keyed?_iff, and_iff_right hlt]
    · -- the type that is added
      rw [get_of_push_self htypes, hself, and_iff_right (hsize ▸ Nat.lt_succ_self _)]
      by_cases hkey : d = arena.describe key
      · exact iff_of_true (hnew key hkey).2 hkey
      · rw [hold key hkey, h.keyed?_iff]
        exact iff_of_false (fun hfound => Nat.lt_irrefl _ hfound.1) hkey
    · -- a type that is not there
      refine iff_of_false (fun hfound => ?_) fun hfound =>
        absurd (hsize ▸ hfound.1 : id < arena.size + 1) (Nat.not_lt_of_le hgt)
      by_cases hkey : d = arena.describe key
      · rw [(hnew key hkey).2] at hfound
        exact Nat.ne_of_lt hgt (Option.some.inj hfound)
      · rw [hold key hkey, h.keyed?_iff] at hfound
        exact Nat.lt_asymm hgt hfound.1
  · rcases Nat.lt_trichotomy id arena.size with hlt | rfl | hgt
    · have hget := get_of_push htypes hlt
      rw [hget] at hid
      exact (h.exists_key id hid).imp fun _ => (h.toOrdered.eq_describe_iff hlt hget hname).mpr
    · rw [get_of_push_self htypes] at hid ⊢
      exact (hparts hid).imp fun key => (hself key).mpr
    · rw [get_of_size_le (hsize ▸ hgt)] at hid
      exact absurd rfl hid

theorem add (h : arena.Consistent) (hk : d.kind.parts = []) (hd : ∀ x ∈ d.ids, x < arena.size) :
    (arena.add d).2.Consistent := by
  have hnot (key : TypeKey) : d ≠ arena.describe key := fun heq =>
    kind_parts_ne_nil key (kind_of_describe heq ▸ hk)
  exact h.push hd rfl (fun hne => absurd hk hne) (fun key heq => absurd heq (hnot key))
    fun key _ => by cases key <;> rfl

theorem ids_describe (h : arena.Ordered) (hk : ∀ x ∈ key.kind.parts, x < arena.size) :
    ∀ x ∈ (arena.describe key).ids, x < arena.size := by
  rw [TypeDef.ids, TypeKind.ids, describe_kind]
  refine List.forall_mem_append.mpr ⟨fun x hx => ?_, List.forall_mem_append.mpr ⟨hk, fun x hx => ?_⟩⟩
  · -- what is right above a type is its base, or the type of all functions
    cases key with
    | applied base args => exact hk x (List.mem_singleton.mp hx ▸ List.mem_cons_self)
    | var name constraint => cases hx
    | function params result =>
      rw [List.mem_singleton.mp hx]
      exact Nat.lt_of_lt_of_le (by decide) h.builtin
  · cases key <;> cases hx

theorem intern (h : arena.Consistent) (key : TypeKey) (hk : ∀ x ∈ key.kind.parts, x < arena.size)
    (hnone : arena.keyed? key = none) (htypes : arena'.types = arena.types.push (arena.describe key))
    (hkeyed : ∀ k, arena'.keyed? k = if k = key then some arena.size else arena.keyed? k) :
    arena'.Consistent := by
  refine h.push (ids_describe h.toOrdered hk) htypes (fun _ => ⟨key, rfl⟩) (fun k heq => ?_) fun k hne => ?_
  · obtain rfl := key_eq heq
    exact ⟨hnone, (hkeyed key).trans (if_pos rfl)⟩
  · exact (hkeyed k).trans (if_neg fun heq => hne (congrArg arena.describe heq.symm))

/-- An index in front of which an entry is put. -/
theorem lookup_cons_eq {κ : Type} [BEq κ] [LawfulBEq κ] {p : Prop} [Decidable p] {k k' : κ} (hp : k' = k ↔ p)
    (id : TypeId) (index : List (κ × TypeId)) :
    ((k, id) :: index).lookup k' = if p then some id else index.lookup k' := by
  rw [List.lookup_cons]
  by_cases heq : k' = k
  · rw [if_pos (hp.mp heq), heq, beq_self_eq_true]
  · rw [if_neg fun h => heq (hp.mpr h), beq_eq_false_iff_ne.mpr heq]

theorem applied (h : arena.Consistent) {base : TypeId} {args : List TypeId} (hb : base < arena.size)
    (ha : ∀ x ∈ args, x < arena.size) : (arena.applied base args).2.Consistent := by
  rw [TypeArena.applied]
  cases hl : arena.appliedIndex.lookup (base, args) with
  | some id => exact h
  | none =>
    refine h.intern (.applied base args) (List.forall_mem_cons.mpr ⟨hb, ha⟩) hl rfl fun k => ?_
    cases k with
    | applied base' args' => exact lookup_cons_eq (by rw [Prod.mk_inj, TypeKey.applied.injEq]) _ _
    | _ => rfl

theorem var (h : arena.Consistent) (name : String) {constraint : TypeId} (hc : constraint < arena.size) :
    (arena.var name constraint).2.Consistent := by
  rw [TypeArena.var]
  cases hl : arena.varIndex.lookup (name, constraint) with
  | some id => exact h
  | none =>
    refine h.intern (.var name constraint) (List.forall_mem_singleton.mpr hc) hl rfl fun k => ?_
    cases k with
    | var name' constraint' => exact lookup_cons_eq (by rw [Prod.mk_inj, TypeKey.var.injEq]) _ _
    | _ => rfl

theorem function (h : arena.Consistent) {params : List TypeId} {result : TypeId}
    (hp : ∀ x ∈ params, x < arena.size) (hr : result < arena.size) :
    (arena.function params result).2.Consistent := by
  rw [TypeArena.function]
  cases hl : arena.functionIndex.lookup (params, result) with
  | some id => exact h
  | none =>
    have hparts := List.forall_mem_append.mpr ⟨hp, List.forall_mem_singleton.mpr hr⟩
    refine h.intern (.function params result) hparts hl rfl fun k => ?_
    cases k with
    | function params' result' => exact lookup_cons_eq (by rw [Prod.mk_inj, TypeKey.function.injEq]) _ _
    | _ => rfl

/-- Filling in fields or alternatives keeps an arena consistent: no key stands for such a type. -/
theorem redefine (h : arena.Consistent) (hid : id < arena.size) (hd : TypeDef.Refills (arena.get id) d)
    (hm : ∀ x ∈ d.kind.members, x < arena.size) : (arena.redefine id d).Consistent := by
  have hname (x : TypeId) : (arena.redefine id d).name x = arena.name x := by
    rw [name, get_redefine hid, name]
    split
    · next heq => rw [heq, hd.name_eq]
    · rfl
  have hdescribe (key : TypeKey) : (arena.redefine id d).describe key = arena.describe key :=
    describe_congr fun x _ => hname x
  have hnot {d' : TypeDef} (hkind : d'.kind.parts = []) (key : TypeKey) : d' ≠ arena.describe key := fun heq =>
    kind_parts_ne_nil key (kind_of_describe heq ▸ hkind)
  refine ⟨h.toOrdered.redefine hid hd hm, fun key x => ?_, fun x hx => ?_⟩
  · have hkeyed : (arena.redefine id d).keyed? key = arena.keyed? key := by cases key <;> rfl
    rw [hkeyed, h.keyed?_iff, size_redefine, get_redefine hid, hdescribe]
    split
    · next heq =>
      rw [heq]
      exact and_congr_right fun _ => iff_of_false (hnot hd.parts_eq.1 key) (hnot hd.parts_eq.2 key)
    · rfl
  · rw [get_redefine hid] at hx ⊢
    split at hx
    · exact absurd hd.parts_eq.2 hx
    · next hne =>
      rw [if_neg hne]
      exact (h.exists_key x hx).imp fun key heq => heq.trans (hdescribe key).symm

end Consistent

theorem Regular.consistent (h : arena.Regular) : arena.Consistent := by
  induction h with
  | initial => exact .initial
  | add d _ hk hd ih => exact ih.add hk hd
  | applied base args _ hb ha ih => exact ih.applied hb ha
  | var name constraint _ hc ih => exact ih.var name hc
  | function params result _ hp hr ih => exact ih.function hp hr
  | redefine id d _ hid hd hm ih => exact ih.redefine hid hd hm

/-! ## What is above a type -/

/-- What is above a type is the type itself and what is above its parent: the bound on the depth of the search is
never met. -/
theorem Ordered.ancestors_eq (h : arena.Ordered) (hid : id < arena.size) :
    arena.ancestors id = id :: ((arena.get id).parent.map arena.ancestors).getD [] := by
  rw [ancestors, chain]
  cases hup : (arena.get id).parent with
  | none => rfl
  | some up =>
    have hlt := h.parent_lt hup
    exact congrArg (id :: ·) <|
      (Extends.refl arena).chain_eq h h _ (Nat.lt_trans hlt hid) (Nat.lt_trans hlt (Nat.lt_succ_of_lt hid))
        (Nat.lt_trans hlt hid)

theorem Ordered.chain_decreasing (h : arena.Ordered) (n : Nat) (id : TypeId) :
    (arena.chain n id).Pairwise (· > ·) := by
  induction n generalizing id with
  | zero => exact .nil
  | succ n ih =>
    rw [chain]
    cases hup : (arena.get id).parent with
    | none => exact List.pairwise_singleton _ _
    | some up =>
      exact .cons (fun x hx => Nat.lt_of_le_of_lt (h.chain_le n up x hx) (h.parent_lt hup)) (ih up)

/-! ## The invariant -/

/-- How an arena represents types: the indices and the descriptors fit together, types are the same exactly if
they are made of the same, and the chain of parents of a type goes down until it ends. -/
structure Represents (arena : TypeArena) : Prop extends arena.Consistent where
  /-- Types that are made of others are the same exactly if they are made of the same. -/
  eq_iff : ∀ {id id' key key'}, arena.keyed? key = some id → arena.keyed? key' = some id' →
    (id = id' ↔ key = key')
  /-- What is above a type is the type itself and what is above its parent. -/
  ancestors_eq : ∀ id < arena.size, arena.ancestors id = id :: ((arena.get id).parent.map arena.ancestors).getD []
  /-- What is above a type goes down. -/
  ancestors_decreasing : ∀ id, (arena.ancestors id).Pairwise (· > ·)

theorem Regular.represents (h : arena.Regular) : arena.Represents where
  toConsistent := h.consistent
  eq_iff {id id' key key'} hkey hkey' := by
    constructor
    · rintro rfl
      -- The descriptor of a type tells what it is made of.
      exact key_eq ((((h.consistent.keyed?_iff key id).mp hkey).2.symm).trans
        ((h.consistent.keyed?_iff key' id).mp hkey').2)
    · rintro rfl
      exact Option.some.inj (hkey.symm.trans hkey')
  ancestors_eq _ := h.indexed.toOrdered.ancestors_eq
  ancestors_decreasing := h.indexed.toOrdered.chain_decreasing _

end TypeArena

end DispatchLang
