import DispatchLang.Proofs.Arena.Growth
import DispatchLang.Proofs.Arena.Subtyping

/-!
# Renaming the types of an arena

Two arenas that grow out of one in different ways hold the same types under different indices. `Embeds`
means that the types of one arena are found in another under other indices. Subtyping only follows what
descriptors refer to, so a renaming that respects the descriptors respects subtyping as well; and since an
interned type is determined by its parts, a renaming extends to whatever is interned next.

## Main results

* `Embeds.isSubtype_eq`: subtyping is the same after a renaming.
* `Embeds.interns`: a renaming of two arenas extends to what interning a kind adds to them.
-/

namespace DispatchLang

/-! ## Renaming the types of a kind -/

namespace TypeKind

def map (f : TypeId → TypeId) : TypeKind → TypeKind
  | .applied base args => .applied (f base) (args.map f)
  | .var constraint => .var (f constraint)
  | .variants params alternatives =>
    .variants params (alternatives.map fun a => (a.1, a.2.map fun field => (field.1, f field.2)))
  | .struct params fields => .struct params (fields.map fun field => (field.1, f field.2))
  | .function params result => .function (params.map f) (f result)
  | .any => .any
  | .abstract => .abstract
  | .concrete => .concrete

theorem map_id (kind : TypeKind) : kind.map id = kind := by
  cases kind <;> simp [map]

theorem map_congr {f g : TypeId → TypeId} {kind : TypeKind} (h : ∀ x ∈ kind.ids, f x = g x) :
    kind.map f = kind.map g := by
  cases kind with
  | applied base args =>
    rw [ids_applied, List.forall_mem_cons] at h
    rw [map, map, h.1, List.map_congr_left h.2]
  | var constraint => rw [map, map, h constraint List.mem_cons_self]
  | variants params alternatives =>
    have hfield : ∀ a ∈ alternatives, ∀ field ∈ a.2, f field.2 = g field.2 := by
      intro a ha field hfield
      exact h field.2 (List.mem_flatMap_of_mem ha (List.mem_map_of_mem hfield))
    simp only [map, TypeKind.variants.injEq, true_and]
    refine List.map_congr_left fun a ha => ?_
    rw [List.map_congr_left fun field hf => by rw [hfield a ha field hf]]
  | struct params fields =>
    simp only [map, TypeKind.struct.injEq, true_and]
    exact List.map_congr_left fun field hf => by rw [h field.2 (List.mem_map_of_mem hf)]
  | function params result =>
    rw [ids_function, List.forall_mem_append, List.forall_mem_singleton] at h
    rw [map, map, h.2, List.map_congr_left h.1]
  | _ => rfl

theorem ids_map (f : TypeId → TypeId) (kind : TypeKind) : (kind.map f).ids = kind.ids.map f := by
  cases kind with
  | function params result => simp [map]
  | _ => simp [map, ids, parts, members, List.map_flatMap, List.flatMap_map, Function.comp_def]

theorem parts_map (f : TypeId → TypeId) (kind : TypeKind) : (kind.map f).parts = kind.parts.map f := by
  cases kind with
  | function params result => rw [map, parts, parts, List.map_append, List.map_singleton]
  | _ => rfl

theorem above?_map {f : TypeId → TypeId} (hf : f .function = .function) (kind : TypeKind) :
    (kind.map f).above? = kind.above?.map f := by
  cases kind with
  | function params result => rw [map, above?, above?, Option.map_some, hf]
  | _ => rfl

end TypeKind

namespace TypeArena

variable {arena arena' arena'' : TypeArena} {id : TypeId} {kind : TypeKind}

/-! ## Renamings -/

/-- The types of one arena can be found in another under other indices: their descriptors refer to the same
types, and what is interned in one is interned in the other. -/
structure Embeds (f : TypeId → TypeId) (arena arena' : TypeArena) : Prop where
  lt : ∀ {id}, id < arena.size → f id < arena'.size
  inj : ∀ {a b}, a < arena.size → b < arena.size → f a = f b → a = b
  builtin : ∀ {id}, id < builtinTypes.length → f id = id
  kind : ∀ {id}, id < arena.size → (arena'.get (f id)).kind = (arena.get id).kind.map f
  parent : ∀ {id}, id < arena.size → (arena'.get (f id)).parent = (arena.get id).parent.map f
  varName : ∀ {id constraint}, id < arena.size → (arena.get id).kind = .var constraint →
    arena'.name (f id) = arena.name id
  interned : ∀ {id}, id < arena.size →
    (arena'.interned? ((arena.get id).kind.map f) = some (f id) ↔
      arena.interned? (arena.get id).kind = some id)

theorem Extends.embeds (h : arena.Extends arena') : Embeds (fun id => id) arena arena' where
  lt := h.lt
  inj _ _ heq := heq
  builtin _ := rfl
  kind hid := by rw [h.get_eq hid]; exact (TypeKind.map_id _).symm
  parent hid := by rw [h.get_eq hid]; exact Option.map_id'.symm
  varName hid _ := h.name_eq hid
  interned hid := by
    rw [← h.interned?_iff hid]
    exact iff_of_eq (congrArg (arena'.interned? · = some _) (TypeKind.map_id _))

namespace Embeds

variable {f g : TypeId → TypeId} {child parent : TypeId}

theorem trans_extends (h : Embeds f arena arena') (h' : arena'.Extends arena'') :
    Embeds f arena arena'' where
  lt hid := h'.lt (h.lt hid)
  inj := h.inj
  builtin := h.builtin
  kind hid := by rw [h'.get_eq (h.lt hid), h.kind hid]
  parent hid := by rw [h'.get_eq (h.lt hid), h.parent hid]
  varName hid hk := by rw [h'.name_eq (h.lt hid), h.varName hid hk]
  interned hid := by rw [h'.interned?_iff (h.lt hid), h.interned hid]

theorem eq_iff (h : Embeds f arena arena') {a b : TypeId} (ha : a < arena.size)
    (hb : b < arena.size) : f a = f b ↔ a = b := ⟨h.inj ha hb, congrArg f⟩

theorem map_inj (h : Embeds f arena arena') {as bs : List TypeId} (ha : ∀ a ∈ as, a < arena.size)
    (hb : ∀ b ∈ bs, b < arena.size) (heq : as.map f = bs.map f) : as = bs := by
  induction as generalizing bs with
  | nil => exact (List.map_eq_nil_iff.mp heq.symm).symm
  | cons a as ih =>
    cases bs with
    | nil => cases heq
    | cons b bs =>
      rw [List.forall_mem_cons] at ha hb
      rw [List.map_cons, List.map_cons, List.cons.injEq] at heq
      rw [h.inj ha.1 hb.1 heq.1, ih ha.2 hb.2 heq.2]

theorem any_eq (h : Embeds f arena arena') : f .any = .any := h.builtin (by decide)

theorem function_eq (h : Embeds f arena arena') : f .function = .function := h.builtin (by decide)

theorem eq_any_iff (h : Embeds f arena arena') (hi : arena.Ordered) {a : TypeId}
    (ha : a < arena.size) : f a = .any ↔ a = .any := by
  have hany : TypeId.any < arena.size := Nat.lt_of_lt_of_le (by decide) hi.builtin
  rw [← h.eq_iff ha hany, h.any_eq]

/-! ### Subtyping after a renaming -/

theorem fieldObligations_map (below above : FieldTypes) :
    fieldObligations (below.map fun field => (field.1, f field.2))
        (above.map fun field => (field.1, f field.2)) =
      (fieldObligations below above).map (List.map (Prod.map f f)) := by
  induction above with
  | nil => rfl
  | cons field above ih =>
    rw [List.map_cons, fieldObligations_cons, fieldObligations_cons, Assoc.lookup_map, ih]
    cases below.lookup field.1 with
    | none => rfl
    | some type => cases fieldObligations below above <;> rfl

theorem parentObligation_eq (h : Embeds f arena arena') (hc : child < arena.size)
    (parent : TypeId) :
    arena'.parentObligation (f child) (f parent) =
      (arena.parentObligation child parent).map (List.map (Prod.map f f)) := by
  rw [parentObligation, parentObligation, h.parent hc]
  cases (arena.get child).parent <;> rfl

/-- The rules reduce renamed pairs to renamed pairs. -/
theorem obligations_eq (h : Embeds f arena arena') (hi : arena.Ordered) (hc : child < arena.size)
    (hp : parent < arena.size) :
    arena'.obligations (f child) (f parent) =
      (arena.obligations child parent).map (List.map (Prod.map f f)) := by
  have hup := h.parentObligation_eq hc parent
  rw [obligations, obligations]
  simp only [h.eq_iff hc hp, h.eq_any_iff hi hc, h.eq_any_iff hi hp]
  by_cases hsame : child = parent ∨ parent = .any
  · rw [if_pos hsame, if_pos hsame]
    rfl
  by_cases hany : child = .any
  · rw [if_neg hsame, if_neg hsame, if_pos hany, if_pos hany]
    rfl
  rw [if_neg hsame, if_neg hsame, if_neg hany, if_neg hany, h.kind hc, h.kind hp]
  have hpart : ∀ {x}, x ∈ (arena.get child).kind.parts → x < arena.size :=
    fun hx => Nat.lt_trans (hi.part_lt hx) hc
  have hpart' : ∀ {x}, x ∈ (arena.get parent).kind.parts → x < arena.size :=
    fun hx => Nat.lt_trans (hi.part_lt hx) hp
  generalize (arena.get child).kind = kind, (arena.get parent).kind = kind' at hpart hpart'
  cases kind' with
  | var constraint => cases kind <;> rfl
  | applied base' args' =>
    cases kind with
    | applied base args =>
      have hbase := h.eq_iff (hpart List.mem_cons_self) (hpart' List.mem_cons_self)
      have hargs : args.map f = args'.map f ↔ args = args' :=
        ⟨h.map_inj (fun _ hx => hpart (List.mem_cons_of_mem _ hx))
          fun _ hx => hpart' (List.mem_cons_of_mem _ hx), congrArg (List.map f)⟩
      simp only [TypeKind.map, hbase, hargs]
      split
      · rfl
      · exact hup
    | _ => exact hup
  | struct params' fields' =>
    cases kind with
    | struct params fields => exact fieldObligations_map fields fields'
    | _ => exact hup
  | function params' result' =>
    cases kind with
    | function params result =>
      simp only [TypeKind.map, List.length_map]
      split
      · rw [Option.map_some, List.map_append, List.zip_map]
        rfl
      · rfl
    | _ => exact hup
  | _ => cases kind <;> exact hup

/-- The greatest relation that the rules admit is the same after a renaming. -/
theorem below_iff (h : Embeds f arena arena') (hi : arena.Ordered) (hc : child < arena.size)
    (hp : parent < arena.size) :
    arena'.Below (f child) (f parent) ↔ arena.Below child parent := by
  constructor
  · intro hb
    refine ⟨fun c p => (c, p) ∈ arena.pairs ∧ arena'.Below (f c) (f p), ?_,
      mem_pairs.mpr ⟨hc, hp⟩, hb⟩
    rintro c p ⟨hpair, hb⟩
    obtain ⟨hc, hp⟩ := mem_pairs.mp hpair
    obtain ⟨goals', hg', hall⟩ := admits_iff.mp hb.admits
    rw [h.obligations_eq hi hc hp, Option.map_eq_some_iff] at hg'
    obtain ⟨goals, hg, rfl⟩ := hg'
    refine admits_iff.mpr ⟨goals, hg, fun g hmem => ⟨(hi.goal_mem hpair hg hmem).1, ?_⟩⟩
    exact hall _ (List.mem_map_of_mem hmem)
  · intro hb
    refine ⟨fun a b => ∃ c p, (c, p) ∈ arena.pairs ∧ a = f c ∧ b = f p ∧ arena.Below c p, ?_,
      child, parent, mem_pairs.mpr ⟨hc, hp⟩, rfl, rfl, hb⟩
    rintro _ _ ⟨c, p, hpair, rfl, rfl, hb⟩
    obtain ⟨hc, hp⟩ := mem_pairs.mp hpair
    obtain ⟨goals, hg, hall⟩ := admits_iff.mp hb.admits
    refine admits_iff.mpr ⟨goals.map (Prod.map f f), ?_, fun g' hmem' => ?_⟩
    · rw [h.obligations_eq hi hc hp, hg, Option.map_some]
    · obtain ⟨g, hmem, rfl⟩ := List.mem_map.mp hmem'
      exact ⟨g.1, g.2, (hi.goal_mem hpair hg hmem).1, rfl, rfl, hall g hmem⟩

/-- Subtyping is the same after a renaming. -/
theorem isSubtype_eq (h : Embeds f arena arena') (hi : arena.Ordered) (hi' : arena'.Ordered)
    (hc : child < arena.size) (hp : parent < arena.size) :
    arena'.isSubtype (f child) (f parent) = arena.isSubtype child parent := by
  rw [Bool.eq_iff_iff, hi.isSubtype_iff_below hc hp,
    hi'.isSubtype_iff_below (h.lt hc) (h.lt hp)]
  exact h.below_iff hi hc hp

theorem areSubtypes_eq (h : Embeds f arena arena') (hi : arena.Ordered) (hi' : arena'.Ordered)
    {children parents : List TypeId} (hc : ∀ x ∈ children, x < arena.size)
    (hp : ∀ x ∈ parents, x < arena.size) :
    arena'.areSubtypes (children.map f) (parents.map f) =
      arena.areSubtypes children parents := by
  induction children generalizing parents with
  | nil => cases parents <;> rfl
  | cons child children ih =>
    cases parents with
    | nil => rfl
    | cons parent parents =>
      rw [List.forall_mem_cons] at hc hp
      rw [List.map_cons, List.map_cons, areSubtypes, areSubtypes, ih hc.2 hp.2,
        h.isSubtype_eq hi hi' hc.1 hp.1]

/-! ### Interning after a renaming -/

theorem kind_inj (h : Embeds f arena arena') {kind' : TypeKind}
    (hk : ∀ x ∈ kind.ids, x < arena.size) (hk' : ∀ x ∈ kind'.ids, x < arena.size)
    (ha : kind.above? ≠ none) (heq : kind'.map f = kind.map f) : kind' = kind := by
  cases kind with
  | applied base args =>
    cases kind' with
    | applied base' args' =>
      rw [TypeKind.ids_applied, List.forall_mem_cons] at hk hk'
      simp only [TypeKind.map, TypeKind.applied.injEq] at heq
      rw [h.inj hk'.1 hk.1 heq.1, h.map_inj hk'.2 hk.2 heq.2]
    | _ => cases heq
  | function params result =>
    cases kind' with
    | function params' result' =>
      rw [TypeKind.ids_function, List.forall_mem_append, List.forall_mem_singleton] at hk hk'
      simp only [TypeKind.map, TypeKind.function.injEq] at heq
      rw [h.map_inj hk'.1 hk.1 heq.1, h.inj hk'.2 hk.2 heq.2]
    | _ => cases heq
  | _ => exact absurd rfl ha

theorem ne_of_interned?_none (h : Embeds f arena arena') (hi : arena.Indexed)
    (hi' : arena'.Indexed) (hk : ∀ x ∈ kind.ids, x < arena.size)
    (hnone : arena.interned? kind = none) {y : TypeId}
    (hy : arena'.Interns (kind.map f) y arena'') {x : TypeId} (hx : x < arena.size) :
    f x ≠ y := by
  cases hy with
  | added _ _ _ => exact Nat.ne_of_lt (h.lt hx)
  | found hy =>
    rintro rfl
    have hkind : (arena.get x).kind = kind := by
      refine h.kind_inj hk (fun _ => hi.toOrdered.ids_lt hx) (fun ha => ?_) ?_
      · have habove : (kind.map f).above? = none := by
          rw [TypeKind.above?_map h.function_eq, ha, Option.map_none]
        rw [interned?_eq_none habove] at hy
        cases hy
      · rw [← h.kind hx, (hi'.index hy).2.1]
    rw [← hkind] at hy hnone
    rw [(h.interned hx).mp hy] at hnone
    cases hnone

/-- A renaming of two arenas extends to what interning a kind adds to them. -/
theorem interns (h : Embeds f arena arena') (hi : arena.Indexed) (hi' : arena'.Indexed)
    (hk : ∀ x ∈ kind.ids, x < arena.size) {x y : TypeId} {grown grown' : TypeArena}
    (hx : arena.Interns kind x grown) (hy : arena'.Interns (kind.map f) y grown') :
    ∃ g, (∀ id < arena.size, g id = f id) ∧ g x = y ∧ Embeds g grown grown' := by
  have hk' : ∀ z ∈ (kind.map f).ids, z < arena'.size := by
    intro z hz
    rw [TypeKind.ids_map] at hz
    obtain ⟨w, hw, rfl⟩ := List.mem_map.mp hz
    exact h.lt (hk w hw)
  have hnew := (hy.indexed hi' hk').index hy.interned?_eq
  have hext := hx.extension
  have hext' := hy.extension
  cases hx with
  | found hx =>
    obtain ⟨hlt, hkind, -⟩ := hi.index hx
    have hfx : arena'.interned? (kind.map f) = some (f x) := by
      rw [← hkind] at hx ⊢
      exact (h.interned hlt).mpr hx
    obtain ⟨rfl, rfl⟩ := hy.eq_of_interned? hfx
    exact ⟨f, fun _ _ => rfl, rfl, h⟩
  | added hnone htypes hindex =>
    have hsize := size_of_push htypes
    have hfresh : ∀ {x}, x < arena.size → f x ≠ y := h.ne_of_interned?_none hi hi' hk hnone hy
    let g : TypeId → TypeId := fun id => if id = arena.size then y else f id
    have hold : ∀ id < arena.size, g id = f id := fun id hid => if_neg (Nat.ne_of_lt hid)
    have hself : g arena.size = y := if_pos rfl
    have hcases : ∀ {id}, id < grown.size → id < arena.size ∨ id = arena.size := by
      intro id hid
      rw [hsize] at hid
      exact Nat.lt_succ_iff_lt_or_eq.mp hid
    have hmap : ∀ {k : TypeKind}, (∀ z ∈ k.ids, z < arena.size) → k.map g = k.map f :=
      fun hids => TypeKind.map_congr fun z hz => hold z (hids z hz)
    refine ⟨g, hold, hself, ⟨?_, ?_, ?_, ?_, ?_, ?_, ?_⟩⟩
    · intro id hid
      rcases hcases hid with hid | rfl
      · rw [hold id hid]
        exact hext'.lt (h.lt hid)
      · rw [hself]
        exact hnew.1
    · intro a b ha hb heq
      rcases hcases ha with ha | rfl <;> rcases hcases hb with hb | rfl
      · rw [hold a ha, hold b hb] at heq
        exact h.inj ha hb heq
      · rw [hold a ha, hself] at heq
        exact absurd heq (hfresh ha)
      · rw [hself, hold b hb] at heq
        exact absurd heq.symm (hfresh hb)
      · rfl
    · intro id hid
      rw [hold id (Nat.lt_of_lt_of_le hid hi.builtin)]
      exact h.builtin hid
    · intro id hid
      rcases hcases hid with hid | rfl
      · rw [hold id hid, hext'.get_eq (h.lt hid), hext.get_eq hid, h.kind hid]
        exact (hmap fun z => hi.toOrdered.ids_lt hid).symm
      · rw [hself, hnew.2.1, get_of_push_self htypes, hmap hk]
    · intro id hid
      rcases hcases hid with hid | rfl
      · rw [hold id hid, hext'.get_eq (h.lt hid), hext.get_eq hid, h.parent hid]
        refine Option.map_congr fun up hup => (hold up ?_).symm
        exact Nat.lt_trans (hi.parent_lt hup) hid
      · rw [hself, hnew.2.2, get_of_push_self htypes, TypeKind.above?_map h.function_eq]
        refine Option.map_congr fun up hup => (hold up ?_).symm
        cases kind with
        | applied base args =>
          rw [← Option.some.inj hup]
          exact hk base (TypeKind.ids_applied base args ▸ List.mem_cons_self)
        | function params result =>
          rw [← Option.some.inj hup]
          exact Nat.lt_of_lt_of_le (by decide) hi.builtin
        | _ => cases hup
    · intro id constraint hid hvar
      rcases hcases hid with hid | rfl
      · rw [hext.get_eq hid] at hvar
        rw [hold id hid, hext'.name_eq (h.lt hid), hext.name_eq hid, h.varName hid hvar]
      · rw [get_of_push_self htypes] at hvar
        have hin := (hindex kind).trans (if_pos rfl)
        have hkind : kind = .var constraint := hvar
        rw [hkind, interned?_eq_none rfl] at hin
        cases hin
    · intro id hid
      rcases hcases hid with hid | rfl
      · rw [hold id hid, hext.get_eq hid, hmap fun z => hi.toOrdered.ids_lt hid,
          hext'.interned?_iff (h.lt hid), hext.interned?_iff hid, h.interned hid]
      · rw [hself, get_of_push_self htypes, hmap hk, hy.interned?_eq, hindex, if_pos rfl]
        exact iff_of_true rfl rfl

end Embeds

end TypeArena

end DispatchLang
