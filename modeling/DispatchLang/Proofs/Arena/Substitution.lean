import DispatchLang.Proofs.Arena.Renaming

/-!
# Substitution in a growing arena

Putting types in the place of type variables may intern types that were not there before, so substitution
is an operation on arenas. Four facts make it behave like one on types: it only extends the arena; more
depth than the index of the type makes no difference; done again, in whatever the arena has become
since, it gives the same type and changes nothing; and it commutes with a renaming.

Each of the four is proved for one type from the same fact about the types inside it, which `mapTypes`
carries from one to the next. To have one case instead of one for every kind of interned type,
`substituteWithin_eq_intern` tells what happens to all of them at once: what is inside is replaced, and the
result is interned.

## Main results

* `instances_grows`, `instances_again`, `Embeds.instances`: replacing the variables of a signature extends
  the arena, may be done again, and commutes with a renaming.
-/

namespace DispatchLang

/-! ## What is inside an interned type -/

namespace TypeKind

/-- The types in which substitution replaces variables. -/
def inner : TypeKind → List TypeId
  | .applied _ args => args
  | .function params result => params ++ [result]
  | _ => []

def withInner : TypeKind → List TypeId → TypeKind
  | .applied base _, images => .applied base images
  | .function _ result, images => .function images.dropLast (images.getLastD result)
  | kind, _ => kind

variable {kind : TypeKind} {images : List TypeId} {f : TypeId → TypeId} {x : TypeId}

theorem mem_ids_of_mem_inner (h : x ∈ kind.inner) : x ∈ kind.ids := by
  cases kind with
  | applied base args => exact ids_applied base args ▸ List.mem_cons_of_mem _ h
  | function params result => exact ids_function params result ▸ h
  | _ => cases h

theorem inner_map : (kind.map f).inner = kind.inner.map f := by
  cases kind with
  | function params result => rw [map, inner, inner, List.map_append, List.map_singleton]
  | _ => rfl

theorem mem_ids_withInner (h : x ∈ (kind.withInner images).ids) : x ∈ kind.ids ∨ x ∈ images := by
  cases kind with
  | applied base args =>
    rw [withInner, ids_applied] at h
    rw [ids_applied]
    rcases List.mem_cons.mp h with rfl | h
    · exact .inl List.mem_cons_self
    · exact .inr h
  | function params result =>
    rw [withInner, ids_function, List.mem_append, List.mem_singleton] at h
    rw [ids_function]
    rcases h with h | rfl
    · exact .inr (List.mem_of_mem_dropLast h)
    · cases images with
      | nil => exact .inl (List.mem_append_right _ (List.mem_singleton_self _))
      | cons image images =>
        rw [List.getLastD_cons]
        exact .inr List.getLastD_mem_cons
  | _ => exact .inl h

theorem withInner_map : (kind.withInner images).map f = (kind.map f).withInner (images.map f) := by
  cases kind with
  | function params result => simp [withInner, map, List.map_dropLast]
  | _ => rfl

theorem above?_withInner : (kind.withInner images).above? = kind.above? := by
  cases kind <;> rfl

end TypeKind

namespace TypeArena

variable {arena arena' : TypeArena} {bindings : Bindings} {id : TypeId} {ids : List TypeId}
  {kind : TypeKind}

def intern (arena : TypeArena) : TypeKind → TypeId × TypeArena
  | .applied base args => arena.applied base args
  | .function params result => arena.function params result
  | _ => (.any, arena)

theorem intern_interns (arena : TypeArena) (h : kind.above? ≠ none) :
    arena.Interns kind (arena.intern kind).1 (arena.intern kind).2 := by
  cases kind with
  | applied base args => exact applied_interns arena base args
  | function params result => exact function_interns arena params result
  | _ => exact absurd rfl h

/-! ## One step of substitution -/

def Bindings.In (bindings : Bindings) (arena : TypeArena) : Prop :=
  ∀ b ∈ bindings, b.2 < arena.size

theorem Bindings.In.grown (h : bindings.In arena) (he : arena.Extends arena') :
    bindings.In arena' := fun b hb => he.lt (h b hb)

def Bindings.rename (f : TypeId → TypeId) (bindings : Bindings) : Bindings :=
  bindings.map fun b => (b.1, f b.2)

theorem Bindings.lookup_rename (f : TypeId → TypeId) (bindings : Bindings) (name : String) :
    (bindings.rename f).lookup name = (bindings.lookup name).map f := Assoc.lookup_map f bindings name

theorem Bindings.rename_eq {f : TypeId → TypeId} (hb : bindings.In arena)
    (hf : ∀ x < arena.size, f x = x) : bindings.rename f = bindings := by
  rw [rename]
  refine (List.map_congr_left fun b hmem => ?_).trans (List.map_id _)
  rw [hf b.2 (hb b hmem), id]

theorem signature_map_eq {f : TypeId → TypeId} {signature : List TypeId}
    (hs : ∀ x ∈ signature, x < arena.size) (hf : ∀ x < arena.size, f x = x) :
    signature.map f = signature :=
  (List.map_congr_left fun x hx => hf x (hs x hx)).trans (List.map_id _)

/-- What stands in the place of a type with nothing inside. -/
def standIn (arena : TypeArena) (bindings : Bindings) (id : TypeId) : TypeId :=
  match (arena.get id).kind with
  | .var _ => (bindings.lookup (arena.name id)).getD id
  | _ => id

theorem mapTypes_cons (step : TypeId → TypeArena → TypeId × TypeArena) (id : TypeId)
    (ids : List TypeId) (arena : TypeArena) :
    mapTypes step (id :: ids) arena =
      ((step id arena).1 :: (mapTypes step ids (step id arena).2).1,
        (mapTypes step ids (step id arena).2).2) := rfl

theorem mapTypes_append (step : TypeId → TypeArena → TypeId × TypeArena) (ids ids' : List TypeId)
    (arena : TypeArena) :
    mapTypes step (ids ++ ids') arena =
      ((mapTypes step ids arena).1 ++ (mapTypes step ids' (mapTypes step ids arena).2).1,
        (mapTypes step ids' (mapTypes step ids arena).2).2) := by
  induction ids generalizing arena with
  | nil => rfl
  | cons id ids ih =>
    rw [List.cons_append, mapTypes_cons, ih]
    rfl

theorem substituteWithin_eq_standIn (n : Nat) (h : (arena.get id).kind.above? = none) :
    substituteWithin bindings (n + 1) id arena = (arena.standIn bindings id, arena) := by
  rw [substituteWithin, standIn]
  cases hk : (arena.get id).kind with
  | applied base args => rw [hk] at h; cases h
  | function params result => rw [hk] at h; cases h
  | _ => rfl

theorem substituteWithin_eq_intern (n : Nat) (h : (arena.get id).kind.above? ≠ none) :
    substituteWithin bindings (n + 1) id arena =
      (mapTypes (substituteWithin bindings n) (arena.get id).kind.inner arena).2.intern
        ((arena.get id).kind.withInner
          (mapTypes (substituteWithin bindings n) (arena.get id).kind.inner arena).1) := by
  rw [substituteWithin]
  cases hk : (arena.get id).kind with
  | applied base args => rfl
  | function params result =>
    rw [TypeKind.inner, mapTypes_append]
    simp only [mapTypes, TypeKind.withInner, List.dropLast_concat, List.getLastD_concat, intern]
  | _ => rw [hk] at h; exact absurd rfl h

theorem standIn_lt (hb : bindings.In arena) (hid : id < arena.size) :
    arena.standIn bindings id < arena.size := by
  rw [standIn]
  split
  · cases hl : bindings.lookup (arena.name id) with
    | none => exact hid
    | some type => exact hb _ (Assoc.mem_of_lookup hl)
  · exact hid

/-! ## Substitution extends the arena -/

/-- A step extends the arena, keeps its index right and answers a type of it. -/
structure Grows (arena : TypeArena) (out : TypeId × TypeArena) : Prop where
  extension : arena.Extends out.2
  indexed : out.2.Indexed
  lt : out.1 < out.2.size

/-- The same for a step on several types. -/
structure GrowsAll (arena : TypeArena) (out : List TypeId × TypeArena) : Prop where
  extension : arena.Extends out.2
  indexed : out.2.Indexed
  lt : ∀ x ∈ out.1, x < out.2.size

theorem mapTypes_grows (step : TypeId → TypeArena → TypeId × TypeArena) (ids : List TypeId)
    (hi : arena.Indexed) (hstep : ∀ id ∈ ids, ∀ {arena'}, arena.Extends arena' → arena'.Indexed →
      arena'.Grows (step id arena')) :
    arena.GrowsAll (mapTypes step ids arena) := by
  induction ids generalizing arena with
  | nil => exact ⟨.refl _, hi, nofun⟩
  | cons id ids ih =>
    have hhead := hstep id List.mem_cons_self (.refl arena) hi
    have htail := ih hhead.indexed fun x hx _ he =>
      hstep x (List.mem_cons_of_mem _ hx) (hhead.extension.trans he)
    rw [mapTypes_cons]
    exact ⟨hhead.extension.trans htail.extension, htail.indexed,
      List.forall_mem_cons.mpr ⟨htail.extension.lt hhead.lt, htail.lt⟩⟩

theorem intern_grows (hi : arena.Indexed) (ha : kind.above? ≠ none)
    (hk : ∀ x ∈ kind.ids, x < arena.size) : arena.Grows (arena.intern kind) := by
  have hint := arena.intern_interns ha
  have hindexed := hint.indexed hi hk
  exact ⟨hint.extension, hindexed, (hindexed.index hint.interned?_eq).1⟩

theorem withInner_lt {images : List TypeId} (hi : arena.Indexed) (hid : id < arena.size)
    (he : arena.Extends arena') (hx : ∀ x ∈ images, x < arena'.size) :
    ∀ x ∈ ((arena.get id).kind.withInner images).ids, x < arena'.size := by
  intro x hmem
  rcases TypeKind.mem_ids_withInner hmem with hmem | hmem
  · exact he.lt (hi.toOrdered.ids_lt hid hmem)
  · exact hx x hmem

/-- The types inside an interned type are older than it. -/
theorem inner_lt (hi : arena.Ordered) {x : TypeId} (hx : x ∈ (arena.get id).kind.inner) :
    x < id := by
  refine hi.part_lt ?_
  cases hk : (arena.get id).kind with
  | applied base args => rw [hk] at hx; exact List.mem_cons_of_mem _ hx
  | function params result => rw [hk] at hx; exact hx
  | _ => rw [hk] at hx; cases hx

theorem substituteWithin_grows (n : Nat) {id : TypeId} {arena : TypeArena} (hi : arena.Indexed)
    (hb : bindings.In arena) (hid : id < arena.size) :
    arena.Grows (substituteWithin bindings n id arena) := by
  induction n generalizing id arena with
  | zero => exact ⟨.refl _, hi, hid⟩
  | succ n ih =>
    by_cases ha : (arena.get id).kind.above? = none
    · rw [substituteWithin_eq_standIn n ha]
      exact ⟨.refl _, hi, standIn_lt hb hid⟩
    · have hall := mapTypes_grows (substituteWithin bindings n) (arena.get id).kind.inner hi fun x hx _ he hi' =>
          ih hi' (hb.grown he) (he.lt (hi.toOrdered.ids_lt hid (TypeKind.mem_ids_of_mem_inner hx)))
      have hint := intern_grows hall.indexed (TypeKind.above?_withInner.trans_ne ha)
        (withInner_lt hi hid hall.extension hall.lt)
      rw [substituteWithin_eq_intern n ha]
      exact ⟨hall.extension.trans hint.extension, hint.indexed, hint.lt⟩

theorem inner_grows (n : Nat) (hi : arena.Indexed) (hb : bindings.In arena)
    (hid : id < arena.size) : ∀ x ∈ (arena.get id).kind.inner, ∀ {arena'}, arena.Extends arena' →
      arena'.Indexed → arena'.Grows (substituteWithin bindings n x arena') :=
  fun _ hx _ he hi' => substituteWithin_grows n hi' (hb.grown he)
    (he.lt (Nat.lt_trans (inner_lt hi.toOrdered hx) hid))

/-! ## More depth makes no difference -/

theorem mapTypes_congr (step step' : TypeId → TypeArena → TypeId × TypeArena) (ids : List TypeId)
    (hi : arena.Indexed)
    (hgrow : ∀ id ∈ ids, ∀ {arena'}, arena.Extends arena' → arena'.Indexed →
      arena'.Grows (step id arena'))
    (hstep : ∀ id ∈ ids, ∀ {arena'}, arena.Extends arena' → arena'.Indexed →
      step id arena' = step' id arena') :
    mapTypes step ids arena = mapTypes step' ids arena := by
  induction ids generalizing arena with
  | nil => rfl
  | cons id ids ih =>
    have hhead := hgrow id List.mem_cons_self (.refl arena) hi
    rw [mapTypes_cons, mapTypes_cons, ← hstep id List.mem_cons_self (.refl arena) hi,
      ih hhead.indexed
        (fun x hx _ he => hgrow x (List.mem_cons_of_mem _ hx) (hhead.extension.trans he))
        (fun x hx _ he => hstep x (List.mem_cons_of_mem _ hx) (hhead.extension.trans he))]

theorem substituteWithin_eq_of_lt (n : Nat) {m : Nat} {id : TypeId} {arena : TypeArena}
    (hi : arena.Indexed) (hb : bindings.In arena) (hid : id < arena.size) (hn : id < n)
    (hm : id < m) : substituteWithin bindings n id arena = substituteWithin bindings m id arena := by
  induction n generalizing m id arena with
  | zero => exact absurd hn (Nat.not_lt_zero id)
  | succ n ih =>
    cases m with
    | zero => exact absurd hm (Nat.not_lt_zero id)
    | succ m =>
      by_cases ha : (arena.get id).kind.above? = none
      · rw [substituteWithin_eq_standIn n ha, substituteWithin_eq_standIn m ha]
      · have hlt : ∀ {x}, x ∈ (arena.get id).kind.inner → x < id := inner_lt hi.toOrdered
        have hsame := mapTypes_congr (substituteWithin bindings n) (substituteWithin bindings m)
          (arena.get id).kind.inner hi
          (inner_grows n hi hb hid)
          (fun x hx _ he hi' =>
            ih hi' (hb.grown he) (he.lt (Nat.lt_trans (hlt hx) hid))
              (Nat.lt_of_lt_of_le (hlt hx) (Nat.le_of_lt_succ hn))
              (Nat.lt_of_lt_of_le (hlt hx) (Nat.le_of_lt_succ hm)))
        rw [substituteWithin_eq_intern n ha, substituteWithin_eq_intern m ha, hsame]

/-! ## Substitution may be done again -/

theorem mapTypes_again {step : TypeId → TypeArena → TypeId × TypeArena} {later : TypeArena}
    (hi : arena.Indexed)
    (hgrow : ∀ id ∈ ids, ∀ {arena'}, arena.Extends arena' → arena'.Indexed →
      arena'.Grows (step id arena'))
    (hstep : ∀ id ∈ ids, ∀ {arena'}, arena.Extends arena' → arena'.Indexed →
      (step id arena').2.Extends later → step id later = ((step id arena').1, later))
    (he : (mapTypes step ids arena).2.Extends later) :
    mapTypes step ids later = ((mapTypes step ids arena).1, later) := by
  induction ids generalizing arena with
  | nil => rfl
  | cons id ids ih =>
    have hhead := hgrow id List.mem_cons_self (.refl arena) hi
    have hgrow' : ∀ x ∈ ids, ∀ {arena'}, (step id arena).2.Extends arena' → arena'.Indexed →
        arena'.Grows (step x arena') := fun x hx _ he =>
      hgrow x (List.mem_cons_of_mem _ hx) (hhead.extension.trans he)
    have htail := mapTypes_grows _ _ hhead.indexed hgrow'
    have hfirst := hstep id List.mem_cons_self (.refl arena) hi (htail.extension.trans he)
    have hrest := ih hhead.indexed hgrow'
      (fun x hx _ he => hstep x (List.mem_cons_of_mem _ hx) (hhead.extension.trans he)) he
    rw [mapTypes_cons, hfirst, hrest, mapTypes_cons]

theorem intern_again (ha : kind.above? ≠ none) (hi : (arena.intern kind).2.Indexed)
    {later : TypeArena} (he : (arena.intern kind).2.Extends later) :
    later.intern kind = ((arena.intern kind).1, later) := by
  obtain ⟨hid, harena⟩ := (later.intern_interns ha).eq_of_interned?
    (he.interned?_eq hi (arena.intern_interns ha).interned?_eq)
  exact Prod.ext hid harena

theorem standIn_eq (he : arena.Extends arena') (hid : id < arena.size) :
    arena'.standIn bindings id = arena.standIn bindings id := by
  rw [standIn, standIn, he.get_eq hid, he.name_eq hid]

theorem substituteWithin_again (n : Nat) {id : TypeId} {arena : TypeArena} (hi : arena.Indexed)
    (hb : bindings.In arena) (hid : id < arena.size) {later : TypeArena}
    (he : (substituteWithin bindings n id arena).2.Extends later) :
    substituteWithin bindings n id later =
      ((substituteWithin bindings n id arena).1, later) := by
  induction n generalizing id arena later with
  | zero => rfl
  | succ n ih =>
    have hget : later.get id = arena.get id :=
      ((substituteWithin_grows (n + 1) hi hb hid).extension.trans he).get_eq hid
    by_cases ha : (arena.get id).kind.above? = none
    · have ha' : (later.get id).kind.above? = none := hget ▸ ha
      rw [substituteWithin_eq_standIn n ha] at he ⊢
      rw [substituteWithin_eq_standIn n ha', standIn_eq he hid]
    · have ha' : (later.get id).kind.above? ≠ none := hget ▸ ha
      have hall := mapTypes_grows _ _ hi (inner_grows n hi hb hid)
      have hint := intern_grows hall.indexed (TypeKind.above?_withInner.trans_ne ha)
        (withInner_lt hi hid hall.extension hall.lt)
      rw [substituteWithin_eq_intern n ha] at he ⊢
      have hinner := mapTypes_again hi (inner_grows n hi hb hid)
        (fun x hx _ he hi' he' =>
          ih hi' (hb.grown he) (he.lt (Nat.lt_trans (inner_lt hi.toOrdered hx) hid)) he')
        (hint.extension.trans he)
      rw [substituteWithin_eq_intern n ha', hget, hinner]
      exact intern_again (TypeKind.above?_withInner.trans_ne ha) hint.indexed he

/-! ## Substitution commutes with a renaming -/

/-- A renaming extends to what a step adds to two arenas. -/
def Follows (f : TypeId → TypeId) (arena : TypeArena) (out out' : TypeId × TypeArena) : Prop :=
  ∃ g, (∀ id < arena.size, g id = f id) ∧ g out.1 = out'.1 ∧ Embeds g out.2 out'.2

/-- The same for a step on several types. -/
def FollowsAll (f : TypeId → TypeId) (arena : TypeArena) (out out' : List TypeId × TypeArena) :
    Prop :=
  ∃ g, (∀ id < arena.size, g id = f id) ∧ out.1.map g = out'.1 ∧ Embeds g out.2 out'.2

namespace Embeds

variable {f : TypeId → TypeId}

theorem mapTypes (step step' : TypeId → TypeArena → TypeId × TypeArena) {base base' : TypeArena}
    (hgrow : ∀ id ∈ ids, ∀ {grown}, base.Extends grown → grown.Indexed →
      grown.Grows (step id grown))
    (hgrow' : ∀ id ∈ ids, ∀ {grown}, base'.Extends grown → grown.Indexed →
      grown.Grows (step' (f id) grown))
    (hstep : ∀ id ∈ ids, ∀ {g grown grown'}, base.Extends grown → base'.Extends grown' →
      grown.Indexed → grown'.Indexed → (∀ x < base.size, g x = f x) → Embeds g grown grown' →
      Follows g grown (step id grown) (step' (f id) grown'))
    {g : TypeId → TypeId} (he : base.Extends arena) (he' : base'.Extends arena')
    (hi : arena.Indexed) (hi' : arena'.Indexed) (hg : ∀ x < base.size, g x = f x)
    (h : Embeds g arena arena') :
    FollowsAll g arena (TypeArena.mapTypes step ids arena)
      (TypeArena.mapTypes step' (ids.map f) arena') := by
  induction ids generalizing g arena arena' with
  | nil => exact ⟨g, fun _ _ => rfl, rfl, h⟩
  | cons id ids ih =>
    have hhead := hgrow id List.mem_cons_self he hi
    have hhead' := hgrow' id List.mem_cons_self he' hi'
    obtain ⟨k, hk, hfirst, hembeds⟩ := hstep id List.mem_cons_self he he' hi hi' hg h
    obtain ⟨l, hl, hrest, hembeds'⟩ := ih
      (fun x hx => hgrow x (List.mem_cons_of_mem _ hx))
      (fun x hx => hgrow' x (List.mem_cons_of_mem _ hx))
      (fun x hx => hstep x (List.mem_cons_of_mem _ hx))
      (he.trans hhead.extension) (he'.trans hhead'.extension) hhead.indexed hhead'.indexed
      (fun x hx => (hk x (he.lt hx)).trans (hg x hx)) hembeds
    refine ⟨l, fun x hx => (hl x (hhead.extension.lt hx)).trans (hk x hx), ?_, hembeds'⟩
    rw [List.map_cons, mapTypes_cons, mapTypes_cons, List.map_cons, hl _ hhead.lt, hfirst, hrest]

theorem intern (h : Embeds f arena arena') (hi : arena.Indexed) (hi' : arena'.Indexed)
    (hk : ∀ x ∈ kind.ids, x < arena.size) (ha : kind.above? ≠ none) :
    Follows f arena (arena.intern kind) (arena'.intern (kind.map f)) := by
  have ha' : (kind.map f).above? ≠ none := by
    rw [TypeKind.above?_map h.function_eq]
    exact fun hnone => ha (Option.map_eq_none_iff.mp hnone)
  exact h.interns hi hi' hk (arena.intern_interns ha) (arena'.intern_interns ha')

theorem standIn_eq (h : Embeds f arena arena') (hid : id < arena.size) :
    arena'.standIn (bindings.rename f) (f id) = f (arena.standIn bindings id) := by
  rw [standIn, standIn, h.kind hid]
  cases hk : (arena.get id).kind with
  | var constraint =>
    simp only [TypeKind.map, h.varName hid hk, Bindings.rename, Assoc.lookup_map]
    cases bindings.lookup (arena.name id) <;> rfl
  | _ => rfl

theorem above?_eq_none_iff (h : Embeds f arena arena') (hid : id < arena.size) :
    (arena'.get (f id)).kind.above? = none ↔ (arena.get id).kind.above? = none := by
  rw [h.kind hid, TypeKind.above?_map h.function_eq, Option.map_eq_none_iff]

theorem rename_in (h : Embeds f arena arena') (hb : bindings.In arena) :
    (bindings.rename f).In arena' := by
  intro b' hb'
  obtain ⟨b, hmem, rfl⟩ := List.mem_map.mp hb'
  exact h.lt (hb b hmem)

/-- Renaming the bound types only depends on how types of the arena are renamed. -/
theorem rename_congr {g : TypeId → TypeId} (hb : bindings.In arena)
    (hg : ∀ x < arena.size, g x = f x) :
    bindings.rename g = bindings.rename f :=
  List.map_congr_left fun b hmem => by rw [hg b.2 (hb b hmem)]

theorem substituteWithin (n : Nat) {id : TypeId} {f : TypeId → TypeId} {arena arena' : TypeArena}
    (h : Embeds f arena arena') (hi : arena.Indexed) (hi' : arena'.Indexed)
    (hb : bindings.In arena) (hid : id < arena.size) :
    Follows f arena (TypeArena.substituteWithin bindings n id arena)
      (TypeArena.substituteWithin (bindings.rename f) n (f id) arena') := by
  induction n generalizing id f arena arena' with
  | zero => exact ⟨f, fun _ _ => rfl, rfl, h⟩
  | succ n ih =>
    by_cases ha : (arena.get id).kind.above? = none
    · rw [substituteWithin_eq_standIn n ha,
        substituteWithin_eq_standIn n ((h.above?_eq_none_iff hid).mpr ha), h.standIn_eq hid]
      exact ⟨f, fun _ _ => rfl, rfl, h⟩
    · have ha' : (arena'.get (f id)).kind.above? ≠ none := (h.above?_eq_none_iff hid).not.mpr ha
      have hlt : ∀ {x}, x ∈ (arena.get id).kind.inner → x < arena.size := fun hx =>
        Nat.lt_trans (inner_lt hi.toOrdered hx) hid
      have hgrow := inner_grows n hi hb hid
      have hinner : (arena'.get (f id)).kind.inner = (arena.get id).kind.inner.map f := by
        rw [h.kind hid, TypeKind.inner_map]
      have hgrow' := inner_grows n hi' (h.rename_in hb) (h.lt hid)
      rw [hinner] at hgrow'
      have hall := mapTypes_grows _ _ hi hgrow
      have hall' := mapTypes_grows _ _ hi' hgrow'
      obtain ⟨g, hg, himages, hembeds⟩ := Embeds.mapTypes
        (TypeArena.substituteWithin bindings n)
        (TypeArena.substituteWithin (bindings.rename f) n)
        hgrow (fun x hx => hgrow' (f x) (List.mem_map_of_mem hx))
        (fun x hx k grown grown' he he' hi hi' hk hembeds => by
          have hstep := ih hembeds hi hi' (hb.grown he) (he.lt (hlt hx))
          rw [rename_congr hb hk, hk x (hlt hx)] at hstep
          exact hstep)
        (.refl arena) (.refl arena') hi hi' (fun _ _ => rfl) h
      have hids := withInner_lt hi hid hall.extension hall.lt
      have hkind : (arena.get id).kind.map f = (arena.get id).kind.map g :=
        TypeKind.map_congr fun x hx => (hg x (hi.toOrdered.ids_lt hid hx)).symm
      obtain ⟨k, hk, hout, hembeds'⟩ := hembeds.intern hall.indexed hall'.indexed hids
        (TypeKind.above?_withInner.trans_ne ha)
      rw [TypeKind.withInner_map, himages, ← hkind, ← h.kind hid] at hout hembeds'
      rw [substituteWithin_eq_intern n ha, substituteWithin_eq_intern n ha', hinner]
      exact ⟨k, fun x hx => (hk x (hall.extension.lt hx)).trans (hg x hx), hout, hembeds'⟩

end Embeds

/-! ## All types of a signature -/

/-- Replaces the variables in a signature by what they stand for. -/
def instances (bindings : Bindings) (signature : List TypeId) (arena : TypeArena) :
    List TypeId × TypeArena :=
  mapTypes (fun id arena => arena.substitute bindings id) signature arena

theorem substitute_grows (hi : arena.Indexed) (hb : bindings.In arena) (hid : id < arena.size) :
    arena.Grows (arena.substitute bindings id) := substituteWithin_grows _ hi hb hid

variable {signature : List TypeId}

theorem signature_grows (hb : bindings.In arena) (hs : ∀ x ∈ signature, x < arena.size) :
    ∀ x ∈ signature, ∀ {grown}, arena.Extends grown → grown.Indexed →
      grown.Grows (grown.substitute bindings x) :=
  fun x hx _ he hi => substitute_grows hi (hb.grown he) (he.lt (hs x hx))

theorem instances_grows (hi : arena.Indexed) (hb : bindings.In arena)
    (hs : ∀ x ∈ signature, x < arena.size) :
    arena.GrowsAll (instances bindings signature arena) :=
  mapTypes_grows _ _ hi (signature_grows hb hs)

/-- Replacing the variables of a signature again, in whatever the arena has become, changes nothing. -/
theorem instances_again (hi : arena.Indexed) (hb : bindings.In arena)
    (hs : ∀ x ∈ signature, x < arena.size) {later : TypeArena}
    (he : (instances bindings signature arena).2.Extends later) (hl : later.Indexed) :
    instances bindings signature later = ((instances bindings signature arena).1, later) := by
  have hbase : arena.Extends later := (instances_grows hi hb hs).extension.trans he
  refine mapTypes_again hi (signature_grows hb hs) (fun x hx grown hg hi' he' => ?_) he
  have hlt : x < grown.size := hg.lt (hs x hx)
  have hlater : x < later.size := hbase.lt (hs x hx)
  have hdepth : later.substitute bindings x = substituteWithin bindings (grown.size + 1) x later :=
    substituteWithin_eq_of_lt _ hl (hb.grown hbase) hlater (Nat.lt_succ_of_lt hlater)
      (Nat.lt_succ_of_lt hlt)
  rw [hdepth]
  exact substituteWithin_again _ hi' (hb.grown hg) hlt he'

theorem Embeds.substitute {f : TypeId → TypeId} (h : Embeds f arena arena') (hi : arena.Indexed)
    (hi' : arena'.Indexed) (hb : bindings.In arena) (hid : id < arena.size) :
    Follows f arena (arena.substitute bindings id) (arena'.substitute (bindings.rename f) (f id)) := by
  have hdepth : arena.substitute bindings id =
      TypeArena.substituteWithin bindings (arena.size + arena'.size) id arena :=
    substituteWithin_eq_of_lt _ hi hb hid (Nat.lt_succ_of_lt hid)
      (Nat.lt_of_lt_of_le hid (Nat.le_add_right _ _))
  have hdepth' : arena'.substitute (bindings.rename f) (f id) =
      TypeArena.substituteWithin (bindings.rename f) (arena.size + arena'.size) (f id) arena' :=
    substituteWithin_eq_of_lt _ hi' (h.rename_in hb) (h.lt hid) (Nat.lt_succ_of_lt (h.lt hid))
      (Nat.lt_of_lt_of_le (h.lt hid) (Nat.le_add_left _ _))
  rw [hdepth, hdepth']
  exact h.substituteWithin _ hi hi' hb hid

theorem Embeds.instances {f : TypeId → TypeId} (h : Embeds f arena arena') (hi : arena.Indexed)
    (hi' : arena'.Indexed) (hb : bindings.In arena) (hs : ∀ x ∈ signature, x < arena.size) :
    FollowsAll f arena (TypeArena.instances bindings signature arena)
      (TypeArena.instances (bindings.rename f) (signature.map f) arena') := by
  refine Embeds.mapTypes _ _ (signature_grows hb hs) (fun x hx grown he hi => ?_)
    (fun x hx g grown grown' he he' hi hi' hg hembeds => ?_)
    (.refl arena) (.refl arena') hi hi' (fun _ _ => rfl) h
  · exact substitute_grows hi ((h.rename_in hb).grown he) (he.lt (h.lt (hs x hx)))
  · have hstep := hembeds.substitute hi hi' (hb.grown he) (he.lt (hs x hx))
    rw [rename_congr hb hg, hg x (hs x hx)] at hstep
    exact hstep

end TypeArena

end DispatchLang
