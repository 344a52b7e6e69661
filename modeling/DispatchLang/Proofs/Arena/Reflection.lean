import DispatchLang.Proofs.Arena.Representation

/-!
# Arenas that grow side by side

Two arenas in which the same is declared hold the same types, each under indices of its own, and one of them may
hold types besides. `Reflects` says that all types of one arena are found in another, except for the type variable
and the type of arrays of it that the built-in methods of a session are declared with: these are in the session from
the beginning, while the other arena may never need them, or only later. So the first arena is embedded in what the
second one becomes when these two are interned as well (`TypeArena.withElements`).

What the two arenas intern, add and redefine in the same way keeps them side by side. The second arena may moreover
grow by itself in any way. What has an image keeps it.

## Main definitions

* `TypeArena.internKeyed`: the type with a key.
* `TypeArena.Reflects`: the types of one arena are found in another one.
* `TypeArena.Image`: a type of one arena is found under an index in another.

## Main results

* `Embeds.keyed`: an embedding extends to what is interned.
* `Reflects.grown`: the second arena may grow.
* `Reflects.keyed`, `Reflects.add`, `Reflects.redefine`: steps that both take.
-/

namespace DispatchLang

/-! ## Keys after a renaming -/

theorem TypeKind.map_map (f g : TypeId → TypeId) (kind : TypeKind) :
    (kind.map f).map g = kind.map (g ∘ f) := by
  cases kind <;> simp [map]

namespace TypeKey

def map (f : TypeId → TypeId) : TypeKey → TypeKey
  | .applied base args => .applied (f base) (args.map f)
  | .var name constraint => .var name (f constraint)
  | .function params result => .function (params.map f) (f result)

theorem kind_map (f : TypeId → TypeId) (key : TypeKey) : (key.map f).kind = key.kind.map f := by
  cases key <;> rfl

theorem map_congr {f g : TypeId → TypeId} {key : TypeKey} (h : ∀ x ∈ key.kind.parts, f x = g x) :
    key.map f = key.map g := by
  cases key with
  | applied base args =>
    obtain ⟨hbase, hargs⟩ := List.forall_mem_cons.mp h
    rw [map, map, hbase, List.map_congr_left hargs]
  | var name constraint => rw [map, map, h constraint List.mem_cons_self]
  | function params result =>
    obtain ⟨hparams, hresult⟩ := List.forall_mem_append.mp h
    rw [map, map, List.map_congr_left hparams, hresult result List.mem_cons_self]

end TypeKey

theorem TypeKind.above?_eq_none {kind : TypeKind} (h : kind.parts = []) : kind.above? = none := by
  cases kind with
  | applied base args => cases h
  | function params result => exact absurd h (List.append_ne_nil_of_right_ne_nil _ (List.cons_ne_nil _ _))
  | _ => rfl

theorem TypeDef.Refills.parent_eq {d d' : TypeDef} (h : Refills d d') : d'.parent = d.parent := by
  cases h <;> rfl

namespace TypeArena

variable {A A' B B' D : TypeArena} {f g : TypeId → TypeId} {id : TypeId} {key : TypeKey} {d d' : TypeDef}

/-! ## Interning by keys -/

def internKeyed (arena : TypeArena) : TypeKey → TypeId × TypeArena
  | .applied base args => arena.applied base args
  | .var name constraint => arena.var name constraint
  | .function params result => arena.function params result

theorem internKeyed_cases (A : TypeArena) (key : TypeKey) :
    (∃ id, A.keyed? key = some id ∧ A.internKeyed key = (id, A)) ∨
      A.keyed? key = none ∧ (A.internKeyed key).1 = A.size ∧
        (A.internKeyed key).2.types = A.types.push (A.describe key) ∧
        ∀ k, (A.internKeyed key).2.keyed? k = if k = key then some A.size else A.keyed? k := by
  cases key with
  | applied base args =>
    rw [internKeyed, applied]
    cases hl : A.appliedIndex.lookup (base, args) with
    | some id => exact .inl ⟨id, hl, rfl⟩
    | none =>
      refine .inr ⟨hl, rfl, rfl, fun k => ?_⟩
      cases k with
      | applied base' args' => exact Consistent.lookup_cons_eq (by rw [Prod.mk_inj, TypeKey.applied.injEq]) _ _
      | _ => rfl
  | var name constraint =>
    rw [internKeyed, var]
    cases hl : A.varIndex.lookup (name, constraint) with
    | some id => exact .inl ⟨id, hl, rfl⟩
    | none =>
      refine .inr ⟨hl, rfl, rfl, fun k => ?_⟩
      cases k with
      | var name' constraint' => exact Consistent.lookup_cons_eq (by rw [Prod.mk_inj, TypeKey.var.injEq]) _ _
      | _ => rfl
  | function params result =>
    rw [internKeyed, function]
    cases hl : A.functionIndex.lookup (params, result) with
    | some id => exact .inl ⟨id, hl, rfl⟩
    | none =>
      refine .inr ⟨hl, rfl, rfl, fun k => ?_⟩
      cases k with
      | function params' result' => exact Consistent.lookup_cons_eq (by rw [Prod.mk_inj, TypeKey.function.injEq]) _ _
      | _ => rfl

theorem internKeyed_extends (A : TypeArena) (key : TypeKey) : A.Extends (A.internKeyed key).2 := by
  cases key with
  | applied base args => exact (applied_interns A base args).extension
  | var name constraint => exact .var A name constraint
  | function params result => exact (function_interns A params result).extension

theorem Regular.internKeyed (h : A.Regular) (hk : ∀ x ∈ key.kind.parts, x < A.size) :
    (A.internKeyed key).2.Regular := by
  cases key with
  | applied base args => exact .applied base args h (hk base List.mem_cons_self) fun x hx => hk x (List.mem_cons_of_mem _ hx)
  | var name constraint => exact .var name constraint h (hk constraint List.mem_cons_self)
  | function params result =>
    exact .function params result h (fun x hx => hk x (List.mem_append_left _ hx))
      (hk result (List.mem_append_right _ (List.mem_singleton_self _)))

theorem keyed?_internKeyed (A : TypeArena) (key : TypeKey) :
    (A.internKeyed key).2.keyed? key = some (A.internKeyed key).1 := by
  rcases A.internKeyed_cases key with ⟨id, hid, heq⟩ | ⟨-, hid, -, hkeyed⟩
  · rw [heq, hid]
  · rw [hkeyed, if_pos rfl, hid]

/-- An index only ever gains entries. -/
theorem Extends.keyed?_eq (he : A.Extends B) (h : A.Regular) (h' : B.Regular) (hid : A.keyed? key = some id) :
    B.keyed? key = some id := by
  obtain ⟨hlt, hget⟩ := (h.consistent.keyed?_iff key id).mp hid
  refine (h'.consistent.keyed?_iff key id).mpr ⟨he.lt hlt, ?_⟩
  rw [he.get_eq hlt, hget]
  refine (describe_congr fun x hx => he.name_eq ?_).symm
  refine Nat.lt_trans (h.consistent.part_lt ?_) hlt
  rwa [kind_of_describe hget]

theorem Consistent.keyed?_of_kind (h : A.Consistent) (hid : id < A.size) (hk : (A.get id).kind = key.kind)
    (hname : ∀ name constraint, key = .var name constraint → A.name id = name) : A.keyed? key = some id := by
  refine (h.keyed?_iff key id).mpr ⟨hid, ?_⟩
  obtain ⟨key', hget⟩ := h.exists_key id (hk ▸ kind_parts_ne_nil key)
  have hkind := (kind_of_describe hget).symm.trans hk
  suffices heq : key' = key by rw [hget, heq]
  cases key with
  | var name constraint =>
    obtain ⟨name', constraint', rfl⟩ : ∃ name' constraint', key' = .var name' constraint' := by
      cases key' with
      | var name' constraint' => exact ⟨_, _, rfl⟩
      | _ => cases hkind
    cases hkind
    rw [← hname name constraint rfl, TypeArena.name, hget]
    rfl
  | applied base args =>
    cases key' <;> cases hkind
    rfl
  | function params result =>
    cases key' <;> cases hkind
    rfl

/-! ## Embeddings -/

namespace Embeds

theorem trans (h : Embeds f A B) (h' : Embeds g B D) : Embeds (g ∘ f) A D where
  lt hid := h'.lt (h.lt hid)
  inj ha hb heq := h.inj ha hb (h'.inj (h.lt ha) (h.lt hb) heq)
  builtin hid := (congrArg g (h.builtin hid)).trans (h'.builtin hid)
  kind hid := by
    rw [← TypeKind.map_map, ← h.kind hid]
    exact h'.kind (h.lt hid)
  parent hid := by
    rw [← Option.map_map, ← h.parent hid]
    exact h'.parent (h.lt hid)
  varName hid hk := (h'.varName (h.lt hid) (by rw [h.kind hid, hk]; rfl)).trans (h.varName hid hk)
  interned hid := by
    rw [← h.interned hid, ← TypeKind.map_map, ← h.kind hid]
    exact h'.interned (h.lt hid)

/-- An embedding extends to a type that is added, if there is a type like it that is not the image of an older one. -/
theorem push (h : Embeds f A B) (hi : A.Indexed) (he : A.Extends A') (htypes : A'.types = A.types.push d)
    (hd : ∀ x ∈ d.ids, x < A.size) {y : TypeId} (hy : y < B.size) (hfresh : ∀ x < A.size, f x ≠ y)
    (hk : (B.get y).kind = d.kind.map f) (hp : (B.get y).parent = d.parent.map f)
    (hname : ∀ constraint, d.kind = .var constraint → B.name y = d.name)
    (hinterned : B.interned? (d.kind.map f) = some y ↔ A'.interned? d.kind = some A.size) :
    ∃ g, (∀ id < A.size, g id = f id) ∧ g A.size = y ∧ Embeds g A' B := by
  let g : TypeId → TypeId := fun id => if id = A.size then y else f id
  have hold : ∀ id < A.size, g id = f id := fun id hid => if_neg (Nat.ne_of_lt hid)
  have hself : g A.size = y := if_pos rfl
  have hcases : ∀ {id}, id < A'.size → id < A.size ∨ id = A.size := by
    intro id hid
    rw [size_of_push htypes] at hid
    exact Nat.lt_succ_iff_lt_or_eq.mp hid
  have hmap : ∀ {k : TypeKind}, (∀ z ∈ k.ids, z < A.size) → k.map g = k.map f :=
    fun hids => TypeKind.map_congr fun z hz => hold z (hids z hz)
  have hids : ∀ z ∈ d.kind.ids, z < A.size := fun z hz => hd z (List.mem_append_right _ hz)
  refine ⟨g, hold, hself, ⟨fun {id} hid => ?_, fun {a b} ha hb heq => ?_, fun {id} hid => ?_, fun {id} hid => ?_,
    fun {id} hid => ?_, fun {id constraint} hid hvar => ?_, fun {id} hid => ?_⟩⟩
  · rcases hcases hid with hid | rfl
    · rw [hold id hid]
      exact h.lt hid
    · rwa [hself]
  · rcases hcases ha with ha | rfl <;> rcases hcases hb with hb | rfl
    · rw [hold a ha, hold b hb] at heq
      exact h.inj ha hb heq
    · rw [hold a ha, hself] at heq
      exact absurd heq (hfresh a ha)
    · rw [hself, hold b hb] at heq
      exact absurd heq.symm (hfresh b hb)
    · rfl
  · rw [hold id (Nat.lt_of_lt_of_le hid hi.builtin)]
    exact h.builtin hid
  · rcases hcases hid with hid | rfl
    · rw [hold id hid, he.get_eq hid, h.kind hid, hmap fun z => hi.toOrdered.ids_lt hid]
    · rw [hself, get_of_push_self htypes, hk, hmap hids]
  · rcases hcases hid with hid | rfl
    · rw [hold id hid, he.get_eq hid, h.parent hid]
      exact Option.map_congr fun up hup => (hold up (Nat.lt_trans (hi.parent_lt hup) hid)).symm
    · rw [hself, get_of_push_self htypes, hp]
      refine Option.map_congr fun up hup => (hold up (hd up (List.mem_append_left _ ?_))).symm
      rw [hup]
      exact List.mem_singleton_self up
  · rcases hcases hid with hid | rfl
    · rw [he.get_eq hid] at hvar
      rw [hold id hid, he.name_eq hid, h.varName hid hvar]
    · rw [get_of_push_self htypes] at hvar
      rw [hself, TypeArena.name, TypeArena.name, get_of_push_self htypes]
      exact hname constraint hvar
  · rcases hcases hid with hid | rfl
    · rw [hold id hid, he.get_eq hid, hmap fun z => hi.toOrdered.ids_lt hid, he.interned?_iff hid, h.interned hid]
    · rw [hself, get_of_push_self htypes, hmap hids, hinterned]

theorem keyKind_inj (h : Embeds f A B) {kind : TypeKind} (hkind : ∀ x ∈ kind.ids, x < A.size)
    (hk : ∀ x ∈ key.kind.parts, x < A.size) (heq : kind.map f = key.kind.map f) : kind = key.kind := by
  have hids : key.kind.ids = key.kind.parts := by cases key <;> exact List.append_nil _
  cases key with
  | var name constraint =>
    cases kind with
    | var constraint' =>
      exact congrArg TypeKind.var (h.inj (hkind constraint' List.mem_cons_self) (hk constraint List.mem_cons_self)
        (TypeKind.var.inj heq))
    | _ => cases heq
  | _ => exact h.kind_inj (hids ▸ hk) hkind nofun heq

/-- An embedding extends to what is interned, if that is interned in the second arena. -/
theorem keyed (h : Embeds f A B) (hr : A.Regular) (hr' : B.Regular) (hk : ∀ x ∈ key.kind.parts, x < A.size)
    {y : TypeId} (hy : B.keyed? (key.map f) = some y) :
    ∃ g, (∀ id < A.size, g id = f id) ∧ g (A.internKeyed key).1 = y ∧ Embeds g (A.internKeyed key).2 B := by
  obtain ⟨hylt, hyget⟩ := (hr'.consistent.keyed?_iff _ y).mp hy
  have hykind : (B.get y).kind = key.kind.map f := by rw [kind_of_describe hyget, TypeKey.kind_map]
  rcases A.internKeyed_cases key with ⟨x, hx, heq⟩ | ⟨hnone, hid, htypes, hkeyed⟩
  · obtain ⟨hxlt, hxget⟩ := (hr.consistent.keyed?_iff _ x).mp hx
    have hxkind := kind_of_describe hxget
    have hfx : B.keyed? (key.map f) = some (f x) := by
      refine hr'.consistent.keyed?_of_kind (h.lt hxlt) ?_ fun name constraint hkey => ?_
      · rw [h.kind hxlt, hxkind, TypeKey.kind_map]
      · cases key <;> cases hkey
        rw [h.varName hxlt hxkind, TypeArena.name, hxget]
        rfl
    rw [heq]
    exact ⟨f, fun _ _ => rfl, Option.some.inj (hfx.symm.trans hy), h⟩
  · -- what has this image would have been interned under the key
    have hfresh : ∀ x < A.size, f x ≠ y := by
      rintro x hx rfl
      have hkind : (A.get x).kind = key.kind :=
        h.keyKind_inj (fun z hz => hr.indexed.toOrdered.ids_lt hx hz) hk ((h.kind hx).symm.trans hykind)
      have hfound : A.keyed? key = some x := by
        refine hr.consistent.keyed?_of_kind hx hkind fun name constraint hkey => ?_
        subst hkey
        rw [← h.varName hx hkind, TypeArena.name, hyget]
        rfl
      rw [hnone] at hfound
      cases hfound
    rw [hid]
    refine h.push hr.indexed (A.internKeyed_extends key) htypes
      (Consistent.ids_describe hr.indexed.toOrdered hk) hylt hfresh ?_ ?_ (fun constraint hvar => ?_) ?_
    · rw [hykind, describe_kind]
    · rw [hyget]
      cases key with
      | function params result => exact congrArg some h.function_eq.symm
      | _ => rfl
    · cases key <;> cases hvar
      rw [TypeArena.name, hyget]
      rfl
    · cases key with
      | var name constraint => exact iff_of_false (Option.some_ne_none _).symm (Option.some_ne_none _).symm
      | _ => exact iff_of_true hy ((hkeyed _).trans (if_pos rfl))

/-- An embedding extends to what both arenas intern in the same way. -/
theorem keyedBoth (h : Embeds f A B) (key : TypeKey) (hr : A.Regular) (hr' : B.Regular)
    (hk : ∀ x ∈ key.kind.parts, x < A.size) :
    ∃ g, (∀ id < A.size, g id = f id) ∧ g (A.internKeyed key).1 = (B.internKeyed (key.map f)).1 ∧
      Embeds g (A.internKeyed key).2 (B.internKeyed (key.map f)).2 := by
  refine (h.trans_extends (B.internKeyed_extends _)).keyed hr (hr'.internKeyed ?_) hk (B.keyed?_internKeyed _)
  rw [TypeKey.kind_map, TypeKind.parts_map]
  exact List.forall_mem_map.mpr fun x hx => h.lt (hk x hx)

/-- Filling in fields or alternatives of a type and of its image keeps the one the image of the other. -/
theorem redefine (h : Embeds f A B) {x : TypeId} (hx : x < A.size) (hd : TypeDef.Refills (A.get x) d)
    (hd' : TypeDef.Refills (B.get (f x)) d') (hk : d'.kind = d.kind.map f) :
    Embeds f (A.redefine x d) (B.redefine (f x) d') := by
  have hget (id : TypeId) (hid : id < A.size) :
      (B.redefine (f x) d').get (f id) = if id = x then d' else B.get (f id) := by
    rw [get_redefine (h.lt hx)]
    exact if_congr (h.eq_iff hid hx) rfl rfl
  refine ⟨fun {id} hid => ?_, fun {a b} ha hb => ?_, h.builtin, fun {id} hid => ?_, fun {id} hid => ?_,
    fun {id constraint} hid hvar => ?_, fun {id} hid => ?_⟩
  · rw [size_redefine] at hid ⊢
    exact h.lt hid
  · rw [size_redefine] at ha hb
    exact h.inj ha hb
  · rw [size_redefine] at hid
    rw [hget id hid, get_redefine hx]
    split
    · exact hk
    · exact h.kind hid
  · rw [size_redefine] at hid
    rw [hget id hid, get_redefine hx]
    split
    · rw [hd.parent_eq, hd'.parent_eq]
      exact h.parent hx
    · exact h.parent hid
  · rw [size_redefine] at hid
    rw [get_redefine hx] at hvar
    rw [TypeArena.name, TypeArena.name, hget id hid, get_redefine hx]
    split
    · next heq =>
      rw [if_pos heq] at hvar
      have hparts := hd.parts_eq.2
      rw [hvar] at hparts
      cases hparts
    · next hne =>
      rw [if_neg hne] at hvar
      exact h.varName hid hvar
  · rw [size_redefine] at hid
    have hindex (C : TypeArena) (z : TypeId) (e : TypeDef) (k : TypeKind) : (C.redefine z e).interned? k = C.interned? k := by
      cases k <;> rfl
    rw [hindex, hindex, get_redefine hx]
    split
    · have hnone := TypeKind.above?_eq_none hd.parts_eq.2
      rw [interned?_eq_none hnone, interned?_eq_none (by rw [TypeKind.above?_map h.function_eq, hnone]; rfl)]
      exact iff_of_false (Option.some_ne_none _).symm (Option.some_ne_none _).symm
    · exact h.interned hid

end Embeds

/-! ## The types of elements and their arrays -/

/-- The arena with the types that the built-in methods of a session are declared with. -/
def withElements (arena : TypeArena) : TypeArena :=
  let (element, arena) := arena.var "T" .any
  (arena.arrayOf element).2

def element (arena : TypeArena) : TypeId := (arena.internKeyed (.var "T" .any)).1

theorem withElements_eq (A : TypeArena) : A.withElements =
    ((A.internKeyed (.var "T" .any)).2.internKeyed (.applied .array [A.element])).2 := rfl

theorem withElements_extends (A : TypeArena) : A.Extends A.withElements := by
  rw [withElements_eq]
  exact (A.internKeyed_extends _).trans (internKeyed_extends _ _)

namespace Regular

theorem varElements (h : A.Regular) : (A.internKeyed (.var "T" .any)).2.Regular :=
  h.internKeyed (List.forall_mem_singleton.mpr (Nat.lt_of_lt_of_le (by decide) h.indexed.builtin))

theorem element_lt (h : A.Regular) : A.element < (A.internKeyed (.var "T" .any)).2.size :=
  ((h.varElements.consistent.keyed?_iff _ _).mp (A.keyed?_internKeyed _)).1

theorem elements_lt (h : A.Regular) : ∀ x ∈ (TypeKey.applied .array [A.element]).kind.parts,
    x < (A.internKeyed (.var "T" .any)).2.size :=
  List.forall_mem_cons.mpr ⟨Nat.lt_of_lt_of_le (by decide) h.varElements.indexed.builtin,
    List.forall_mem_singleton.mpr h.element_lt⟩

theorem withElements (h : A.Regular) : A.withElements.Regular := by
  rw [withElements_eq]
  exact h.varElements.internKeyed h.elements_lt

/-- An embedding extends to the types of elements and their arrays. -/
theorem embeds_withElements (h : A.Regular) (h' : B.Regular) (he : Embeds f A B) :
    ∃ g, (∀ id < A.size, g id = f id) ∧ Embeds g A.withElements B.withElements := by
  obtain ⟨g, hg, helement, hembeds⟩ := he.keyedBoth (.var "T" .any) h h'
    (List.forall_mem_singleton.mpr (Nat.lt_of_lt_of_le (by decide) h.indexed.builtin))
  have hany : (TypeKey.var "T" .any).map f = .var "T" .any := by rw [TypeKey.map, he.any_eq]
  rw [hany] at helement hembeds
  obtain ⟨k, hk, -, harray⟩ := hembeds.keyedBoth (.applied .array [A.element]) h.varElements h'.varElements h.elements_lt
  refine ⟨k, fun id hid => (hk id ((A.internKeyed_extends _).lt hid)).trans (hg id hid), ?_⟩
  have hkey : (TypeKey.applied .array [A.element]).map g = .applied .array [B.element] := by
    rw [TypeKey.map, hembeds.builtin (by decide)]
    exact congrArg (fun id => TypeKey.applied .array [id]) helement
  rwa [hkey] at harray

end Regular

/-! ### What these add, and what they do not look at -/

theorem parts_of_internKeyed (hid : A.size ≤ id) (hlt : id < (A.internKeyed key).2.size) :
    ((A.internKeyed key).2.get id).kind.parts ≠ [] := by
  rcases A.internKeyed_cases key with ⟨x, -, heq⟩ | ⟨-, -, htypes, -⟩
  · rw [heq] at hlt
    exact absurd hlt (Nat.not_lt_of_le hid)
  · rw [size_of_push htypes] at hlt
    obtain rfl := Nat.le_antisymm (Nat.le_of_lt_succ hlt) hid
    rw [get_of_push_self htypes, describe_kind]
    exact kind_parts_ne_nil key

/-- Only types that are made of others are added. -/
theorem parts_of_withElements (hid : A.size ≤ id) (hlt : id < A.withElements.size) :
    (A.withElements.get id).kind.parts ≠ [] := by
  rw [withElements_eq] at hlt ⊢
  by_cases hold : id < (A.internKeyed (.var "T" .any)).2.size
  · rw [(internKeyed_extends _ _).get_eq hold]
    exact parts_of_internKeyed hid hold
  · exact parts_of_internKeyed (Nat.le_of_not_lt hold) hlt

theorem redefine_add (hid : id < A.size) (e : TypeDef) :
    ((A.redefine id d).add e).2 = (A.add e).2.redefine id d := by
  have htypes : (A.types.setIfInBounds id d).push e = (A.types.push e).setIfInBounds id d := by
    refine Array.ext_getElem? fun i => ?_
    have hne : id ≠ A.types.size := Nat.ne_of_lt hid
    have hlt : id < A.types.size + 1 := Nat.lt_succ_of_lt hid
    simp only [Array.getElem?_push, Array.getElem?_setIfInBounds, Array.size_setIfInBounds, Array.size_push]
    grind [TypeArena.size]
  exact congrArg (fun types => TypeArena.mk types A.appliedIndex A.varIndex A.functionIndex) htypes

/-- Filling in fields or alternatives does not change what is interned. -/
theorem internKeyed_redefine (hid : id < A.size) (hd : TypeDef.Refills (A.get id) d) :
    (A.redefine id d).internKeyed key = ((A.internKeyed key).1, (A.internKeyed key).2.redefine id d) := by
  have hname (x : TypeId) : (A.redefine id d).name x = A.name x := by
    rw [name, get_redefine hid, name]
    split
    · next heq => rw [heq, hd.name_eq]
    · rfl
  have hnames (ids : List TypeId) : (A.redefine id d).names ids = A.names ids := List.map_congr_left fun x _ => hname x
  have hadd (e : TypeDef) : (A.redefine id d).add e = (A.size, (A.add e).2.redefine id d) :=
    Prod.ext size_redefine (redefine_add hid e)
  cases key with
  | applied base args =>
    have hindex : (A.redefine id d).appliedIndex = A.appliedIndex := rfl
    rw [internKeyed, internKeyed, applied, applied, hname, hnames, hindex]
    cases A.appliedIndex.lookup (base, args) with
    | some x => rfl
    | none =>
      dsimp only
      rw [hadd]
      rfl
  | var name constraint =>
    have hindex : (A.redefine id d).varIndex = A.varIndex := rfl
    rw [internKeyed, internKeyed, var, var, hindex]
    cases A.varIndex.lookup (name, constraint) with
    | some x => rfl
    | none =>
      dsimp only
      rw [hadd]
      rfl
  | function params result =>
    have hindex : (A.redefine id d).functionIndex = A.functionIndex := rfl
    rw [internKeyed, internKeyed, function, function, hname, hnames, hindex]
    cases A.functionIndex.lookup (params, result) with
    | some x => rfl
    | none =>
      dsimp only
      rw [hadd]
      rfl

theorem withElements_redefine (hid : id < A.size) (hd : TypeDef.Refills (A.get id) d) :
    (A.redefine id d).withElements = A.withElements.redefine id d := by
  have hext := A.internKeyed_extends (.var "T" .any)
  rw [withElements_eq, withElements_eq, element, internKeyed_redefine hid hd,
    internKeyed_redefine (hext.lt hid) (by rwa [hext.get_eq hid])]
  rfl

/-! ## Reflections -/

/-- The types of one arena are found in another one, or in what that becomes when the types are added that built-in
methods are declared with. -/
structure Reflects (f : TypeId → TypeId) (A B : TypeArena) : Prop where
  regular : A.Regular
  regular' : B.Regular
  embeds : Embeds f A B.withElements

/-- A type of one arena is found under an index in another. -/
structure Image (f : TypeId → TypeId) (A B : TypeArena) (id id' : TypeId) : Prop where
  lt : id < A.size
  lt' : id' < B.size
  eq : f id = id'

/-- What has an image keeps it. -/
structure Retains (f : TypeId → TypeId) (A B : TypeArena) (g : TypeId → TypeId) (A' B' : TypeArena) : Prop where
  image : ∀ {id id'}, Image f A B id id' → Image g A' B' id id'

section

variable {h : TypeId → TypeId} {A'' B'' : TypeArena}

theorem Retains.refl : Retains f A B f A B := ⟨fun hi => hi⟩

theorem Retains.trans (hr : Retains f A B g A' B') (hr' : Retains g A' B' h A'' B'') : Retains f A B h A'' B'' :=
  ⟨fun hi => hr'.image (hr.image hi)⟩

theorem Retains.all (hr : Retains f A B g A' B') {ids ids' : List TypeId} (hids : List.Forall₂ (Image f A B) ids ids') :
    List.Forall₂ (Image g A' B') ids ids' := hids.imp fun _ _ => hr.image

end

theorem Image.map_eq {ids ids' : List TypeId} (h : List.Forall₂ (Image f A B) ids ids') : ids.map f = ids' := by
  induction h with
  | nil => rfl
  | cons h _ ih => rw [List.map_cons, h.eq, ih]

theorem Image.all_lt {ids ids' : List TypeId} (h : List.Forall₂ (Image f A B) ids ids') :
    (∀ x ∈ ids, x < A.size) ∧ ∀ x ∈ ids', x < B.size :=
  ⟨((List.forall₂_and_left ids ids').mp (h.imp fun _ _ h => ⟨h.lt, h⟩)).1,
    ((List.forall₂_and_left ids' ids).mp (h.flip.imp fun _ _ h => ⟨h.lt', h⟩)).1⟩

namespace Reflects

theorem image_builtin (h : Reflects f A B) (hid : id < builtinTypes.length) : Image f A B id id :=
  ⟨Nat.lt_of_lt_of_le hid h.regular.indexed.builtin, Nat.lt_of_lt_of_le hid h.regular'.indexed.builtin,
    h.embeds.builtin hid⟩

/-- The second arena may grow by itself. What it gains is no image, unless it is made of other types. -/
theorem grown (h : Reflects f A B) (he : B.Extends B') (hr : B'.Regular) :
    ∃ g, Reflects g A B' ∧ Retains f A B g A B' ∧
      ∀ id < A.size, g id < B'.size → B.size ≤ g id → (B'.get (g id)).kind.parts ≠ [] := by
  obtain ⟨g, hg, hembeds⟩ := h.regular'.embeds_withElements hr he.embeds
  refine ⟨g ∘ f, ⟨h.regular, hr, h.embeds.trans hembeds⟩, ⟨fun {id id'} hi => ⟨hi.lt, he.lt hi.lt', ?_⟩⟩,
    fun id hid hlt hnew hparts => ?_⟩
  · rw [Function.comp_apply, hi.eq, hg id' hi.lt']
  · rw [Function.comp_apply] at hlt hnew hparts
    have hflt := h.embeds.lt hid
    by_cases hold : f id < B.size
    · rw [hg _ hold] at hnew
      exact absurd hold (Nat.not_lt_of_le hnew)
    · refine parts_of_withElements (Nat.le_of_not_lt hold) hflt ?_
      have hkind := hembeds.kind hflt
      rw [B'.withElements_extends.get_eq hlt] at hkind
      rw [hkind, TypeKind.parts_map, List.map_eq_nil_iff] at hparts
      exact hparts

/-- The first arena may intern what the second one has. -/
theorem keyed (h : Reflects f A B) (hk : ∀ x ∈ key.kind.parts, x < A.size) {y : TypeId}
    (hy : B.keyed? (key.map f) = some y) : ∃ g, Reflects g (A.internKeyed key).2 B ∧
      Retains f A B g (A.internKeyed key).2 B ∧ Image g (A.internKeyed key).2 B (A.internKeyed key).1 y := by
  have hlt := ((h.regular'.consistent.keyed?_iff _ y).mp hy).1
  obtain ⟨g, hg, himage, hembeds⟩ := h.embeds.keyed h.regular h.regular'.withElements hk
    (B.withElements_extends.keyed?_eq h.regular' h.regular'.withElements hy)
  have hregular := h.regular.internKeyed hk
  exact ⟨g, ⟨hregular, h.regular', hembeds⟩, ⟨fun {id id'} hi => ⟨(A.internKeyed_extends key).lt hi.lt, hi.lt',
    (hg id hi.lt).trans hi.eq⟩⟩, ((hregular.consistent.keyed?_iff _ _).mp (A.keyed?_internKeyed key)).1, hlt, himage⟩

theorem keyedBoth (h : Reflects f A B) (key : TypeKey) (hk : ∀ x ∈ key.kind.parts, Image f A B x (f x)) :
    ∃ g, Reflects g (A.internKeyed key).2 (B.internKeyed (key.map f)).2 ∧
      Retains f A B g (A.internKeyed key).2 (B.internKeyed (key.map f)).2 ∧
      Image g (A.internKeyed key).2 (B.internKeyed (key.map f)).2 (A.internKeyed key).1 (B.internKeyed (key.map f)).1 := by
  have hlt : ∀ x ∈ (key.map f).kind.parts, x < B.size := by
    rw [TypeKey.kind_map, TypeKind.parts_map]
    exact List.forall_mem_map.mpr fun x hx => (hk x hx).lt'
  obtain ⟨g, hg, hretains, -⟩ := h.grown (B.internKeyed_extends (key.map f)) (h.regular'.internKeyed hlt)
  have hkey : key.map g = key.map f := TypeKey.map_congr fun x hx => (hretains.image (hk x hx)).eq
  obtain ⟨k, hk, hretains', himage⟩ := hg.keyed (fun x hx => (hk x hx).lt)
    (show (B.internKeyed (key.map f)).2.keyed? (key.map g) = some _ by rw [hkey]; exact B.keyed?_internKeyed _)
  exact ⟨k, hk, hretains.trans hretains', himage⟩

theorem applied (h : Reflects f A B) {base base' : TypeId} {args args' : List TypeId} (hbase : Image f A B base base')
    (hargs : List.Forall₂ (Image f A B) args args') :
    ∃ g, Reflects g (A.applied base args).2 (B.applied base' args').2 ∧
      Retains f A B g (A.applied base args).2 (B.applied base' args').2 ∧
      Image g (A.applied base args).2 (B.applied base' args').2 (A.applied base args).1 (B.applied base' args').1 := by
  have himages : ∀ x ∈ args, Image f A B x (f x) :=
    ((List.forall₂_and_left args args').mp (hargs.imp fun _ _ h => ⟨⟨h.lt, h.eq ▸ h.lt', rfl⟩, h⟩)).1
  rw [← hbase.eq, ← Image.map_eq hargs]
  exact h.keyedBoth (.applied base args) (List.forall_mem_cons.mpr ⟨hbase.eq ▸ hbase, himages⟩)

theorem var (h : Reflects f A B) (name : String) {constraint constraint' : TypeId}
    (hc : Image f A B constraint constraint') :
    ∃ g, Reflects g (A.var name constraint).2 (B.var name constraint').2 ∧
      Retains f A B g (A.var name constraint).2 (B.var name constraint').2 ∧
      Image g (A.var name constraint).2 (B.var name constraint').2 (A.var name constraint).1
        (B.var name constraint').1 := by
  rw [← hc.eq]
  exact h.keyedBoth (.var name constraint) (List.forall_mem_singleton.mpr (hc.eq ▸ hc))

/-- Both arenas may add a type of the same kind, without fields or alternatives yet. -/
theorem add (h : Reflects f A B) (name : String) {kind : TypeKind} (hk : kind.ids = []) {parent parent' : TypeId}
    (hp : Image f A B parent parent') :
    let A' := (A.add ⟨name, kind, some parent⟩).2
    let B' := (B.add ⟨name, kind, some parent'⟩).2
    ∃ g, Reflects g A' B' ∧ Retains f A B g A' B' ∧ Image g A' B' A.size B.size := by
  intro A' B'
  have hparts := (List.append_eq_nil_iff.mp hk).1
  have hids {parent n : Nat} (hlt : parent < n) : ∀ x ∈ TypeDef.ids ⟨name, kind, some parent⟩, x < n := by
    rw [TypeDef.ids, hk]
    exact List.forall_mem_singleton.mpr hlt
  have hr : A'.Regular := .add _ h.regular hparts (hids hp.lt)
  have hr' : B'.Regular := .add _ h.regular' hparts (hids hp.lt')
  have hext : A.Extends A' := .push rfl fun k => by cases k <;> rfl
  have hlt : A.size < A'.size := Nat.lt_of_lt_of_eq (Nat.lt_succ_self _) (size_of_push rfl).symm
  have hlt' : B.size < B'.size := Nat.lt_of_lt_of_eq (Nat.lt_succ_self _) (size_of_push rfl).symm
  obtain ⟨g, hg, hretains, hnew⟩ := h.grown (.push rfl fun k => by cases k <;> rfl) hr'
  have hget : B'.get B.size = ⟨name, kind, some parent'⟩ := get_of_push_self rfl
  have hmap : kind.map g = kind :=
    (TypeKind.map_congr fun x hx => by rw [hk] at hx; cases hx).trans kind.map_id
  have hold : B'.withElements.get B.size = ⟨name, kind, some parent'⟩ := by
    rw [B'.withElements_extends.get_eq hlt', hget]
  have hfresh : ∀ x < A.size, g x ≠ B.size := by
    intro x hx heq
    refine hnew x hx (lt_of_eq_of_lt heq hlt') (Nat.le_of_eq heq.symm) ?_
    rw [heq, hget]
    exact hparts
  have hvar : ∀ constraint, kind = .var constraint → B'.withElements.name B.size = name := by
    rintro constraint rfl
    cases hparts
  have hnone := TypeKind.above?_eq_none hparts
  obtain ⟨k, hk, himage, hembeds⟩ := hg.embeds.push h.regular.indexed hext rfl (hids hp.lt)
    (B'.withElements_extends.lt hlt') hfresh (by rw [hold, hmap]) (by rw [hold, Option.map_some, (hretains.image hp).eq])
    hvar (by
      rw [hmap, interned?_eq_none hnone, interned?_eq_none hnone]
      exact iff_of_false (Option.some_ne_none _).symm (Option.some_ne_none _).symm)
  exact ⟨k, ⟨hr, hr', hembeds⟩, ⟨fun {id id'} hi => ⟨hext.lt hi.lt, (hretains.image hi).lt',
    (hk id hi.lt).trans (hretains.image hi).eq⟩⟩, hlt, hlt', himage⟩

/-- Both arenas may fill in fields or alternatives that have images. -/
theorem redefine (h : Reflects f A B) {x y : TypeId} (hi : Image f A B x y) (hd : TypeDef.Refills (A.get x) d)
    (hd' : TypeDef.Refills (B.get y) d') (hm : ∀ z ∈ d.kind.members, z < A.size)
    (hm' : ∀ z ∈ d'.kind.members, z < B.size) (hk : d'.kind = d.kind.map f) :
    Reflects f (A.redefine x d) (B.redefine y d') ∧ Retains f A B f (A.redefine x d) (B.redefine y d') := by
  refine ⟨⟨.redefine _ _ h.regular hi.lt hd hm, .redefine _ _ h.regular' hi.lt' hd' hm', ?_⟩,
    ⟨fun hi => ⟨Nat.lt_of_lt_of_eq hi.lt size_redefine.symm, Nat.lt_of_lt_of_eq hi.lt' size_redefine.symm, hi.eq⟩⟩⟩
  rw [withElements_redefine hi.lt' hd', ← hi.eq]
  refine h.embeds.redefine hi.lt hd ?_ hk
  rwa [hi.eq, B.withElements_extends.get_eq hi.lt']

end Reflects

end TypeArena

end DispatchLang
