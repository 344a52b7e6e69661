import DispatchLang.Proofs.Value.Unfolding
import DispatchLang.Value.Equal

/-!
# Equality decides whether values unfold alike

While two containers are compared, the pair is taken for granted. Why is what is found out that way right?

If values do not unfold alike they differ at the end of some path. So it is enough to look at the unfoldings up to a
depth. Where a comparison says that two values are equal, they unfold alike up to every depth to which the pairs
that it takes for granted do (`unfoldsTo_of_equalWith`): the parts are one step deeper, and there the two values
themselves are known to unfold alike. Conversely, values that unfold alike never give a reason to say that they are not
equal, other than that too many pairs are open, and there are no more pairs than pairs of addresses
(`containersEqual_of_unfoldsLike`). Here it matters that objects have one entry for a key: then two objects with as many
entries have the same keys if all keys of the one are keys of the other.

## Main results

* `Value.equal_iff_unfoldsLike`: two values of a heap are equal if and only if they unfold alike.
-/

namespace DispatchLang

/-! ## Lists and entries -/

/-- A relation between the elements of two lists, position by position. -/
theorem forall₂_iff_rel {α β : Type} {r : α → β → Prop} {as : List α} {bs : List β} :
    List.Forall₂ r as bs ↔ ∀ i : Nat, Option.Rel r as[i]? bs[i]? := by
  constructor
  · intro h i
    induction h generalizing i with
    | nil => exact .none
    | cons hab _ ih =>
      cases i with
      | zero => exact .some hab
      | succ i => exact ih i
  · intro h
    induction as generalizing bs with
    | nil =>
      cases bs with
      | nil => exact .nil
      | cons b bs => nomatch h 0
    | cons a as ih =>
      cases bs with
      | nil => nomatch h 0
      | cons b bs =>
        cases h 0 with
        | some hab => exact .cons hab (ih fun i => h (i + 1))

theorem DistinctKeys.lookup {entries : List (String × Value)} (h : DistinctKeys entries) {e : String × Value}
    (he : e ∈ entries) : entries.lookup e.1 = some e.2 := by
  induction entries with
  | nil => cases he
  | cons entry entries ih =>
    obtain ⟨hnew, hrest⟩ := List.nodup_cons.mp h
    rw [List.lookup_cons]
    rcases List.mem_cons.mp he with rfl | he
    · rw [beq_self_eq_true]
    · have hne : e.1 ≠ entry.1 := fun heq => hnew (heq ▸ List.mem_map_of_mem he)
      rw [beq_eq_false_iff_ne.mpr hne]
      exact ih hrest he

theorem mem_keys_iff {entries : List (String × Value)} {key : String} :
    key ∈ entries.map Prod.fst ↔ (entries.lookup key).isSome = true := by
  rw [List.lookup_isSome_iff, List.mem_map]
  exact exists_congr fun e => and_congr_right fun _ => eq_comm.trans beq_iff_eq.symm

namespace Value

theorem allEqual_iff {r : Value → Value → Bool} {as bs : List Value} :
    allEqual r as bs = true ↔ List.Forall₂ (fun a b => r a b = true) as bs := by
  induction as generalizing bs with
  | nil => cases bs <;> simp [allEqual]
  | cons a as ih => cases bs <;> simp [allEqual, ih]

theorem fieldsEqualWith_iff {container : Nat → Nat → Bool} {fields fields' : List (String × Value)} :
    fieldsEqualWith container fields fields' = true ↔
      fields.map Prod.fst = fields'.map Prod.fst ∧
        List.Forall₂ (fun v w => equalWith container v w = true) (fields.map Prod.snd) (fields'.map Prod.snd) := by
  induction fields generalizing fields' with
  | nil => cases fields' <;> simp [fieldsEqualWith]
  | cons e fields ih =>
    cases fields' with
    | nil => simp [fieldsEqualWith]
    | cons e' fields' =>
      simp only [fieldsEqualWith, Bool.and_eq_true, decide_eq_true_iff, ih, List.map_cons, List.cons.injEq,
        List.forall₂_cons]
      exact and_and_and_comm

theorem entriesEqual_iff {r : Value → Value → Bool} {xs ys : List (String × Value)} (hx : DistinctKeys xs)
    (hy : DistinctKeys ys) :
    entriesEqual r xs ys = true ↔ ∀ key, Option.Rel (fun v w => r v w = true) (xs.lookup key) (ys.lookup key) := by
  have hany (e : String × Value) :
      (ys.any fun e' => e.1 = e'.1 && r e.2 e'.2) = true ↔ ∃ w, ys.lookup e.1 = some w ∧ r e.2 w = true := by
    rw [List.any_eq_true]
    constructor
    · rintro ⟨e', he', heq⟩
      obtain ⟨hkey, hr⟩ := (Bool.and_eq_true_iff).mp heq
      exact ⟨e'.2, of_decide_eq_true hkey ▸ hy.lookup he', hr⟩
    · rintro ⟨w, hw, hr⟩
      exact ⟨(e.1, w), Assoc.mem_of_lookup hw, Bool.and_eq_true_iff.mpr ⟨decide_eq_true rfl, hr⟩⟩
  have hlength : (xs.length = ys.length) = ((xs.map Prod.fst).length = (ys.map Prod.fst).length) := by
    rw [List.length_map, List.length_map]
  rw [entriesEqual, Bool.and_eq_true, decide_eq_true_iff, List.all_eq_true, hlength]
  constructor
  · rintro ⟨hlen, hall⟩ key
    have hsub : xs.map Prod.fst ⊆ ys.map Prod.fst := by
      intro key hkey
      obtain ⟨e, he, rfl⟩ := List.mem_map.mp hkey
      obtain ⟨w, hw, -⟩ := (hany e).mp (hall e he)
      exact mem_keys_iff.mpr (by rw [hw]; rfl)
    cases hv : xs.lookup key with
    | some v =>
      obtain ⟨w, hw, hr⟩ := (hany (key, v)).mp (hall _ (Assoc.mem_of_lookup hv))
      rw [hw]
      exact .some hr
    | none =>
      have hperm : (xs.map Prod.fst).Perm (ys.map Prod.fst) := (List.subperm_of_subset hx hsub).perm_of_length_le hlen.ge
      cases hw : ys.lookup key with
      | none => exact .none
      | some w =>
        have hmem : key ∈ ys.map Prod.fst := mem_keys_iff.mpr (by rw [hw]; rfl)
        rw [← hperm.mem_iff, mem_keys_iff, hv] at hmem
        cases hmem
  · intro h
    refine ⟨List.Perm.length_eq ((List.perm_ext_iff_of_nodup hx hy).mpr fun key => ?_), fun e he => (hany e).mpr ?_⟩
    · rw [mem_keys_iff, mem_keys_iff]
      have hkey := h key
      generalize xs.lookup key = x, ys.lookup key = y at hkey
      cases hkey with
      | none => exact Iff.rfl
      | some _ => exact iff_of_true rfl rfl
    · have hkey := h e.1
      rw [hx.lookup he] at hkey
      generalize ys.lookup e.1 = found at *
      cases hkey with
      | some hr => exact ⟨_, rfl, hr⟩

/-! ## One step of the comparison -/

def PartsRelated (heap : Heap) (r : Value → Value → Prop) (a b : Value) : Prop :=
  ∀ step, Option.Rel r (a.part? heap step) (b.part? heap step)

section

variable {heap : Heap} {r : Value → Value → Prop}

theorem partsRelated_array {x y : Nat} :
    PartsRelated heap r (.array x) (.array y) ↔ List.Forall₂ r (heap.items x).toList (heap.items y).toList := by
  rw [forall₂_iff_rel]
  constructor
  · intro h i
    rw [Array.getElem?_toList, Array.getElem?_toList]
    exact h (.item i)
  · intro h step
    cases step with
    | item i =>
      have hi := h i
      rwa [Array.getElem?_toList, Array.getElem?_toList] at hi
    | _ => exact .none

theorem partsRelated_object {x y : Nat} :
    PartsRelated heap r (.object x) (.object y) ↔
      ∀ key, Option.Rel r ((heap.entries x).lookup key) ((heap.entries y).lookup key) := by
  refine ⟨fun h key => h (.entry key), fun h step => ?_⟩
  cases step with
  | entry key => exact h key
  | _ => exact .none

theorem partsRelated_inst {type type' : TypeId} {name name' : String} {variant variant' : Option String}
    {fields fields' : List (String × Value)} :
    PartsRelated heap r (.inst type name variant fields) (.inst type' name' variant' fields') ↔
      List.Forall₂ r (fields.map Prod.snd) (fields'.map Prod.snd) := by
  rw [forall₂_iff_rel]
  constructor
  · intro h i
    rw [List.getElem?_map, List.getElem?_map]
    exact h (.field i)
  · intro h step
    cases step with
    | field i =>
      have hi := h i
      rwa [List.getElem?_map, List.getElem?_map] at hi
    | _ => exact .none

end

/-- The address of an array or object. -/
def address? : Value → Option Nat
  | .array address | .object address => some address
  | _ => none

variable {heap : Heap} {a b : Value} {x y : Nat} {container : Nat → Nat → Bool}

def hasParts : Value → Bool
  | .array _ | .object _ | .inst _ _ _ _ => true
  | _ => false

theorem part?_eq_none (h : a.hasParts = false) (step : Step) : a.part? heap step = none := by
  cases a with
  | array _ | object _ | inst _ _ _ _ => cases h
  | _ => rfl

theorem hasParts_of_agrees (h : a.label.Agrees b.label) : a.hasParts = b.hasParts := by
  cases a <;> cases b <;> first | rfl | cases h

theorem partsRelated_of_agrees {r : Value → Value → Prop} (h : a.hasParts = false) (hl : a.label.Agrees b.label) :
    PartsRelated heap r a b := by
  intro step
  rw [part?_eq_none h, part?_eq_none ((hasParts_of_agrees hl).symm.trans h)]
  exact .none

theorem equalWith_iff_agrees (h : a.hasParts = false) :
    equalWith container a b = true ↔ a.label.Agrees b.label := by
  cases a with
  | array _ | object _ | inst _ _ _ _ => cases h
  | _ => cases b <;> simp [equalWith, label, Label.Agrees]

theorem Placed.container? (h : a.Placed .direct heap) (hx : a.address? = some x) : heap.container? x = some a := by
  cases a with
  | array address | object address => exact Option.some.inj hx ▸ h
  | _ => cases hx

theorem equalWith_iff (ha : a.Placed .direct heap) (hb : b.Placed .direct heap) (hx : a.address? = none) :
    equalWith container a b = true ↔
      a.label.Agrees b.label ∧ PartsRelated heap (fun v w => equalWith container v w = true) a b := by
  cases a with
  | array address | object address => cases hx
  | inst type typeName variant fields =>
    cases b with
    | inst type' typeName' variant' fields' =>
      rw [partsRelated_inst, equalWith, Bool.and_eq_true, fieldsEqualWith_iff, show type = .any from ha rfl,
        show type' = .any from hb rfl]
      simp [label, Label.Agrees, and_assoc]
    | _ => exact iff_of_false Bool.false_ne_true fun h => Label.noConfusion h.1
  | _ => exact (equalWith_iff_agrees rfl).trans (and_iff_left_of_imp (partsRelated_of_agrees rfl)).symm

/-- Arrays and objects that look the same are compared as containers. -/
theorem equalWith_eq_container (hx : a.address? = some x) (hy : b.address? = some y)
    (hl : a.label.Agrees b.label) : equalWith container a b = container x y := by
  cases a with
  | array address =>
    cases b with
    | array address' => cases hx; cases hy; rfl
    | object address' => cases hl
    | _ => cases hy
  | object address =>
    cases b with
    | object address' => cases hx; cases hy; rfl
    | array address' => cases hl
    | _ => cases hy
  | _ => cases hx

theorem equalWith_eq_false (hx : a.address? = some x) (hl : ¬ a.label.Agrees b.label) :
    equalWith container a b = false := by
  cases a with
  | array address =>
    cases b with
    | array address' => exact absurd rfl hl
    | _ => rfl
  | object address =>
    cases b with
    | object address' => exact absurd rfl hl
    | _ => rfl
  | _ => cases hx

/-- Two containers that are not the same and not taken for granted are equal if they look the same and their parts are
equal, where the two are taken for granted. -/
theorem containersEqual_iff (ht : heap.Tidy .direct) (hx : heap.container? x = some a) (hy : heap.container? y = some b)
    {n : Nat} {assumed : List (Nat × Nat)} (hne : x ≠ y) (hnew : (x, y) ∉ assumed) :
    containersEqual heap (n + 1) assumed x y = true ↔
      a.label.Agrees b.label ∧
        PartsRelated heap (fun v w => equalWith (containersEqual heap n ((x, y) :: assumed)) v w = true) a b := by
  obtain ⟨cell, hcell, rfl⟩ := Option.map_eq_some_iff.mp hx
  obtain ⟨cell', hcell', rfl⟩ := Option.map_eq_some_iff.mp hy
  have hopen : ¬ (decide (x = y) || assumed.contains (x, y)) = true := by
    rw [Bool.or_eq_true, decide_eq_true_iff, List.contains_iff_mem]
    exact not_or.mpr ⟨hne, hnew⟩
  rw [containersEqual, if_neg hopen, hcell, hcell']
  dsimp only
  cases cell with
  | array items type =>
    cases cell' with
    | array items' type' =>
      have hitems : heap.items x = items := by rw [Heap.items, hcell]
      have hitems' : heap.items y = items' := by rw [Heap.items, hcell']
      rw [Cell.valueAt, Cell.valueAt, partsRelated_array, hitems, hitems', allEqual_iff]
      exact (and_iff_right rfl).symm
    | object entries' => exact iff_of_false Bool.false_ne_true fun h => Label.noConfusion h.1
  | object entries =>
    cases cell' with
    | array items' type' => exact iff_of_false Bool.false_ne_true fun h => Label.noConfusion h.1
    | object entries' =>
      have hentries : heap.entries x = entries := by rw [Heap.entries, hcell]
      have hentries' : heap.entries y = entries' := by rw [Heap.entries, hcell']
      rw [Cell.valueAt, Cell.valueAt, partsRelated_object, hentries, hentries',
        entriesEqual_iff (hentries ▸ ht.distinctKeys x) (hentries' ▸ ht.distinctKeys y)]
      exact (and_iff_right rfl).symm

/-! ## What is equal unfolds alike -/

theorem PartsRelated.imp {r r' : Value → Value → Prop} (h : PartsRelated heap r a b)
    (himp : ∀ step v w, a.part? heap step = some v → b.part? heap step = some w → r v w → r' v w) :
    PartsRelated heap r' a b := by
  intro step
  have hstep := h step
  have himp := himp step
  generalize a.part? heap step = v, b.part? heap step = w at *
  cases hstep with
  | none => exact .none
  | some hr => exact .some (himp _ _ rfl rfl hr)

def UnfoldsTo (heap : Heap) (depth : Nat) (a b : Value) : Prop :=
  ∀ path, path.length < depth → Option.Rel Label.Agrees (unfold heap path a) (unfold heap path b)

theorem UnfoldsTo.mono {depth depth' : Nat} (h : UnfoldsTo heap depth a b) (hle : depth' ≤ depth) :
    UnfoldsTo heap depth' a b := fun path hlt => h path (Nat.lt_of_lt_of_le hlt hle)

theorem unfoldsTo_succ {depth : Nat} (hl : a.label.Agrees b.label)
    (hparts : PartsRelated heap (UnfoldsTo heap depth) a b) : UnfoldsTo heap (depth + 1) a b := by
  intro path hlt
  cases path with
  | nil => exact .some hl
  | cons step path =>
    have hstep := hparts step
    rw [unfold, unfold]
    generalize a.part? heap step = v, b.part? heap step = w at hstep
    cases hstep with
    | none => exact .none
    | some h => exact h path (Nat.lt_of_succ_lt_succ hlt)

theorem address?_of_agrees (hl : a.label.Agrees b.label) (hx : a.address? = some x) : ∃ y, b.address? = some y := by
  cases a with
  | array address | object address =>
    cases b with
    | array address' | object address' => exact ⟨_, rfl⟩
    | _ => cases hl
  | _ => cases hx

/-- The pairs that are taken for granted unfold alike up to a depth. -/
def TakesForGranted (heap : Heap) (depth : Nat) (assumed : List (Nat × Nat)) : Prop :=
  ∀ pair ∈ assumed, ∀ v w, heap.container? pair.1 = some v → heap.container? pair.2 = some w → UnfoldsTo heap depth v w

theorem unfoldsTo_of_equalWith (ht : heap.Tidy .direct) (hh : heap.Numeric) (depth : Nat) :
    ∀ {n : Nat} {assumed : List (Nat × Nat)} {a b : Value}, a.Stored .direct heap → b.Stored .direct heap → a.Numeric →
      TakesForGranted heap depth assumed → equalWith (containersEqual heap n assumed) a b = true →
        UnfoldsTo heap depth a b := by
  induction depth with
  | zero => exact fun _ _ _ _ _ path hlt => absurd hlt (Nat.not_lt_zero _)
  | succ depth ih =>
    intro n assumed a b ha hb hna hassumed heq
    have hshallow : TakesForGranted heap depth assumed := fun pair hpair v w hv hw =>
      (hassumed pair hpair v w hv hw).mono (Nat.le_succ depth)
    -- The parts are one step deeper, so the hypothesis of the induction is enough for them.
    have hparts {m : Nat} {assumed' : List (Nat × Nat)} (hg : TakesForGranted heap depth assumed')
        (h : PartsRelated heap (fun v w => equalWith (containersEqual heap m assumed') v w = true) a b) :
        PartsRelated heap (UnfoldsTo heap depth) a b :=
      h.imp fun step v w hv hw => ih (inherited_stored.part? ht.stored ha hv) (inherited_stored.part? ht.stored hb hw)
        (inherited_numeric.part? hh hna hv) hg
    cases hx : a.address? with
    | none =>
      obtain ⟨hl, h⟩ := (equalWith_iff ha.placed hb.placed hx).mp heq
      exact unfoldsTo_succ hl (hparts hshallow h)
    | some x =>
      have hl : a.label.Agrees b.label := by
        by_contra hl
        rw [equalWith_eq_false hx hl] at heq
        cases heq
      obtain ⟨y, hy⟩ := address?_of_agrees hl hx
      have hcx := ha.placed.container? hx
      have hcy := hb.placed.container? hy
      have hpair := equalWith_eq_container hx hy hl ▸ heq
      by_cases hxy : x = y
      · rw [← hxy, hcx] at hcy
        exact fun path _ => Option.some.inj hcy ▸ UnfoldsLike.refl hh hna path
      by_cases hmem : (x, y) ∈ assumed
      · exact hassumed (x, y) hmem a b hcx hcy
      cases n with
      | zero => cases hpair
      | succ n =>
        obtain ⟨-, h⟩ := (containersEqual_iff ht hcx hcy hxy hmem).mp hpair
        refine unfoldsTo_succ hl (hparts (List.forall_mem_cons.mpr ⟨fun v w hv hw => ?_, hshallow⟩) h)
        cases hcx.symm.trans hv
        cases hcy.symm.trans hw
        exact ih ha hb hna hshallow heq

/-! ## What unfolds alike is equal -/

theorem sizeOf_part_lt (hx : a.address? = none) {step : Step} (h : a.part? heap step = some b) :
    sizeOf b < sizeOf a := by
  cases a with
  | array _ | object _ => cases hx
  | inst type typeName variant fields =>
    cases step with
    | field i =>
      obtain ⟨⟨name, value⟩, he, rfl⟩ := Option.map_eq_some_iff.mp h
      have hlt := List.sizeOf_lt_of_mem (List.mem_of_getElem? he)
      rw [Prod.mk.sizeOf_spec] at hlt
      rw [inst.sizeOf_spec]
      dsimp only
      omega
    | _ => cases h
  | _ => cases h

theorem equalWith_of_unfoldsLike (ht : heap.Tidy .direct)
    (hc : ∀ x y v w, heap.container? x = some v → heap.container? y = some w → UnfoldsLike heap v w →
      container x y = true) {a b : Value} (ha : a.Stored .direct heap) (hb : b.Stored .direct heap) (h : UnfoldsLike heap a b) :
    equalWith container a b = true := by
  obtain ⟨hl, hparts⟩ := unfoldsLike_iff.mp h
  cases hx : a.address? with
  | some x =>
    obtain ⟨y, hy⟩ := address?_of_agrees hl hx
    rw [equalWith_eq_container hx hy hl]
    exact hc x y a b (ha.placed.container? hx) (hb.placed.container? hy) h
  | none =>
    refine (equalWith_iff ha.placed hb.placed hx).mpr ⟨hl, PartsRelated.imp hparts fun step v w hv hw h => ?_⟩
    exact equalWith_of_unfoldsLike ht hc (inherited_stored.part? ht.stored ha hv)
      (inherited_stored.part? ht.stored hb hw) h
termination_by sizeOf a
decreasing_by exact sizeOf_part_lt hx hv

end Value

/-! ## Termination -/

def Heap.pairs (heap : Heap) : Finset (Nat × Nat) := Finset.range heap.size ×ˢ Finset.range heap.size

/-- How many pairs of addresses are not taken for granted yet. -/
def Heap.openPairs (heap : Heap) (assumed : List (Nat × Nat)) : Nat := (heap.pairs \ assumed.toFinset).card

namespace Heap

variable {heap : Heap} {x y : Nat} {v w : Value} {assumed : List (Nat × Nat)}

theorem openPairs_nil : heap.openPairs [] = heap.size * heap.size := by
  rw [openPairs, List.toFinset_nil, Finset.sdiff_empty, pairs, Finset.card_product, Finset.card_range]

theorem lt_size_of_container? (h : heap.container? x = some v) : x < heap.size := by
  obtain ⟨cell, hcell, -⟩ := Option.map_eq_some_iff.mp h
  exact (Array.getElem?_eq_some_iff.mp hcell).1

/-- With one more pair taken for granted fewer are left. -/
theorem openPairs_cons_lt (hx : x < heap.size) (hy : y < heap.size) (hnew : (x, y) ∉ assumed) :
    heap.openPairs ((x, y) :: assumed) < heap.openPairs assumed := by
  have hpair : (x, y) ∈ heap.pairs \ assumed.toFinset :=
    Finset.mem_sdiff.mpr ⟨Finset.mem_product.mpr ⟨Finset.mem_range.mpr hx, Finset.mem_range.mpr hy⟩,
      fun hin => hnew (List.mem_toFinset.mp hin)⟩
  rw [openPairs, openPairs, List.toFinset_cons, Finset.sdiff_insert]
  exact Finset.card_erase_lt_of_mem hpair

end Heap

namespace Value

variable {heap : Heap} {a b : Value}

theorem stored_of_container? {x : Nat} (h : heap.container? x = some a) : a.Stored .direct heap := by
  obtain ⟨cell, hcell, rfl⟩ := Option.map_eq_some_iff.mp h
  cases cell with
  | array items type => exact stored_of_parts rfl h
  | object entries => exact stored_of_parts rfl h

theorem containersEqual_of_unfoldsLike (ht : heap.Tidy .direct) (n : Nat) :
    ∀ {assumed : List (Nat × Nat)} {x y : Nat} {a b : Value}, heap.container? x = some a →
      heap.container? y = some b → UnfoldsLike heap a b → heap.openPairs assumed < n →
        containersEqual heap n assumed x y = true := by
  induction n with
  | zero => exact fun _ _ _ hlt => absurd hlt (Nat.not_lt_zero _)
  | succ n ih =>
    intro assumed x y a b hx hy h hlt
    by_cases hxy : x = y
    · rw [containersEqual, if_pos (Bool.or_eq_true_iff.mpr (.inl (decide_eq_true hxy)))]
    by_cases hmem : (x, y) ∈ assumed
    · rw [containersEqual, if_pos (Bool.or_eq_true_iff.mpr (.inr (List.contains_iff_mem.mpr hmem)))]
    have hfewer := Heap.openPairs_cons_lt (Heap.lt_size_of_container? hx) (Heap.lt_size_of_container? hy) hmem
    obtain ⟨hl, hparts⟩ := unfoldsLike_iff.mp h
    refine (containersEqual_iff ht hx hy hxy hmem).mpr ⟨hl, PartsRelated.imp hparts fun step v w hv hw h => ?_⟩
    refine equalWith_of_unfoldsLike ht (fun x' y' v' w' hx' hy' h' => ?_)
      (inherited_stored.part? ht.stored (stored_of_container? hx) hv)
      (inherited_stored.part? ht.stored (stored_of_container? hy) hw) h
    exact ih hx' hy' h' (Nat.lt_of_lt_of_le hfewer (Nat.le_of_lt_succ hlt))

theorem equal_iff_unfoldsLike (ht : heap.Tidy .direct) (hh : heap.Numeric) (ha : a.Stored .direct heap) (hb : b.Stored .direct heap)
    (hna : a.Numeric) : a.equal heap b = true ↔ UnfoldsLike heap a b := by
  constructor
  · exact fun h path =>
      unfoldsTo_of_equalWith ht hh (path.length + 1) ha hb hna (List.forall_mem_nil _) h path (Nat.lt_succ_self _)
  · refine equalWith_of_unfoldsLike ht (fun x y v w hx hy h => ?_) ha hb
    exact containersEqual_of_unfoldsLike ht _ hx hy h (Heap.openPairs_nil ▸ Nat.lt_succ_self _)

end Value

end DispatchLang
