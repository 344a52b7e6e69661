import DispatchLang.Proofs.Eval.Fragment
import DispatchLang.Proofs.Method.Plain

/-!
# The types of values

The dispatch strategy marks every array with a type when it is built; the direct strategy finds the name of
its shape by looking at what it holds. In a basic program nothing is ever put into an array or taken
out of it, so its elements are older than the array, and what it was marked with stays right (`Pristine`). Where
methods are called, it still is marked with a type of arrays. The invariant is `Heap.Sound`; the types that occur
are the built-in ones and the types of arrays of such types (`IsShape`).

To the signatures of the built-in functions all types of arrays look like the type of arrays itself
(`isSubtype_baseType`), so for resolving a call only finitely many types have to be told apart.

## Main results

* `Heap.Sound.name_tag`: the name of the type of a value is the name of its shape, as long as arrays are left as
  they are.
* `isSubtype_baseType`: what is above the type of a value only depends on its base type.
-/

namespace DispatchLang

open TypeArena

variable {D : Dialect} {arena arena' : TypeArena} {heap : Heap} {id : TypeId}

/-! ## Types of arrays -/

/-- The types of basic values. -/
inductive IsShape (arena : TypeArena) : TypeId → Prop where
  | builtin {id : TypeId} (h : id < builtinTypes.length) : IsShape arena id
  | array {element id : TypeId} (he : IsShape arena element)
      (h : arena.interned? (.applied .array [element]) = some id) : IsShape arena id

def ArraysNamed (arena : TypeArena) : Prop :=
  ∀ element id, arena.interned? (.applied .array [element]) = some id →
    arena.name id = "Array[" ++ arena.name element ++ "]"

/-- The built-in type that all built-in signatures see in a type. -/
def baseType (id : TypeId) : TypeId := if id < builtinTypes.length then id else .array

namespace IsShape

theorem lt (h : IsShape arena id) (ha : arena.Grown) : id < arena.size := by
  cases h with
  | builtin h => exact ha.lt_size h
  | array _ h => exact (ha.indexed.index h).1

theorem grown (h : IsShape arena id) (hi : arena.Indexed) (he : arena.Extends arena') :
    IsShape arena' id := by
  induction h with
  | builtin h => exact .builtin h
  | array _ h ih => exact .array ih (he.interned?_eq hi h)

end IsShape

theorem not_lt_of_interned? (ha : arena.Grown) {element : TypeId}
    (h : arena.interned? (.applied .array [element]) = some id) : ¬ id < builtinTypes.length := by
  intro hlt
  have habove := ha.above?_eq_none hlt
  rw [(ha.indexed.index h).2.1] at habove
  cases habove

theorem isSubtype_arrayOf (ha : arena.Grown) {element : TypeId}
    (h : arena.interned? (.applied .array [element]) = some id) {p : TypeId} (hp : p < builtinTypes.length) :
    arena.isSubtype id p = TypeArena.initial.isSubtype .array p := by
  have hnew := not_lt_of_interned? ha h
  obtain ⟨hlt, hkind, hparent⟩ := ha.indexed.index h
  have harray : TypeId.array < builtinTypes.length := by decide
  have hi := ha.indexed.toOrdered
  rw [← ha.isSubtype_eq harray hp, Bool.eq_iff_iff, hi.isSubtype_iff_below hlt (ha.lt_size hp),
    hi.isSubtype_iff_below (ha.lt_size harray) (ha.lt_size hp)]
  by_cases hany : p = .any
  · have hbelow : ∀ x, arena.Below x p := fun x => below_of_admits (.inr (.inl hany))
    exact iff_of_true (hbelow id) (hbelow .array)
  · -- The only rule that applies is the one that moves up to the type of all arrays.
    have hne : id ≠ p := fun heq => hnew (heq ▸ hp)
    have hbottom : id ≠ .any := fun heq => hnew (heq ▸ by decide)
    have hob : arena.obligations id p = some [(.array, p)] := by
      have habove := ha.above?_eq_none hp
      have hvar := ha.kind_ne_var hp
      rw [obligations, if_neg (not_or.mpr ⟨hne, hany⟩), if_neg hbottom, hkind, parentObligation,
        hparent]
      cases hk : (arena.get p).kind with
      | var constraint => exact absurd hk (hvar constraint)
      | applied base args => rw [hk] at habove; cases habove
      | _ => rfl
    rw [below_iff_admits, admits_iff, hob]
    constructor
    · rintro ⟨goals, hg, hall⟩
      cases hg
      exact hall _ (List.mem_singleton_self _)
    · intro hb
      refine ⟨_, rfl, fun g hg => ?_⟩
      rw [List.mem_singleton.mp hg]
      exact hb

theorem isSubtype_baseType (ha : arena.Grown) (h : IsShape arena id) {p : TypeId}
    (hp : p < builtinTypes.length) :
    arena.isSubtype id p = TypeArena.initial.isSubtype (baseType id) p := by
  cases h with
  | builtin h => rw [baseType, if_pos h, ha.isSubtype_eq h hp]
  | array _ h => rw [baseType, if_neg (not_lt_of_interned? ha h), isSubtype_arrayOf ha h hp]

/-! ## Names tell types apart -/

theorem builtin_name_inj : ∀ a < builtinTypes.length, ∀ b < builtinTypes.length,
    TypeArena.initial.name a = TypeArena.initial.name b → a = b := by decide

theorem builtin_name_ne : ∀ a < builtinTypes.length,
    "Array[".toList.isPrefixOf (TypeArena.initial.name a).toList = false := by decide

theorem array_name_ne {a : TypeId} (h : a < builtinTypes.length) (element : String) :
    TypeArena.initial.name a ≠ "Array[" ++ element ++ "]" := by
  intro heq
  have hno := builtin_name_ne a h
  rw [heq, String.toList_append, String.toList_append, List.append_assoc] at hno
  have hyes : "Array[".toList.isPrefixOf ("Array[".toList ++ (element.toList ++ "]".toList)) = true :=
    List.isPrefixOf_iff_prefix.mpr (List.prefix_append _ _)
  rw [hyes] at hno
  cases hno

theorem array_name_inj {a b : String} (h : "Array[" ++ a ++ "]" = "Array[" ++ b ++ "]") : a = b := by
  have hlist := congrArg String.toList h
  simp only [String.toList_append, List.append_assoc, List.append_cancel_left_eq,
    List.append_cancel_right_eq] at hlist
  exact String.toList_inj.mp hlist

/-- Different types of basic values have different names. -/
theorem IsShape.name_inj (ha : arena.Grown) (hn : ArraysNamed arena) {a b : TypeId}
    (h : IsShape arena a) (h' : IsShape arena b) (heq : arena.name a = arena.name b) : a = b := by
  have hbuiltin : ∀ {x}, x < builtinTypes.length → arena.name x = TypeArena.initial.name x :=
    fun hx => ha.extension.name_eq hx
  induction h generalizing b with
  | builtin hlt =>
    cases h' with
    | builtin hlt' =>
      rw [hbuiltin hlt, hbuiltin hlt'] at heq
      exact builtin_name_inj _ hlt _ hlt' heq
    | array _ hb =>
      rw [hbuiltin hlt, hn _ _ hb] at heq
      exact absurd heq (array_name_ne hlt _)
  | array _ hindex ih =>
    cases h' with
    | builtin hlt' =>
      rw [hbuiltin hlt', hn _ _ hindex] at heq
      exact absurd heq.symm (array_name_ne hlt' _)
    | array he' hb =>
      rw [hn _ _ hindex, hn _ _ hb] at heq
      have helement := ih he' (array_name_inj heq)
      rw [helement, hb] at hindex
      exact (Option.some.inj hindex).symm

/-! ## Sound heaps -/

def elementType (heap : Heap) (items : List Value) : TypeId :=
  match items.map (Value.tag heap) with
  | [] => TypeId.any
  | first :: rest => if rest.all (· = first) then first else .any

/-- An array is as it was made: the arrays in it are older than it is, and it is marked with the type of arrays of its
elements. -/
structure Pristine (heap : Heap) (arena : TypeArena) (address : Nat) (items : Array Value) (type : TypeId) : Prop where
  older : ∀ inner, .array inner ∈ items.toList → inner < address
  marked : arena.interned? (.applied .array [elementType heap items.toList]) = some type

/-- A cell holds basic values. An array is marked with a type of arrays, and it is as it was made if the dialect leaves
arrays as they are. -/
def Cell.Sound (D : Dialect) (heap : Heap) (arena : TypeArena) (address : Nat) : Cell → Prop
  | .array items type =>
    (∀ v ∈ items.toList, v.Basic D heap) ∧
      (∃ element, IsShape arena element ∧ arena.interned? (.applied .array [element]) = some type) ∧
      (D.steady = true → Pristine heap arena address items type)
  | .object entries => ∀ e ∈ entries, e.2.Basic D heap

def Heap.Sound (D : Dialect) (heap : Heap) (arena : TypeArena) : Prop :=
  ∀ (address : Nat) (cell : Cell), heap.cells[address]? = some cell → cell.Sound D heap arena address

theorem elementType_cases (heap : Heap) (items : List Value) :
    elementType heap items = .any ∨ ∃ v ∈ items, elementType heap items = v.tag heap := by
  cases items with
  | nil => exact .inl rfl
  | cons v vs =>
    rw [elementType, List.map_cons]
    split
    · exact .inl rfl
    · rename_i first rest heq
      cases heq
      split
      · exact .inr ⟨v, List.mem_cons_self, rfl⟩
      · exact .inl rfl

theorem Value.Basic.tag_cases {value : Value} (h : value.Basic D heap) :
    (∃ address, value = .array address) ∨
      value.tag heap < builtinTypes.length ∧
        ∀ array, value.shapeWith array = TypeArena.initial.name (value.tag heap) := by
  cases value with
  | array address => exact .inl ⟨address, rfl⟩
  | inst _ _ _ _ => exact h.elim
  | _ => exact .inr ⟨by rw [Value.tag]; decide, fun _ => rfl⟩

theorem Heap.arrayType_eq {address : Nat} {items : Array Value} {type : TypeId}
    (hc : heap.cells[address]? = some (.array items type)) : heap.arrayType address = type := by
  rw [Heap.arrayType, hc]

namespace Heap.Sound

variable (hs : heap.Sound D arena)
include hs

theorem arrayType_isShape {address : Nat} {items : Array Value} {type : TypeId}
    (hc : heap.cells[address]? = some (.array items type)) : IsShape arena type := by
  obtain ⟨element, he, hindex⟩ := (hs address _ hc).2.1
  exact .array he hindex

theorem tag_isShape {value : Value} (h : value.Basic D heap) : IsShape arena (value.tag heap) := by
  rcases h.tag_cases with ⟨address, rfl⟩ | ⟨hlt, -⟩
  · obtain ⟨items, type, hc⟩ := h
    rw [Value.tag, Heap.arrayType_eq hc]
    exact hs.arrayType_isShape hc
  · exact .builtin hlt

variable (ha : arena.Grown) (hn : ArraysNamed arena)
include ha hn

theorem commonShape_eq {items : List Value} (h : ∀ v ∈ items, v.Basic D heap) :
    Value.commonShape (items.map fun v => arena.name (v.tag heap)) =
      arena.name (elementType heap items) := by
  have hany : arena.name .any = "Any" := ha.extension.name_eq (by decide)
  cases items with
  | nil => exact hany.symm
  | cons v vs =>
    rw [List.forall_mem_cons] at h
    have hall : ((vs.map fun v => arena.name (v.tag heap)).all (· = arena.name (v.tag heap))) =
        ((vs.map (Value.tag heap)).all (· = v.tag heap)) := by
      rw [List.all_map, List.all_map, Bool.eq_iff_iff, List.all_eq_true, List.all_eq_true]
      refine forall₂_congr fun w hw => ?_
      rw [Function.comp_apply, Function.comp_apply, decide_eq_true_iff, decide_eq_true_iff]
      exact ⟨(hs.tag_isShape (h.2 w hw)).name_inj ha hn (hs.tag_isShape h.1), congrArg _⟩
    rw [List.map_cons, Value.commonShape, hall, elementType, List.map_cons]
    dsimp only
    split
    · rfl
    · exact hany.symm

variable (hD : D.steady = true)
include hD

theorem arrayShape_eq (n : Nat) {address : Nat} {items : Array Value} {type : TypeId}
    (hc : heap.cells[address]? = some (.array items type)) {opened : List Nat}
    (hopen : ∀ o ∈ opened, address < o) (hlt : address < n) :
    Value.arrayShape heap n opened address = arena.name type := by
  induction n generalizing address items type opened with
  | zero => exact absurd hlt (Nat.not_lt_zero address)
  | succ n ih =>
    obtain ⟨hitems, -, hpristine⟩ := hs address _ hc
    have hnot : opened.contains address = false := by
      rw [← Bool.not_eq_true, List.contains_iff_mem]
      exact fun hmem => absurd (hopen address hmem) (Nat.lt_irrefl address)
    have hshapes : items.toList.map (Value.shapeWith (Value.arrayShape heap n (address :: opened))) =
        items.toList.map fun v => arena.name (v.tag heap) := by
      refine List.map_congr_left fun v hv => ?_
      have hbasic := hitems v hv
      rcases hbasic.tag_cases with ⟨inner, rfl⟩ | ⟨htag, hname⟩
      · obtain ⟨items', type', hc'⟩ := hbasic
        have hinner : inner < address := (hpristine hD).older inner hv
        rw [Value.shapeWith, Value.tag, Heap.arrayType_eq hc']
        refine ih hc' (fun o ho => ?_) (Nat.lt_of_lt_of_le hinner (Nat.le_of_lt_succ hlt))
        rcases List.mem_cons.mp ho with rfl | ho
        · exact hinner
        · exact Nat.lt_trans hinner (hopen o ho)
      · rw [hname, ha.extension.name_eq htag]
    have hget : heap.items address = items := by rw [Heap.items, hc]
    rw [Value.arrayShape, hnot, if_neg Bool.false_ne_true, hget]
    dsimp only
    rw [hshapes, hs.commonShape_eq ha hn hitems, hn _ _ (hpristine hD).marked]

theorem name_tag {value : Value} (h : value.Basic D heap) :
    arena.name (value.tag heap) = value.shapeName heap := by
  rcases h.tag_cases with ⟨address, rfl⟩ | ⟨htag, hname⟩
  · obtain ⟨items, type, hc⟩ := h
    have hlt : address < heap.size := (Array.getElem?_eq_some_iff.mp hc).1
    rw [Value.tag, Heap.arrayType_eq hc, Value.shapeName, Value.shapeWith]
    exact (hs.arrayShape_eq ha hn hD _ hc (fun _ ho => absurd ho List.not_mem_nil)
      (Nat.lt_succ_of_lt hlt)).symm
  · rw [Value.shapeName, hname, ha.extension.name_eq htag]

end Heap.Sound

end DispatchLang
