import DispatchLang.Proofs.Arena.Growth
import DispatchLang.Proofs.Eval.Contents

/-!
# The types that values mention

Calls are resolved by the types of their arguments, and types are indices into an arena. So that a call
never asks for a type that is not there, every type that a value mentions has to be a type of the arena: the
type of an instance and of the values in its fields, the types that a constructor checks its arguments
against, the type that a reference to a type stands for, and the type that an array was built with.

Whether a type is there depends on no more than how many types there are. `Value.In n` and `Heap.In n` say
it of values and cells for `n` types. Instances are of declared types, which are newer than the built-in
ones, and the type of an array is one of the types of arrays (`Heap.ArraysIn`).

## Main results

* `Value.tag_lt`: the type of such a value is there.
* `Value.matchPattern_in`: so are the types of what the captures of a pattern meet.
-/

namespace DispatchLang

/-! ## Values -/

namespace Value

mutual

def types : Value → List TypeId
  | .inst type _ _ fields => type :: typesOfEntries fields
  | .constructor _ c => c.type :: c.fields.map Prod.snd
  | .typeRef id _ => [id]
  | _ => []

def typesOfEntries : List (String × Value) → List TypeId
  | [] => []
  | (_, value) :: entries => types value ++ typesOfEntries entries

end

mutual

def instanceTypes : Value → List TypeId
  | .inst type _ _ fields => type :: instanceTypesOfEntries fields
  | .constructor _ c => [c.type]
  | _ => []

def instanceTypesOfEntries : List (String × Value) → List TypeId
  | [] => []
  | (_, value) :: entries => instanceTypes value ++ instanceTypesOfEntries entries

end

/-- All types that a value mentions are among the first `n`, and instances are not of built-in types. -/
def In (n : Nat) (value : Value) : Prop :=
  (∀ type ∈ value.types, type < n) ∧ ∀ type ∈ value.instanceTypes, builtinTypes.length ≤ type

/-- A type is among the first `n` and not built in. -/
def DeclaredIn (n : Nat) (type : TypeId) : Prop := builtinTypes.length ≤ type ∧ type < n

variable {n m : Nat} {value : Value}

theorem DeclaredIn.mono {type : TypeId} (h : DeclaredIn n type) (hle : n ≤ m) : DeclaredIn m type :=
  ⟨h.1, Nat.lt_of_lt_of_le h.2 hle⟩

theorem In.mono (h : value.In n) (hle : n ≤ m) : value.In m :=
  ⟨fun type ht => Nat.lt_of_lt_of_le (h.1 type ht) hle, h.2⟩

theorem in_of_types_nil (h : value.types = []) : value.In n := by
  refine ⟨fun type ht => ?_, ?_⟩
  · rw [h] at ht
    cases ht
  cases value with
  | inst _ _ _ _ | constructor _ _ => cases h
  | _ => nofun

theorem in_inst {type : TypeId} {typeName : String} {variant : Option String}
    {fields : List (String × Value)} :
    (inst type typeName variant fields).In n ↔ DeclaredIn n type ∧ ∀ e ∈ fields, e.2.In n := by
  have hfields : ((∀ t ∈ typesOfEntries fields, t < n) ∧
      ∀ t ∈ instanceTypesOfEntries fields, builtinTypes.length ≤ t) ↔ ∀ e ∈ fields, e.2.In n := by
    induction fields with
    | nil => exact ⟨fun _ => nofun, fun _ => ⟨nofun, nofun⟩⟩
    | cons entry fields ih =>
      rw [typesOfEntries, instanceTypesOfEntries, List.forall_mem_append, List.forall_mem_append,
        List.forall_mem_cons, ← ih]
      exact and_and_and_comm
  rw [← hfields, In, types, instanceTypes, List.forall_mem_cons, List.forall_mem_cons,
    and_and_and_comm, and_comm (a := type < n), DeclaredIn]

theorem in_constructor {id : Nat} {c : Constructor} :
    (constructor id c).In n ↔ DeclaredIn n c.type ∧ ∀ field ∈ c.fields, field.2 < n := by
  rw [In, types, instanceTypes, List.forall_mem_cons, List.forall_mem_map, List.forall_mem_singleton,
    and_right_comm, and_comm (a := c.type < n), DeclaredIn]

theorem in_typeRef {id : TypeId} {name : String} : (typeRef id name).In n ↔ id < n := by
  rw [In, types, List.forall_mem_singleton]
  exact and_iff_left nofun

theorem in_ofLiteral (literal : Literal) : (ofLiteral literal).In n :=
  in_of_types_nil (by cases literal <;> rfl)

theorem in_ofNumber (number : Number) : (ofNumber number).In n :=
  in_of_types_nil (by cases number <;> rfl)

/-! ### Matching -/

theorem inherited_in : Inherited (In n) := fun _ _ _ _ h => (in_inst.mp h).2

/-- Captures meet a value, or a part of it. -/
theorem matchPattern_in {pattern : Node} (h : value.In n) {bindings : List (String × Value)}
    (hb : value.matchPattern pattern = .ok (some bindings)) : ∀ e ∈ bindings, e.2.In n := by
  have hmeets := matchPattern_meets inherited_in pattern h
  rw [hb] at hmeets
  exact hmeets.2

end Value

/-! ## Cells -/

/-- All types that a cell mentions are among the first `n`. -/
def Cell.In (n : Nat) : Cell → Prop
  | .array items type => (∀ value ∈ items.toList, value.In n) ∧ type < n
  | .object entries => ∀ e ∈ entries, e.2.In n

theorem Cell.in_iff {n : Nat} {cell : Cell} : cell.In n ↔ cell.All (Value.In n) (· < n) := by cases cell <;> rfl

namespace Heap

variable {n m : Nat} {heap : Heap}

/-- All types that the cells of a heap mention are among the first `n`. -/
def In (n : Nat) (heap : Heap) : Prop := ∀ cell ∈ heap.cells.toList, cell.In n

theorem in_iff : heap.In n ↔ heap.All (Value.In n) (· < n) := forall₂_congr fun _ _ => Cell.in_iff

theorem in_empty : empty.In n := in_iff.mpr all_empty

theorem In.mono (h : heap.In n) (hle : n ≤ m) : heap.In m :=
  in_iff.mpr <| (in_iff.mp h).mono (fun _ hv => hv.mono hle) fun _ ht => Nat.lt_of_lt_of_le ht hle

theorem In.items (h : heap.In n) (address : Nat) : ∀ v ∈ (heap.items address).toList, v.In n :=
  (in_iff.mp h).items address

theorem In.entries (h : heap.In n) (address : Nat) : ∀ e ∈ heap.entries address, e.2.In n :=
  (in_iff.mp h).entries address

theorem In.arrayType_lt (h : heap.In n) (hn : 0 < n) (address : Nat) : heap.arrayType address < n :=
  (in_iff.mp h).arrayType hn address

theorem In.alloc (h : heap.In n) {cell : Cell} (hc : cell.In n) : (heap.alloc cell).2.In n :=
  in_iff.mpr <| (in_iff.mp h).alloc (Cell.in_iff.mp hc)

theorem In.modifyItems (h : heap.In n) (address : Nat) {f : Array Value → Array Value}
    (hf : ∀ items, (∀ v ∈ items.toList, v.In n) → ∀ v ∈ (f items).toList, v.In n) :
    (heap.modifyItems address f).In n :=
  in_iff.mpr <| (in_iff.mp h).modifyItems address hf

theorem In.setEntry (h : heap.In n) (address : Nat) (key : String) {value : Value} (hv : value.In n) :
    (heap.setEntry address key value).In n :=
  in_iff.mpr <| (in_iff.mp h).setEntry address key hv

/-! ### Types of arrays -/

def ArraysIn (arena : TypeArena) (heap : Heap) : Prop :=
  ∀ (address : Nat) (items : Array Value) (type : TypeId), heap.cells[address]? = some (.array items type) →
    ∃ element, arena.interned? (.applied .array [element]) = some type

variable {arena arena' : TypeArena}

theorem arraysIn_empty : empty.ArraysIn arena := fun _ _ _ h => by cases h

theorem ArraysIn.mono (h : heap.ArraysIn arena)
    (hg : ∀ kind id, arena.interned? kind = some id → arena'.interned? kind = some id) :
    heap.ArraysIn arena' := fun address items type hc =>
  (h address items type hc).imp fun _ => hg _ _

theorem ArraysIn.alloc (h : heap.ArraysIn arena) {cell : Cell}
    (hcell : ∀ items type, cell = .array items type →
      ∃ element, arena.interned? (.applied .array [element]) = some type) :
    (heap.alloc cell).2.ArraysIn arena := by
  intro address items type hc
  rw [Heap.alloc] at hc
  dsimp only at hc
  rw [Array.getElem?_push] at hc
  split at hc
  · exact hcell items type (Option.some.inj hc)
  · exact h address items type hc

theorem ArraysIn.modify (h : heap.ArraysIn arena) (address : Nat) {f : Cell → Cell}
    (hf : ∀ cell items type, f cell = .array items type → ∃ old, cell = .array old type) :
    ArraysIn arena ⟨heap.cells.modify address f⟩ := by
  intro i items type hc
  rw [Array.getElem?_modify] at hc
  split at hc
  · obtain ⟨cell, hcell, hnew⟩ := Option.map_eq_some_iff.mp hc
    obtain ⟨old, rfl⟩ := hf cell items type hnew
    exact h _ _ _ hcell
  · exact h i items type hc

theorem ArraysIn.modifyItems (h : heap.ArraysIn arena) (address : Nat) (f : Array Value → Array Value) :
    (heap.modifyItems address f).ArraysIn arena :=
  h.modify address fun cell items type hnew => by
    cases cell with
    | array _ _ => cases hnew; exact ⟨_, rfl⟩
    | object entries => cases hnew

theorem ArraysIn.setEntry (h : heap.ArraysIn arena) (address : Nat) (key : String) (value : Value) :
    (heap.setEntry address key value).ArraysIn arena :=
  h.modify address fun cell items type hnew => by
    cases cell with
    | array _ _ => cases hnew; exact ⟨_, rfl⟩
    | object entries => cases hnew

end Heap

namespace Value

variable {n : Nat} {heap : Heap} {value : Value}

theorem tag_lt (hn : builtinTypes.length ≤ n) (hh : heap.In n) (hv : value.In n) :
    value.tag heap < n := by
  have builtin : ∀ {id : TypeId}, id < builtinTypes.length → id < n :=
    fun hid => Nat.lt_of_lt_of_le hid hn
  cases value with
  | array address => exact hh.arrayType_lt (builtin (by decide)) address
  | inst type typeName variant fields => exact (in_inst.mp hv).1.2
  | _ =>
    rw [tag]
    exact builtin (by decide)

theorem ownField?_in (hh : heap.In n) (hv : value.In n) {name : String} {field : Value}
    (hf : value.ownField? heap name = some field) : field.In n :=
  inherited_in.ownField? (Heap.in_iff.mp hh) hv hf

end Value

end DispatchLang
