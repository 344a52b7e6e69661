import DispatchLang.Proofs.Eval.Storage
import DispatchLang.Proofs.Node.Scoping

/-!
# What values and cells contain

What captures of a pattern meet is a value or one of its parts, and what is read from a cell has been stored there.
So a property of values that passes to the fields of instances also passes to the values that captures meet
(`Value.matchPattern_meets`), and one that all stored values have is one of all that is read (`Heap.All`).

## Main results

* `Value.matchPattern_meets`: a pattern that matches binds its captures, to the value or to parts of it.
* `Heap.All.modifyItems`, `Heap.All.setEntry`, `Heap.All.alloc`: storing values that have a property.
-/

namespace DispatchLang

/-! ## Patterns -/

namespace Value

/-- A property of values that passes to the fields of instances. -/
def Inherited (p : Value → Prop) : Prop :=
  ∀ type typeName variant fields, p (.inst type typeName variant fields) → ∀ e ∈ fields, p e.2

section

variable {p : Value → Prop} (hp : Inherited p) {value : Value}
include hp

theorem Inherited.fieldsOf? (h : p value) {name : String} {fields : List (String × Value)}
    (hf : value.fieldsOf? name = some fields) : ∀ e ∈ fields, p e.2 := by
  cases value with
  | inst type typeName variant fields' =>
    rw [Value.fieldsOf?] at hf
    split at hf
    · cases hf
      exact hp _ _ _ _ h
    · cases hf
  | _ => cases hf

end

/-- Values are bound to names, and have a property. -/
def Binds (p : Value → Prop) (names : List String) (bindings : List (String × Value)) : Prop :=
  bindings.map Prod.fst = names ∧ ∀ e ∈ bindings, p e.2

section

variable {p : Value → Prop} {names names' : List String} {bindings bindings' : List (String × Value)}

theorem Binds.append (h : Binds p names bindings) (h' : Binds p names' bindings') :
    Binds p (names ++ names') (bindings ++ bindings') := by
  refine ⟨?_, List.forall_mem_append.mpr ⟨h.2, h'.2⟩⟩
  rw [List.map_append, h.1, h'.1]

theorem binds_nil : Binds p [] [] := ⟨rfl, List.forall_mem_nil _⟩

theorem binds_capture (name : Option String) {value : Value} (h : p value) :
    Binds p name.toList (name.toList.map (·, value)) := by
  cases name with
  | none => exact binds_nil
  | some name => exact ⟨rfl, List.forall_mem_singleton.mpr h⟩

end

/-- What matching gives: values that are bound to names and have a property, or nothing. All that can be wrong is
that something is no pattern. -/
def Meets (p : Value → Prop) (names : List String) : Except RuntimeError (Option (List (String × Value))) → Prop
  | .ok (some bindings) => Binds p names bindings
  | .ok none => True
  | .error e => e.fault = .pattern .invalid

mutual

theorem matchPattern_meets {p : Value → Prop} (hp : Inherited p) (pattern : Node) {value : Value} (h : p value) :
    Meets p pattern.captures (value.matchPattern pattern) := by
  cases pattern with
  | capture span name => exact binds_capture name h
  | refine span name pattern =>
    have hinner := matchPattern_meets hp pattern h
    rw [matchPattern]
    rcases hm : value.matchPattern pattern with e | _ | bindings <;> rw [hm] at hinner
    · exact hinner
    · trivial
    · exact Binds.append hinner (binds_capture name h)
  | literal span literal =>
    rw [matchPattern]
    split
    · exact binds_nil
    · trivial
  | ident span name =>
    rw [matchPattern]
    split
    · exact binds_nil
    · trivial
  | construct span name fields =>
    rw [matchPattern]
    split
    · next actual hf => exact matchFields_meets hp fields (hp.fieldsOf? h hf)
    · trivial
  | _ => rfl

theorem matchFields_meets {p : Value → Prop} (hp : Inherited p) (fields : List (Located String × Node))
    {actual : List (String × Value)} (h : ∀ e ∈ actual, p e.2) :
    Meets p (Node.capturesOf fields) (matchFields fields actual) := by
  cases fields with
  | nil => exact binds_nil
  | cons field fields =>
    obtain ⟨name, pattern⟩ := field
    rw [matchFields]
    split
    · trivial
    · next value hl =>
      have hfirst := matchPattern_meets hp pattern (h _ (Assoc.mem_of_lookup hl))
      have hrest := matchFields_meets hp fields h
      rcases hm : value.matchPattern pattern with e | _ | first <;> rw [hm] at hfirst
      · exact hfirst
      · trivial
      · rcases hr : matchFields fields actual with e | _ | rest <;> rw [hr] at hrest
        · exact hrest
        · trivial
        · exact Binds.append hfirst hrest

end

end Value

/-! ## Entries -/

theorem Assoc.forall_mem_erase {α : Type} {p : α → Prop} {name : String} {entries : List (String × α)}
    (h : ∀ e ∈ entries, p e.2) : ∀ e ∈ Assoc.erase name entries, p e.2 := by
  induction entries with
  | nil => exact List.forall_mem_nil _
  | cons entry entries ih =>
    obtain ⟨he, hes⟩ := List.forall_mem_cons.mp h
    rw [Assoc.erase]
    split
    · exact hes
    · exact List.forall_mem_cons.mpr ⟨he, ih hes⟩

/-! ## Cells -/

/-- All values that a cell holds have one property, and the type that it was built with has another one. -/
def Cell.All (p : Value → Prop) (q : TypeId → Prop) : Cell → Prop
  | .array items type => (∀ value ∈ items.toList, p value) ∧ q type
  | .object entries => ∀ e ∈ entries, p e.2

theorem Cell.All.mono {p p' : Value → Prop} {q q' : TypeId → Prop} {cell : Cell} (h : cell.All p q)
    (hp : ∀ v, p v → p' v) (hq : ∀ type, q type → q' type) : cell.All p' q' := by
  cases cell with
  | array items type => exact ⟨fun v hv => hp v (h.1 v hv), hq type h.2⟩
  | object entries => exact fun e he => hp e.2 (h e he)

namespace Heap

variable {p p' : Value → Prop} {q q' : TypeId → Prop} {heap : Heap}

/-- All values that the cells of a heap hold have one property, and the types of arrays have another one. -/
def All (p : Value → Prop) (q : TypeId → Prop) (heap : Heap) : Prop := ∀ cell ∈ heap.cells.toList, cell.All p q

theorem all_empty : empty.All p q := List.forall_mem_nil _

theorem All.mono (h : heap.All p q) (hp : ∀ v, p v → p' v) (hq : ∀ type, q type → q' type) : heap.All p' q' :=
  fun cell hc => (h cell hc).mono hp hq

theorem All.cell (h : heap.All p q) {address : Nat} {cell : Cell} (hc : heap.cells[address]? = some cell) :
    cell.All p q := h cell (Array.mem_toList_iff.mpr (Array.mem_of_getElem? hc))

theorem All.items (h : heap.All p q) (address : Nat) : ∀ v ∈ (heap.items address).toList, p v := by
  rw [Heap.items]
  split
  · next hc => exact (h.cell hc).1
  · exact List.forall_mem_nil _

theorem All.entries (h : heap.All p q) (address : Nat) : ∀ e ∈ heap.entries address, p e.2 := by
  rw [Heap.entries]
  split
  · next hc => exact h.cell hc
  · exact List.forall_mem_nil _

theorem All.arrayType (h : heap.All p q) (hany : q .any) (address : Nat) : q (heap.arrayType address) := by
  rw [Heap.arrayType]
  split
  · next hc => exact (h.cell hc).2
  · exact hany

theorem All.alloc (h : heap.All p q) {cell : Cell} (hc : cell.All p q) : (heap.alloc cell).2.All p q := by
  rw [Heap.alloc, All]
  dsimp only
  rw [Array.toList_push]
  exact List.forall_mem_append.mpr ⟨h, List.forall_mem_singleton.mpr hc⟩

/-- A cell may be changed. -/
theorem All.modify (h : heap.All p q) (address : Nat) {f : Cell → Cell}
    (hf : ∀ cell, cell.All p q → (f cell).All p q) : All p q ⟨heap.cells.modify address f⟩ := by
  intro cell hc
  obtain ⟨i, hi⟩ := Array.mem_iff_getElem?.mp (Array.mem_toList_iff.mp hc)
  rw [Array.getElem?_modify] at hi
  split at hi
  · obtain ⟨old, hold, rfl⟩ := Option.map_eq_some_iff.mp hi
    exact hf old (h.cell hold)
  · exact h.cell hi

theorem All.modifyItems (h : heap.All p q) (address : Nat) {f : Array Value → Array Value}
    (hf : ∀ items, (∀ v ∈ items.toList, p v) → ∀ v ∈ (f items).toList, p v) :
    (heap.modifyItems address f).All p q :=
  h.modify address fun cell hc => by
    cases cell with
    | array items type => exact ⟨hf items hc.1, hc.2⟩
    | object entries => exact hc

theorem All.setEntry (h : heap.All p q) (address : Nat) (key : String) {value : Value} (hv : p value) :
    (heap.setEntry address key value).All p q :=
  h.modify address fun cell hc => by
    cases cell with
    | array items type => exact hc
    | object entries => exact ScopeTree.forall_mem_insert hv hc

end Heap

/-- What a value holds under a name is a part of it, or stored in its cell. -/
theorem Value.Inherited.ownField? {p : Value → Prop} {q : TypeId → Prop} (hp : Inherited p) {heap : Heap}
    (hh : heap.All p q) {value : Value} (hv : p value) {name : String} {field : Value}
    (hf : value.ownField? heap name = some field) : p field := by
  cases value with
  | inst type typeName variant fields => exact hp _ _ _ _ hv _ (Assoc.mem_of_lookup hf)
  | object address => exact hh.entries address _ (Assoc.mem_of_lookup hf)
  | _ => cases hf

end DispatchLang
