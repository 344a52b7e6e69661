import DispatchLang.Proofs.Eval.Contents

/-!
# Values that belong to a heap

A value belongs to a heap if the arrays and objects that it mentions are stored there: at the address of an array
there is an array, and at the address of an object an object. Under the direct strategy, moreover, instances and the
constructors that make them are marked with no type in particular (`Value.Stored`).

A heap is in order if all that is stored in it belongs to it, and if no object has two entries under one key
(`Heap.Tidy`). A heap that has grown keeps what is at its addresses an array or an object, so what belonged to it
still does.

## Main definitions

* `Value.parts`: a value and the values in its fields, and in theirs.
* `Value.Stored`: a value belongs to a heap.
* `Heap.Tidy`: a heap is in order.

## Main results

* `Heap.Tidy.alloc`, `Heap.Tidy.modifyItems`, `Heap.Tidy.setEntry`: a heap stays in order.
-/

namespace DispatchLang

/-! ## The parts of a value -/

namespace Value

mutual

def parts : Value → List Value
  | .inst type typeName variant fields => .inst type typeName variant fields :: partsOfFields fields
  | value => [value]

def partsOfFields : List (String × Value) → List Value
  | [] => []
  | (_, value) :: fields => parts value ++ partsOfFields fields

end

variable {p : Value → Prop}

theorem forall_parts_inst {type : TypeId} {typeName : String} {variant : Option String}
    {fields : List (String × Value)} :
    (∀ w ∈ (inst type typeName variant fields).parts, p w) ↔
      p (inst type typeName variant fields) ∧ ∀ e ∈ fields, ∀ w ∈ e.2.parts, p w := by
  have hfields : (∀ w ∈ partsOfFields fields, p w) ↔ ∀ e ∈ fields, ∀ w ∈ e.2.parts, p w := by
    induction fields with
    | nil => exact iff_of_true (List.forall_mem_nil _) (List.forall_mem_nil _)
    | cons e fields ih => rw [partsOfFields, List.forall_mem_append, List.forall_mem_cons, ih]
  rw [parts, List.forall_mem_cons, hfields]

theorem self_mem_parts (value : Value) : value ∈ value.parts := by
  cases value <;> exact List.mem_cons_self

theorem inherited_parts : Inherited fun v => ∀ w ∈ v.parts, p w := fun _ _ _ _ h => (forall_parts_inst.mp h).2

end Value

/-! ## What belongs to a heap -/

/-- The array or object that a cell at an address is. -/
def Cell.valueAt (address : Nat) : Cell → Value
  | .array _ _ => .array address
  | .object _ => .object address

def Cell.isArray : Cell → Bool
  | .array _ _ => true
  | .object _ => false

/-- The array or object at an address. -/
def Heap.container? (heap : Heap) (address : Nat) : Option Value := heap.cells[address]?.map (Cell.valueAt address)

namespace Value

/-- The container that a value is belongs to a heap, and the direct strategy marks no instances with types. -/
def Placed (strategy : Strategy) (heap : Heap) : Value → Prop
  | .array address => heap.container? address = some (.array address)
  | .object address => heap.container? address = some (.object address)
  | .inst type _ _ _ => strategy = .direct → type = .any
  | .constructor _ c => strategy = .direct → c.type = .any
  | _ => True

/-- A value belongs to a heap, with all its parts. -/
def Stored (strategy : Strategy) (heap : Heap) (value : Value) : Prop := ∀ w ∈ value.parts, w.Placed strategy heap

variable {strategy : Strategy} {heap : Heap} {value : Value}

theorem Stored.placed (h : value.Stored strategy heap) : value.Placed strategy heap := h value value.self_mem_parts

theorem stored_of_parts (h : value.parts = [value]) (hp : value.Placed strategy heap) : value.Stored strategy heap := by
  rw [Stored, h]
  exact List.forall_mem_singleton.mpr hp

theorem stored_array {address : Nat} (h : heap.cells[address]?.any Cell.isArray = true) :
    (array address).Stored strategy heap := by
  obtain ⟨cell, hcell, hform⟩ := (Option.any_eq_true _ _).mp h
  cases cell with
  | array items type =>
    refine stored_of_parts rfl ?_
    rw [Placed, Heap.container?, hcell]
    rfl
  | object entries => cases hform

theorem stored_inst {type : TypeId} {typeName : String} {variant : Option String} {fields : List (String × Value)} :
    (inst type typeName variant fields).Stored strategy heap ↔
      (strategy = .direct → type = .any) ∧ ∀ e ∈ fields, e.2.Stored strategy heap :=
  forall_parts_inst

theorem inherited_stored : Inherited (Stored strategy heap) := inherited_parts

end Value

namespace Heap

variable {heap heap' heap'' : Heap}

theorem container?_eq_array {address other : Nat} (h : heap.container? address = some (.array other)) :
    address = other ∧ ∃ items type, heap.cells[address]? = some (.array items type) := by
  rw [container?] at h
  obtain ⟨cell, hcell, heq⟩ := Option.map_eq_some_iff.mp h
  cases cell with
  | array items type => exact ⟨Value.array.inj heq, items, type, hcell⟩
  | object entries => cases heq

theorem container?_eq_object {address other : Nat} (h : heap.container? address = some (.object other)) :
    address = other ∧ ∃ entries, heap.cells[address]? = some (.object entries) := by
  rw [container?] at h
  obtain ⟨cell, hcell, heq⟩ := Option.map_eq_some_iff.mp h
  cases cell with
  | array items type => cases heq
  | object entries => exact ⟨Value.object.inj heq, entries, hcell⟩

/-- The arrays and objects of a heap still are in a later one. -/
def Grows (heap heap' : Heap) : Prop := ∀ address v, heap.container? address = some v → heap'.container? address = some v

theorem Grows.refl (heap : Heap) : heap.Grows heap := fun _ _ h => h

theorem Grows.trans (h : heap.Grows heap') (h' : heap'.Grows heap'') : heap.Grows heap'' :=
  fun address v hv => h' address v (h address v hv)

theorem grows_alloc (heap : Heap) (cell : Cell) : heap.Grows (heap.alloc cell).2 := by
  intro address v hv
  rw [container?] at hv ⊢
  obtain ⟨old, hold, heq⟩ := Option.map_eq_some_iff.mp hv
  obtain ⟨hlt, -⟩ := Array.getElem?_eq_some_iff.mp hold
  rw [Heap.alloc]
  dsimp only
  rw [Array.getElem?_push, if_neg (Nat.ne_of_lt hlt), hold, ← heq]
  rfl

theorem grows_modify (heap : Heap) (address : Nat) {f : Cell → Cell}
    (hf : ∀ other cell, (f cell).valueAt other = cell.valueAt other) : heap.Grows ⟨heap.cells.modify address f⟩ := by
  intro other v hv
  rw [container?] at hv ⊢
  rw [← hv, Array.getElem?_modify]
  split
  · rw [Option.map_map]
    exact congrArg (fun g => Option.map g _) (funext (hf other))
  · rfl

theorem grows_modifyItems (heap : Heap) (address : Nat) (f : Array Value → Array Value) :
    heap.Grows (heap.modifyItems address f) :=
  heap.grows_modify address fun _ cell => by cases cell <;> rfl

theorem grows_setEntry (heap : Heap) (address : Nat) (key : String) (value : Value) :
    heap.Grows (heap.setEntry address key value) :=
  heap.grows_modify address fun _ cell => by cases cell <;> rfl

end Heap

theorem Value.Stored.later {strategy : Strategy} {heap heap' : Heap} {value : Value} (h : value.Stored strategy heap) (g : heap.Grows heap') :
    value.Stored strategy heap' := by
  intro w hw
  have hplaced := h w hw
  cases w with
  | array address | object address => exact g _ _ hplaced
  | _ => exact hplaced

/-! ## Heaps that are in order -/

def DistinctKeys (entries : List (String × Value)) : Prop := (entries.map Prod.fst).Nodup

theorem distinctKeys_insert {entries : List (String × Value)} (h : DistinctKeys entries) (key : String)
    (value : Value) : DistinctKeys (Assoc.insert key value entries) := by
  have hkeys (entries : List (String × Value)) (other : String) :
      other ∈ (Assoc.insert key value entries).map Prod.fst → other = key ∨ other ∈ entries.map Prod.fst := by
    induction entries with
    | nil => exact fun h => .inl (List.mem_singleton.mp h)
    | cons entry entries ih =>
      rw [Assoc.insert]
      split
      · exact .inr
      · intro h
        rcases List.mem_cons.mp h with rfl | h
        · exact .inr List.mem_cons_self
        · exact (ih h).imp id (List.mem_cons_of_mem _)
  induction entries with
  | nil => exact List.nodup_singleton _
  | cons entry entries ih =>
    obtain ⟨hnew, hrest⟩ := List.nodup_cons.mp h
    rw [Assoc.insert]
    split
    · exact h
    · next hne =>
      refine List.nodup_cons.mpr ⟨fun hmem => ?_, ih hrest⟩
      exact (hkeys entries _ hmem).elim hne hnew

def Cell.DistinctKeys : Cell → Prop
  | .array _ _ => True
  | .object entries => DispatchLang.DistinctKeys entries

namespace Heap

/-- All that is stored in a heap belongs to it, and no object has two entries under one key. -/
structure Tidy (strategy : Strategy) (heap : Heap) : Prop where
  /-- The values in cells belong to the heap. -/
  stored : heap.All (Value.Stored strategy heap) fun _ => True
  /-- The keys of an object are distinct. -/
  keys : ∀ (address : Nat) (cell : Cell), heap.cells[address]? = some cell → cell.DistinctKeys

variable {strategy : Strategy} {heap : Heap} (h : heap.Tidy strategy)
include h

theorem Tidy.distinctKeys (address : Nat) : DistinctKeys (heap.entries address) := by
  rw [Heap.entries]
  split
  · next hcell => exact h.keys address _ hcell
  · exact List.nodup_nil

theorem Tidy.alloc {cell : Cell} (hc : cell.All (Value.Stored strategy heap) fun _ => True) (hk : cell.DistinctKeys) :
    (heap.alloc cell).2.Tidy strategy := by
  refine ⟨(h.stored.alloc hc).mono (fun v hv => hv.later (heap.grows_alloc cell)) fun _ => id, fun address c hc => ?_⟩
  rw [Heap.alloc] at hc
  dsimp only at hc
  rw [Array.getElem?_push] at hc
  split at hc
  · cases hc
    exact hk
  · exact h.keys address c hc

/-- A cell may be changed, if it stays an array or an object. -/
theorem Tidy.modify (address : Nat) {f : Cell → Cell}
    (hv : ∀ other cell, (f cell).valueAt other = cell.valueAt other)
    (hf : ∀ cell, cell.All (Value.Stored strategy heap) (fun _ => True) → (f cell).All (Value.Stored strategy heap) fun _ => True)
    (hk : ∀ cell, cell.DistinctKeys → (f cell).DistinctKeys) : Tidy strategy ⟨heap.cells.modify address f⟩ := by
  refine ⟨(h.stored.modify address hf).mono (fun v h => h.later (heap.grows_modify address hv)) fun _ => id,
    fun other c hc => ?_⟩
  rw [Array.getElem?_modify] at hc
  split at hc
  · obtain ⟨cell, hcell, rfl⟩ := Option.map_eq_some_iff.mp hc
    exact hk cell (h.keys other cell hcell)
  · exact h.keys other c hc

theorem Tidy.modifyItems (address : Nat) {f : Array Value → Array Value}
    (hf : ∀ items, (∀ v ∈ items.toList, v.Stored strategy heap) → ∀ v ∈ (f items).toList, v.Stored strategy heap) :
    (heap.modifyItems address f).Tidy strategy := by
  refine h.modify address (fun _ cell => by cases cell <;> rfl) (fun cell hc => ?_) fun cell hk => ?_
  · cases cell with
    | array items type => exact ⟨hf items hc.1, hc.2⟩
    | object entries => exact hc
  · cases cell with
    | array items type => trivial
    | object entries => exact hk

theorem Tidy.setEntry (address : Nat) (key : String) {value : Value} (hv : value.Stored strategy heap) :
    (heap.setEntry address key value).Tidy strategy := by
  refine h.modify address (fun _ cell => by cases cell <;> rfl) (fun cell hc => ?_) fun cell hk => ?_
  · cases cell with
    | array items type => exact hc
    | object entries => exact ScopeTree.forall_mem_insert hv hc
  · cases cell with
    | array items type => trivial
    | object entries => exact distinctKeys_insert hk key value

end Heap

end DispatchLang
