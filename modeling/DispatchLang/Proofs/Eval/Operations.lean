import DispatchLang.Proofs.Eval.Builtins

/-!
# Operations on arrays and objects

What the built-in methods do to arrays and objects agrees under both strategies, once the arguments are known to be of
the right kind. Where methods may be called, an array can come to hold other things than it was made of, so what it
is marked with need not be the type of its elements any longer; all that is left of the mark is that the array is one.
That is enough for the dispatch strategy, which tells receivers apart by base types, as long as nobody asks for the
name of a type.

Operations that call something back agree if the calls do. They work on the elements that an array had when they
began, and these stay basic whatever the calls do.

## Main results

* `Session.Sound.withHeap`: the heap of a session may change if arrays stay arrays.
* `Agree.pushItem`, `Agree.popItem`, `Agree.objectSet`: changing an array or an object agrees.
* `Agree.mapArray`, `Agree.filterArray`, `Agree.reduceArray`: so do operations that call something back.
-/

namespace DispatchLang

variable {D : Dialect} {t : Session} {heap : Heap} {arena : TypeArena}

/-! ## Cells that change -/

namespace Heap

/-- Forgetting the types of arrays commutes with changing a cell. -/
theorem untyped_modify (heap : Heap) (address : Nat) {f : Cell → Cell}
    (hf : ∀ cell, (f cell).untyped = f cell.untyped) :
    untyped ⟨heap.cells.modify address f⟩ = ⟨heap.untyped.cells.modify address f⟩ := by
  rw [untyped, untyped]
  refine congrArg Heap.mk (Array.ext_getElem? fun i => ?_)
  rw [Array.getElem?_map, Array.getElem?_modify, Array.getElem?_modify, Array.getElem?_map]
  split
  · rw [Option.map_map, Option.map_map]
    exact congrArg (fun g => Option.map g _) (funext hf)
  · rfl

theorem untyped_modifyItems (heap : Heap) (address : Nat) (f : Array Value → Array Value) :
    (heap.modifyItems address f).untyped = heap.untyped.modifyItems address f :=
  heap.untyped_modify address fun cell => by cases cell <;> rfl

theorem untyped_setEntry (heap : Heap) (address : Nat) (key : String) (value : Value) :
    (heap.setEntry address key value).untyped = heap.untyped.setEntry address key value :=
  heap.untyped_modify address fun cell => by cases cell <;> rfl

/-- Arrays are kept when a cell changes, if they keep what they are marked with. -/
theorem keptIn_modify (heap : Heap) (address : Nat) {f : Cell → Cell}
    (hf : ∀ items type, ∃ items', f (.array items type) = .array items' type) :
    heap.KeptIn ⟨heap.cells.modify address f⟩ := by
  intro other items type hc
  rw [Array.getElem?_modify]
  split
  · obtain ⟨items', heq⟩ := hf items type
    exact ⟨items', by rw [hc, Option.map_some, heq]⟩
  · exact ⟨items, hc⟩

theorem keptIn_modifyItems (heap : Heap) (address : Nat) (f : Array Value → Array Value) :
    heap.KeptIn (heap.modifyItems address f) := heap.keptIn_modify address fun items _ => ⟨f items, rfl⟩

theorem keptIn_setEntry (heap : Heap) (address : Nat) (key : String) (value : Value) :
    heap.KeptIn (heap.setEntry address key value) := heap.keptIn_modify address fun items _ => ⟨items, rfl⟩

namespace Sound

variable (hs : heap.Sound D arena)
include hs

/-- A cell may change. -/
theorem modify (hi : arena.Indexed) {address : Nat} {f : Cell → Cell}
    (hk : heap.KeptIn ⟨heap.cells.modify address f⟩)
    (hf : ∀ other cell, cell.Sound D heap arena other → (f cell).Sound D heap arena other) :
    Sound D ⟨heap.cells.modify address f⟩ arena := by
  intro other cell hc
  rw [Array.getElem?_modify] at hc
  split at hc
  · obtain ⟨old, hold, rfl⟩ := Option.map_eq_some_iff.mp hc
    exact (hf other old (hs other old hold)).grown hk hi (.refl _)
  · exact (hs other cell hc).grown hk hi (.refl _)

/-- The elements of an array may change, where arrays need not stay as they are. -/
theorem modifyItems (hD : D.steady = false) (hi : arena.Indexed) (address : Nat) {f : Array Value → Array Value}
    (hf : ∀ items, (∀ v ∈ items.toList, v.Basic D heap) → ∀ v ∈ (f items).toList, v.Basic D heap) :
    (heap.modifyItems address f).Sound D arena := by
  refine hs.modify hi (heap.keptIn_modifyItems address f) fun other cell hc => ?_
  cases cell with
  | array items type =>
    exact ⟨hf items hc.1, hc.2.1, fun hsteady => absurd (hD.symm.trans hsteady) Bool.false_ne_true⟩
  | object entries => exact hc

/-- An entry of an object may change. -/
theorem setEntry (hi : arena.Indexed) (address : Nat) (key : String) {value : Value} (hv : value.Basic D heap) :
    (heap.setEntry address key value).Sound D arena := by
  refine hs.modify hi (heap.keptIn_setEntry address key value) fun other cell hc => ?_
  cases cell with
  | array items type => exact hc
  | object entries => exact ScopeTree.forall_mem_insert hv hc

end Sound

end Heap

/-- The heap of a session may change if arrays stay arrays. -/
theorem Session.Sound.withHeap (h : t.Sound D) {heap : Heap} (hk : t.heap.KeptIn heap)
    (hheap : heap.Sound D t.arena) : ({ t with heap } : Session).Sound D where
  tidy := h.tidy
  heap := hheap
  scopes := h.scopes.mono fun _ hb => hb.mono hk
  operators := h.operators
  functions := h.functions
  methods := h.methods
  builtin := h.builtin
  declared := h.declared

namespace Agree

/-- Both change the heap in the same way. -/
theorem modifyHeap {α : Type} {P : Claim α} {f : Heap → α × Heap}
    (hf : f t.heap.untyped = ((f t.heap).1, (f t.heap).2.untyped)) (hk : t.heap.KeptIn (f t.heap).2)
    (hs : t.Sound D → (f t.heap).2.Sound D t.arena)
    (hp : t.Sound D → P { t with heap := (f t.heap).2 } (f t.heap).1) :
    Agree D t (MonadStateOf.modifyGet fun s : Session => ((f s.heap).1, { s with heap := (f s.heap).2 }))
      (MonadStateOf.modifyGet fun s : Session => ((f s.heap).1, { s with heap := (f s.heap).2 })) P := by
  refine ofSound fun hsound => modifyGet ?_ ⟨hk, .refl _⟩ (fun _ => hsound.withHeap hk (hs hsound)) (hp hsound)
  have huntyped : t.untyped.heap = t.heap.untyped := rfl
  rw [huntyped, hf]
  rfl

/-! ## Changing arrays and objects -/

theorem pushItem (hD : D.steady = false) {address : Nat} (ha : (Value.array address).Basic D t.heap) {item : Value}
    (h : item.Basic D t.heap) :
    Agree D t (Eval.pushItem address item) (Eval.pushItem address item) (basicValue D) := by
  have hk := t.heap.keptIn_modifyItems address (·.push item)
  refine bind (P := fun t _ => (Value.array address).Basic D t.heap)
    (modifyHeap (f := fun heap => ((), heap.modifyItems address (·.push item)))
      (Prod.ext rfl (t.heap.untyped_modifyItems address _).symm) hk
      (fun hs => hs.heap.modifyItems hD hs.grown.indexed address fun items hitems => ?_) fun _ => ha.mono hk)
    fun _ _ _ ha => pure ha
  rw [Array.toList_push]
  exact List.forall_mem_append.mpr ⟨hitems, List.forall_mem_singleton.mpr h⟩

theorem popItem (hD : D.steady = false) (address : Nat) :
    Agree D t (Eval.popItem address) (Eval.popItem address) (basicValue D) := by
  have hk := t.heap.keptIn_modifyItems address Array.pop
  refine modifyHeap
    (f := fun heap => (((heap.items address).back?).getD .nothing, heap.modifyItems address Array.pop))
    (Prod.ext ?_ (t.heap.untyped_modifyItems address _).symm) hk
    (fun hs => hs.heap.modifyItems hD hs.grown.indexed address fun items hitems v hv => hitems v ?_) fun hs => ?_
  · exact congrArg (fun items : Array Value => items.back?.getD .nothing) (Heap.items_untyped t.heap address)
  · rw [Array.toList_pop] at hv
    exact List.mem_of_mem_dropLast hv
  · refine Value.Basic.mono ?_ hk
    dsimp only
    cases hb : (t.heap.items address).back? with
    | none => exact trivial
    | some v => exact hs.heap.items_basic v (Array.mem_toList_iff.mpr (Array.mem_of_back? hb))

theorem objectSet (address : Nat) (key : String) {value : Value} (h : value.Basic D t.heap) :
    Agree D t (Eval.objectSet address key value) (Eval.objectSet address key value) (basicValue D) :=
  bind (P := anything)
    (modifyHeap (f := fun heap => ((), heap.setEntry address key value))
      (Prod.ext rfl (t.heap.untyped_setEntry address key value).symm) (t.heap.keptIn_setEntry address key value)
      (fun hs => hs.heap.setEntry hs.grown.indexed address key h) fun _ => trivial)
    fun _ _ _ _ => pure trivial

/-! ## Looking into arrays and strings -/

theorem joinArray (address : Nat) (separator : String) :
    Agree D t (Eval.joinArray address separator) (Eval.joinArray address separator) (basicValue D) :=
  (items address).bind fun _ _ _ _ => (texts _).bind fun _ _ _ _ => pure trivial

theorem formatTemplate (template : String) (values : List Value) :
    Agree D t (Eval.formatTemplate template values) (Eval.formatTemplate template values) (basicValue D) := by
  refine (texts values).bind fun filled _ _ _ => ?_
  cases Template.format template filled with
  | ok text => exact pure trivial
  | error fault => exact fails ⟨_, _, rfl⟩ ⟨_, _, rfl⟩

theorem itemAt {sequence : List Value} (h : basicValues D t sequence) (index : Int64) :
    Agree D t (Eval.itemAt sequence index) (Eval.itemAt sequence index) (basicValue D) := by
  rw [Eval.itemAt]
  split
  · next item hitem =>
    obtain ⟨i, -, hi⟩ := Option.bind_eq_some_iff.mp hitem
    exact pure (h item (List.mem_of_getElem? hi))
  · exact fails ⟨_, _, rfl⟩ ⟨_, _, rfl⟩

theorem characters_basic (text : String) : basicValues D t (Eval.characters text) :=
  List.forall_mem_map.mpr fun _ _ => trivial

theorem arrayContains (address : Nat) (value : Value) :
    Agree D t (Eval.arrayContains address value) (Eval.arrayContains address value) (basicValue D) := by
  refine read (P := basicValue D)
    (fun s => Value.bool ((s.heap.items address).toList.any (·.equal s.heap value))) ?_ trivial
  simp [Session.untyped]

theorem reverseArray (address : Nat) :
    Agree D t (Eval.reverseArray .direct address) (Eval.reverseArray .dispatch address) (basicValue D) :=
  (items address).bind fun _ _ _ h => newArray fun v hv => h v (List.mem_reverse.mp hv)

theorem splitString (text separator : String) :
    Agree D t (Eval.splitString .direct text separator) (Eval.splitString .dispatch text separator) (basicValue D) :=
  newArray (List.forall_mem_map.mpr fun _ _ => trivial)

/-! ## Looking into objects -/

theorem entries (address : Nat) : Agree D t (Eval.entries address) (Eval.entries address) (basicEntries D) :=
  ofSound fun hs => read (fun s => s.heap.entries address) (Heap.entries_untyped t.heap address) hs.heap.entries_basic

theorem objectKeys (address : Nat) :
    Agree D t (Eval.objectKeys .direct address) (Eval.objectKeys .dispatch address) (basicValue D) :=
  (entries address).bind fun _ _ _ _ => newArray (List.forall_mem_map.mpr fun _ _ => trivial)

theorem objectValues (address : Nat) :
    Agree D t (Eval.objectValues .direct address) (Eval.objectValues .dispatch address) (basicValue D) :=
  (entries address).bind fun _ _ _ h => newArray (List.forall_mem_map.mpr h)

theorem objectAt (address : Nat) (key : String) :
    Agree D t (Eval.objectAt address key) (Eval.objectAt address key) (basicValue D) := by
  refine (entries address).bind fun es _ _ h => pure ?_
  cases hl : es.lookup key with
  | none => exact trivial
  | some v => exact h _ (Assoc.mem_of_lookup hl)

theorem objectHas (address : Nat) (key : String) :
    Agree D t (Eval.objectHas address key) (Eval.objectHas address key) (basicValue D) :=
  (entries address).bind fun _ _ _ _ => pure trivial

/-! ## Calling back -/

theorem mapM {step step' : Value → Eval Value} {l : List Value} (hl : basicValues D t l)
    (hstep : ∀ v t', t.Grows t' → v.Basic D t'.heap → Agree D t' (step v) (step' v) (basicValue D)) :
    Agree D t (l.mapM step) (l.mapM step') (basicValues D) := by
  induction l generalizing t with
  | nil => exact pure nofun
  | cons v l ih =>
    obtain ⟨hv, hl⟩ := List.forall_mem_cons.mp hl
    rw [List.mapM_cons, List.mapM_cons]
    refine (hstep v t (.refl t) hv).bind fun w t₁ hg₁ hw => ?_
    refine (ih (basicValues.grows hl hg₁) fun v t' hg => hstep v t' (hg₁.trans hg)).bind fun ws t₂ hg₂ hws => ?_
    exact pure (List.forall_mem_cons.mpr ⟨hw.grows hg₂, hws⟩)

theorem filterM {step step' : Value → Eval Bool} {l : List Value} (hl : basicValues D t l)
    (hstep : ∀ v t', t.Grows t' → v.Basic D t'.heap → Agree D t' (step v) (step' v) anything) :
    Agree D t (l.filterM step) (l.filterM step') (basicValues D) := by
  have haux : ∀ l t', t.Grows t' → basicValues D t' l → ∀ done, basicValues D t' done →
      Agree D t' (l.filterAuxM step done) (l.filterAuxM step' done) (basicValues D) := by
    intro l
    induction l with
    | nil => exact fun t' _ _ done hdone => pure hdone
    | cons v l ih =>
      intro t' hg hl done hdone
      obtain ⟨hv, hl⟩ := List.forall_mem_cons.mp hl
      refine (hstep v t' hg hv).bind fun keep t'' hg' _ => ih t'' (hg.trans hg') (basicValues.grows hl hg') _ ?_
      cases keep with
      | false => exact basicValues.grows hdone hg'
      | true => exact List.forall_mem_cons.mpr ⟨hv.grows hg', basicValues.grows hdone hg'⟩
  exact (haux l t (.refl t) hl [] nofun).bind fun done t' _ hdone => pure fun v hv => hdone v (List.mem_reverse.mp hv)

/-- What is made of all elements in turn agrees if each step does. -/
theorem foldlM {β : Type} {Q : Claim β} {step step' : β → Value → Eval β} {l : List Value} (hl : basicValues D t l)
    (hstep : ∀ total v t', t.Grows t' → Q t' total → v.Basic D t'.heap →
      Agree D t' (step total v) (step' total v) Q) {start : β} (hstart : Q t start) :
    Agree D t (l.foldlM step start) (l.foldlM step' start) Q := by
  induction l generalizing t start with
  | nil => exact pure hstart
  | cons v l ih =>
    obtain ⟨hv, hl⟩ := List.forall_mem_cons.mp hl
    exact (hstep start v t (.refl t) hstart hv).bind fun total t' hg htotal =>
      ih (basicValues.grows hl hg) (fun total v t'' hg' => hstep total v t'' (hg.trans hg')) htotal

theorem sumArray (address : Nat) :
    Agree D t (Eval.sumArray .direct address) (Eval.sumArray .dispatch address) (basicValue D) := by
  refine (items address).bind fun values t' _ hvalues => ?_
  refine (foldlM (Q := anything) hvalues (fun total v t'' _ _ _ => ?_) trivial).bind fun total _ _ _ =>
    pure (ofNumber_basic total)
  cases v.number? with
  | some n => exact checkNumber _ fun _ _ => trivial
  | none => exact fails ⟨_, _, rfl⟩ ⟨_, _, rfl⟩

section

variable {call call' : Value → Eval Value}
  (hcall : ∀ v t', t.Grows t' → v.Basic D t'.heap → Agree D t' (call v) (call' v) (basicValue D))
include hcall

theorem mapArray (address : Nat) :
    Agree D t (Eval.mapArray .direct call address) (Eval.mapArray .dispatch call' address) (basicValue D) := by
  refine (items address).bind fun _ _ hg h => ?_
  exact (mapM h fun v t' hg' => hcall v t' (hg.trans hg')).bind fun _ _ _ hvalues => newArray hvalues

theorem filterArray (address : Nat) :
    Agree D t (Eval.filterArray .direct call address) (Eval.filterArray .dispatch call' address) (basicValue D) := by
  refine (items address).bind fun _ _ hg h => (filterM h fun v t' hg' hv => ?_).bind fun _ _ _ hvalues =>
    newArray hvalues
  refine (hcall v t' (hg.trans hg') hv).bind fun kept t'' _ _ => ?_
  cases kept with
  | bool b => exact pure trivial
  | _ => exact fails ⟨_, _, rfl⟩ ⟨_, _, rfl⟩

end

theorem reduceArray {call call' : Value → Value → Eval Value}
    (hcall : ∀ total v t', t.Grows t' → total.Basic D t'.heap → v.Basic D t'.heap →
      Agree D t' (call total v) (call' total v) (basicValue D)) (address : Nat) {start : Value}
    (hstart : start.Basic D t.heap) :
    Agree D t (Eval.reduceArray call address start) (Eval.reduceArray call' address start) (basicValue D) :=
  (items address).bind fun _ _ hg h =>
    foldlM h (fun total v t' hg' => hcall total v t' (hg.trans hg')) (hstart.grows hg)

end Agree

end DispatchLang
