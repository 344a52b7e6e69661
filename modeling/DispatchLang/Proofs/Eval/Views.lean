import DispatchLang.Proofs.Eval.Builtins

/-!
# Values under other identities

Closures and functions are told apart by numbers that a session hands out, so two runs that do the same need
not hand out the same numbers. A *view* says which number one run has where the other one has a given
number, and whether the other one knows functions by their names alone. Only values that are *traced* can be
viewed: their numbers have a counterpart, and they hold trees and functions of one dialect.

What a value is shown as, how many parts it has and which patterns it matches is the same under every view.
Whether two values are equal only depends on whether functions are known by their names, because a view gives
different numbers to different closures.

## Main results

* `View.text_value`, `View.shapeName_value`: a value is shown in the same way under every view.
* `View.equal_value`: two values are equal under a view if they are equal when nothing has another number.
* `View.matchPattern_value`: captures meet under a view what they meet without it.
-/

namespace DispatchLang

/-! ## Scopes that are mapped -/

namespace Assoc

variable {α β : Type}

theorem insert_map (f : α → β) (name : String) (value : α) (entries : List (String × α)) :
    insert name (f value) (entries.map fun e => (e.1, f e.2)) =
      (insert name value entries).map fun e => (e.1, f e.2) := by
  induction entries with
  | nil => rfl
  | cons entry entries ih =>
    obtain ⟨key, old⟩ := entry
    rw [List.map_cons, insert, insert]
    by_cases h : key = name
    · rw [if_pos h, if_pos h]
      rfl
    · rw [if_neg h, if_neg h, ih]
      rfl

end Assoc

/-- A scope with all values mapped. -/
def Frame.map {α β : Type} (f : α → β) (frame : Frame α) : Frame β :=
  ⟨frame.vars.map fun b => (b.1, f b.2), frame.parent⟩

namespace ScopeTree

variable {α β : Type} (f : α → β) (t : ScopeTree α) (s : ScopeId) (name : String)

/-- A tree of scopes with all values mapped. -/
def map : ScopeTree β := ⟨t.frames.map (Frame.map f)⟩

@[simp] theorem frame_map : (t.map f).frame s = (t.frame s).map f := by
  rw [frame, frame, map, Array.getElem?_map]
  cases t.frames[s]? <;> rfl

@[simp] theorem chainWithin_map (n : Nat) (s : ScopeId) : (t.map f).chainWithin n s = t.chainWithin n s := by
  induction n generalizing s with
  | zero => rfl
  | succ n ih =>
    rw [chainWithin, chainWithin, frame_map, Frame.map]
    cases (t.frame s).parent with
    | none => rfl
    | some parent => exact congrArg (s :: ·) (ih parent)

theorem get?_map : (t.map f).get? s name = (t.get? s name).map f := by
  rw [get?, get?, chain, chainWithin_map, ← chain]
  induction t.chain s with
  | nil => rfl
  | cons s chain ih =>
    rw [List.findSome?_cons, List.findSome?_cons, frame_map, Frame.map, Assoc.lookup_map, ih]
    cases (t.frame s).vars.lookup name <;> rfl

theorem binder?_map : (t.map f).binder? s name = t.binder? s name := by
  rw [binder?, binder?, chain, chainWithin_map, ← chain]
  congr 1
  funext s
  rw [frame_map, Frame.binds, Frame.binds, Frame.map, Assoc.lookup_map, Option.isSome_map]

theorem define_map (value : α) :
    (t.map f).define s name (f value) = (t.define s name value).map f := by
  have hframe (frame : Frame α) :
      (frame.map f).define name (f value) = (frame.define name value).map f := by
    rw [Frame.define, Frame.map, Frame.map, Frame.define, Assoc.insert_map]
  refine congrArg ScopeTree.mk (Array.ext_getElem? fun i => ?_)
  rw [Array.getElem?_modify, map, Array.getElem?_map, Array.getElem?_map, define,
    Array.getElem?_modify]
  split
  · rw [Option.map_map, Option.map_map]
    exact congrArg (Option.map · _) (funext hframe)
  · rfl

theorem assign_map (rule : AssignmentScope) (value : α) :
    (t.map f).assign rule s name (f value) = (t.assign rule s name value).map f := by
  cases rule with
  | «local» => rw [assign, assign, assignLocal, assignLocal, binder?_map, define_map]
  | «global» =>
    rw [assign, assign, assignGlobal, assignGlobal, binder?_map, chain, chainWithin_map, ← chain,
      define_map]

theorem child_map : (t.map f).child s = ((t.child s).1, (t.child s).2.map f) := by
  simp [child, map, Frame.map]

theorem map_eq_self {f : α → α} {t : ScopeTree α} (h : t.All fun a => f a = a) :
    t.map f = t := by
  have hframe : ∀ frame ∈ t.frames, Frame.map f frame = frame := fun frame hf => by
    obtain ⟨i, hi⟩ := Array.mem_iff_getElem?.mp hf
    have hvars : frame.vars.map (fun b => (b.1, f b.2)) = frame.vars := by
      refine (List.map_congr_left fun b hb => ?_).trans (List.map_id _)
      rw [h i frame hi b hb]
      rfl
    rw [Frame.map, hvars]
  rw [map, Array.map_congr_left hframe, Array.map_id']

end ScopeTree

/-! ## Views -/

/-- How a run sees the values of another one, and whether it knows functions by their names alone. -/
structure View (named : Bool) where
  /-- The number it has where the other one has a given number. -/
  ids : Nat → Option Nat
  /-- The next number that it hands out. -/
  next : Nat

namespace View

variable {named : Bool} (φ : View named)

def number (n : Nat) : Nat := (φ.ids n).getD 0

def value : Value → Value
  | .closure id params body scope => .closure (φ.number id) params body scope
  | .function id name params body scope =>
    if named then .generic name else .function (φ.number id) name params body scope
  | value => value

/-- How named values are seen. -/
def entries (entries : List (String × Value)) : List (String × Value) :=
  entries.map fun e => (e.1, φ.value e.2)

def cell : Cell → Cell
  | .array items type => .array (items.map φ.value) type
  | .object entries => .object (φ.entries entries)

def heap (heap : Heap) : Heap := ⟨heap.cells.map φ.cell⟩

/-- The view in which every number stands for itself. -/
def plain (named : Bool) : View named := ⟨some, 0⟩

/-- The view in which nothing has a number yet. -/
def empty (named : Bool) : View named := ⟨fun _ => none, 0⟩

/-- A view in which the next number stands for one more number. -/
def adding (n : Nat) : View named := ⟨fun k => if k = n then some φ.next else φ.ids k, φ.next + 1⟩

theorem ids_adding (n k : Nat) : (φ.adding n).ids k = if k = n then some φ.next else φ.ids k := rfl

/-- One view has come out of another one: the numbers that stood for something still stand for it. -/
def Extends (φ φ' : View named) : Prop := ∀ ⦃n m : Nat⦄, φ.ids n = some m → φ'.ids n = some m

theorem Extends.refl : φ.Extends φ := fun _ _ h => h

variable {φ}

theorem Extends.trans {φ' φ'' : View named} (h : φ.Extends φ') (h' : φ'.Extends φ'') : φ.Extends φ'' :=
  fun _ _ hn => h' (h hn)

end View

/-! ## Traced values -/

/-- A value that a program of a dialect can compute with by shape, and that can be seen: numbers stand for
numbers, the trees of closures and quoted forms are trees of the dialect, and declared functions
come from its declarations. -/
def Value.Traced (D : Dialect) {named : Bool} (φ : View named) : Value → Prop
  | .closure id _ body _ => (φ.ids id).isSome ∧ ∀ node ∈ body, D.Tree node
  | .function id name params body _ =>
    (named = false → (φ.ids id).isSome) ∧ D.Declares name params body
  | .generic name => name ∈ Direct.functionNames
  | .typeRef id _ => id < builtinTypes.length
  | .quoted body => D.Tree body
  | .inst _ _ _ _ | .constructor _ _ => False
  | .nothing | .int _ | .float _ | .string _ | .bool _ | .array _ | .object _ => True

def Cell.Traced (D : Dialect) {named : Bool} (φ : View named) : Cell → Prop
  | .array items _ => ∀ v ∈ items.toList, v.Traced D φ
  | .object entries => ∀ e ∈ entries, e.2.Traced D φ

def Heap.Traced (D : Dialect) {named : Bool} (φ : View named) (heap : Heap) : Prop :=
  ∀ (address : Nat) (cell : Cell), heap.cells[address]? = some cell → cell.Traced D φ

variable {D : Dialect} {named : Bool} {φ φ' : View named} {v w : Value} {heap : Heap}

theorem Value.Traced.mono (h : v.Traced D φ) (he : φ.Extends φ') : v.Traced D φ' := by
  have hsome {n : Nat} (hn : (φ.ids n).isSome) : (φ'.ids n).isSome := by
    obtain ⟨m, hm⟩ := Option.isSome_iff_exists.mp hn
    rw [he hm]
    rfl
  cases v with
  | closure id params body scope => exact ⟨hsome h.1, h.2⟩
  | function id name params body scope =>
    exact ⟨fun hn => hsome (h.1 hn), h.2⟩
  | _ => exact h

theorem Cell.Traced.mono {cell : Cell} (h : cell.Traced D φ) (he : φ.Extends φ') :
    cell.Traced D φ' := by
  cases cell with
  | array items type => exact fun v hv => (h v hv).mono he
  | object entries => exact fun e hmem => (h e hmem).mono he

theorem Heap.Traced.mono (h : heap.Traced D φ) (he : φ.Extends φ') : heap.Traced D φ' :=
  fun address cell hc => (h address cell hc).mono he

namespace View

theorem Extends.number_eq (he : φ.Extends φ') {n : Nat} (hn : (φ.ids n).isSome) : φ'.number n = φ.number n := by
  obtain ⟨m, hm⟩ := Option.isSome_iff_exists.mp hn
  rw [number, number, hm, he hm]

/-- A traced value is seen as before when a view has got more numbers. -/
theorem Extends.value_eq (he : φ.Extends φ') (h : v.Traced D φ) : φ'.value v = φ.value v := by
  cases v with
  | closure id params body scope => rw [value, value, he.number_eq h.1]
  | function id name params body scope =>
    cases named with
    | true => rfl
    | false => rw [value, value, he.number_eq (h.1 rfl)]
  | _ => rfl

theorem Extends.entries_eq (he : φ.Extends φ') {entries : List (String × Value)}
    (h : ∀ e ∈ entries, e.2.Traced D φ) : φ'.entries entries = φ.entries entries :=
  List.map_congr_left fun e hmem => by rw [he.value_eq (h e hmem)]

theorem Extends.cell_eq (he : φ.Extends φ') {cell : Cell} (h : cell.Traced D φ) :
    φ'.cell cell = φ.cell cell := by
  cases cell with
  | array items type =>
    have hitems : items.map φ'.value = items.map φ.value :=
      Array.map_congr_left fun v hv => he.value_eq (h v (Array.mem_toList_iff.mpr hv))
    rw [cell, cell, hitems]
  | object entries => rw [cell, cell, he.entries_eq h]

theorem Extends.heap_eq (he : φ.Extends φ') (h : heap.Traced D φ) : φ'.heap heap = φ.heap heap := by
  refine congrArg Heap.mk (Array.map_congr_left fun cell hc => ?_)
  obtain ⟨i, hi⟩ := Array.mem_iff_getElem?.mp hc
  exact he.cell_eq (h i cell hi)

theorem Extends.scopes_eq (he : φ.Extends φ') {scopes : ScopeTree Value}
    (h : scopes.All (Value.Traced D φ)) : scopes.map φ'.value = scopes.map φ.value := by
  refine congrArg ScopeTree.mk (Array.map_congr_left fun frame hf => ?_)
  obtain ⟨i, hi⟩ := Array.mem_iff_getElem?.mp hf
  rw [Frame.map, Frame.map, List.map_congr_left fun b hb => by rw [he.value_eq (h i frame hi b hb)]]

/-! ## What a view does not change -/

variable (φ)

@[simp] theorem size_heap : (φ.heap heap).size = heap.size := Array.size_map

@[simp] theorem cells_heap (address : Nat) :
    (φ.heap heap).cells[address]? = heap.cells[address]?.map φ.cell := Array.getElem?_map

theorem items_heap (address : Nat) :
    (φ.heap heap).items address = (heap.items address).map φ.value := by
  rw [Heap.items, Heap.items, cells_heap]
  rcases heap.cells[address]? with _ | _ | _ <;> simp [cell]

theorem entries_heap (address : Nat) :
    (φ.heap heap).entries address = φ.entries (heap.entries address) := by
  rw [Heap.entries, Heap.entries, cells_heap]
  rcases heap.cells[address]? with _ | _ | _ <;> rfl

@[simp] theorem number?_value : (φ.value v).number? = v.number? := by
  cases v with
  | function _ _ _ _ _ => rw [value]; split <;> rfl
  | _ => rfl

@[simp] theorem base_value : (φ.value v).base = v.base := by
  cases v with
  | function _ _ _ _ _ => rw [value]; split <;> rfl
  | _ => rfl

theorem length?_value : (φ.value v).length? (φ.heap heap) = v.length? heap := by
  cases v with
  | array address => simp [value, Value.length?, items_heap]
  | object address => simp [value, Value.length?, entries_heap, entries]
  | function _ _ _ _ _ => rw [value]; split <;> rfl
  | _ => rfl

/-! ### Texts -/

theorem reprWith_value (container : Nat → String) :
    (φ.value v).reprWith container = v.reprWith container := by
  cases v with
  | function _ _ _ _ _ => rw [value]; split <;> rfl
  | _ => rfl

theorem fieldsWith_entries (container : Nat → String) (entries : List (String × Value)) :
    Value.fieldsWith container (φ.entries entries) = Value.fieldsWith container entries := by
  induction entries with
  | nil => rfl
  | cons entry entries ih =>
    rw [View.entries, List.map_cons, Value.fieldsWith, Value.fieldsWith, reprWith_value]
    exact congrArg _ ih

theorem containerText_heap (n : Nat) (opened : List Nat) :
    Value.containerText (φ.heap heap) n opened = Value.containerText heap n opened := by
  induction n generalizing opened with
  | zero => rfl
  | succ n ih =>
    funext address
    rw [Value.containerText, Value.containerText, ih, cells_heap]
    cases heap.cells[address]? with
    | none => rfl
    | some found =>
      cases found with
      | array items type =>
        simp only [Option.map_some, cell, Array.toList_map, List.map_map, Function.comp_def,
          reprWith_value]
      | object entries => simp only [Option.map_some, cell, fieldsWith_entries]

theorem repr_value : (φ.value v).repr (φ.heap heap) = v.repr heap := by
  rw [Value.repr, Value.repr, containerText_heap, size_heap, reprWith_value]

theorem text_value : (φ.value v).text (φ.heap heap) = v.text heap := by
  cases v with
  | string text => rfl
  | function _ _ _ _ _ => rw [value]; split <;> rfl
  | _ => exact φ.repr_value

/-! ### Names of shapes -/

theorem shapeWith_value (array : Nat → String) : (φ.value v).shapeWith array = v.shapeWith array := by
  cases v with
  | function _ _ _ _ _ => rw [value]; split <;> rfl
  | _ => rfl

theorem arrayShape_heap (n : Nat) (opened : List Nat) :
    Value.arrayShape (φ.heap heap) n opened = Value.arrayShape heap n opened := by
  induction n generalizing opened with
  | zero => rfl
  | succ n ih =>
    funext address
    simp only [Value.arrayShape, ih, items_heap, Array.toList_map, List.map_map, Function.comp_def,
      shapeWith_value]

theorem shapeName_value : (φ.value v).shapeName (φ.heap heap) = v.shapeName heap := by
  rw [Value.shapeName, Value.shapeName, arrayShape_heap, size_heap, shapeWith_value]

variable {φ}

/-! ### Equality -/

/-- Different numbers stand for different numbers. -/
def Injective (φ : View named) : Prop := ∀ ⦃a b n : Nat⦄, φ.ids a = some n → φ.ids b = some n → a = b

theorem Injective.number_eq_iff (hi : φ.Injective) {a b : Nat} (ha : (φ.ids a).isSome)
    (hb : (φ.ids b).isSome) : φ.number a = φ.number b ↔ a = b := by
  obtain ⟨n, hn⟩ := Option.isSome_iff_exists.mp ha
  obtain ⟨m, hm⟩ := Option.isSome_iff_exists.mp hb
  rw [number, number, hn, hm, Option.getD_some, Option.getD_some]
  refine ⟨fun heq => hi hn (heq ▸ hm), fun heq => ?_⟩
  rw [heq, hm] at hn
  exact (Option.some.inj hn).symm

/-- Whether two values are equal does not depend on the numbers that a view gives to them. -/
theorem equalWith_value (hi : φ.Injective) (container : Nat → Nat → Bool) (hv : v.Traced D φ)
    (hw : w.Traced D φ) :
    Value.equalWith container (φ.value v) (φ.value w) =
      Value.equalWith container ((plain named).value v) ((plain named).value w) := by
  cases v with
  | inst _ _ _ _ => exact hv.elim
  | closure a _ _ _ =>
    cases w with
    | closure b _ _ _ => exact decide_eq_decide.mpr (hi.number_eq_iff hv.1 hw.1)
    | function _ _ _ _ _ => cases named <;> rfl
    | _ => rfl
  | function a _ _ _ _ =>
    cases named with
    | true => cases w <;> rfl
    | false =>
      cases w with
      | function b _ _ _ _ => exact decide_eq_decide.mpr (hi.number_eq_iff (hv.1 rfl) (hw.1 rfl))
      | _ => rfl
  | _ =>
    cases w with
    | function _ _ _ _ _ => cases named <;> rfl
    | _ => rfl

theorem allEqual_map {r : Value → Value → Bool} {f g : Value → Value} {xs ys : List Value}
    (h : ∀ x ∈ xs, ∀ y ∈ ys, r (f x) (f y) = r (g x) (g y)) :
    Value.allEqual r (xs.map f) (ys.map f) = Value.allEqual r (xs.map g) (ys.map g) := by
  induction xs generalizing ys with
  | nil => cases ys <;> rfl
  | cons x xs ih =>
    cases ys with
    | nil => rfl
    | cons y ys =>
      obtain ⟨hx, hxs⟩ := List.forall_mem_cons.mp h
      simp only [List.map_cons, Value.allEqual, hx y List.mem_cons_self,
        ih fun x hmem y hy => hxs x hmem y (List.mem_cons_of_mem _ hy)]

theorem entriesEqual_map {r : Value → Value → Bool} {f g : Value → Value}
    {xs ys : List (String × Value)} (h : ∀ x ∈ xs, ∀ y ∈ ys, r (f x.2) (f y.2) = r (g x.2) (g y.2)) :
    Value.entriesEqual r (xs.map fun e => (e.1, f e.2)) (ys.map fun e => (e.1, f e.2)) =
      Value.entriesEqual r (xs.map fun e => (e.1, g e.2)) (ys.map fun e => (e.1, g e.2)) := by
  simp only [Value.entriesEqual, List.length_map, List.all_map, List.any_map, Function.comp_def]
  congr 1
  rw [Bool.eq_iff_iff, List.all_eq_true, List.all_eq_true]
  refine forall₂_congr fun x hx => ?_
  rw [List.any_eq_true, List.any_eq_true]
  refine exists_congr fun y => and_congr_right fun hy => ?_
  rw [h x hx y hy]

theorem containersEqual_heap (hi : φ.Injective) (hh : heap.Traced D φ) (n : Nat)
    (assumed : List (Nat × Nat)) :
    Value.containersEqual (φ.heap heap) n assumed =
      Value.containersEqual ((plain named).heap heap) n assumed := by
  induction n generalizing assumed with
  | zero => rfl
  | succ n ih =>
    funext a b
    rw [Value.containersEqual, Value.containersEqual, ih]
    simp only [cells_heap]
    cases ha : heap.cells[a]? with
    | none => rfl
    | some found =>
      cases hb : heap.cells[b]? with
      | none => cases found <;> rfl
      | some found' =>
        have htraced := hh a found ha
        have htraced' := hh b found' hb
        generalize Value.containersEqual ((plain named).heap heap) n ((a, b) :: assumed) = inner
        cases found with
        | array items type =>
          cases found' with
          | array items' type' =>
            simp only [Option.map_some, cell, Array.toList_map]
            rw [allEqual_map fun x hx y hy => equalWith_value hi inner (htraced x hx) (htraced' y hy)]
          | object _ => rfl
        | object entries =>
          cases found' with
          | array _ _ => rfl
          | object entries' =>
            simp only [Option.map_some, cell, View.entries]
            rw [entriesEqual_map fun x hx y hy => equalWith_value hi inner (htraced x hx) (htraced' y hy)]

theorem equal_value (hi : φ.Injective) (hh : heap.Traced D φ) (hv : v.Traced D φ)
    (hw : w.Traced D φ) :
    (φ.value v).equal (φ.heap heap) (φ.value w) =
      ((plain named).value v).equal ((plain named).heap heap) ((plain named).value w) := by
  rw [Value.equal, Value.equal, size_heap, size_heap, containersEqual_heap hi hh,
    equalWith_value hi _ hv hw]

theorem plain_value (v : Value) : (plain false).value v = v := by
  cases v <;> rfl

theorem plain_heap (heap : Heap) : (plain false).heap heap = heap := by
  have hcell : (plain false).cell = id := by
    funext cell
    cases cell with
    | array items type => simp [cell, funext plain_value]
    | object entries => simp [cell, View.entries, plain_value]
  rw [View.heap, hcell, Array.map_id]

end View

/-- Whether two values compare as they do if functions are known by their names. -/
def Value.comparesByName (heap : Heap) (a b : Value) : Bool :=
  a.equal heap b ==
    ((View.plain true).value a).equal ((View.plain true).heap heap) ((View.plain true).value b)

namespace View

/-- Under a view in which it would not matter that functions are known by their names, values compare as they
are. -/
theorem equal_value_of_comparesByName (hi : φ.Injective) (hh : heap.Traced D φ) (hv : v.Traced D φ)
    (hw : w.Traced D φ) (h : v.comparesByName heap w = true) :
    (φ.value v).equal (φ.heap heap) (φ.value w) = v.equal heap w := by
  rw [equal_value hi hh hv hw]
  cases named with
  | true => exact (eq_of_beq h).symm
  | false => rw [plain_value, plain_value, plain_heap]

/-! ### Members and patterns -/

theorem ownField?_value (h : v.Traced D φ) (name : String) :
    (φ.value v).ownField? (φ.heap heap) name = (v.ownField? heap name).map φ.value := by
  cases v with
  | object address => exact (congrArg _ (φ.entries_heap address)).trans (Assoc.lookup_map φ.value _ name)
  | inst _ _ _ _ => exact h.elim
  | function _ _ _ _ _ => rw [value]; split <;> rfl
  | _ => rfl

theorem isLiteral_value (literal : Literal) : (φ.value v).isLiteral literal = v.isLiteral literal := by
  cases v with
  | function _ _ _ _ _ => rw [value]; split <;> rfl
  | _ => rfl

theorem variant?_eq_none (h : v.Traced D φ) : v.variant? = none ∧ (φ.value v).variant? = none := by
  cases v with
  | inst _ _ _ _ => exact h.elim
  | function _ _ _ _ _ => exact ⟨rfl, by rw [value]; split <;> rfl⟩
  | _ => exact ⟨rfl, rfl⟩

theorem fieldsOf?_eq_none (h : v.Traced D φ) (name : String) :
    v.fieldsOf? name = none ∧ (φ.value v).fieldsOf? name = none := by
  cases v with
  | inst _ _ _ _ => exact h.elim
  | function _ _ _ _ _ => exact ⟨rfl, by rw [value]; split <;> rfl⟩
  | _ => exact ⟨rfl, rfl⟩

/-- Captures meet under a view what they meet without it. -/
theorem matchPattern_value (h : v.Traced D φ) (pattern : Node) :
    (φ.value v).matchPattern pattern = (v.matchPattern pattern).map (Option.map φ.entries) := by
  match pattern with
  | .capture _ name => simp [Value.matchPattern, Except.map, entries, Function.comp_def]
  | .refine _ name pattern =>
    rw [Value.matchPattern, Value.matchPattern, matchPattern_value h pattern]
    rcases v.matchPattern pattern with e | _ | bindings
    · rfl
    · rfl
    · simp [Except.map, entries, Function.comp_def, bind, Except.bind, pure, Except.pure]
  | .literal _ literal =>
    rw [Value.matchPattern, Value.matchPattern, isLiteral_value]
    cases v.isLiteral literal <;> rfl
  | .ident _ name =>
    obtain ⟨hv, hv'⟩ := variant?_eq_none h
    rw [Value.matchPattern, Value.matchPattern, hv, hv']
    rfl
  | .construct _ name fields =>
    obtain ⟨hv, hv'⟩ := fieldsOf?_eq_none h name.val
    rw [Value.matchPattern, Value.matchPattern, hv, hv']
    rfl
  | .binary _ _ _ _ | .unary _ _ _ | .assign _ _ _ | .field _ _ _ | .call _ _ _ | .send _ _ _ _
  | .block _ _ _ | .cases _ _ _ | .typeDecl _ _ | .function _ _ _ | .quoted _ _ | .array _ _
  | .object _ _ | .pair _ _ _ => rfl

end View

end DispatchLang
