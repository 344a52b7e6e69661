import DispatchLang.Proofs.Node.SameForm
import DispatchLang.Proofs.Value.Stored

/-!
# The unfolding of a value

Arrays, objects and instances have parts, and these may have parts again, without end if a container is inside itself.
The unfolding of a value is the tree of all that can be reached from it: for every path of steps into parts it says
what can be seen there (`Label`), if the path leads anywhere. Which addresses containers have cannot be seen.

Two values unfold alike if at every path there is nothing in both, or something that looks the same. Numbers look the
same if they compare as equal, quoted trees if they have the same form, and what has an identity of its own if it is
identical. As long as no number is the missing one this is an equivalence.

## Main definitions

* `Value.unfold`: the unfolding of a value.
* `Value.UnfoldsLike`: two values unfold alike.

## Main results

* `Value.unfoldsLike_iff`: values unfold alike if they look the same and all their parts unfold alike.
* `Value.UnfoldsLike.refl`, `Value.UnfoldsLike.symm`, `Value.UnfoldsLike.trans`: to unfold alike is an equivalence.
-/

namespace DispatchLang

/-! ## Labels -/

/-- What can be seen of a value without looking at its parts. -/
inductive Label where
  /-- The missing value. -/
  | nothing
  /-- A number, as a floating-point number. -/
  | number (value : Float)
  /-- A string. -/
  | string (value : String)
  /-- A truth value. -/
  | bool (value : Bool)
  /-- An array. -/
  | array
  /-- An object. -/
  | object
  /-- An instance, with the names of its fields in order. -/
  | inst (typeName : String) (variant : Option String) (fields : List String)
  /-- A block, by its identity. -/
  | closure (id : Nat)
  /-- A declared function, by its identity. -/
  | function (id : Nat)
  /-- A function that is known by its name. -/
  | generic (name : String)
  /-- A constructor, by its identity. -/
  | constructor (id : Nat)
  /-- A type, by its identity. -/
  | typeRef (id : TypeId)
  /-- A quoted program tree. -/
  | quoted (body : Node)

namespace Label

/-- Two labels look the same. -/
def Agrees : Label → Label → Prop
  | .number x, .number y => (x == y) = true
  | .quoted a, .quoted b => a.sameForm b = true
  | a, b => a = b

/-- No number in a label is the missing one. -/
def Numeric : Label → Prop
  | .number x => x ≠ Float.nan
  | .quoted body => body.Numeric
  | _ => True

/-- A label in which zeros have no signs and a quoted tree is at no place in particular. -/
def unsigned : Label → Label
  | .number x => .number (Number.unsigned x)
  | .quoted body => .quoted (body.unsigned.relocate .nowhere)
  | label => label

theorem agrees_iff {a b : Label} (h : a.Numeric) : a.Agrees b ↔ a.unsigned = b.unsigned := by
  cases a with
  | number x =>
    cases b with
    | number y => rw [Agrees, unsigned, unsigned, Label.number.injEq, Number.beq_iff_unsigned h]
    | _ => exact iff_of_false Label.noConfusion Label.noConfusion
  | quoted body =>
    cases b with
    | quoted body' => rw [Agrees, unsigned, unsigned, Label.quoted.injEq, Node.sameForm_iff h]
    | _ => exact iff_of_false Label.noConfusion Label.noConfusion
  | _ => cases b <;> simp [Agrees, unsigned]

end Label

/-! ## Unfoldings -/

namespace Value

/-- A step into a part of a value. -/
inductive Step where
  /-- To an element of an array. -/
  | item (index : Nat)
  /-- To what an object holds under a key. -/
  | entry (key : String)
  /-- To a field of an instance. -/
  | field (index : Nat)

/-- What can be seen of a value without looking at its parts. -/
def label : Value → Label
  | .nothing => .nothing
  | .int n => .number (Number.widen n)
  | .float x => .number x
  | .string text => .string text
  | .bool b => .bool b
  | .array _ => .array
  | .object _ => .object
  | .inst _ typeName variant fields => .inst typeName variant (fields.map Prod.fst)
  | .closure id _ _ _ => .closure id
  | .function id _ _ _ _ => .function id
  | .generic name => .generic name
  | .constructor id _ => .constructor id
  | .typeRef id _ => .typeRef id
  | .quoted body => .quoted body

def part? (heap : Heap) : Value → Step → Option Value
  | .array address, .item index => (heap.items address)[index]?
  | .object address, .entry key => (heap.entries address).lookup key
  | .inst _ _ _ fields, .field index => fields[index]?.map Prod.snd
  | _, _ => none

/-- What can be seen of a value at the end of a path. -/
def unfold (heap : Heap) : List Step → Value → Option Label
  | [], value => some value.label
  | step :: path, value => (value.part? heap step).bind (unfold heap path)

def UnfoldsLike (heap : Heap) (a b : Value) : Prop :=
  ∀ path, Option.Rel Label.Agrees (unfold heap path a) (unfold heap path b)

/-- No number that can be seen in a value is the missing one. -/
def Numeric (value : Value) : Prop := ∀ w ∈ value.parts, w.label.Numeric

variable {heap : Heap} {a b c : Value}

/-- A property that passes to the fields of instances, and that all stored values have, passes to all parts. -/
theorem Inherited.part? {p : Value → Prop} {q : TypeId → Prop} (hp : Inherited p) (hh : heap.All p q) (ha : p a)
    {step : Step} (hb : a.part? heap step = some b) : p b := by
  cases a with
  | array address =>
    cases step with
    | item index => exact hh.items address b (Array.mem_toList_iff.mpr (Array.mem_of_getElem? hb))
    | _ => cases hb
  | object address =>
    cases step with
    | entry key => exact hh.entries address _ (Assoc.mem_of_lookup hb)
    | _ => cases hb
  | inst type typeName variant fields =>
    cases step with
    | field index =>
      obtain ⟨e, he, rfl⟩ := Option.map_eq_some_iff.mp hb
      exact hp _ _ _ _ ha e (List.mem_of_getElem? he)
    | _ => cases hb
  | _ => cases hb

theorem unfoldsLike_iff :
    UnfoldsLike heap a b ↔
      a.label.Agrees b.label ∧ ∀ step, Option.Rel (UnfoldsLike heap) (a.part? heap step) (b.part? heap step) := by
  constructor
  · intro h
    refine ⟨?_, fun step => ?_⟩
    · cases h [] with
      | some hl => exact hl
    · have hpath (path : List Step) := h (step :: path)
      simp only [unfold] at hpath
      generalize a.part? heap step = x, b.part? heap step = y at hpath
      cases x with
      | none =>
        cases y with
        | none => exact .none
        | some w => nomatch hpath []
      | some v =>
        cases y with
        | none => nomatch hpath []
        | some w => exact .some hpath
  · rintro ⟨hl, hparts⟩ path
    cases path with
    | nil => exact .some hl
    | cons step path =>
      have hstep := hparts step
      rw [unfold, unfold]
      generalize a.part? heap step = x, b.part? heap step = y at hstep
      cases hstep with
      | none => exact .none
      | some hrest => exact hrest path

end Value

/-! ## Values without the missing number -/

/-- No number that can be seen in the values of a heap is the missing one. -/
def Heap.Numeric (heap : Heap) : Prop := heap.All Value.Numeric fun _ => True

namespace Value

variable {heap : Heap} {a b c : Value}

theorem inherited_numeric : Inherited Numeric := inherited_parts

theorem Numeric.label (h : a.Numeric) : a.label.Numeric := h a a.self_mem_parts

theorem Numeric.unfold (hh : heap.Numeric) (h : a.Numeric) {path : List Step} {label : Label}
    (hl : unfold heap path a = some label) : label.Numeric := by
  induction path generalizing a with
  | nil => exact Option.some.inj hl ▸ h.label
  | cons step path ih =>
    obtain ⟨b, hb, hl⟩ := Option.bind_eq_some_iff.mp hl
    exact ih (inherited_numeric.part? hh h hb) hl

/-- Values without the missing number unfold alike if their unfoldings are equal when zeros lose their signs. -/
theorem unfoldsLike_iff_unsigned (hh : heap.Numeric) (ha : a.Numeric) :
    UnfoldsLike heap a b ↔
      ∀ path, (unfold heap path a).map Label.unsigned = (unfold heap path b).map Label.unsigned := by
  refine forall_congr' fun path => ?_
  have hnumeric (label : Label) (hl : unfold heap path a = some label) := ha.unfold hh hl
  generalize unfold heap path a = x, unfold heap path b = y at *
  cases x with
  | none =>
    cases y with
    | none => exact iff_of_true .none rfl
    | some m => exact iff_of_false nofun nofun
  | some l =>
    cases y with
    | none => exact iff_of_false nofun nofun
    | some m =>
      rw [Option.map_some, Option.map_some, Option.some.injEq, ← Label.agrees_iff (hnumeric l rfl)]
      exact ⟨fun | .some h => h, .some⟩

section

variable (hh : heap.Numeric)
include hh

theorem UnfoldsLike.refl (ha : a.Numeric) : UnfoldsLike heap a a := (unfoldsLike_iff_unsigned hh ha).mpr fun _ => rfl

theorem UnfoldsLike.symm (ha : a.Numeric) (hb : b.Numeric) (h : UnfoldsLike heap a b) : UnfoldsLike heap b a :=
  (unfoldsLike_iff_unsigned hh hb).mpr fun path => ((unfoldsLike_iff_unsigned hh ha).mp h path).symm

theorem UnfoldsLike.trans (ha : a.Numeric) (hb : b.Numeric) (h : UnfoldsLike heap a b) (h' : UnfoldsLike heap b c) :
    UnfoldsLike heap a c :=
  (unfoldsLike_iff_unsigned hh ha).mpr fun path =>
    ((unfoldsLike_iff_unsigned hh ha).mp h path).trans ((unfoldsLike_iff_unsigned hh hb).mp h' path)

end

end Value

end DispatchLang
