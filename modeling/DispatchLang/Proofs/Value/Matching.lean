import Mathlib.Data.List.Forall2
import DispatchLang.Proofs.Eval.ReadPrograms

/-!
# What it means to match a pattern

A pattern says two things about a value: what shape it has, and which of its parts get names. The shape is a relation
between values and patterns. The names stand at positions, which are paths of field names. The matcher goes through
pattern and value once and does both at a time; here the two are told apart.

What the captures have met is listed without regard to whether a name occurs twice, so nothing is assumed about the names
in a pattern.

## Main definitions

* `Value.Matches`: a value has the shape that a pattern describes.
* `Node.slots`: the names in a pattern with their positions, inner ones first and fields in their order.
* `Value.partAt?`: what a value holds at a position.

## Main results

* `Value.matchPattern_eq_some_iff`: the matcher answers what stands at the positions of the names if the value has the
  shape.
* `Value.matchPattern_eq_none_iff`: it answers nothing if the value does not.
-/

namespace DispatchLang

/-! ## Positions -/

/-- A place in a pattern that gets a name: the names of the fields on the way there, and the name it gets. -/
structure Slot where
  /-- The names of the fields that lead to the place. -/
  path : List String
  /-- The name that what stands there gets. -/
  name : String

namespace Slot

/-- The place as it is seen from outside of a field. -/
def inside (name : String) (slot : Slot) : Slot := ⟨name :: slot.path, slot.name⟩

end Slot

namespace Node

/-- The place of a capture itself, which is none if it has no name. -/
def ownSlot (name : Option String) : List Slot := name.toList.map (⟨[], ·⟩)

mutual

/-- The places of the named captures of a pattern. The ones inside a capture come before its own, and those of a field
before those of later fields. -/
def slots : Node → List Slot
  | .capture _ name => ownSlot name
  | .refine _ name pattern => slots pattern ++ ownSlot name
  | .construct _ _ fields => fieldSlots fields
  | _ => []

/-- The places of the named captures in the fields of a pattern. -/
def fieldSlots : List (Located String × Node) → List Slot
  | [] => []
  | (name, pattern) :: fields => (slots pattern).map (.inside name.val) ++ fieldSlots fields

end

end Node

namespace Value

variable {value : Value} {type : TypeId} {typeName : String} {variant : Option String}
  {actual bindings : List (String × Value)}

/-- What a value holds at the end of a path of fields. -/
def partAt? : List String → Value → Option Value
  | [], value => some value
  | name :: path, .inst _ _ _ fields => (fields.lookup name).bind (partAt? path)
  | _ :: _, _ => none

/-- A binding is one for a place: it has the name of the place, and holds what the value holds there. -/
structure Fills (value : Value) (slot : Slot) (binding : String × Value) : Prop where
  name : binding.1 = slot.name
  held : value.partAt? slot.path = some binding.2

theorem rightUnique_fills (value : Value) : Relator.RightUnique value.Fills := by
  rintro slot ⟨name, held⟩ ⟨name', held'⟩ h h'
  obtain rfl : name = name' := h.name.trans h'.name.symm
  obtain rfl : held = held' := Option.some.inj (h.held.symm.trans h'.held)
  rfl

/-- What fills a place in a part fills it in the whole, seen from outside of the field. -/
theorem Fills.inside {name : String} {part : Value} {slot : Slot} {binding : String × Value}
    (h : part.Fills slot binding) (hpart : actual.lookup name = some part) :
    (inst type typeName variant actual).Fills (slot.inside name) binding where
  name := h.name
  held := by rw [Slot.inside, partAt?, hpart, Option.bind_some, h.held]

theorem fills_ownSlot (value : Value) (name : Option String) :
    List.Forall₂ value.Fills (Node.ownSlot name) (name.toList.map (·, value)) := by
  cases name with
  | none => exact .nil
  | some name => exact .cons ⟨rfl, rfl⟩ .nil

/-! ## Shapes -/

/-- A value has the shape that a pattern describes. A capture is met by everything, or by what meets the pattern that it
is limited to. A literal is met by the same value of the same kind, a name by the alternative of that name, and a
construction by an instance of the alternative, or of the type without alternatives, of that name that has all the
fields and meets their patterns. -/
inductive Matches : Value → Node → Prop
  | capture {span : Span} {name : Option String} {value : Value} : Matches value (.capture span name)
  | refine {span : Span} {name : Option String} {pattern : Node} {value : Value} (h : Matches value pattern) :
      Matches value (.refine span name pattern)
  | int {span : Span} {n : Int64} : Matches (.int n) (.literal span (.int n))
  | float {span : Span} {x y : Float} (h : (x == y) = true) : Matches (.float x) (.literal span (.float y))
  | string {span : Span} {text : String} : Matches (.string text) (.literal span (.string text))
  | bool {span : Span} {b : Bool} : Matches (.bool b) (.literal span (.bool b))
  | variant {span : Span} {type : TypeId} {typeName name : String} {fields : List (String × Value)} :
      Matches (.inst type typeName (some name) fields) (.ident span name)
  | construct {span : Span} {name : Located String} {fields : List (Located String × Node)} {type : TypeId}
      {typeName : String} {variant : Option String} {actual : List (String × Value)}
      (hname : variant.getD typeName = name.val)
      (hheld : ∀ field ∈ fields, (actual.lookup field.1.val).isSome = true)
      (hfields : ∀ field ∈ fields, ∀ part, actual.lookup field.1.val = some part → Matches part field.2) :
      Matches (.inst type typeName variant actual) (.construct span name fields)

/-- The instance has a field with the name, which meets the pattern. -/
def MeetsField (actual : List (String × Value)) (field : Located String × Node) : Prop :=
  ∃ part, actual.lookup field.1.val = some part ∧ part.Matches field.2

theorem matches_refine_iff {span : Span} {name : Option String} {pattern : Node} :
    value.Matches (.refine span name pattern) ↔ value.Matches pattern := by
  constructor
  · rintro ⟨⟩
    assumption
  · exact .refine

theorem matches_literal_iff {span : Span} {literal : Literal} :
    value.Matches (.literal span literal) ↔ value.isLiteral literal = true := by
  constructor
  · rintro ⟨⟩ <;> simp_all [isLiteral]
  · intro h
    cases value <;> cases literal <;> simp only [isLiteral, decide_eq_true_eq, Bool.false_eq_true] at h
    · exact h ▸ .int
    · exact .float h
    · exact h ▸ .string
    · exact h ▸ .bool

theorem matches_ident_iff {span : Span} {name : String} :
    value.Matches (.ident span name) ↔ value.variant? = some name := by
  constructor
  · rintro ⟨⟩
    rfl
  · intro h
    cases value <;> simp only [variant?, reduceCtorEq] at h
    exact h ▸ .variant

theorem fieldsOf?_eq_some {name : String} : value.fieldsOf? name = some actual ↔
    ∃ type typeName variant, value = .inst type typeName variant actual ∧ variant.getD typeName = name := by
  constructor
  · intro h
    cases value <;> simp only [fieldsOf?, reduceCtorEq] at h
    obtain ⟨hname, ⟨⟩⟩ := Option.ite_none_right_eq_some.mp h
    exact ⟨_, _, _, rfl, hname⟩
  · rintro ⟨type, typeName, variant, rfl, hname⟩
    exact if_pos hname

theorem matches_construct_iff {span : Span} {name : Located String} {fields : List (Located String × Node)} :
    value.Matches (.construct span name fields) ↔
      ∃ actual, value.fieldsOf? name.val = some actual ∧ ∀ field ∈ fields, MeetsField actual field := by
  constructor
  · rintro (_ | _ | _ | _ | _ | _ | _ | ⟨hname, hheld, hfields⟩)
    refine ⟨_, if_pos hname, fun field hfield => ?_⟩
    obtain ⟨part, hpart⟩ := Option.isSome_iff_exists.mp (hheld field hfield)
    exact ⟨part, hpart, hfields field hfield part hpart⟩
  · rintro ⟨actual, hactual, hmeets⟩
    obtain ⟨type, typeName, variant, rfl, hname⟩ := fieldsOf?_eq_some.mp hactual
    refine .construct hname (fun field hfield => ?_) fun field hfield part hpart => ?_
    · obtain ⟨part, hpart, -⟩ := hmeets field hfield
      rw [hpart, Option.isSome_some]
    · obtain ⟨part', hpart', hmatches⟩ := hmeets field hfield
      exact Option.some.inj (hpart.symm.trans hpart') ▸ hmatches

/-! ## The matcher -/

mutual

/-- The matcher answers what fills the places of a pattern if the value has its shape, and nothing otherwise. -/
theorem matchPattern_cases (pattern : Node) (h : pattern.isPattern = true) (value : Value) :
    (∃ bindings, value.matchPattern pattern = .ok (some bindings) ∧ value.Matches pattern ∧
        List.Forall₂ value.Fills pattern.slots bindings) ∨
      (value.matchPattern pattern = .ok none ∧ ¬value.Matches pattern) := by
  cases pattern with
  | capture span name => exact .inl ⟨_, rfl, .capture, fills_ownSlot value name⟩
  | refine span name inner =>
    rw [matchPattern, matches_refine_iff, Node.slots]
    obtain ⟨bindings, hfound, hmatches, hfills⟩ | ⟨hfound, hmatches⟩ := matchPattern_cases inner h value
    · rw [hfound]
      exact .inl ⟨_, rfl, hmatches, List.rel_append hfills (fills_ownSlot value name)⟩
    · rw [hfound]
      exact .inr ⟨rfl, hmatches⟩
  | literal span literal =>
    rw [matchPattern, matches_literal_iff]
    by_cases hliteral : value.isLiteral literal = true
    · exact .inl ⟨[], by rw [if_pos hliteral], hliteral, .nil⟩
    · exact .inr ⟨by rw [if_neg hliteral], hliteral⟩
  | ident span name =>
    rw [matchPattern, matches_ident_iff]
    by_cases hvariant : value.variant? = some name
    · exact .inl ⟨[], by rw [if_pos hvariant], hvariant, .nil⟩
    · exact .inr ⟨by rw [if_neg hvariant], hvariant⟩
  | construct span name fields =>
    rw [matchPattern, matches_construct_iff, Node.slots]
    cases hactual : value.fieldsOf? name.val with
    | none => exact .inr ⟨rfl, nofun⟩
    | some actual =>
      obtain ⟨type, typeName, variant, rfl, -⟩ := fieldsOf?_eq_some.mp hactual
      obtain ⟨bindings, hfound, hmeets, hfills⟩ | ⟨hfound, hmeets⟩ :=
        matchFields_cases fields h type typeName variant actual
      · exact .inl ⟨bindings, hfound, ⟨actual, rfl, hmeets⟩, hfills⟩
      · refine .inr ⟨hfound, ?_⟩
        rintro ⟨_, ⟨⟩, h⟩
        exact hmeets h
  | _ => cases h

theorem matchFields_cases (fields : List (Located String × Node)) (h : Node.arePatterns fields = true) (type : TypeId)
    (typeName : String) (variant : Option String) (actual : List (String × Value)) :
    (∃ bindings, matchFields fields actual = .ok (some bindings) ∧ (∀ field ∈ fields, MeetsField actual field) ∧
        List.Forall₂ (inst type typeName variant actual).Fills (Node.fieldSlots fields) bindings) ∨
      (matchFields fields actual = .ok none ∧ ¬∀ field ∈ fields, MeetsField actual field) := by
  cases fields with
  | nil => exact .inl ⟨[], rfl, nofun, .nil⟩
  | cons field fields =>
    obtain ⟨hfield, hfields⟩ := Bool.and_eq_true_iff.mp h
    rw [matchFields, Node.fieldSlots, List.forall_mem_cons]
    cases hpart : actual.lookup field.1.val with
    | none =>
      -- an instance without the field meets no pattern for it
      refine .inr ⟨rfl, ?_⟩
      rintro ⟨⟨part, hpart', -⟩, -⟩
      exact nomatch hpart.symm.trans hpart'
    | some part =>
      have hmeets : MeetsField actual field ↔ part.Matches field.2 := by
        constructor
        · rintro ⟨part', hpart', hmatches⟩
          exact Option.some.inj (hpart.symm.trans hpart') ▸ hmatches
        · exact fun hmatches => ⟨part, hpart, hmatches⟩
      rw [hmeets]
      obtain ⟨bindings, hfound, hmatches, hfills⟩ | ⟨hfound, hmatches⟩ := matchPattern_cases field.2 hfield part
      · obtain ⟨more, hmore, hrest, hmoreFills⟩ | ⟨hmore, hrest⟩ :=
          matchFields_cases fields hfields type typeName variant actual
        · simp only [hfound, hmore]
          refine .inl ⟨_, rfl, ⟨hmatches, hrest⟩, List.rel_append ?_ hmoreFills⟩
          exact List.forall₂_map_left_iff.mpr (hfills.imp fun _ _ hfill => hfill.inside hpart)
        · simp only [hfound, hmore]
          exact .inr ⟨rfl, fun h => hrest h.2⟩
      · simp only [hfound]
        exact .inr ⟨rfl, fun h => hmatches h.1⟩

end

variable {pattern : Node}

theorem matchPattern_eq_some_iff (h : pattern.isPattern = true) : value.matchPattern pattern = .ok (some bindings) ↔
    value.Matches pattern ∧ List.Forall₂ value.Fills pattern.slots bindings := by
  obtain ⟨found, hfound, hmatches, hfills⟩ | ⟨hfound, hmatches⟩ := matchPattern_cases pattern h value
  · constructor
    · intro heq
      cases hfound.symm.trans heq
      exact ⟨hmatches, hfills⟩
    · -- what fills the places is determined by the value
      rintro ⟨-, hfills'⟩
      rw [hfound, value.rightUnique_fills.forall₂ hfills hfills']
  · constructor
    · intro heq
      exact nomatch hfound.symm.trans heq
    · rintro ⟨h', -⟩
      exact absurd h' hmatches

theorem matchPattern_eq_none_iff (h : pattern.isPattern = true) :
    value.matchPattern pattern = .ok none ↔ ¬value.Matches pattern := by
  obtain ⟨found, hfound, hmatches, -⟩ | ⟨hfound, hmatches⟩ := matchPattern_cases pattern h value
  · exact ⟨fun heq => (nomatch hfound.symm.trans heq), fun hnot => absurd hmatches hnot⟩
  · exact ⟨fun _ => hmatches, fun _ => hfound⟩

end Value

end DispatchLang
