import DispatchLang.Proofs.Value.Pictures
import DispatchLang.Proofs.Value.Visits

/-!
# Showing with a stack of visits

Containers that are being shown are kept on the stack that all walks over values share: each is entered when it begins to
be shown and left when it is done, and a container that has been entered and not been left is cut off.

Such a walk always ends, with the stack as it was before. Comparisons that are under way do not matter to it, as they
enter pairs, so if no container is being shown already, the answer is the text of the value.

## Main definitions

* `Value.display`: a value is shown with a stack of visits.

## Main results

* `Value.display_answers`: what is shown.
-/

namespace DispatchLang

namespace Value

/-! ## Showing -/

mutual

/-- Shows a value inside another one, where containers are shown by `container`. -/
def displayWith (container : Nat → Walk String) : Value → Walk String
  | .array address | .object address => container address
  | .inst _ typeName variant fields => do return instText typeName variant (← displayFields container fields)
  | value => return value.reprWith fun _ => cycleMark

def displayFields (container : Nat → Walk String) : List (String × Value) → Walk (List String)
  | [] => return []
  | (name, value) :: fields => do
    let text ← displayWith container value
    return (name ++ ": " ++ text) :: (← displayFields container fields)

end

/-- Shows what is stored at an address. -/
def displayCell (container : Nat → Walk String) : Option Cell → Walk String
  | some (.array items _) => do return arrayText (← items.toList.mapM (displayWith container))
  | some (.object entries) => do return objectText (← displayFields container entries)
  | none => return cycleMark

/-- Shows a container, with at most the given number of containers inside each other. -/
def displayContainer (heap : Heap) : Nat → Nat → Walk String
  | 0, _ => failure
  | n + 1, address => do
    if ← Walk.enter (address, none) then
      let text ← displayCell (displayContainer heap n) heap.cells[address]?
      Walk.leave (address, none)
      return text
    else return cycleMark

/-- Shows a value by itself, with at most the given number of containers inside each other. -/
def display (heap : Heap) (n : Nat) : Value → Walk String
  | .string text => return text
  | value => displayWith (displayContainer heap n) value

end Value

/-! ## What is shown -/

/-- The containers among what has been entered. -/
def Visit.containers (visits : List Visit) : List Nat :=
  visits.filterMap fun visit => if visit.2 = none then some visit.1 else none

theorem Visit.mem_containers {visits : List Visit} {address : Nat} :
    address ∈ containers visits ↔ (address, none) ∈ visits := by
  rw [containers, List.mem_filterMap]
  constructor
  · rintro ⟨⟨other, pair⟩, hmem, heq⟩
    cases pair with
    | none =>
      cases heq
      exact hmem
    | some _ => cases heq
  · exact fun hmem => ⟨_, hmem, rfl⟩

theorem Walk.answers_mapM {α β : Type} {visits : List Visit} {p : α → Walk β} {f : α → β} {as : List α}
    (h : ∀ a ∈ as, (p a).Answers visits (f a)) : (as.mapM p).Answers visits (as.map f) := by
  induction as with
  | nil => exact answers_pure []
  | cons a as ih =>
    obtain ⟨ha, has⟩ := List.forall_mem_cons.mp h
    rw [List.mapM_cons]
    exact ha.bind ((ih has).bind (answers_pure _))

namespace Value

open Walk

variable {heap : Heap} {visits : List Visit} {c : Nat → Walk String} {f : Nat → String}

mutual

theorem displayWith_answers (hc : ∀ address, (c address).Answers visits (f address)) (value : Value) :
    (displayWith c value).Answers visits (value.reprWith f) := by
  cases value with
  | array address | object address => exact hc address
  | inst type typeName variant fields => exact (displayFields_answers hc fields).bind (answers_pure _)
  | bool b => cases b <;> exact answers_pure _
  | _ => exact answers_pure _
termination_by structural value

theorem displayFields_answers (hc : ∀ address, (c address).Answers visits (f address))
    (fields : List (String × Value)) : (displayFields c fields).Answers visits (fieldsWith f fields) := by
  cases fields with
  | nil => exact answers_pure []
  | cons field fields =>
    exact (displayWith_answers hc field.2).bind ((displayFields_answers hc fields).bind (answers_pure _))
termination_by structural fields

end

/-- Showing containers ends with the stack as it was, if as many can be inside each other as are not on it. -/
theorem displayContainer_answers (n : Nat) : ∀ {visits : List Visit}, heap.closedCells (Visit.containers visits) < n →
    ∀ address, (displayContainer heap n address).Answers visits
      (containerText heap n (Visit.containers visits) address) := by
  induction n with
  | zero => exact fun hlt => absurd hlt (Nat.not_lt_zero _)
  | succ n ih =>
    intro visits hlt address
    rw [displayContainer, containerText]
    cases hopen : visits.contains (address, none) with
    | true =>
      rw [if_pos (List.contains_iff_mem.mpr (Visit.mem_containers.mpr (List.contains_iff_mem.mp hopen)))]
      exact answers_refused hopen (answers_pure _)
    | false =>
      have hnew : address ∉ Visit.containers visits := by
        rw [Visit.mem_containers, ← List.contains_iff_mem, hopen]
        exact Bool.false_ne_true
      rw [if_neg fun h => hnew (List.contains_iff_mem.mp h)]
      refine answers_entered hopen ?_
      dsimp only
      cases hcell : heap.cells[address]? with
      | none => exact answers_pure _
      | some cell =>
        have hfewer := Heap.closedCells_cons_lt (Array.getElem?_eq_some_iff.mp hcell).1 hnew
        have hinner : ∀ other, (displayContainer heap n other).Answers ((address, none) :: visits)
            (containerText heap n (address :: Visit.containers visits) other) :=
          ih (Nat.lt_of_lt_of_le hfewer (Nat.le_of_lt_succ hlt))
        cases cell with
        | array items type =>
          exact (answers_mapM fun item _ => displayWith_answers hinner item).bind (answers_pure _)
        | object entries => exact (displayFields_answers hinner entries).bind (answers_pure _)

/-- How many containers can be open does not matter if they are enough. -/
theorem containerText_eq (n : Nat) : ∀ {m : Nat} {opened : List Nat}, heap.closedCells opened < n →
    heap.closedCells opened < m → containerText heap n opened = containerText heap m opened := by
  induction n with
  | zero => exact fun hlt => absurd hlt (Nat.not_lt_zero _)
  | succ n ih =>
    intro m opened hn hm
    cases m with
    | zero => exact absurd hm (Nat.not_lt_zero _)
    | succ m =>
      funext address
      rw [containerText, containerText]
      split
      · rfl
      · next hopen =>
        rw [List.contains_iff_mem] at hopen
        dsimp only
        cases hcell : heap.cells[address]? with
        | none => rfl
        | some cell =>
          have hfewer := Heap.closedCells_cons_lt (Array.getElem?_eq_some_iff.mp hcell).1 hopen
          rw [ih (Nat.lt_of_lt_of_le hfewer (Nat.le_of_lt_succ hn)) (Nat.lt_of_lt_of_le hfewer (Nat.le_of_lt_succ hm))]

/-- Showing a value ends with the stack as it was, however deeply it may nest from some depth on. If no container is being
shown already, the answer is the text of the value. -/
theorem display_answers (heap : Heap) (visits : List Visit) (value : Value) :
    ∃ answer enough, (∀ n, enough ≤ n → (display heap n value).Answers visits answer) ∧
      ((∀ visit ∈ visits, visit.2 ≠ none) → answer = value.text heap) := by
  let opened := Visit.containers visits
  let enough := heap.closedCells opened + 1
  have hwalk (value : Value) (n : Nat) (hn : enough ≤ n) :
      (displayWith (displayContainer heap n) value).Answers visits (value.reprWith (containerText heap enough opened)) := by
    rw [containerText_eq enough (Nat.lt_succ_self _) hn]
    exact displayWith_answers (displayContainer_answers n hn) value
  have hnone (h : ∀ visit ∈ visits, visit.2 ≠ none) (value : Value) :
      value.reprWith (containerText heap enough opened) = value.repr heap := by
    have hopened : opened = [] := List.eq_nil_iff_forall_not_mem.mpr fun address hmem =>
      h _ (Visit.mem_containers.mp hmem) rfl
    rw [repr, show enough = heap.size + 1 by rw [← Heap.closedCells_nil, ← hopened], hopened]
  cases value with
  | string text => exact ⟨text, 0, fun _ _ => answers_pure text, fun _ => rfl⟩
  | _ => exact ⟨_, enough, hwalk _, fun h => hnone h _⟩

end Value

end DispatchLang
