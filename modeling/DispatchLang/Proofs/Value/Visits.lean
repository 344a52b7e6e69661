import DispatchLang.Proofs.Value.Bisimilarity

/-!
# Comparing with a stack of visits

The pairs of containers that are being compared can be kept on a stack that all walks over values share, also those
that show values as texts. A comparison enters a pair when it begins to compare it and leaves it when it is done, and it
takes a pair for granted that has been entered and not been left.

Such a comparison always ends, with the stack as it was before, and it answers what equality answers that takes the
pairs on the stack for granted.

## Main definitions

* `Walk`: a computation with a stack of visits.
* `Value.compare`: the comparison of two values with a stack of visits.

## Main results

* `Value.compare_answers`: what the comparison answers.
-/

namespace DispatchLang

/-! ## Walks -/

/-- A container that has been entered, or a pair of containers. -/
abbrev Visit : Type := Nat × Option Nat

/-- A computation with a stack of visits, the latest first. It may be given up if it nests too deeply. -/
abbrev Walk (α : Type) : Type := StateT (List Visit) Option α

namespace Walk

/-- Enters unless that has been done. The answer is whether it has been entered now. -/
def enter (visit : Visit) : Walk Bool := fun visits =>
  if visits.contains visit then some (false, visits) else some (true, visit :: visits)

/-- Leaves what has been entered last. -/
def leave (visit : Visit) : Walk Unit := fun visits => some ((), visits.erase visit)

end Walk

namespace Value

/-! ## The comparison -/

/-- Compares two lists of values position by position. -/
def compareItems (compare : Value → Value → Walk Bool) (xs ys : List Value) : Walk Bool :=
  if xs.length = ys.length then (xs.zip ys).allM fun (x, y) => compare x y else pure false

/-- Compares two lists of entries under the same keys. -/
def compareEntries (compare : Value → Value → Walk Bool) (xs ys : List (String × Value)) : Walk Bool :=
  if xs.length = ys.length then
    xs.allM fun (key, value) => ys.anyM fun (key', value') =>
      if key = key' then compare value value' else pure false
  else pure false

mutual

/-- Compares two values, where containers are compared by `container`. -/
def compareWith (container : Nat → Nat → Walk Bool) : Value → Value → Walk Bool
  | .array a, .array b => container a b
  | .object a, .object b => container a b
  | .inst type name variant fields, .inst type' name' variant' fields' =>
    if type = type' ∧ name = name' ∧ variant = variant' ∧ fields.length = fields'.length then
      compareFields container fields fields'
    else pure false
  | a, b => pure (equalWith (fun _ _ => false) a b)
termination_by structural a _ => a

/-- Compares two lists of fields in order. -/
def compareFields (container : Nat → Nat → Walk Bool) : List (String × Value) → List (String × Value) → Walk Bool
  | (name, value) :: fields, (name', value') :: fields' =>
    if name = name' then do
      if ← compareWith container value value' then compareFields container fields fields' else pure false
    else pure false
  | _, _ => pure true
termination_by structural fields _ => fields

end

/-- Compares what is stored at two addresses. -/
def compareCells (compare : Value → Value → Walk Bool) : Option Cell → Option Cell → Walk Bool
  | some (.array items _), some (.array items' _) => compareItems compare items.toList items'.toList
  | some (.object entries), some (.object entries') => compareEntries compare entries entries'
  | _, _ => pure false

/-- Compares two containers, with at most the given number of pairs inside each other. -/
def compareContainers (heap : Heap) : Nat → Nat → Nat → Walk Bool
  | 0, _, _ => failure
  | n + 1, a, b =>
    if a = b then pure true
    else do
      if ← Walk.enter (a, some b) then
        let answer ← compareCells (compareWith (compareContainers heap n)) heap.cells[a]? heap.cells[b]?
        Walk.leave (a, some b)
        return answer
      else return true

/-- Compares two values, with at most the given number of pairs of containers inside each other. -/
def compare (heap : Heap) (n : Nat) (a b : Value) : Walk Bool := compareWith (compareContainers heap n) a b

end Value

/-! ## What a walk answers -/

namespace Walk

/-- A walk ends with an answer and with the stack that it began with. -/
def Answers {α : Type} (walk : Walk α) (visits : List Visit) (answer : α) : Prop :=
  walk visits = some (answer, visits)

variable {α β : Type} {visits : List Visit}

theorem answers_pure (answer : α) : Answers (pure answer) visits answer := rfl

theorem Answers.bind {walk : Walk α} {next : α → Walk β} {a : α} {b : β} (h : walk.Answers visits a)
    (h' : (next a).Answers visits b) : (walk >>= next).Answers visits b := by
  change (walk visits).bind (fun (a, visits) => next a visits) = _
  rw [show walk visits = _ from h]
  exact h'

theorem answers_allM {p : α → Walk Bool} {f : α → Bool} {as : List α} (h : ∀ a ∈ as, (p a).Answers visits (f a)) :
    (as.allM p).Answers visits (as.all f) := by
  induction as with
  | nil => exact answers_pure true
  | cons a as ih =>
    obtain ⟨ha, has⟩ := List.forall_mem_cons.mp h
    rw [List.allM, List.all_cons]
    refine ha.bind ?_
    cases f a with
    | false => exact answers_pure false
    | true => exact ih has

theorem answers_anyM {p : α → Walk Bool} {f : α → Bool} {as : List α} (h : ∀ a ∈ as, (p a).Answers visits (f a)) :
    (as.anyM p).Answers visits (as.any f) := by
  induction as with
  | nil => exact answers_pure false
  | cons a as ih =>
    obtain ⟨ha, has⟩ := List.forall_mem_cons.mp h
    rw [List.anyM, List.any_cons]
    refine ha.bind ?_
    cases f a with
    | false => exact ih has
    | true => exact answers_pure true

/-- Something that has not been entered is, and it is left after what is done in between. -/
theorem answers_entered {visit : Visit} (hnew : visits.contains visit = false) {walk refused : Walk α} {a : α}
    (h : walk.Answers (visit :: visits) a) :
    Answers (do
      if ← enter visit then
        let answer ← walk
        leave visit
        return answer
      else refused) visits a := by
  change ((enter visit visits).bind _ : Option (α × List Visit)) = _
  rw [enter, if_neg (Bool.eq_false_iff.mp hnew)]
  change ((walk (visit :: visits)).bind _ : Option (α × List Visit)) = _
  rw [show walk (visit :: visits) = _ from h]
  change some (a, (visit :: visits).erase visit) = _
  rw [List.erase_cons_head]

/-- Something that has been entered is not entered again. -/
theorem answers_refused {visit : Visit} (hopen : visits.contains visit = true) {walk refused : Walk α} {a : α}
    (h : refused.Answers visits a) : Answers (do if ← enter visit then walk else refused) visits a := by
  change ((enter visit visits).bind _ : Option (α × List Visit)) = _
  rw [enter, if_pos hopen]
  exact h

end Walk

/-- The pairs among what has been entered. -/
def Visit.pairs (visits : List Visit) : List (Nat × Nat) := visits.filterMap fun visit => visit.2.map (visit.1, ·)

theorem Visit.contains_pairs (visits : List Visit) (a b : Nat) :
    (Visit.pairs visits).contains (a, b) = visits.contains (a, some b) := by
  rw [Bool.eq_iff_iff, List.contains_iff_mem, List.contains_iff_mem, Visit.pairs, List.mem_filterMap]
  constructor
  · rintro ⟨⟨x, y⟩, hmem, heq⟩
    obtain ⟨y, rfl, heq⟩ := Option.map_eq_some_iff.mp heq
    cases heq
    exact hmem
  · exact fun hmem => ⟨(a, some b), hmem, rfl⟩

namespace Value

open Walk

variable {heap : Heap} {visits : List Visit} {c : Nat → Nat → Walk Bool} {f : Nat → Nat → Bool}

section

variable {compare : Value → Value → Walk Bool} {r : Value → Value → Bool}
  (h : ∀ v w, (compare v w).Answers visits (r v w))
include h

theorem compareItems_answers (xs ys : List Value) : (compareItems compare xs ys).Answers visits (allEqual r xs ys) := by
  have hall : allEqual r xs ys = (decide (xs.length = ys.length) && (xs.zip ys).all fun (x, y) => r x y) := by
    induction xs generalizing ys with
    | nil => cases ys <;> rfl
    | cons x xs ih =>
      cases ys with
      | nil => rfl
      | cons y ys =>
        rw [allEqual, ih, List.zip_cons_cons, List.all_cons, List.length_cons, List.length_cons, Bool.and_left_comm]
        simp
  rw [compareItems, hall]
  split
  · next hlen =>
    rw [decide_eq_true hlen, Bool.true_and]
    exact answers_allM fun p _ => h p.1 p.2
  · next hlen =>
    rw [decide_eq_false hlen]
    exact answers_pure false

theorem compareEntries_answers (xs ys : List (String × Value)) :
    (compareEntries compare xs ys).Answers visits (entriesEqual r xs ys) := by
  rw [compareEntries, entriesEqual]
  split
  · next hlen =>
    rw [decide_eq_true hlen, Bool.true_and]
    refine answers_allM fun e _ => answers_anyM fun e' _ => ?_
    dsimp only
    split
    · next hkey =>
      rw [decide_eq_true hkey, Bool.true_and]
      exact h e.2 e'.2
    · next hkey =>
      rw [decide_eq_false hkey]
      exact answers_pure false
  · next hlen =>
    rw [decide_eq_false hlen]
    exact answers_pure false

end

theorem fieldsEqualWith_of_length {fields fields' : List (String × Value)} (h : fields.length ≠ fields'.length) :
    fieldsEqualWith f fields fields' = false := by
  rw [Bool.eq_false_iff]
  intro heq
  have hnames := congrArg List.length (fieldsEqualWith_iff.mp heq).1
  rw [List.length_map, List.length_map] at hnames
  exact h hnames

mutual

theorem compareWith_answers (hc : ∀ x y, (c x y).Answers visits (f x y)) (a b : Value) :
    (compareWith c a b).Answers visits (equalWith f a b) := by
  cases a with
  | array address =>
    cases b with
    | array address' => exact hc address address'
    | _ => exact answers_pure false
  | object address =>
    cases b with
    | object address' => exact hc address address'
    | _ => exact answers_pure false
  | inst type name variant fields =>
    cases b with
    | inst type' name' variant' fields' =>
      rw [compareWith, equalWith]
      split
      · next h =>
        obtain ⟨htype, hname, hvariant, hlen⟩ := h
        rw [decide_eq_true htype, decide_eq_true hname, decide_eq_true hvariant]
        exact compareFields_answers hc fields fields' hlen
      · next h =>
        have hdiffer : (decide (type = type') && decide (name = name') && decide (variant = variant') &&
            fieldsEqualWith f fields fields') = false := by
          rw [Bool.eq_false_iff]
          intro heq
          simp only [Bool.and_eq_true, decide_eq_true_iff] at heq
          refine h ⟨heq.1.1.1, heq.1.1.2, heq.1.2, ?_⟩
          by_contra hlen
          rw [fieldsEqualWith_of_length hlen] at heq
          exact Bool.false_ne_true heq.2
        rw [hdiffer]
        exact answers_pure false
    | _ => exact answers_pure false
  | _ => cases b <;> exact answers_pure _
termination_by structural a

theorem compareFields_answers (hc : ∀ x y, (c x y).Answers visits (f x y)) (fields fields' : List (String × Value))
    (hlen : fields.length = fields'.length) :
    (compareFields c fields fields').Answers visits (fieldsEqualWith f fields fields') := by
  cases fields with
  | nil =>
    cases fields' with
    | nil => exact answers_pure true
    | cons _ _ => cases hlen
  | cons e fields =>
    obtain ⟨name, value⟩ := e
    cases fields' with
    | nil => cases hlen
    | cons e' fields' =>
      obtain ⟨name', value'⟩ := e'
      rw [compareFields, fieldsEqualWith]
      split
      · next hname =>
        rw [decide_eq_true hname]
        refine (compareWith_answers hc value value').bind ?_
        cases equalWith f value value' with
        | false => exact answers_pure false
        | true => exact compareFields_answers hc fields fields' (Nat.succ.inj hlen)
      · next hname =>
        rw [decide_eq_false hname]
        exact answers_pure false
termination_by structural fields

end

/-- Comparing containers ends with the stack as it was, if as many pairs can be inside each other as are not on it. -/
theorem compareContainers_answers (n : Nat) : ∀ {visits : List Visit}, heap.openPairs (Visit.pairs visits) < n →
    ∀ x y, (compareContainers heap n x y).Answers visits (containersEqual heap n (Visit.pairs visits) x y) := by
  induction n with
  | zero => exact fun hlt => absurd hlt (Nat.not_lt_zero _)
  | succ n ih =>
    intro visits hlt x y
    rw [compareContainers, containersEqual, Visit.contains_pairs]
    by_cases hxy : x = y
    · rw [if_pos hxy, decide_eq_true hxy]
      exact answers_pure true
    rw [if_neg hxy, decide_eq_false hxy, Bool.false_or]
    cases hopen : visits.contains (x, some y) with
    | true => exact answers_refused hopen (answers_pure true)
    | false =>
      refine answers_entered hopen ?_
      dsimp only
      have hinner (hx : x < heap.size) (hy : y < heap.size) (v w : Value) :
          (compareWith (compareContainers heap n) v w).Answers ((x, some y) :: visits)
            (equalWith (containersEqual heap n ((x, y) :: Visit.pairs visits)) v w) := by
        have hnew : (x, y) ∉ Visit.pairs visits := by
          rw [← List.contains_iff_mem, Visit.contains_pairs, hopen]
          exact Bool.false_ne_true
        have hfewer := Heap.openPairs_cons_lt hx hy hnew
        have hc : ∀ x' y', (compareContainers heap n x' y').Answers ((x, some y) :: visits) _ :=
          ih (Nat.lt_of_lt_of_le hfewer (Nat.le_of_lt_succ hlt))
        exact compareWith_answers hc v w
      cases hx : heap.cells[x]? with
      | none => exact answers_pure false
      | some cell =>
        have hltx := (Array.getElem?_eq_some_iff.mp hx).1
        cases hy : heap.cells[y]? with
        | none => cases cell <;> exact answers_pure false
        | some cell' =>
          have hlty := (Array.getElem?_eq_some_iff.mp hy).1
          cases cell with
          | array items type =>
            cases cell' with
            | array items' type' => exact compareItems_answers (hinner hltx hlty) _ _
            | object entries' => exact answers_pure false
          | object entries =>
            cases cell' with
            | array items' type' => exact answers_pure false
            | object entries' => exact compareEntries_answers (hinner hltx hlty) _ _

/-- How many pairs can be open does not matter if they are enough. -/
theorem containersEqual_eq (n : Nat) : ∀ {m : Nat} {assumed : List (Nat × Nat)}, heap.openPairs assumed < n →
    heap.openPairs assumed < m → containersEqual heap n assumed = containersEqual heap m assumed := by
  induction n with
  | zero => exact fun hlt => absurd hlt (Nat.not_lt_zero _)
  | succ n ih =>
    intro m assumed hn hm
    cases m with
    | zero => exact absurd hm (Nat.not_lt_zero _)
    | succ m =>
      funext x y
      rw [containersEqual, containersEqual]
      split
      · rfl
      · next hopen =>
        rw [Bool.or_eq_true, not_or, List.contains_iff_mem] at hopen
        dsimp only
        cases hx : heap.cells[x]? with
        | none => rfl
        | some cell =>
          cases hy : heap.cells[y]? with
          | none => cases cell <;> rfl
          | some cell' =>
            have hfewer := Heap.openPairs_cons_lt (Array.getElem?_eq_some_iff.mp hx).1
              (Array.getElem?_eq_some_iff.mp hy).1 hopen.2
            rw [ih (Nat.lt_of_lt_of_le hfewer (Nat.le_of_lt_succ hn)) (Nat.lt_of_lt_of_le hfewer (Nat.le_of_lt_succ hm))]

/-- Comparing two values ends with the stack as it was, however deeply the comparison may nest from some depth on. If no
pair has been entered before, it answers whether the values are equal. -/
theorem compare_answers (heap : Heap) (visits : List Visit) (a b : Value) :
    ∃ answer enough, (∀ n, enough ≤ n → (compare heap n a b).Answers visits answer) ∧
      ((∀ visit ∈ visits, visit.2 = none) → answer = a.equal heap b) := by
  let enough := heap.openPairs (Visit.pairs visits) + 1
  refine ⟨equalWith (containersEqual heap enough (Visit.pairs visits)) a b, enough, fun n hn => ?_, fun hnone => ?_⟩
  · rw [containersEqual_eq enough (Nat.lt_succ_self _) hn]
    exact compareWith_answers (compareContainers_answers n hn) a b
  · have hpairs : Visit.pairs visits = [] := by
      refine List.filterMap_eq_nil_iff.mpr fun visit hvisit => ?_
      rw [hnone visit hvisit]
      rfl
    rw [hpairs, equal, show enough = heap.size * heap.size + 1 from ?_]
    rw [← Heap.openPairs_nil, ← hpairs]

end Value

end DispatchLang
