import DispatchLang.Proofs.Eval.Storing
import DispatchLang.Proofs.Value.Rendering
import DispatchLang.Proofs.Value.Visits

/-!
# Comparing and showing values in all states of a session

In whatever state a session is, its heap is in order. So what was found out about such heaps applies. Under the direct
strategy, as long as no number is the missing one, equality decides whether values unfold alike, however containers are
inside each other, and so it is an equivalence. Under either strategy there is a picture of every value of the heap, and it
is what is shown of the value.

## Main results

* `Session.Reaches.equal_decides`: what equality decides in the states of a session.
* `Session.Arises.shows_picture`: what is shown of a value in the states of a session.
-/

namespace DispatchLang

/-! ## Equality -/

/-- In every state of a session, comparing two values of its heap ends and leaves the stack of visits as it was, two
values are equal if and only if they unfold alike, and equality is reflexive, symmetric and transitive. -/
theorem Session.Reaches.equal_decides {options : Options} {s : Session}
    (h : (Session.fresh .direct options).Reaches s) (hh : s.heap.Numeric) {a b : Value}
    (ha : a.Stored .direct s.heap) (hb : b.Stored .direct s.heap) (hna : a.Numeric) (hnb : b.Numeric) :
    (∀ visits, ∃ answer enough, (∀ n, enough ≤ n → (Value.compare s.heap n a b).Answers visits answer) ∧
      ((∀ visit ∈ visits, visit.2 = none) → answer = a.equal s.heap b)) ∧
    (a.equal s.heap b = true ↔ Value.UnfoldsLike s.heap a b) ∧
    a.equal s.heap a = true ∧
    (a.equal s.heap b = true → b.equal s.heap a = true) ∧
    ∀ c : Value, c.Stored .direct s.heap → c.Numeric →
      a.equal s.heap b = true → b.equal s.heap c = true → a.equal s.heap c = true := by
  have ht := (h.orderly (orderly_fresh .lax _ _)).heap
  have hiff {v w : Value} (hv : v.Stored .direct s.heap) (hw : w.Stored .direct s.heap) (hnv : v.Numeric) :=
    Value.equal_iff_unfoldsLike ht hh hv hw hnv
  refine ⟨fun visits => Value.compare_answers s.heap visits a b, hiff ha hb hna, ?_, fun hab => ?_,
    fun c hc _ hab hbc => ?_⟩
  · exact (hiff ha ha hna).mpr (.refl hh hna)
  · exact (hiff hb ha hnb).mpr (.symm hh hna hnb ((hiff ha hb hna).mp hab))
  · exact (hiff ha hc hna).mpr (.trans hh hna hnb ((hiff ha hb hna).mp hab) ((hiff hb hc hnb).mp hbc))

/-- Whether a cell is an array of arrays and objects. -/
def Cell.isNested : Cell → Bool
  | .array items _ => items.toList.all fun v => v.address?.isSome
  | .object _ => false

/-- Two arrays that each contain themselves. -/
def selfContaining : String := "a := []; a.push(a); b := []; b.push(b)"

/-- They unfold alike. -/
theorem selfContaining_unfold :
    let heap := ((Session.fresh .direct .standard).feed .direct selfContaining).2.heap
    (Value.array 0).equal heap (.array 1) = true ∧ Value.UnfoldsLike heap (.array 0) (.array 1) := by
  intro heap
  have hcells : heap.cells.toList.all Cell.isNested = true := by decide +kernel
  have harrays : ([0, 1].all fun address => heap.cells[address]?.any Cell.isArray) = true := by decide +kernel
  have hnumeric {v : Value} (hv : v.address?.isSome = true) : v.Numeric := by
    cases v with
    | array address | object address => exact List.forall_mem_singleton.mpr trivial
    | _ => cases hv
  have hstored (address : Nat) (hmem : address ∈ [0, 1]) : (Value.array address).Stored .direct heap :=
    Value.stored_array (List.all_eq_true.mp harrays address hmem)
  have hheap : heap.Numeric := by
    intro cell hmem
    have hcell := List.all_eq_true.mp hcells cell hmem
    cases cell with
    | array items type => exact ⟨fun v hv => hnumeric (List.all_eq_true.mp hcell v hv), trivial⟩
    | object entries => cases hcell
  have hequal : (Value.array 0).equal heap (.array 1) = true := by decide +kernel
  have hdecides := Session.Reaches.equal_decides (.fed .refl selfContaining) hheap (hstored 0 (by decide))
    (hstored 1 (by decide)) (hnumeric rfl) (hnumeric rfl)
  exact ⟨hequal, hdecides.2.1.mp hequal⟩

/-! ## Showing values -/

namespace Session

/-- In every state of a session there is exactly one picture of each value of its heap, which is cut exactly where an array
or object is met inside itself. The text of the value is that of the picture; showing it with a stack of visits ends, leaves
the stack as it was and answers this text; and if nothing is met inside itself, as in a heap without cycles, then nothing
is cut off and the text is that of the whole unfolding, however much is shared. -/
theorem Arises.shows_picture {strategy : Strategy} {options : Options} {s : Session} (h : s.Arises strategy options)
    {value : Value} (hv : value.Stored strategy s.heap) :
    ∃ picture : Picture,
      (∀ other : Picture, other.Depicts s.heap [] value ↔ other = picture) ∧
      (value.repr s.heap = picture.text ∧ value.text s.heap = picture.alone) ∧
      (∀ visits, ∃ answer enough, (∀ n, enough ≤ n → (value.display s.heap n).Answers visits answer) ∧
        ((∀ visit ∈ visits, visit.2 ≠ none) → answer = value.text s.heap)) ∧
      (s.heap.Acyclic → ∀ path, ¬ value.Recurs s.heap [] path) ∧
      ((∀ path, ¬ value.Recurs s.heap [] path) → (∀ path, picture.follow? path ≠ some .cut) ∧
        ∃ enough, ∀ n, enough ≤ n → value.plainText s.heap n = some (value.repr s.heap)) := by
  obtain ⟨picture, hdepicts, hrepr, htext⟩ := Value.exists_picture h.tidy.heap hv
  refine ⟨picture, fun other => ⟨fun hother => Picture.Depicts.unique other hother hdepicts, ?_⟩, ⟨hrepr, htext⟩,
    fun visits => Value.display_answers s.heap visits value, fun hacyclic _ => Value.not_recurs_of_acyclic hacyclic,
    fun hr => ⟨hdepicts.follow?_ne_cut hr, ?_⟩⟩
  · rintro rfl
    exact hdepicts
  · rw [hrepr]
    exact Picture.Depicts.plainText picture hdepicts hr

/-- An array in which an empty array is shared, and which contains itself, inside an instance. -/
def boxedLoop : String := "type Box \x7b inside: Any \x7d; a := []; b := [a, a]; c := [b]; c.push(Box \x7b inside: c \x7d)"

/-- The empty array is shown twice, and the array is cut off inside itself. -/
theorem boxedLoop_shown :
    let heap := ((fresh .dispatch .standard).feed .dispatch boxedLoop).2.heap
    ∃ picture : Picture, picture.Depicts heap [] (.array 2) ∧
      picture.alone = "[[[], []], Box \x7b inside: [...] \x7d]" := by
  intro heap
  have hstored : (Value.array 2).Stored .dispatch heap := Value.stored_array (by decide +kernel)
  have htext : (Value.array 2).text heap = "[[[], []], Box \x7b inside: [...] \x7d]" := by decide +kernel
  have harises : Arises .dispatch .standard ((fresh .dispatch .standard).feed .dispatch boxedLoop).2 :=
    LeadsTo.fed .refl boxedLoop
  obtain ⟨picture, hunique, ⟨-, halone⟩, -⟩ := harises.shows_picture hstored
  exact ⟨picture, (hunique picture).mpr rfl, halone.symm.trans htext⟩

end Session

end DispatchLang
