import DispatchLang.Proofs.Eval.Runs
import DispatchLang.Proofs.Eval.Storing
import DispatchLang.Proofs.Number.Floats

/-!
# Comparing integers

The operators `<`, `>`, `<=` and `>=` compare two integers exactly, but `==` and `!=` compare them as the floating-point
numbers that they are widened to. So integers that differ may be equal, as the two are that follow 2⁵³ - 1
(`Session.neighbours_equal`), and then they are also less or greater. Below 2⁵³ in absolute value equality is exact.

This is what happens in every state of a session under either strategy. Under the dispatch strategy an operator is
resolved first, in a table that calls do not change (`Session.Like.serves`).

## Main results

* `Session.Like.invokeOperator`: an operator does to two built-in values what their types ask for.
* `Session.Arises.compares_integers`: what the comparisons of integers give.
-/

namespace DispatchLang

open TypeArena

variable {ι : Type} {strategy : Strategy} {options : Options} {s s₁ s₂ : Session} {d : Dispatcher}

/-! ## Operators in all states -/

/-- What is remembered rightly is what would be chosen. -/
theorem GenericFunction.Recalls.faithful {f : GenericFunction ι} {arena : TypeArena} (h : f.Recalls arena) :
    f.Faithful arena := by
  intro args r hr
  obtain ⟨hargs, hchoice⟩ := h.recalled hr
  exact ⟨hargs, by rw [hchoice]; rfl⟩

namespace Session

/-- The operators of a session always have the methods that they have at the beginning. -/
theorem Like.serves (h : s.Like d) : Serves s.arena operatorTable s.operators := by
  intro name methods hl
  have hplain : FunctionTable.plain s.operators = FunctionTable.plain (Tables.build true Tables.operators) :=
    Eq.trans h.complete.operators (FunctionTable.plain_build true _).symm
  have hlookup := congrArg (List.lookup name) hplain
  rw [operatorTable, Assoc.lookup_map GenericFunction.methods] at hl
  obtain ⟨fresh, hfresh, rfl⟩ := Option.map_eq_some_iff.mp hl
  rw [FunctionTable.plain_lookup, FunctionTable.plain_lookup, hfresh] at hlookup
  obtain ⟨f, hf, hsame⟩ := Option.map_eq_some_iff.mp hlookup
  have hmethods : f.forgetful.methods = fresh.forgetful.methods := by rw [hsame]
  exact ⟨f, hf, hmethods, (h.own.operators _ (Assoc.mem_of_lookup hf)).faithful⟩

/-- Applying an operator to two built-in values does what the types of the values ask for. -/
theorem Like.invokeOperator (h : s.Like d) {op : BinaryOp} {l r : Value} {operation : Primitive}
    (hl : l.tag s.heap ∈ valueTypes) (hr : r.tag s.heap ∈ valueTypes)
    (hop : operation? op (l.tag s.heap) (r.tag s.heap) = some operation) (self : NodeEval) (scope : ScopeId) :
    ∃ t, t.heap = s.heap ∧ Dispatch.invokeOperator self op.text [l, r] scope s = operation.run self [l, r] scope t := by
  have hbuiltin : ∀ type ∈ valueTypes, type < builtinTypes.length := by decide
  have htypes : ∀ x ∈ [l, r].map (Value.tag s.heap), x ∈ valueTypes := by simp [hl, hr]
  have hlisted : (operatorTable.lookup op.text).isSome := by cases op <;> decide
  obtain ⟨f, hf, hresult, -⟩ := h.serves.dispatch operatorTable_plain h.formed.grown hlisted
    fun x hx => .builtin (hbuiltin x (htypes x hx))
  have hbase : ([l, r].map (Value.tag s.heap)).map baseType = [l.tag s.heap, r.tag s.heap] := by
    simp [baseType, hbuiltin _ hl, hbuiltin _ hr]
  rw [hbase, operator_eq op _ hl _ hr, hop, GenericFunction.dispatch, f.tags_some] at hresult
  rw [Dispatch.invokeOperator_eq, TableOf.operators.invoke_of_lookup (t := s) hf]
  change ((f.resolve ([l, r].map (Value.tag s.heap)) s.arena).result.toOption.map _) = _ at hresult
  generalize f.resolve ([l, r].map (Value.tag s.heap)) s.arena = out at hresult
  refine ⟨TableOf.operators.called op.text out s, rfl, ?_⟩
  cases hfound : out.result with
  | error e =>
    rw [hfound] at hresult
    cases hresult
  | ok found =>
    rw [hfound] at hresult
    rw [← Option.some.inj hresult]

/-- What an evaluation by type leads to has the same operators. -/
theorem Like.evaluated (h : s.Like d) {n : Nat} {node : Node} {scope : ScopeId} {v : Value}
    (heval : Eval.eval .dispatch n node scope s = .ok v s₁) : ∃ d', s₁.Like d' := by
  have hmatches := eval_transparent n node scope s d h
  rw [heval] at hmatches
  generalize Eval.eval .dispatch n node scope (s.equip d) = result at hmatches
  cases hmatches with
  | given hl _ _ => exact ⟨_, hl⟩

/-! ## Comparisons -/

/-- What a comparison of two integers answers. -/
def comparesTo (op : BinaryOp) (a b : Int64) : Bool :=
  match op with
  | .eq => Number.widen a == Number.widen b
  | .ne => !(Number.widen a == Number.widen b)
  | op => Number.holds op (some (compare a.toInt b.toInt))

theorem comparesTo_order (a b : Int64) :
    comparesTo .lt a b = decide (a.toInt < b.toInt) ∧ comparesTo .gt a b = decide (b.toInt < a.toInt) ∧
      comparesTo .le a b = decide (a.toInt ≤ b.toInt) ∧ comparesTo .ge a b = decide (b.toInt ≤ a.toInt) := by
  simp only [comparesTo]
  rcases lt_trichotomy a.toInt b.toInt with h | h | h
  · rw [compare_lt_iff_lt.mpr h]
    simp [Number.holds, h, h.le, h.not_gt, h.not_ge]
  · rw [h, compare_eq_iff_eq.mpr rfl]
    simp [Number.holds]
  · rw [compare_gt_iff_gt.mpr h]
    simp [Number.holds, h, h.le, h.not_gt, h.not_ge]

/-- A comparison between two nodes answers a truth value. -/
def Tells (strategy : Strategy) (s : Session) (n : Nat) (left right : Node) (scope : ScopeId) (op : BinaryOp)
    (answer : Bool) : Prop :=
  ∀ span, ∃ t, Eval.eval strategy (n + 1) (.binary span op left right) scope s = .ok (.bool answer) t

section

variable {n : Nat} {scope : ScopeId} {left right : Node} {a b : Int64}

theorem direct_comparison {op : BinaryOp} (hop : op.isComparison = true) (a b : Int64) (t : Session) :
    Direct.binary op (.int a) (.int b) t = .ok (.bool (comparesTo op a b)) t := by
  cases op <;> first | rfl | cases hop

theorem dispatch_comparison (h : s.Like d) {op : BinaryOp} (hop : op.isComparison = true) (a b : Int64)
    (self : NodeEval) (scope : ScopeId) : ∃ t,
      Dispatch.invokeOperator self op.text [.int a, .int b] scope s = .ok (.bool (comparesTo op a b)) t := by
  have hint : TypeId.int ∈ valueTypes := by decide
  have happly (operation : Primitive) (hfound : operation? op .int .int = some operation)
      (hrun : ∀ t, operation.run self [.int a, .int b] scope t = .ok (.bool (comparesTo op a b)) t) :
      ∃ t, Dispatch.invokeOperator self op.text [.int a, .int b] scope s = .ok (.bool (comparesTo op a b)) t := by
    obtain ⟨t, -, heq⟩ := @Like.invokeOperator s d h op (.int a) (.int b) operation hint hint hfound self scope
    exact ⟨t, heq.trans (hrun t)⟩
  cases op with
  | eq => exact happly .equal rfl fun t => rfl
  | ne => exact happly .unequal rfl fun t => rfl
  | lt | gt | le | ge => exact happly (.comparison _) rfl fun t => rfl
  | _ => cases hop

variable (h : s.Arises strategy options) (hl : Eval.eval strategy n left scope s = .ok (.int a) s₁)
  (hr : Eval.eval strategy n right scope s₁ = .ok (.int b) s₂)
include h hl hr

/-- Both strategies compare integers in the same way. -/
theorem Arises.tells {op : BinaryOp} (hop : op.isComparison = true) :
    s.Tells strategy n left right scope op (comparesTo op a b) := by
  intro span
  cases strategy with
  | direct =>
    have hlogical : op.isLogical = false := by cases op <;> first | rfl | cases hop
    refine ⟨s₂, Eval.located_ok.mpr ?_⟩
    change Direct.binaryNode _ op left right scope s = _
    rw [Direct.binaryNode, hlogical]
    exact (Eval.bind_of_ok hl).trans ((Eval.bind_of_ok hr).trans (direct_comparison hop a b s₂))
  | dispatch =>
    obtain ⟨d, hs, -⟩ := LeadsTo.formed h (fresh_like options.assignment options.cache options.cache)
    obtain ⟨d₁, hs₁⟩ := hs.evaluated hl
    obtain ⟨d₂, hs₂⟩ := hs₁.evaluated hr
    obtain ⟨t, ht⟩ := dispatch_comparison hs₂ hop a b (Eval.eval .dispatch n) scope
    refine ⟨t, Eval.located_ok.mpr ?_⟩
    change Dispatch.binaryNode _ op left right scope s = _
    have hnode : Dispatch.binaryNode (Eval.eval .dispatch n) op left right scope = (do
        let l ← Eval.eval .dispatch n left scope
        let r ← Eval.eval .dispatch n right scope
        Dispatch.invokeOperator (Eval.eval .dispatch n) op.text [l, r] scope) := by
      cases op <;> first | rfl | cases hop
    rw [hnode]
    exact (Eval.bind_of_ok hl).trans ((Eval.bind_of_ok hr).trans ht)

/-- In every state the order of two integers is told exactly. Whether they are equal is told by what they are widened to,
and so it is wherever values are compared: integers that are the same are equal, but integers that are equal need only be
the same if they are less than 2⁵³ in absolute value. -/
theorem Arises.compares_integers :
    s.Tells strategy n left right scope .lt (a.toInt < b.toInt) ∧
    s.Tells strategy n left right scope .gt (b.toInt < a.toInt) ∧
    s.Tells strategy n left right scope .le (a.toInt ≤ b.toInt) ∧
    s.Tells strategy n left right scope .ge (b.toInt ≤ a.toInt) ∧
    ∃ equal, equal = (Number.widen a == Number.widen b) ∧
      s.Tells strategy n left right scope .eq equal ∧
      s.Tells strategy n left right scope .ne (!equal) ∧
      (∀ container, Value.equalWith container (.int a) (.int b) = equal) ∧
      (∀ t address rest, (t.heap.items address).toList = .int a :: rest →
        Eval.arrayContains address (.int b) t = .ok (.bool (equal || rest.any (·.equal t.heap (.int b)))) t) ∧
      (a = b → equal = true) ∧
      (a.toInt.natAbs < 2 ^ 53 → b.toInt.natAbs < 2 ^ 53 → equal = true → a = b) := by
  have htells {op : BinaryOp} (hop : op.isComparison = true) := Arises.tells h hl hr hop
  obtain ⟨hlt, hgt, hle, hge⟩ := comparesTo_order a b
  refine ⟨hlt ▸ htells rfl, hgt ▸ htells rfl, hle ▸ htells rfl, hge ▸ htells rfl, comparesTo .eq a b, rfl, htells rfl,
    htells rfl, fun _ => rfl, fun t address rest hitems => ?_, ?_, fun ha hb => (Number.widen_beq_iff ha hb).mp⟩
  · change EStateM.Result.ok (Value.bool ((t.heap.items address).toList.any _)) t = _
    rw [hitems]
    rfl
  · rintro rfl
    exact Float.beq_self_iff.mpr (Number.widen_ne_nan a)

end

def integerNode (n : Int64) : Node := .literal .nowhere (.int n)

theorem eval_integerNode (strategy : Strategy) (n : Int64) (scope : ScopeId) (s : Session) :
    Eval.eval strategy 1 (integerNode n) scope s = .ok (.int n) s := rfl

/-- Of one and two one is less, and they are not equal. -/
theorem one_below_two : (fresh .dispatch .standard).Arises .dispatch .standard ∧
    (fresh .dispatch .standard).Tells .dispatch 1 (integerNode 1) (integerNode 2) ScopeTree.root .lt true ∧
    (fresh .dispatch .standard).Tells .dispatch 1 (integerNode 1) (integerNode 2) ScopeTree.root .eq false := by
  have hfresh : (fresh .dispatch .standard).Arises .dispatch .standard := LeadsTo.refl
  obtain ⟨hlt, -, -, -, equal, -, heq, -, -, -, -, hexact⟩ :=
    hfresh.compares_integers (eval_integerNode .dispatch 1 ScopeTree.root _) (eval_integerNode .dispatch 2 ScopeTree.root _)
  have hequal : equal = false := Bool.eq_false_iff.mpr fun h => absurd (hexact (by decide) (by decide) h) (by decide)
  exact ⟨hfresh, hlt, hequal ▸ heq⟩

/-- Two integers of which one is less than the other, and which are equal. -/
theorem neighbours_equal : ∃ a b : Int64, a ≠ b ∧ ∀ strategy,
    (fresh strategy .standard).Tells strategy 1 (integerNode a) (integerNode b) ScopeTree.root .lt true ∧
    (fresh strategy .standard).Tells strategy 1 (integerNode a) (integerNode b) ScopeTree.root .eq true := by
  refine ⟨9007199254740992, 9007199254740993, by decide, fun strategy => ?_⟩
  have hfresh : (fresh strategy .standard).Arises strategy .standard := by
    cases strategy with
    | direct => exact Reaches.refl
    | dispatch => exact LeadsTo.refl
  have htells {op : BinaryOp} (hop : op.isComparison = true) := Arises.tells hfresh
    (eval_integerNode strategy 9007199254740992 ScopeTree.root _)
    (eval_integerNode strategy 9007199254740993 ScopeTree.root _) hop
  have hless : comparesTo .lt 9007199254740992 9007199254740993 = true := by decide
  have hequal : comparesTo .eq 9007199254740992 9007199254740993 = true := by decide
  exact ⟨hless ▸ htells rfl, hequal ▸ htells rfl⟩

end Session

end DispatchLang
