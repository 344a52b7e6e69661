import DispatchLang.Proofs.Eval.Resolution

/-!
# Built-in operators and functions

Applied to basic values, the built-in operators and functions do the same under both strategies. Where the
direct strategy finds no use for the shapes of the operands, no method of the operator matches their types.

The two logical operators need more care: the direct strategy refuses a first operand that is no truth value
at once, the dispatch strategy only when it resolves the operator, after it has evaluated the second
operand. Both fail in the end.

## Main results

* `Agree.binaryNode`, `Agree.unary`, `Agree.callFunction`: applying an operator or calling a function agrees.
-/

namespace DispatchLang

/-! ## What the direct strategy does with two operands -/

namespace Direct

variable {op : BinaryOp} {l r : Value}

theorem binary_add_texts (hl : l.ToldByBase) (hr : r.ToldByBase)
    (h : l.base = .string ∨ r.base = .string) :
    binary .add l r = (do return .string ((← Eval.text l) ++ (← Eval.text r))) := by
  rcases h with hs | hs
  · obtain ⟨s, rfl⟩ := hl.string hs
    rfl
  · obtain ⟨s, rfl⟩ := hr.string hs
    cases l <;> rfl

theorem binary_add_numbers (hstring : ¬(l.base = .string ∨ r.base = .string))
    (harray : ¬(l.base = .array ∧ r.base = .array)) :
    binary .add l r =
      match l.number?, r.number? with
      | some a, some b => do return .ofNumber (← Eval.checkNumber (Number.arithmetic .add a b))
      | _, _ => operandMismatch .add l r := by
  cases l <;> cases r <;>
    first
    | rfl
    | exact absurd (.inl rfl) hstring
    | exact absurd (.inr rfl) hstring
    | exact absurd ⟨rfl, rfl⟩ harray

/-- Where there is no text to repeat, numbers are multiplied. -/
theorem binary_mul_numbers
    (h : ¬(l.base = .string ∧ r.base = .int ∨ l.base = .int ∧ r.base = .string)) :
    binary .mul l r =
      match l.number?, r.number? with
      | some a, some b => do return .ofNumber (← Eval.checkNumber (Number.arithmetic .mul a b))
      | _, _ => operandMismatch .mul l r := by
  cases l <;> cases r <;>
    first
    | rfl
    | exact absurd (.inl ⟨rfl, rfl⟩) h
    | exact absurd (.inr ⟨rfl, rfl⟩) h

theorem binary_numbers (hop : op ∈ [.sub, .div, .mod, .pow]) (l r : Value) :
    binary op l r =
      match l.number?, r.number? with
      | some a, some b => do return .ofNumber (← Eval.checkNumber (Number.arithmetic op a b))
      | _, _ => operandMismatch op l r := by
  simp only [List.mem_cons, List.not_mem_nil, or_false] at hop
  rcases hop with rfl | rfl | rfl | rfl <;> cases l <;> first | rfl | (cases r <;> rfl)

theorem comparison_strings (hop : op ∈ [.lt, .gt, .le, .ge]) (a b : String) :
    binary op (.string a) (.string b) = (do return .bool (Number.holds op (some (compare a b)))) := by
  simp only [List.mem_cons, List.not_mem_nil, or_false] at hop
  rcases hop with rfl | rfl | rfl | rfl <;> rfl

/-- Where there are no two strings, numbers are compared. -/
theorem comparison_numbers (hop : op ∈ [.lt, .gt, .le, .ge])
    (h : ¬(l.base = .string ∧ r.base = .string)) :
    binary op l r =
      match l.number?, r.number? with
      | some a, some b => return .bool (Number.satisfies op a b)
      | _, _ => operandMismatch op l r := by
  simp only [List.mem_cons, List.not_mem_nil, or_false] at hop
  rcases hop with rfl | rfl | rfl | rfl <;> cases l <;>
    first | rfl | (cases r <;> first | rfl | exact absurd ⟨rfl, rfl⟩ h)

end Direct

namespace Agree

variable {D : Dialect} {t : Session} {self : NodeEval} {scope : ScopeId} {heap : Heap}

/-! ## Operators -/

theorem isNumeric_base {value : Value} (h : value.Basic D heap) :
    isNumeric value.base = value.number?.isSome := by
  cases value with
  | inst _ _ _ _ => exact h.elim
  | _ => rfl

theorem ofNumber_basic (n : Number) : (Value.ofNumber n).Basic D heap := by
  cases n <;> exact trivial

theorem eq_ofNumber {value : Value} {n : Number} (h : value.number? = some n) :
    value = .ofNumber n := by
  cases value <;> cases h <;> rfl

theorem operandMismatch_fails (op : BinaryOp) (l r : Value) (t : Session) :
    (Direct.operandMismatch op l r).Fails t := ⟨_, _, rfl⟩

theorem logicalOperand_fails {op : BinaryOp} {value : Value} (h : ∀ b, value ≠ .bool b)
    (t : Session) : (Direct.logicalOperand op value).Fails t := by
  cases value with
  | bool b => exact absurd rfl (h b)
  | _ => exact ⟨_, _, rfl⟩

theorem fail_fails {α : Type} (e : Fault) (t : Session) : (Eval.fail e : Eval α).Fails t :=
  ⟨_, _, rfl⟩

theorem arithmetic (op : BinaryOp) (a b : Number) :
    Agree D t (do return .ofNumber (← Eval.checkNumber (Number.arithmetic op a b)))
      (Primitive.run self (.arithmetic op) [.ofNumber a, .ofNumber b] scope) (basicValue D) := by
  have hrun : Primitive.run self (.arithmetic op) [.ofNumber a, .ofNumber b] scope =
      (do return .ofNumber (← Eval.checkNumber (Number.arithmetic op a b))) := by
    cases a <;> cases b <;> rfl
  rw [hrun]
  exact (checkNumber (P := anything) _ fun _ _ => trivial).bind fun n _ _ _ =>
    pure (ofNumber_basic n)

section

variable {l r : Value} (hl : l.Basic D t.heap) (hr : r.Basic D t.heap)
include hl hr

/-- Both do something with numbers or fail. -/
theorem numbers (op : BinaryOp) {compute : Number → Number → Eval Value} {operation : Primitive}
    (h : ∀ a b, Agree D t (compute a b)
      (operation.run self [.ofNumber a, .ofNumber b] scope) (basicValue D)) :
    Agree D t
      (match l.number?, r.number? with
        | some a, some b => compute a b
        | _, _ => Direct.operandMismatch op l r)
      (runFound self (if isNumeric l.base && isNumeric r.base then some operation else none) [l, r]
        scope)
      (basicValue D) := by
  rw [isNumeric_base hl, isNumeric_base hr]
  cases hleft : l.number? with
  | none => exact fails (operandMismatch_fails op l r _) (fail_fails _ t)
  | some a =>
    cases hright : r.number? with
    | none => exact fails (operandMismatch_fails op l r _) (fail_fails _ t)
    | some b =>
      rw [eq_ofNumber hleft, eq_ofNumber hright]
      exact h a b

/-- Both compare strings or numbers. -/
theorem comparison {op : BinaryOp} (hop : op ∈ [.lt, .gt, .le, .ge]) :
    Agree D t (Direct.binary op l r) (runFound self (operation? op l.base r.base) [l, r] scope)
      (basicValue D) := by
  have hoperation : operation? op l.base r.base =
      if l.base = .string ∧ r.base = .string then some (.comparison op)
      else if isNumeric l.base && isNumeric r.base then some (.comparison op)
      else none := by
    simp only [List.mem_cons, List.not_mem_nil, or_false] at hop
    rcases hop with rfl | rfl | rfl | rfl <;> rfl
  rw [hoperation]
  by_cases hstrings : l.base = .string ∧ r.base = .string
  · obtain ⟨a, rfl⟩ := hl.toldByBase.string hstrings.1
    obtain ⟨b, rfl⟩ := hr.toldByBase.string hstrings.2
    rw [Direct.comparison_strings hop, if_pos hstrings]
    exact pure trivial
  · rw [Direct.comparison_numbers hop hstrings, if_neg hstrings]
    refine numbers hl hr op fun a b => ?_
    have hrun : Primitive.run self (.comparison op) [.ofNumber a, .ofNumber b] scope =
        (do return .bool (Number.satisfies op a b)) := by
      cases a <;> cases b <;> rfl
    rw [hrun]
    exact pure trivial

/-- Both concatenate texts or arrays or add numbers. -/
theorem addition :
    Agree D t (Direct.binary .add l r) (runFound self (operation? .add l.base r.base) [l, r] scope)
      (basicValue D) := by
  rw [operation?]
  by_cases hstring : l.base = .string ∨ r.base = .string
  · rw [Direct.binary_add_texts hl.toldByBase hr.toldByBase hstring, if_pos hstring]
    exact (text l).bind fun _ _ _ _ => (text r).bind fun _ _ _ _ => pure trivial
  · rw [if_neg hstring]
    by_cases harray : l.base = .array ∧ r.base = .array
    · rw [if_pos harray]
      obtain ⟨a, rfl⟩ := hl.toldByBase.array harray.1
      obtain ⟨b, rfl⟩ := hr.toldByBase.array harray.2
      exact (items a).bind fun _ _ _ ha => (items b).bind fun _ _ hg hb =>
        newArray (List.forall_mem_append.mpr ⟨basicValues.grows ha hg, hb⟩)
    · rw [Direct.binary_add_numbers hstring harray, if_neg harray]
      exact numbers hl hr .add (arithmetic .add)

/-- Both repeat a text or multiply numbers. -/
theorem multiplication :
    Agree D t (Direct.binary .mul l r) (runFound self (operation? .mul l.base r.base) [l, r] scope)
      (basicValue D) := by
  rw [operation?]
  by_cases hrepeat : l.base = .string ∧ r.base = .int ∨ l.base = .int ∧ r.base = .string
  · rw [if_pos hrepeat]
    rcases hrepeat with ⟨hs, hn⟩ | ⟨hn, hs⟩
    · obtain ⟨s, rfl⟩ := hl.toldByBase.string hs
      obtain ⟨n, rfl⟩ := hr.toldByBase.int hn
      exact (checkNumber (P := anything) _ fun _ _ => trivial).bind fun _ _ _ _ => pure trivial
    · obtain ⟨n, rfl⟩ := hl.toldByBase.int hn
      obtain ⟨s, rfl⟩ := hr.toldByBase.string hs
      exact (checkNumber (P := anything) _ fun _ _ => trivial).bind fun _ _ _ _ => pure trivial
  · rw [Direct.binary_mul_numbers hrepeat, if_neg hrepeat]
    exact numbers hl hr .mul (arithmetic .mul)

/-- Applying an operator that looks at both operands agrees. -/
theorem binary {op : BinaryOp} (hop : op.isLogical = false) :
    Agree D t (Direct.binary op l r) (Dispatch.invokeOperator self op.text [l, r] scope)
      (basicValue D) := by
  refine invokeOperator (by cases op <;> decide) ?_ fun t' ht' => ?_
  · exact List.forall_mem_cons.mpr ⟨hl, List.forall_mem_singleton.mpr hr⟩
  rw [← ht'] at hl hr
  have hresolved : resolved operatorTable op.text [l.base, r.base] = operation? op l.base r.base :=
    operator_eq op _ hl.base_mem _ hr.base_mem
  change Agree D t' _ (runFound self (resolved operatorTable op.text [l.base, r.base]) [l, r] scope) _
  rw [hresolved]
  cases op with
  | add => exact addition hl hr
  | mul => exact multiplication hl hr
  | eq => exact (equal l r).bind fun _ _ _ _ => pure trivial
  | ne => exact (equal l r).bind fun _ _ _ _ => pure trivial
  | sub | div | mod | pow =>
    rw [Direct.binary_numbers (by decide)]
    exact numbers hl hr _ (arithmetic _)
  | lt | gt | le | ge => exact comparison hl hr (by decide)
  | and | or => cases hop

/-- Applying an operator between truth values agrees. -/
theorem logical {op : BinaryOp} (hop : op.isLogical = true) :
    Agree D t (do let _ ← Direct.logicalOperand op l; return .bool (← Direct.logicalOperand op r))
      (Dispatch.invokeOperator self op.text [l, r] scope) (basicValue D) := by
  refine invokeOperator (by cases op <;> decide) ?_ fun t' ht' => ?_
  · exact List.forall_mem_cons.mpr ⟨hl, List.forall_mem_singleton.mpr hr⟩
  rw [← ht'] at hl hr
  have hoperation : operation? op l.base r.base =
      if l.base = .boolean ∧ r.base = .boolean then some .second else none := by
    cases op <;> first | rfl | cases hop
  change Agree D t' _ (runFound self (resolved operatorTable op.text [l.base, r.base]) [l, r] scope) _
  rw [operator_eq op _ hl.base_mem _ hr.base_mem, hoperation]
  by_cases hboth : l.base = .boolean ∧ r.base = .boolean
  · obtain ⟨a, rfl⟩ := hl.toldByBase.bool hboth.1
    obtain ⟨b, rfl⟩ := hr.toldByBase.bool hboth.2
    rw [if_pos hboth]
    exact pure trivial
  · rw [if_neg hboth]
    refine fails ?_ ⟨_, _, rfl⟩
    cases l with
    | bool a =>
      cases r with
      | bool b => exact absurd ⟨rfl, rfl⟩ hboth
      | _ => exact ⟨_, _, rfl⟩
    | _ => exact ⟨_, _, rfl⟩

end

/-- Applying an operator with one operand agrees. -/
theorem unary {value : Value} (h : value.Basic D t.heap) (op : UnaryOp) :
    Agree D t (Direct.unary op value) (Dispatch.unary self op value scope) (basicValue D) := by
  have hsymbol : Dispatch.unary self op value scope =
      Dispatch.invokeOperator self op.symbol [value] scope := by cases op <;> rfl
  rw [hsymbol]
  refine invokeOperator (by cases op <;> decide) (List.forall_mem_singleton.mpr h) fun t' ht' => ?_
  rw [← ht'] at h
  change Agree D t' _ (runFound self (resolved operatorTable op.symbol [value.base]) [value] scope) _
  rw [unaryOperator_eq op _ h.base_mem]
  cases op with
  | neg =>
    cases value with
    | int n =>
      exact (checkNumber (P := anything) _ fun _ _ => trivial).bind fun n _ _ _ =>
        pure (ofNumber_basic n)
    | float x => exact pure trivial
    | inst _ _ _ _ => exact h.elim
    | _ => exact fails ⟨_, _, rfl⟩ ⟨_, _, rfl⟩
  | not =>
    cases value with
    | bool b => exact pure trivial
    | inst _ _ _ _ => exact h.elim
    | _ => exact fails ⟨_, _, rfl⟩ ⟨_, _, rfl⟩

variable {self' : NodeEval} {left right : Node}

/-- Evaluating an operator between two nodes agrees if evaluating the nodes does. -/
theorem binaryNode (op : BinaryOp)
    (hleft : ∀ t, Agree D t (self left scope) (self' left scope) (basicValue D))
    (hright : ∀ t, Agree D t (self right scope) (self' right scope) (basicValue D)) :
    Agree D t (Direct.binaryNode self op left right scope)
      (Dispatch.binaryNode self' op left right scope) (basicValue D) := by
  rw [Direct.binaryNode]
  by_cases hop : op.isLogical = true
  · rw [if_pos hop]
    refine (hleft t).bind fun l t' hg hl => ?_
    have hgo : ∀ a, Agree D t' (do return .bool (← Direct.logicalOperand op (← self right scope)))
        (do Dispatch.invokeOperator self' op.text [.bool a, ← self' right scope] scope)
        (basicValue D) := fun a =>
      (hright t').bind fun r t'' _ hr => logical (l := .bool a) trivial hr hop
    cases l with
    | bool a =>
      cases op with
      | and | or =>
        rw [Direct.logicalOperand, pure_bind]
        cases a with
        | false => first | exact pure trivial | exact hgo false
        | true => first | exact pure trivial | exact hgo true
      | _ => cases hop
    | inst _ _ _ _ => exact hl.elim
    | _ =>
      -- The direct strategy fails at once, the dispatch strategy when it resolves the operator.
      cases op with
      | and | or =>
        refine fails_bind (fun s => .bind ?_ _) (hright t') fun r t'' hg' hr =>
          of_fails (.bind ?_ _) (.bind ?_ _) (logical (hl.grows hg') hr hop)
        all_goals
          refine logicalOperand_fails (fun b h => ?_) _
          cases h
      | _ => cases hop
  · rw [if_neg hop]
    have hdispatch : Dispatch.binaryNode self' op left right scope =
        (do
          let l ← self' left scope
          let r ← self' right scope
          Dispatch.invokeOperator self' op.text [l, r] scope) := by
      cases op <;> first | rfl | exact absurd rfl hop
    rw [hdispatch]
    refine (hleft t).bind fun l t' _ hl => (hright t').bind fun r t'' hg hr => ?_
    exact binary (hl.grows hg) hr (Bool.eq_false_iff.mpr hop)

/-! ## Functions -/

variable {args : List Value}

theorem lengthOf (value : Value) :
    Agree D t
      (do
        match value.length? (← MonadState.get).heap with
        | some n => return .ofCount n
        | none => Eval.fail (.mismatch (.lengthOf (← Eval.typeText .direct value))))
      (do
        match value.length? (← MonadState.get).heap with
        | some n => return .ofCount n
        | none => Eval.fail (.mismatch (.lengthOf (← Eval.repr value)))) (basicValue D) := by
  refine get ?_
  have hlength : value.length? t.untyped.heap = value.length? t.heap :=
    Value.length?_untyped t.heap value
  rw [hlength]
  cases value.length? t.heap with
  | none => exact fails ⟨_, _, rfl⟩ ⟨_, _, rfl⟩
  | some n => exact pure trivial

theorem printFunction :
    Agree D t (Direct.callFunction self "print" args scope)
      (runFound self' (function? "print" (args.map Value.base)) args scope) (basicValue D) :=
  (texts args).bind fun _ _ _ _ => (printLine _).bind fun _ _ _ _ => pure trivial

theorem lenFunction (hargs : basicValues D t args) :
    Agree D t (Direct.callFunction self "len" args scope)
      (runFound self' (function? "len" (args.map Value.base)) args scope) (basicValue D) := by
  match args, hargs with
  | [], _ => exact fails ⟨_, _, rfl⟩ ⟨_, _, rfl⟩
  | _ :: _ :: _, _ => exact fails ⟨_, _, rfl⟩ ⟨_, _, rfl⟩
  | [value], hargs =>
    cases value with
    | inst _ _ _ _ => exact (hargs _ List.mem_cons_self).elim
    | array address => exact lengthOf (.array address)
    | string text => exact lengthOf (.string text)
    | object address => exact lengthOf (.object address)
    | _ => exact fails ⟨_, _, rfl⟩ ⟨_, _, rfl⟩

theorem typeFunction (hD : D.steady = true) (hargs : basicValues D t args) :
    Agree D t (Direct.callFunction self "type" args scope)
      (runFound self' (function? "type" (args.map Value.base)) args scope) (basicValue D) := by
  match args, hargs with
  | [], _ => exact fails ⟨_, _, rfl⟩ ⟨_, _, rfl⟩
  | _ :: _ :: _, _ => exact fails ⟨_, _, rfl⟩ ⟨_, _, rfl⟩
  | [value], hargs =>
    exact (typeText hD (hargs _ List.mem_cons_self)).bind fun _ _ _ _ => pure trivial

theorem strFunction :
    Agree D t (Direct.callFunction self "str" args scope)
      (runFound self' (function? "str" (args.map Value.base)) args scope) (basicValue D) := by
  match args with
  | [] => exact fails ⟨_, _, rfl⟩ ⟨_, _, rfl⟩
  | _ :: _ :: _ => exact fails ⟨_, _, rfl⟩ ⟨_, _, rfl⟩
  | [value] => exact (text value).bind fun _ _ _ _ => pure trivial

theorem rangeArray (start stop : Int64) :
    Agree D t (Eval.rangeArray .direct start stop) (Eval.rangeArray .dispatch start stop)
      (basicValue D) := by
  refine (checkNumber (P := anything) _ fun _ _ => trivial).bind fun range t' _ _ => newArray ?_
  intro v hv
  obtain ⟨n, -, rfl⟩ := List.mem_map.mp hv
  exact trivial

theorem rangeFunction (hargs : basicValues D t args) :
    Agree D t (Direct.callFunction self "range" args scope)
      (runFound self' (function? "range" (args.map Value.base)) args scope) (basicValue D) := by
  match args, hargs with
  | [], _ => exact fails ⟨_, _, rfl⟩ ⟨_, _, rfl⟩
  | start :: stop :: _ :: _, _ =>
    refine fails ?_ ⟨_, _, rfl⟩
    cases start <;> first | exact ⟨_, _, rfl⟩ | (cases stop <;> exact ⟨_, _, rfl⟩)
  | [stop], hargs =>
    cases stop with
    | int n => exact rangeArray 0 n
    | inst _ _ _ _ => exact (hargs _ List.mem_cons_self).elim
    | _ => exact fails ⟨_, _, rfl⟩ ⟨_, _, rfl⟩
  | [start, stop], hargs =>
    obtain ⟨hstart, hstop⟩ := List.forall_mem_cons.mp hargs
    rw [List.forall_mem_singleton] at hstop
    cases start with
    | int m =>
      cases stop with
      | int n => exact rangeArray m n
      | inst _ _ _ _ => exact hstop.elim
      | _ => exact fails ⟨_, _, rfl⟩ ⟨_, _, rfl⟩
    | inst _ _ _ _ => exact hstart.elim
    | _ => exact fails ⟨_, _, rfl⟩ ⟨_, _, rfl⟩

theorem evalFunction (hargs : basicValues D t args)
    (hself : ∀ node : Node, D.Tree node → ∀ t,
      Agree D t (self node scope) (self' node scope) (basicValue D)) :
    Agree D t (Direct.callFunction self "eval" args scope)
      (runFound self' (function? "eval" (args.map Value.base)) args scope) (basicValue D) := by
  match args, hargs with
  | [], _ => exact fails ⟨_, _, rfl⟩ ⟨_, _, rfl⟩
  | _ :: _ :: _, _ => exact fails ⟨_, _, rfl⟩ ⟨_, _, rfl⟩
  | [value], hargs =>
    cases value with
    | quoted body => exact hself body (hargs _ List.mem_cons_self) t
    | inst _ _ _ _ => exact (hargs _ List.mem_cons_self).elim
    | _ => exact fails ⟨_, _, rfl⟩ ⟨_, _, rfl⟩

/-- Calling a built-in function does what its operation does. -/
theorem invokeBuiltin (hargs : basicValues D t args) (hlength : args.length ≤ Tables.variadicLimit) {name : String}
    (hn : name ∈ Direct.functionNames) {x : Eval Value}
    (h : ∀ t', t'.heap = t.heap →
      Agree D t' x (runFound self' (function? name (args.map Value.base)) args scope) (basicValue D)) :
    Agree D t x (Dispatch.invokeFunction self' name args scope) (basicValue D) := by
  have hname : ∀ name ∈ Direct.functionNames, (functionTable.lookup name).isSome := by
    decide
  have hbases : ∀ x ∈ args.map Value.base, x ∈ valueTypes := by
    intro x hx
    obtain ⟨v, hv, rfl⟩ := List.mem_map.mp hx
    exact (hargs v hv).base_mem
  have hlength' : (args.map Value.base).length ≤ Tables.variadicLimit := by
    rw [List.length_map]
    exact hlength
  exact invokeFunction (hname name hn) hargs (function_eq hn hbases hlength') h

/-- The function that tells types has a result that any program can go on with. -/
theorem callType (hargs : basicValues D t args) (hlength : args.length ≤ Tables.variadicLimit) :
    Agree D t (throw .exhausted) (Dispatch.invokeFunction self' "type" args scope) (basicValue D) := by
  refine invokeBuiltin hargs hlength (by decide) fun t' _ => ?_
  match args with
  | [] => exact fun _ => .failed
  | [value] => exact fun hs => .ahead (.refl t') hs trivial
  | _ :: _ :: _ => exact fun _ => .failed

/-- Calling a built-in function agrees, if evaluating what is quoted does. -/
theorem callFunction (hargs : basicValues D t args) (hlength : args.length ≤ Tables.variadicLimit)
    (hself : ∀ node : Node, D.Tree node → ∀ t,
      Agree D t (self node scope) (self' node scope) (basicValue D))
    {name : String} (hn : name ∈ Direct.functionNames) (htype : D.steady = true ∨ name ≠ "type") :
    Agree D t (Direct.callFunction self name args scope)
      (Dispatch.invokeFunction self' name args scope) (basicValue D) := by
  refine invokeBuiltin hargs hlength hn fun t' ht' => ?_
  have hargs' : basicValues D t' args := fun v hv => by
    rw [ht']
    exact hargs v hv
  rw [Direct.functionNames] at hn
  simp only [List.mem_cons, List.not_mem_nil, or_false] at hn
  rcases hn with rfl | rfl | rfl | rfl | rfl | rfl
  · exact printFunction
  · exact lenFunction hargs'
  · exact typeFunction (htype.resolve_right fun hne => hne rfl) hargs'
  · exact strFunction
  · exact rangeFunction hargs'
  · exact evalFunction hargs' hself

end Agree

end DispatchLang
