import DispatchLang.Proofs.Eval.Agreement
import DispatchLang.Proofs.Eval.Tracking

/-!
# Forms that are tracked

Where both runs evaluate by shape, every form of a tree is tracked if its parts are, but for the operators between
two values and the call and the declaration of a function (`Tracks.evalForm`): what a form does depends on
the shapes of values, on texts and on what scopes and cells hold, and a view changes none of these. Of
the operators only those are left out that compare numbers of closures (`Tracks.binary`).

## Main results

* `Tracks.binary`: applying an operator is tracked, if values are not compared by their numbers.
* `Tracks.callDeclared`, `Tracks.callOther`: calling a value is tracked.
* `Tracks.evalForm`: what a form does is tracked.
-/

namespace DispatchLang

variable {D : Dialect} {named : Bool} {φ : View named} {s : Session} {scope : ScopeId}

/-- One evaluator tracks another one on all trees of a dialect. -/
def SelfTracks (D : Dialect) (named : Bool) (self self' : NodeEval) : Prop :=
  ∀ (node : Node) (scope : ScopeId), D.Tree node →
    ∀ (φ : View named) (s : Session), Tracks D φ s (self node scope) (self' node scope) (seen D)

/-! ## Values that everyone sees -/

theorem Value.Traced.toldByBase {v : Value} (h : v.Traced D φ) : v.ToldByBase := by
  cases v with
  | inst _ _ _ _ => exact h.elim
  | _ => constructor <;> intro hb <;> first | exact ⟨_, rfl⟩ | cases hb

theorem Value.Traced.toldByBase_value {v : Value} (h : v.Traced D φ) : (φ.value v).ToldByBase := by
  have hv := h.toldByBase
  constructor <;> intro hb <;> rw [φ.base_value] at hb
  · obtain ⟨n, rfl⟩ := hv.int hb
    exact ⟨n, rfl⟩
  · obtain ⟨text, rfl⟩ := hv.string hb
    exact ⟨text, rfl⟩
  · obtain ⟨b, rfl⟩ := hv.bool hb
    exact ⟨b, rfl⟩
  · obtain ⟨address, rfl⟩ := hv.array hb
    exact ⟨address, rfl⟩

namespace seen

theorem nothing : seen D φ .nothing .nothing := ⟨trivial, rfl⟩

theorem bool (b : Bool) : seen D φ (.bool b) (.bool b) := ⟨trivial, rfl⟩

theorem string (text : String) : seen D φ (.string text) (.string text) := ⟨trivial, rfl⟩

theorem ofNumber (n : Number) : seen D φ (.ofNumber n) (.ofNumber n) := by
  cases n <;> exact ⟨trivial, rfl⟩

theorem ofLiteral (literal : Literal) : seen D φ (.ofLiteral literal) (.ofLiteral literal) := by
  cases literal <;> exact ⟨trivial, rfl⟩

end seen

namespace Tracks

variable {self self' : NodeEval}

/-! ## Operators -/

/-- Both go on with what they both have got. -/
theorem bindSame {α β γ : Type} {x : Eval α} {y : Eval α} {f : α → Eval β} {g : α → Eval γ}
    {R : View named → β → γ → Prop} (h : Tracks D φ s x y same)
    (hfg : ∀ a φ' s', φ.Extends φ' → Tracks D φ' s' (f a) (g a) R) :
    Tracks D φ s (x >>= f) (y >>= g) R :=
  h.bind fun a _ φ' s' he heq => by
    rw [heq]
    exact hfg a φ' s' he

/-- Both do something with numbers or fail. -/
theorem numbers (op : BinaryOp) (l r : Value) {compute : Number → Number → Eval Value}
    (h : ∀ a b, Tracks D φ s (compute a b) (compute a b) (seen D)) :
    Tracks D φ s
      (match l.number?, r.number? with
        | some a, some b => compute a b
        | _, _ => Direct.operandMismatch op l r)
      (match (φ.value l).number?, (φ.value r).number? with
        | some a, some b => compute a b
        | _, _ => Direct.operandMismatch op (φ.value l) (φ.value r)) (seen D) := by
  rw [φ.number?_value, φ.number?_value]
  cases l.number? with
  | none => exact fails ⟨_, _, rfl⟩ ⟨_, _, rfl⟩
  | some a =>
    cases r.number? with
    | none => exact fails ⟨_, _, rfl⟩ ⟨_, _, rfl⟩
    | some b => exact h a b

theorem arithmetic (op : BinaryOp) (a b : Number) :
    Tracks D φ s (do return .ofNumber (← Eval.checkNumber (Number.arithmetic op a b)))
      (do return .ofNumber (← Eval.checkNumber (Number.arithmetic op a b))) (seen D) :=
  (checkNumber _).bindSame fun n _ _ _ => pure (.ofNumber n)

section

variable {l r : Value} (hl : l.Traced D φ) (hr : r.Traced D φ)
include hl hr

theorem addition :
    Tracks D φ s (Direct.binary .add l r) (Direct.binary .add (φ.value l) (φ.value r)) (seen D) := by
  by_cases hstring : l.base = .string ∨ r.base = .string
  · have hstring' : (φ.value l).base = .string ∨ (φ.value r).base = .string := by
      rwa [φ.base_value, φ.base_value]
    rw [Direct.binary_add_texts hl.toldByBase hr.toldByBase hstring,
      Direct.binary_add_texts hl.toldByBase_value hr.toldByBase_value hstring']
    refine (text l).bindSame fun a φ' s' he => ?_
    rw [← he.value_eq hr]
    exact (text r).bindSame fun b _ _ _ => pure (.string (a ++ b))
  by_cases harray : l.base = .array ∧ r.base = .array
  · obtain ⟨a, rfl⟩ := hl.toldByBase.array harray.1
    obtain ⟨b, rfl⟩ := hr.toldByBase.array harray.2
    exact (items a).bind fun as _ _ _ _ has => (items b).bind fun bs _ _ _ he hbs =>
      newArray ((has.mono he).append hbs)
  · rw [Direct.binary_add_numbers hstring harray, Direct.binary_add_numbers
      (by rwa [φ.base_value, φ.base_value]) (by rwa [φ.base_value, φ.base_value])]
    exact numbers .add l r (arithmetic .add)

theorem multiplication :
    Tracks D φ s (Direct.binary .mul l r) (Direct.binary .mul (φ.value l) (φ.value r)) (seen D) := by
  by_cases hrepeat : l.base = .string ∧ r.base = .int ∨ l.base = .int ∧ r.base = .string
  · rcases hrepeat with ⟨hs, hn⟩ | ⟨hn, hs⟩
    · obtain ⟨text, rfl⟩ := hl.toldByBase.string hs
      obtain ⟨n, rfl⟩ := hr.toldByBase.int hn
      exact (checkNumber _).bindSame fun text _ _ _ => pure (.string text)
    · obtain ⟨n, rfl⟩ := hl.toldByBase.int hn
      obtain ⟨text, rfl⟩ := hr.toldByBase.string hs
      exact (checkNumber _).bindSame fun text _ _ _ => pure (.string text)
  · rw [Direct.binary_mul_numbers hrepeat,
      Direct.binary_mul_numbers (by rwa [φ.base_value, φ.base_value])]
    exact numbers .mul l r (arithmetic .mul)

theorem comparison {op : BinaryOp} (hop : op ∈ [.lt, .gt, .le, .ge]) :
    Tracks D φ s (Direct.binary op l r) (Direct.binary op (φ.value l) (φ.value r)) (seen D) := by
  by_cases hstrings : l.base = .string ∧ r.base = .string
  · obtain ⟨a, rfl⟩ := hl.toldByBase.string hstrings.1
    obtain ⟨b, rfl⟩ := hr.toldByBase.string hstrings.2
    change Tracks D φ s (Direct.binary op (.string a) (.string b))
      (Direct.binary op (.string a) (.string b)) (seen D)
    rw [Direct.comparison_strings hop]
    exact pure (.bool _)
  · rw [Direct.comparison_numbers hop hstrings,
      Direct.comparison_numbers hop (by rwa [φ.base_value, φ.base_value])]
    exact numbers op l r fun a b => pure (.bool _)

/-- Comparing values is tracked, unless it would matter that functions are known by their names. -/
theorem equal (hcompare : l.comparesByName s.heap r = true) :
    Tracks D φ s (Eval.equal l r) (Eval.equal (φ.value l) (φ.value r)) same := by
  exact ofTraced fun hs =>
    read (View.equal_value_of_comparesByName hs.injective hs.heap hl hr hcompare)

/-- Applying an operator is tracked. -/
theorem binary {op : BinaryOp} (hop : op.isLogical = false)
    (hcompare : l.comparesByName s.heap r = true ∨ op ≠ .eq ∧ op ≠ .ne) :
    Tracks D φ s (Direct.binary op l r) (Direct.binary op (φ.value l) (φ.value r)) (seen D) := by
  cases op with
  | add => exact addition hl hr
  | mul => exact multiplication hl hr
  | sub | div | mod | pow =>
    rw [Direct.binary_numbers (by decide), Direct.binary_numbers (by decide)]
    exact numbers _ l r (arithmetic _)
  | lt | gt | le | ge => exact comparison hl hr (by decide)
  | eq =>
    have hcompare := hcompare.resolve_right fun h => h.1 rfl
    exact (equal hl hr hcompare).bindSame fun _ _ _ _ => pure (.bool _)
  | ne =>
    have hcompare := hcompare.resolve_right fun h => h.2 rfl
    exact (equal hl hr hcompare).bindSame fun _ _ _ _ => pure (.bool _)
  | and | or => cases hop

end

theorem logicalOperand (op : BinaryOp) {v w : Value} (h : seen D φ v w) :
    Tracks D φ s (Direct.logicalOperand op v) (Direct.logicalOperand op w) same := by
  obtain ⟨-, rfl⟩ := h
  cases v with
  | bool b => exact pure rfl
  | function _ _ _ _ _ => cases named <;> exact fails ⟨_, _, rfl⟩ ⟨_, _, rfl⟩
  | _ => exact fails ⟨_, _, rfl⟩ ⟨_, _, rfl⟩

/-- Evaluating an operator that does not compare values for equality is tracked. -/
theorem otherBinaryNode {op : BinaryOp} (hop : op ≠ .eq ∧ op ≠ .ne) {left right : Node}
    (hleft : ∀ φ s, Tracks D (φ : View named) s (self left scope) (self' left scope) (seen D))
    (hright : ∀ φ s, Tracks D (φ : View named) s (self right scope) (self' right scope) (seen D)) :
    Tracks D φ s (Direct.binaryNode self op left right scope)
      (Direct.binaryNode self' op left right scope) (seen D) := by
  rw [Direct.binaryNode, Direct.binaryNode]
  cases hlogical : op.isLogical with
  | true =>
    refine (hleft φ s).bind fun l l' φ₁ s₁ _ hl => (logicalOperand op hl).bindSame
      fun b φ₂ s₂ _ => ?_
    split
    · exact pure (.bool b)
    · exact (hright φ₂ s₂).bind fun r r' φ₃ s₃ _ hr => (logicalOperand op hr).bindSame
        fun b _ _ _ => pure (.bool b)
  | false =>
    refine (hleft φ s).bind fun l l' φ₁ s₁ _ hl => (hright φ₁ s₁).bind fun r r' φ₂ s₂ he hr => ?_
    obtain ⟨hl', rfl⟩ := hl.mono he
    obtain ⟨hr', rfl⟩ := hr
    exact binary hl' hr' hlogical (.inr hop)

/-- Applying an operator with one operand is tracked. -/
theorem unary (op : UnaryOp) {v w : Value} (h : seen D φ v w) :
    Tracks D φ s (Direct.unary op v) (Direct.unary op w) (seen D) := by
  obtain ⟨-, rfl⟩ := h
  cases v with
  | int n =>
    cases op with
    | neg => exact (checkNumber _).bindSame fun n _ _ _ => pure (.ofNumber n)
    | not => exact fails ⟨_, _, rfl⟩ ⟨_, _, rfl⟩
  | float x =>
    cases op with
    | neg => exact pure ⟨trivial, rfl⟩
    | not => exact fails ⟨_, _, rfl⟩ ⟨_, _, rfl⟩
  | bool b =>
    cases op with
    | neg => exact fails ⟨_, _, rfl⟩ ⟨_, _, rfl⟩
    | not => exact pure (.bool _)
  | function _ _ _ _ _ => cases named <;> cases op <;> exact fails ⟨_, _, rfl⟩ ⟨_, _, rfl⟩
  | _ => cases op <;> exact fails ⟨_, _, rfl⟩ ⟨_, _, rfl⟩

/-! ## Built-in functions -/

theorem lengthOf (v : Value) :
    Tracks D φ s
      (do
        match v.length? (← MonadState.get).heap with
        | some n => return .ofCount n
        | none => Eval.fail (.mismatch (.lengthOf (← Eval.typeText .direct v))))
      (do
        match (φ.value v).length? (← MonadState.get).heap with
        | some n => return .ofCount n
        | none => Eval.fail (.mismatch (.lengthOf (← Eval.typeText .direct (φ.value v))))) (seen D) := by
  refine get ?_
  have hlength : (φ.value v).length? (φ.session s).heap = v.length? s.heap := φ.length?_value
  rw [hlength]
  cases v.length? s.heap with
  | none => exact fails ⟨_, _, rfl⟩ ⟨_, _, rfl⟩
  | some n => exact pure ⟨trivial, rfl⟩

theorem rangeArray (start stop : Int64) :
    Tracks D φ s (Eval.rangeArray .direct start stop) (Eval.rangeArray .direct start stop)
      (seen D) := by
  refine (checkNumber _).bindSame fun range φ' s' _ => newArray ⟨fun v hv => ?_, ?_⟩
  · obtain ⟨n, -, rfl⟩ := List.mem_map.mp hv
    exact trivial
  · rw [List.map_map]
    rfl

/-- A range needs integers. -/
theorem rangeFunction_fails {args : List Value} (h : ∃ v ∈ args, v.base ≠ .int) (s : Session) :
    (Direct.callFunction self "range" args scope).Fails s := by
  match args, h with
  | [v], h =>
    cases v with
    | int n => simp [Value.base, Value.tag] at h
    | _ => exact ⟨_, _, rfl⟩
  | [v, w], h =>
    cases v with
    | int n =>
      cases w with
      | int m => simp [Value.base, Value.tag] at h
      | _ => exact ⟨_, _, rfl⟩
    | _ => exact ⟨_, _, rfl⟩
  | v :: w :: _ :: _, _ =>
    cases v <;> first | exact ⟨_, _, rfl⟩ | (cases w <;> exact ⟨_, _, rfl⟩)

theorem rangeFunction {args ws : List Value} (h : seenAll D φ args ws) :
    Tracks D φ s (Direct.callFunction self "range" args scope)
      (Direct.callFunction self' "range" ws scope) (seen D) := by
  obtain ⟨hargs, rfl⟩ := h
  by_cases hints : ∀ v ∈ args, v.base = .int
  · match args, hargs, hints with
    | [], _, _ => exact fails ⟨_, _, rfl⟩ ⟨_, _, rfl⟩
    | [v], hargs, hints =>
      obtain ⟨n, rfl⟩ := (hargs v List.mem_cons_self).toldByBase.int (hints v List.mem_cons_self)
      exact rangeArray 0 n
    | [v, w], hargs, hints =>
      simp only [List.forall_mem_cons] at hargs hints
      obtain ⟨m, rfl⟩ := hargs.1.toldByBase.int hints.1
      obtain ⟨n, rfl⟩ := hargs.2.1.toldByBase.int hints.2.1
      exact rangeArray m n
    | v :: w :: _ :: _, hargs, hints =>
      simp only [List.forall_mem_cons] at hargs hints
      obtain ⟨m, rfl⟩ := hargs.1.toldByBase.int hints.1
      obtain ⟨n, rfl⟩ := hargs.2.1.toldByBase.int hints.2.1
      exact fails ⟨_, _, rfl⟩ ⟨_, _, rfl⟩
  · push Not at hints
    obtain ⟨v, hv, hbase⟩ := hints
    refine fails (rangeFunction_fails ⟨v, hv, hbase⟩ _)
      (rangeFunction_fails ⟨φ.value v, List.mem_map_of_mem hv, ?_⟩ _)
    rwa [φ.base_value]

theorem evalFunction (hself : SelfTracks D named self self') {args ws : List Value}
    (h : seenAll D φ args ws) :
    Tracks D φ s (Direct.callFunction self "eval" args scope)
      (Direct.callFunction self' "eval" ws scope) (seen D) := by
  obtain ⟨hargs, rfl⟩ := h
  match args, hargs with
  | [], _ => exact fails ⟨_, _, rfl⟩ ⟨_, _, rfl⟩
  | _ :: _ :: _, _ => exact fails ⟨_, _, rfl⟩ ⟨_, _, rfl⟩
  | [v], hargs =>
    cases v with
    | quoted body => exact hself body scope (hargs _ List.mem_cons_self) φ s
    | inst _ _ _ _ => exact (hargs _ List.mem_cons_self).elim
    | function _ _ _ _ _ => cases named <;> exact fails ⟨_, _, rfl⟩ ⟨_, _, rfl⟩
    | _ => exact fails ⟨_, _, rfl⟩ ⟨_, _, rfl⟩

theorem callFunction (hself : SelfTracks D named self self') {name : String}
    (hn : name ∈ Direct.functionNames) {args ws : List Value} (h : seenAll D φ args ws) :
    Tracks D φ s (Direct.callFunction self name args scope)
      (Direct.callFunction self' name ws scope) (seen D) := by
  have hfails (v v' : Value) (vs : List Value) (hname : name ∈ ["len", "type", "str"]) :
      Tracks D φ s (Direct.callFunction self name (v :: v' :: vs) scope)
        (Direct.callFunction self' name ((v :: v' :: vs).map φ.value) scope) (seen D) := by
    simp only [List.mem_cons, List.not_mem_nil, or_false] at hname
    rcases hname with rfl | rfl | rfl <;> exact fails ⟨_, _, rfl⟩ ⟨_, _, rfl⟩
  rw [Direct.functionNames] at hn
  simp only [List.mem_cons, List.not_mem_nil, or_false] at hn
  rcases hn with rfl | rfl | rfl | rfl | rfl | rfl
  · obtain ⟨-, rfl⟩ := h
    exact (texts args).bindSame fun _ _ _ _ => (printLine _).bindSame fun _ _ _ _ => pure .nothing
  · obtain ⟨-, rfl⟩ := h
    rcases args with _ | ⟨v, _ | ⟨v', vs⟩⟩
    · exact fails ⟨_, _, rfl⟩ ⟨_, _, rfl⟩
    · exact lengthOf v
    · exact hfails v v' vs (by decide)
  · obtain ⟨-, rfl⟩ := h
    rcases args with _ | ⟨v, _ | ⟨v', vs⟩⟩
    · exact fails ⟨_, _, rfl⟩ ⟨_, _, rfl⟩
    · exact (typeText v).bindSame fun _ _ _ _ => pure (.string _)
    · exact hfails v v' vs (by decide)
  · obtain ⟨-, rfl⟩ := h
    rcases args with _ | ⟨v, _ | ⟨v', vs⟩⟩
    · exact fails ⟨_, _, rfl⟩ ⟨_, _, rfl⟩
    · exact (text v).bindSame fun _ _ _ _ => pure (.string _)
    · exact hfails v v' vs (by decide)
  · exact rangeFunction h
  · exact evalFunction hself h

/-! ## Bodies and calls -/

/-- Running the body of a function or a closure in a scope of its own is tracked. -/
theorem enter (who : String) (params : List String) (outer : ScopeId) {args ws : List Value}
    (hargs : seenAll D φ args ws) {run run' : ScopeId → Eval Value}
    (hrun : ∀ inner φ s, Tracks D (φ : View named) s (run inner) (run' inner) (seen D)) :
    Tracks D φ s
      (do
        Eval.check (checkArity who params.length args.length)
        let inner ← Eval.newScope outer
        Eval.defineAll inner (params.zip args)
        run inner)
      (do
        Eval.check (checkArity who params.length ws.length)
        let inner ← Eval.newScope outer
        Eval.defineAll inner (params.zip ws)
        run' inner) (seen D) := by
  have hlength : ws.length = args.length := by rw [hargs.2, List.length_map]
  rw [hlength]
  refine (check _).bindSame fun _ φ₁ s₁ he₁ => (newScope outer).bindSame fun inner φ₂ s₂ he₂ => ?_
  exact (defineAll inner (((hargs.mono he₁).mono he₂).zip params)).bindSame
    fun _ φ₃ s₃ _ => hrun inner φ₃ s₃

section

variable (hself : SelfTracks D named self self')
include hself

theorem runStatements {statements : List Node} (h : ∀ node ∈ statements, D.Tree node) {v w : Value}
    (hv : seen D φ v w) :
    Tracks D φ s (Eval.runStatements self scope v statements)
      (Eval.runStatements self' scope w statements) (seen D) := by
  induction statements generalizing φ s v w with
  | nil => exact pure hv
  | cons statement statements ih =>
    obtain ⟨hstatement, h⟩ := List.forall_mem_cons.mp h
    exact (hself statement scope hstatement φ s).bind fun _ _ _ _ _ hv => ih h hv

theorem runBody {body : Node} (h : D.Tree body) :
    Tracks D φ s (Eval.runBody self body scope) (Eval.runBody self' body scope) (seen D) := by
  cases body with
  | block span params statements =>
    cases params with
    | nil => exact runStatements hself (fun node hn => D.child h hn) .nothing
    | cons _ _ => exact hself _ scope h φ s
  | _ => exact hself _ scope h φ s

theorem evalAll {nodes : List Node} (h : ∀ node ∈ nodes, D.Tree node) :
    Tracks D φ s (Eval.evalAll self nodes scope) (Eval.evalAll self' nodes scope) (seenAll D) := by
  rw [Eval.evalAll, Eval.evalAll]
  induction nodes generalizing φ s with
  | nil => exact pure ⟨fun _ hv => absurd hv List.not_mem_nil, rfl⟩
  | cons node nodes ih =>
    obtain ⟨hnode, h⟩ := List.forall_mem_cons.mp h
    rw [List.mapM_cons, List.mapM_cons]
    exact (hself node scope hnode φ s).bind fun _ _ _ _ _ hv => (ih h).bind fun _ _ _ _ he hvs =>
      pure (.cons (hv.mono he) hvs)

theorem evalEntries {entries : List (Located String × Node)} (h : ∀ e ∈ entries, D.Tree e.2)
    {es fs : List (String × Value)} (hes : seenEntries D φ es fs) :
    Tracks D φ s (Eval.evalEntries self scope es entries) (Eval.evalEntries self' scope fs entries)
      (seenEntries D) := by
  induction entries generalizing φ s es fs with
  | nil => exact pure hes
  | cons entry entries ih =>
    obtain ⟨hentry, h⟩ := List.forall_mem_cons.mp h
    exact (hself entry.2 scope hentry φ s).bind fun _ _ _ _ he hv =>
      ih h ((hes.mono he).insert entry.1.val hv)

theorem callDeclared {body : Node} (h : D.Tree body) {args ws : List Value} (hargs : seenAll D φ args ws)
    (id id' : Nat) (name : String) (params : List String) (outer : ScopeId) :
    Tracks D φ s (Eval.callValue .direct self (.function id name params body outer) args scope)
      (Eval.callValue .direct self' (.function id' name params body outer) ws scope) (seen D) :=
  enter _ params outer hargs fun _ _ _ => runBody hself h

theorem callOther {v w : Value} (hv : seen D φ v w)
    (hfunction : ∀ id name params body outer, v ≠ .function id name params body outer)
    {args ws : List Value} (hargs : seenAll D φ args ws) :
    Tracks D φ s (Eval.callValue .direct self v args scope)
      (Eval.callValue .direct self' w ws scope) (seen D) := by
  obtain ⟨hv, rfl⟩ := hv
  cases v with
  | closure id params body outer =>
    exact enter _ params outer hargs fun _ _ _ => runStatements hself hv.2 .nothing
  | generic name => exact callFunction hself hv hargs
  | function id name params body outer => exact absurd rfl (hfunction id name params body outer)
  | inst _ _ _ _ => exact hv.elim
  | constructor _ _ => exact hv.elim
  | _ => exact fails ⟨_, _, rfl⟩ ⟨_, _, rfl⟩

theorem evalCall {call call' : Value → List Value → Eval Value} (function : Located String)
    {args : List Node} (h : ∀ arg ∈ args, D.Tree arg)
    (hcall : ∀ φ s v w vs ws, seen D (φ : View named) v w → seenAll D φ vs ws →
      Tracks D φ s (call v vs) (call' w ws) (seen D)) :
    Tracks D φ s
      (do
        match ← Eval.lookup scope function.val with
        | none => Eval.fail (.undefinedVariable function.val)
        | some callee => call callee (← Eval.evalAll self args scope))
      (do
        match ← Eval.lookup scope function.val with
        | none => Eval.fail (.undefinedVariable function.val)
        | some callee => call' callee (← Eval.evalAll self' args scope)) (seen D) := by
  refine (lookup scope function.val).bind fun _ _ φ₁ s₁ _ hfound => ?_
  cases hfound with
  | none => exact fails ⟨_, _, rfl⟩ ⟨_, _, rfl⟩
  | some hv =>
    exact (evalAll hself h).bind fun vs ws φ₂ s₂ he hvs => hcall φ₂ s₂ _ _ vs ws (hv.mono he) hvs

end

/-! ## Instances and members -/

/-- There is no type to build an instance of. -/
theorem construct (name : Located String) {fields : List (Located String × Node)} :
    Tracks D φ s (Eval.construct .direct self name fields scope)
      (Eval.construct .direct self' name fields scope) (seen D) := by
  refine (lookup scope name.val).bind fun _ _ φ₁ s₁ _ hfound => ?_
  cases hfound with
  | none => exact fails ⟨_, _, rfl⟩ ⟨_, _, rfl⟩
  | @some v w hv =>
    obtain ⟨hv, rfl⟩ := hv
    cases v with
    | inst _ _ _ _ => exact hv.elim
    | constructor _ _ => exact hv.elim
    | typeRef id typeName =>
      refine ofTraced fun hs => get ?_
      have harena : (φ₁.session s₁).arena = .initial := hs.arena
      rw [hs.arena, harena]
      cases hk : (TypeArena.initial.get id).kind with
      | struct _ _ => exact absurd hk (TypeArena.initial_kind_ne_struct hv)
      | _ => exact fails ⟨_, _, rfl⟩ ⟨_, _, rfl⟩
    | function _ _ _ _ _ => cases named <;> exact fails ⟨_, _, rfl⟩ ⟨_, _, rfl⟩
    | _ => exact fails ⟨_, _, rfl⟩ ⟨_, _, rfl⟩

theorem fieldOf {v w : Value} (h : seen D φ v w) (field : String) :
    Tracks D φ s (Eval.fieldOf .direct v field) (Eval.fieldOf .direct w field) (seen D) := by
  obtain ⟨hv, rfl⟩ := h
  refine ofTraced fun hs => get ?_
  have hlength : (φ.value v).length? (φ.session s).heap = v.length? s.heap := φ.length?_value
  have hown : (φ.value v).ownField? (φ.session s).heap field = (v.ownField? s.heap field).map φ.value :=
    View.ownField?_value hv field
  dsimp only
  rw [hlength]
  split
  · exact pure ⟨trivial, rfl⟩
  · cases v with
    | inst _ _ _ _ => exact hv.elim
    | object address =>
      dsimp only [View.value] at hown ⊢
      rw [hown]
      cases hfield : (Value.object address).ownField? s.heap field with
      | none => exact fails ⟨_, _, rfl⟩ ⟨_, _, rfl⟩
      | some value => exact pure ⟨hs.heap.entries _ (Assoc.mem_of_lookup hfield), rfl⟩
    | function _ _ _ _ _ => cases named <;> exact fails ⟨_, _, rfl⟩ ⟨_, _, rfl⟩
    | _ => exact fails ⟨_, _, rfl⟩ ⟨_, _, rfl⟩

/-! ## Patterns -/

theorem matchValue (pattern : Node) {v w : Value} (h : seen D φ v w) :
    Tracks D φ s (Eval.matchValue pattern v) (Eval.matchValue pattern w)
      (optional (seenEntries D)) := by
  obtain ⟨hv, rfl⟩ := h
  rw [Eval.matchValue, Eval.matchValue, View.matchPattern_value hv]
  cases hm : v.matchPattern pattern with
  | error e => exact fails ⟨_, _, rfl⟩ ⟨_, _, rfl⟩
  | ok found =>
    cases found with
    | none => exact pure .none
    | some bindings =>
      refine pure (.some ⟨fun b hb => ?_, rfl⟩)
      rw [Value.matchPattern_eq (fun name => (View.fieldsOf?_eq_none hv name).1) pattern hm b hb]
      exact hv

theorem assignTo (target : Node) {v w : Value} (h : seen D φ v w) :
    Tracks D φ s (Eval.assignTo target v scope) (Eval.assignTo target w scope) same := by
  cases target with
  | ident _ name => exact assign scope name h
  | construct span name fields =>
    refine (matchValue _ h).bind fun _ _ φ₁ s₁ _ hfound => ?_
    cases hfound with
    | none => exact fails ⟨_, _, rfl⟩ ⟨_, _, rfl⟩
    | some hbindings => exact assignAll scope hbindings
  | _ => exact fails ⟨_, _, rfl⟩ ⟨_, _, rfl⟩

theorem runArms (hself : SelfTracks D named self self') {arms : List (Node × Node)}
    (h : ∀ arm ∈ arms, D.Tree arm.2) {v w : Value} (hv : seen D φ v w) :
    Tracks D φ s (Eval.runArms self v scope arms) (Eval.runArms self' w scope arms) (seen D) := by
  induction arms generalizing φ s with
  | nil => exact fails ⟨_, _, rfl⟩ ⟨_, _, rfl⟩
  | cons arm arms ih =>
    obtain ⟨pattern, body⟩ := arm
    obtain ⟨hbody, h⟩ := List.forall_mem_cons.mp h
    refine (matchValue pattern hv).bind fun _ _ φ₁ s₁ he₁ hfound => ?_
    cases hfound with
    | none => exact ih h (hv.mono he₁)
    | some hbindings =>
      refine (newScope scope).bindSame fun inner φ₂ s₂ he₂ => ?_
      exact (defineAll inner (hbindings.mono he₂)).bindSame fun _ _ _ _ => runBody hself hbody

/-! ## Nodes -/

/-- What a form does is tracked if evaluating its parts is, unless it applies an operator to two operands or calls or
declares a function. -/
theorem evalForm (hD : D.steady = true) (hself : SelfTracks D named self self') {node : Node} (h : D.Tree node)
    (hbinary : ∀ span op left right, node ≠ .binary span op left right)
    (hcall : ∀ span function args, node ≠ .call span function args)
    (hfunction : ∀ span head body, node ≠ .function span head body) :
    Tracks D φ s (Eval.evalForm .direct self node scope) (Eval.evalForm .direct self' node scope)
      (seen D) := by
  have hchild : ∀ child ∈ node.children, D.Tree child := fun child hc => D.child h hc
  cases node with
  | literal span value => exact pure (.ofLiteral value)
  | ident span name =>
    refine (lookup scope name).bind fun _ _ φ₁ s₁ _ hfound => ?_
    cases hfound with
    | none => exact fails ⟨_, _, rfl⟩ ⟨_, _, rfl⟩
    | some hv => exact pure hv
  | unary span op operand =>
    exact (hself operand scope (hchild operand (List.mem_singleton_self _)) φ s).bind
      fun _ _ _ _ _ hv => unary op hv
  | assign span target value =>
    refine (hself value scope (hchild value (by simp [Node.children])) φ s).bind
      fun _ _ φ₁ s₁ _ hv => ?_
    exact (assignTo target hv).bindSame fun _ _ _ he => pure (hv.mono he)
  | field span subject member =>
    exact (hself subject scope (hchild subject (List.mem_singleton_self _)) φ s).bind
      fun _ _ _ _ _ hv => fieldOf hv member.val
  | block span params body =>
    refine newId.bind fun n m φ₁ s₁ _ hn => pure ⟨⟨?_, hchild⟩, ?_⟩
    · rw [hn]
      rfl
    · rw [View.value, View.number, hn, Option.getD_some]
  | cases span scrutinee arms =>
    have harms : ∀ arm ∈ arms, D.Tree arm.2 := fun arm ha =>
      hchild arm.2 (List.mem_cons_of_mem _ (List.mem_flatMap.mpr ⟨arm, ha, by simp⟩))
    exact (hself scrutinee scope (hchild scrutinee List.mem_cons_self) φ s).bind
      fun _ _ _ _ _ hv => runArms hself harms hv
  | construct span name fields => exact construct name
  | capture span name => exact fails ⟨_, _, rfl⟩ ⟨_, _, rfl⟩
  | refine span name pattern => exact fails ⟨_, _, rfl⟩ ⟨_, _, rfl⟩
  | quoted span body => exact pure ⟨hchild body (List.mem_singleton_self _), rfl⟩
  | array span elements =>
    exact (evalAll hself hchild).bind fun _ _ _ _ _ hvs => newArray hvs
  | object span entries =>
    have hentries : ∀ e ∈ entries, D.Tree e.2 := fun e he => hchild e.2 (List.mem_map_of_mem he)
    exact (evalEntries hself hentries ⟨fun _ he => absurd he List.not_mem_nil, rfl⟩).bind
      fun _ _ _ _ _ hes => newObject hes
  | pair span key value => exact fails ⟨_, _, rfl⟩ ⟨_, _, rfl⟩
  | binary span op left right => exact absurd rfl (hbinary span op left right)
  | call span function args => exact absurd rfl (hcall span function args)
  | function span head body => exact absurd rfl (hfunction span head body)
  | send span receiver method args => cases D.isSimple_of_steady hD h
  | typeDecl span decl => cases D.isSimple h rfl

end Tracks

end DispatchLang
