import DispatchLang.Proofs.Eval.Storage

/-!
# What built-in calls resolve to

The direct strategy finds out what a built-in operator or function does from the shapes of its arguments,
the dispatch strategy from the types of its arguments and a table of signatures. `operation?` and
`function?` say in terms of types what the shapes ask for. That resolution comes to the same result is a
finite fact (`operator_eq`, `function_eq`): by `Heap.Sound.baseType_tag` only the base types of the
arguments matter.

## Main results

* `Serves.dispatch`: a call resolves by the base types of its arguments, whatever has been remembered.
* `operator_eq`, `unaryOperator_eq`, `function_eq`: what the operators and functions resolve to.
* `Agree.invokeOperator`, `Agree.invokeFunction`: the rules for calls that only one of the strategies
  resolves.
-/

namespace DispatchLang

open TypeArena

/-! ## Base types of values -/

/-- The built-in type that the signatures of built-in functions see in a value. -/
def Value.base : Value → TypeId
  | .array _ => .array
  | value => value.tag .empty

/-- The types that basic values have for the signatures of built-in functions. -/
def valueTypes : List TypeId :=
  [.nothing, .int, .float, .string, .boolean, .array, .object, .function, .type, .quoted]

variable {D : Dialect} {arena : TypeArena} {heap : Heap} {value : Value}

theorem Value.Basic.base_mem (h : value.Basic D heap) : value.base ∈ valueTypes := by
  cases value with
  | inst _ _ _ _ => exact h.elim
  | _ => simp [base, tag, valueTypes]

theorem Heap.Sound.baseType_tag (hs : heap.Sound D arena) (ha : arena.Grown) (h : value.Basic D heap) :
    baseType (value.tag heap) = value.base := by
  cases value with
  | array address =>
    obtain ⟨items, type, hc⟩ := h
    obtain ⟨element, -, hindex⟩ := (hs address _ hc).2.1
    have hnew := not_lt_of_interned? ha hindex
    rw [Value.tag, Heap.arrayType_eq hc, baseType, if_neg hnew, Value.base]
  | inst _ _ _ _ => exact h.elim
  | _ => rfl

/-- The base type of a value tells what the value is. -/
structure Value.ToldByBase (value : Value) : Prop where
  int : value.base = .int → ∃ n, value = .int n
  string : value.base = .string → ∃ text, value = .string text
  bool : value.base = .boolean → ∃ b, value = .bool b
  array : value.base = .array → ∃ address, value = .array address

theorem Value.Basic.toldByBase (h : value.Basic D heap) : value.ToldByBase := by
  cases value with
  | inst _ _ _ _ => exact h.elim
  | _ => constructor <;> intro hb <;> first | exact ⟨_, rfl⟩ | cases hb

/-! ## Resolution in a session -/

section

variable {ι : Type} {table : List (String × List (Method ι))}
  {functions : List (String × GenericFunction ι)}

/-- What a call resolves to by a table of methods without type variables. -/
def resolved (table : List (String × List (Method ι))) (name : String) (types : List TypeId) :
    Option ι :=
  (table.lookup name).bind fun methods =>
    (plainChoice (applicable .initial types 0 methods)).map (·.method.implementation)

theorem areSubtypes_baseType (ha : arena.Grown) {types : List TypeId}
    (ht : ∀ x ∈ types, IsShape arena x) {signature : List TypeId}
    (hs : ∀ p ∈ signature, p < builtinTypes.length) :
    arena.areSubtypes types signature =
      TypeArena.initial.areSubtypes (types.map baseType) signature := by
  induction types generalizing signature with
  | nil => cases signature <;> rfl
  | cons x types ih =>
    cases signature with
    | nil => rfl
    | cons p signature =>
      obtain ⟨hx, ht⟩ := List.forall_mem_cons.mp ht
      obtain ⟨hp, hs⟩ := List.forall_mem_cons.mp hs
      rw [areSubtypes, List.map_cons, areSubtypes, isSubtype_baseType ha hx hp, ih ht hs]

theorem GenericFunction.tags_some (f : GenericFunction ι) (position : Nat) (types : List TypeId) :
    f.tags position (types.map some) = .ok types := by
  induction types generalizing position with
  | nil => rfl
  | cons type types ih =>
    rw [List.map_cons, tags, ih]
    rfl

/-- A function with plain methods that remembers only what it would choose chooses, adds no types and goes on to
remember only what it would choose. -/
theorem GenericFunction.Faithful.dispatch {f : GenericFunction ι} (hf : f.Faithful arena)
    (ha : arena.Grown) (hm : ∀ m ∈ f.methods, m.IsPlain) {types : List TypeId}
    (ht : ∀ x ∈ types, x < arena.size) :
    (f.dispatch (types.map some) arena).result.toOption =
        plainChoice (applicable arena types 0 f.methods) ∧
      (f.dispatch (types.map some) arena).arena = arena ∧
      (f.dispatch (types.map some) arena).function.methods = f.methods ∧
      (f.dispatch (types.map some) arena).function.Faithful arena := by
  have hdispatch : f.dispatch (types.map some) arena = f.resolve types arena := by
    rw [GenericFunction.dispatch, f.tags_some]
  rw [hdispatch, ← (choose_plain ha hm f.name).2]
  exact hf.resolve ha hm ht

/-- Resolving a call by the types of basic values comes to what their base types resolve to. -/
theorem Serves.dispatch (h : Serves arena table functions)
    (ht : ∀ e ∈ table, ∀ m ∈ e.2, m.IsPlain) (ha : arena.Grown) {name : String}
    (hname : (table.lookup name).isSome) {types : List TypeId} (hs : ∀ x ∈ types, IsShape arena x) :
    ∃ f, functions.lookup name = some f ∧
      (f.dispatch (types.map some) arena).result.toOption.map (·.method.implementation) =
        resolved table name (types.map baseType) ∧
      (f.dispatch (types.map some) arena).arena = arena ∧
      (f.dispatch (types.map some) arena).function.methods = f.methods ∧
      (f.dispatch (types.map some) arena).function.Faithful arena := by
  obtain ⟨methods, hl⟩ := Option.isSome_iff_exists.mp hname
  obtain ⟨f, hf, rfl, hfaithful⟩ := h name methods hl
  have hplain : ∀ m ∈ f.methods, m.IsPlain := ht _ (Assoc.mem_of_lookup hl)
  have heq : applicable arena types 0 f.methods =
      applicable .initial (types.map baseType) 0 f.methods :=
    applicable_eq_of_plain .initial ha 0 hplain fun m hmem =>
      areSubtypes_baseType ha hs (hplain m hmem)
  obtain ⟨hresult, hrest⟩ := hfaithful.dispatch ha hplain fun x hx => (hs x hx).lt ha
  refine ⟨f, hf, ?_, hrest⟩
  rw [hresult, heq, resolved, hl]
  rfl

end

/-! ## What types ask for -/

/-- Whether a type is one of numbers. -/
def isNumeric (type : TypeId) : Bool := type = .int || type = .float

/-- The operation that an operator between operands of these base types stands for. -/
def operation? (op : BinaryOp) (left right : TypeId) : Option Primitive :=
  match op with
  | .eq => some .equal
  | .ne => some .unequal
  | .and | .or => if left = .boolean ∧ right = .boolean then some .second else none
  | .add =>
    if left = .string ∨ right = .string then some .concat
    else if left = .array ∧ right = .array then some .concatArrays
    else if isNumeric left && isNumeric right then some (.arithmetic .add)
    else none
  | .mul =>
    if left = .string ∧ right = .int ∨ left = .int ∧ right = .string then some .repeatText
    else if isNumeric left && isNumeric right then some (.arithmetic .mul)
    else none
  | .lt | .gt | .le | .ge =>
    if left = .string ∧ right = .string then some (.comparison op)
    else if isNumeric left && isNumeric right then some (.comparison op)
    else none
  | op => if isNumeric left && isNumeric right then some (.arithmetic op) else none

/-- The operation that an operator before an operand of this base type stands for. -/
def unaryOperation? (op : UnaryOp) (operand : TypeId) : Option Primitive :=
  match op with
  | .neg => if isNumeric operand then some .negate else none
  | .not => if operand = .boolean then some .not else none

/-- The operation that a function with arguments of these base types stands for. -/
def function? (name : String) (args : List TypeId) : Option Primitive :=
  match name, args with
  | "print", _ => some .print
  | "len", [arg] => if arg = .array || arg = .string || arg = .object then some .len else none
  | "type", [_] => some .typeOf
  | "str", [_] => some .str
  | "range", [stop] => if stop = .int then some .range else none
  | "range", [start, stop] => if start = .int && stop = .int then some .range else none
  | "eval", [arg] => if arg = .quoted then some .eval else none
  | _, _ => none

/-- The symbol under which an operator with one operand is looked up. -/
def UnaryOp.symbol : UnaryOp → String
  | .neg => "neg"
  | .not => "!"

/-- Operators between two operands resolve to what the types ask for. -/
theorem operator_eq (op : BinaryOp) : ∀ left ∈ valueTypes, ∀ right ∈ valueTypes,
    resolved operatorTable op.text [left, right] = operation? op left right := by
  cases op <;> decide

theorem unaryOperator_eq (op : UnaryOp) : ∀ operand ∈ valueTypes,
    resolved operatorTable op.symbol [operand] = unaryOperation? op operand := by
  cases op <;> decide

def FunctionBody.operation? : FunctionBody → Option Primitive
  | .primitive operation => some operation
  | .declared _ _ _ => none

theorem isSubtype_any (type : TypeId) : arena.isSubtype type .any = true := by
  have hdepth : arena.comparisonDepth ≠ 0 := Nat.mul_ne_zero (Nat.succ_ne_zero _) (Nat.succ_ne_zero _)
  obtain ⟨n, hn⟩ := Nat.exists_eq_succ_of_ne_zero hdepth
  rw [isSubtype, hn, isSubtypeWithin, obligations, if_pos (.inr rfl)]
  simp

theorem areSubtypes_any {signature : List TypeId} (hs : ∀ p ∈ signature, p = .any)
    (types : List TypeId) : arena.areSubtypes types signature = (types.length == signature.length) := by
  induction types generalizing signature with
  | nil => cases signature <;> rfl
  | cons x types ih =>
    cases signature with
    | nil => rfl
    | cons p signature =>
      obtain ⟨hp, hs'⟩ := List.forall_mem_cons.mp hs
      rw [hp, areSubtypes, isSubtype_any, ih hs']
      simp

theorem areSubtypes_length {types signature : List TypeId} (h : signature.length ≠ types.length) :
    arena.areSubtypes types signature = false := by
  induction types generalizing signature with
  | nil =>
    cases signature with
    | nil => exact absurd rfl h
    | cons p signature => rfl
  | cons x types ih =>
    cases signature with
    | nil => rfl
    | cons p signature =>
      have hlength : signature.length ≠ types.length := fun heq => h (congrArg (· + 1) heq)
      rw [areSubtypes, ih hlength, Bool.and_false]

/-- A function of which no method takes so many arguments is not resolved. -/
theorem resolved_eq_none {ι : Type} {table : List (String × List (Method ι))}
    (ht : ∀ e ∈ table, ∀ m ∈ e.2, m.IsPlain) {name : String} {types : List TypeId}
    (h : ∀ e ∈ table, e.1 = name → ∀ m ∈ e.2, m.signature.length ≠ types.length) :
    resolved table name types = none := by
  rw [resolved, Option.bind_eq_none_iff]
  intro methods hl
  have hmem := Assoc.mem_of_lookup hl
  have hnil : applicable .initial types 0 methods = [] := by
    refine List.eq_nil_iff_forall_not_mem.mpr fun r hr => ?_
    obtain ⟨i, -, hm, hu⟩ := mem_applicable.mp hr
    have hm := List.mem_of_getElem? hm
    rw [Grown.initial.unifySignature?_eq (ht _ hmem _ hm),
      areSubtypes_length (h _ hmem rfl _ hm)] at hu
    cases hu
  rw [hnil]
  rfl

/-- A function whose signatures ask for nothing but a number of arguments is resolved by that. -/
theorem resolved_eq_of_length {ι : Type} {table : List (String × List (Method ι))}
    (ht : ∀ e ∈ table, ∀ m ∈ e.2, m.IsPlain) {name : String}
    (h : ∀ e ∈ table, e.1 = name → ∀ m ∈ e.2, ∀ p ∈ m.signature, p = .any) (types : List TypeId) :
    resolved table name types = resolved table name (List.replicate types.length .any) := by
  rw [resolved, resolved]
  cases hl : table.lookup name with
  | none => rfl
  | some methods =>
    have hmem := Assoc.mem_of_lookup hl
    rw [Option.bind_some, Option.bind_some,
      applicable_eq_of_plain .initial .initial 0 (ht _ hmem) fun m hm => ?_]
    rw [areSubtypes_any (h _ hmem rfl m hm), areSubtypes_any (h _ hmem rfl m hm),
      List.length_replicate]

/-- Functions resolve to what the types ask for. -/
theorem function_eq {name : String} (hn : name ∈ Direct.functionNames) {types : List TypeId}
    (ht : ∀ x ∈ types, x ∈ valueTypes) (hl : types.length ≤ Tables.variadicLimit) :
    (resolved functionTable name types).map FunctionBody.operation? =
      (function? name types).map some := by
  by_cases hprint : name = "print"
  · have hany : ∀ n ≤ Tables.variadicLimit,
        (resolved functionTable "print" (List.replicate n .any)).map FunctionBody.operation? =
          some (some .print) := by decide
    subst hprint
    rw [resolved_eq_of_length functionTable_plain (by decide), hany _ hl]
    rfl
  · match types, ht with
    | [], _ =>
      have hnone : ∀ name ∈ Direct.functionNames, name ≠ "print" →
          (resolved functionTable name []).map FunctionBody.operation? =
            (function? name []).map some := by decide
      exact hnone name hn hprint
    | [x], ht =>
      have hone : ∀ name ∈ Direct.functionNames, name ≠ "print" → ∀ x ∈ valueTypes,
          (resolved functionTable name [x]).map FunctionBody.operation? =
            (function? name [x]).map some := by decide
      exact hone name hn hprint x (ht x List.mem_cons_self)
    | [x, y], ht =>
      have htwo : ∀ name ∈ Direct.functionNames, name ≠ "print" → ∀ x ∈ valueTypes,
          ∀ y ∈ valueTypes, (resolved functionTable name [x, y]).map FunctionBody.operation? =
            (function? name [x, y]).map some := by decide
      exact htwo name hn hprint x (ht x List.mem_cons_self) y
        (ht y (List.mem_cons_of_mem _ List.mem_cons_self))
    | x :: y :: z :: rest, _ =>
      -- Only `print` takes more than two arguments.
      have hshort : ∀ e ∈ functionTable, e.1 ≠ "print" → ∀ m ∈ e.2, m.signature.length ≤ 2 := by
        decide
      have hnone : function? name (x :: y :: z :: rest) = none := by
        rw [Direct.functionNames] at hn
        simp only [List.mem_cons, List.not_mem_nil, or_false] at hn
        rcases hn with rfl | rfl | rfl | rfl | rfl | rfl
        · exact absurd rfl hprint
        all_goals rfl
      rw [hnone, resolved_eq_none functionTable_plain]
      · rfl
      · intro e he hname m hm heq
        have hle := hshort e he (hname ▸ hprint) m hm
        rw [heq, List.length_cons, List.length_cons, List.length_cons] at hle
        omega

/-! ## Invoking -/

def runFound (self : NodeEval) (found : Option Primitive) (args : List Value) (scope : ScopeId) :
    Eval Value :=
  match found with
  | some operation => operation.run self args scope
  | none => Eval.fail (.mismatch .strayPair)

namespace Agree

variable {t : Session} {self : NodeEval} {scope : ScopeId} {P : Claim Value}

/-- It does not matter with which cause a computation fails. -/
theorem fail_congr {x : Eval Value} {e e' : Fault} (h : Agree D t x (Eval.fail e) P) :
    Agree D t x (Eval.fail e') P := by
  intro hs
  have hx := h hs
  generalize x t.untyped = r at hx ⊢
  cases hx with
  | failed => exact .failed

theorem tags_isShape (hs : t.Sound D) {args : List Value} (hargs : basicValues D t args) :
    ∀ type ∈ args.map (Value.tag t.heap), IsShape t.arena type := by
  intro type htype
  obtain ⟨v, hv, rfl⟩ := List.mem_map.mp htype
  exact hs.heap.tag_isShape (hargs v hv)

theorem tags_baseType (hs : t.Sound D) {args : List Value} (hargs : basicValues D t args) :
    (args.map (Value.tag t.heap)).map baseType = args.map Value.base := by
  rw [List.map_map]
  exact List.map_congr_left fun v hv => hs.heap.baseType_tag hs.grown (hargs v hv)

/-- Only the dispatch strategy looks at the session. -/
theorem get_right {x : Eval Value} {g : Session → Eval Value} :
    Agree D t x (MonadState.get >>= g) P ↔ Agree D t x (g t) P := Iff.rfl

theorem tags_right {x : Eval Value} {args : List Value} {g : List (Option TypeId) → Eval Value} :
    Agree D t x (Dispatch.tags args >>= g) P ↔
      Agree D t x (g ((args.map (Value.tag t.heap)).map some)) P := by
  rw [List.map_map]
  rfl

theorem settle_right {ι : Type} {x : Eval Value} {out : Outcome ι}
    {store : GenericFunction ι → Session → Session}
    {g : Except DispatchError (Resolution ι) → Eval Value} {t' : Session}
    (harena : out.arena = t.arena)
    (ht' : store out.function { t with events := out.events.reverse ++ t.events } = t')
    (hg : t.Grows t') (hs : t'.Sound D) (hu : t'.untyped = t.untyped)
    (h : Agree D t' x (g out.result) P) : Agree D t x (Dispatch.settle out store >>= g) P := by
  refine ahead h hu hg (fun _ => hs) ?_
  rw [← ht', ← harena]
  rfl

theorem invokeOperator {x : Eval Value} {symbol : String}
    (hsymbol : (operatorTable.lookup symbol).isSome) {args : List Value} (hargs : basicValues D t args)
    (h : ∀ t', t'.heap = t.heap → Agree D t' x
      (runFound self (resolved operatorTable symbol (args.map Value.base)) args scope) P) :
    Agree D t x (Dispatch.invokeOperator self symbol args scope) P := by
  refine ofSound fun hs => ?_
  obtain ⟨f, hf, hresult, harena, hmethods, hfaithful⟩ :=
    hs.operators.dispatch operatorTable_plain hs.grown hsymbol (tags_isShape hs hargs)
  rw [tags_baseType hs hargs] at hresult
  rw [Dispatch.invokeOperator, get_right, hf]
  dsimp only
  rw [tags_right, get_right]
  generalize f.dispatch ((args.map (Value.tag t.heap)).map some) t.arena = out at *
  refine settle_right harena rfl ⟨.refl _, .refl _⟩
    { hs with operators := hs.operators.insert hf hmethods hfaithful } rfl ?_
  rw [← hresult] at h
  cases hr : out.result with
  | error e =>
    rw [hr] at h
    exact fail_congr (h _ rfl)
  | ok r =>
    rw [hr] at h
    exact h _ rfl

theorem invokeFunction {x : Eval Value} {name : String}
    (hname : (functionTable.lookup name).isSome) {args : List Value} (hargs : basicValues D t args)
    {found : Option Primitive}
    (hfound : (resolved functionTable name (args.map Value.base)).map FunctionBody.operation? =
      found.map some)
    (h : ∀ t', t'.heap = t.heap → Agree D t' x (runFound self found args scope) P) :
    Agree D t x (Dispatch.invokeFunction self name args scope) P := by
  refine ofSound fun hs => ?_
  obtain ⟨f, hf, hresult, harena, hmethods, hfaithful⟩ :=
    hs.functions.dispatch functionTable_plain hs.grown hname (tags_isShape hs hargs)
  rw [tags_baseType hs hargs] at hresult
  rw [← hresult] at hfound
  rw [Dispatch.invokeFunction, get_right, hf]
  dsimp only
  rw [tags_right, get_right]
  generalize f.dispatch ((args.map (Value.tag t.heap)).map some) t.arena = out at *
  have hsound := hs.withFunction hf hmethods hfaithful
  have hnoted := FunctionTable.noted_insert_of_methods hf hmethods
  refine settle_right harena rfl ⟨.refl _, .refl _⟩ { hsound with }
    (by simp only [Session.untyped, hnoted]) ?_
  cases hr : out.result with
  | error e =>
    rw [hr] at hfound
    obtain rfl : found = none := Option.map_eq_none_iff.mp hfound.symm
    exact fail_congr (h _ rfl)
  | ok r =>
    rw [hr] at hfound
    obtain ⟨operation, rfl, hoperation⟩ := Option.map_eq_some_iff.mp hfound.symm
    dsimp only at hoperation ⊢
    cases hbody : r.method.implementation with
    | primitive operation' =>
      rw [hbody] at hoperation
      cases hoperation
      exact h _ rfl
    | declared params body outer =>
      rw [hbody] at hoperation
      cases hoperation

end Agree

end DispatchLang
