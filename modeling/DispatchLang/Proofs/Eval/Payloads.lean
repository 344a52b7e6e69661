import DispatchLang.Proofs.Eval.ArrayTypes
import DispatchLang.Proofs.Eval.Caching

/-!
# What built-in operations are given

A call selects a built-in operation by the types of the arguments, and the operation then looks at what the
arguments are. Are these always of the kinds that the signature stands for? They are, with one exception: a
declared type may be placed below a built-in one, and its instances are matched like what they are placed below
without being numbers, strings, arrays or whatever it may be. For these the operations have branches that refuse an
argument, or do nothing.

That no other arguments lead there is said with other operations in the place of the built-in ones. `intended?` says
what an operation does with arguments of the right kinds and has no such branches. The *strict* operations do this
if all arguments are of the right kinds, and what the built-in ones do if some are instances of types that have
been placed; everything else they meet with a refusal. No program can tell, whatever the refusal does.

## Main results

* `Session.Selects.suited`: the arguments of a selected operation are of the right kinds, or placed instances.
* `Primitive.intended_eq_run`, `Callback.intended_eq_run`: what the operations do with arguments of the right kinds.
* `Session.strict_unobservable`: no program can tell the strict operations from the built-in ones.
-/

namespace DispatchLang

open TypeArena

/-! ## Kinds of values -/

namespace Value

/-- The built-in type that a value is of by what it is, apart from instances. -/
def payload? : Value → Option TypeId
  | .nothing => some .nothing
  | .int _ => some .int
  | .float _ => some .float
  | .string _ => some .string
  | .bool _ => some .boolean
  | .array _ => some .array
  | .object _ => some .object
  | .inst _ _ _ _ => none
  | .closure _ _ _ _ | .function _ _ _ _ _ | .generic _ | .constructor _ _ => some .function
  | .typeRef _ _ => some .type
  | .quoted _ => some .quoted

def IsOfKind (kind : TypeId) (value : Value) : Prop :=
  kind = .any ∨ value.payload? = some kind ∨ kind = .number ∧ value.number?.isSome

instance (kind : TypeId) (value : Value) : Decidable (value.IsOfKind kind) :=
  inferInstanceAs (Decidable (_ ∨ _ ∨ _ ∧ _))

def declaredType? : Value → Option TypeId
  | .inst type _ _ _ => some type
  | _ => none

def IsPlacedBelow (arena : TypeArena) (kind : TypeId) (value : Value) : Prop :=
  ∃ type ∈ value.declaredType?, builtinTypes.length ≤ type ∧ kind ∈ arena.ancestors type

instance (arena : TypeArena) (kind : TypeId) (value : Value) : Decidable (value.IsPlacedBelow arena kind) :=
  inferInstanceAs (Decidable (∃ type ∈ value.declaredType?, _ ∧ _))

variable {kind : TypeId} {value : Value}

@[simp] theorem isOfKind_any : value.IsOfKind .any := .inl rfl

theorem isOfKind_iff (hany : kind ≠ .any) (hnumber : kind ≠ .number) :
    value.IsOfKind kind ↔ value.payload? = some kind :=
  ⟨fun h => (h.resolve_left hany).resolve_right fun h => hnumber h.1, fun h => .inr (.inl h)⟩

@[simp] theorem isOfKind_number : value.IsOfKind .number ↔ ∃ n, value.number? = some n := by
  refine ⟨fun h => ?_, fun ⟨n, h⟩ => .inr (.inr ⟨rfl, Option.isSome_of_eq_some h⟩)⟩
  rcases h with h | h | ⟨-, h⟩
  · cases h
  · cases value <;> cases h
  · exact Option.isSome_iff_exists.mp h

@[simp] theorem isOfKind_int : value.IsOfKind .int ↔ ∃ n, value = .int n := by
  rw [isOfKind_iff (by decide) (by decide)]
  refine ⟨fun h => ?_, fun ⟨_, h⟩ => h ▸ rfl⟩
  cases value <;> first | exact ⟨_, rfl⟩ | cases h

@[simp] theorem isOfKind_string : value.IsOfKind .string ↔ ∃ s, value = .string s := by
  rw [isOfKind_iff (by decide) (by decide)]
  refine ⟨fun h => ?_, fun ⟨_, h⟩ => h ▸ rfl⟩
  cases value <;> first | exact ⟨_, rfl⟩ | cases h

@[simp] theorem isOfKind_boolean : value.IsOfKind .boolean ↔ ∃ b, value = .bool b := by
  rw [isOfKind_iff (by decide) (by decide)]
  refine ⟨fun h => ?_, fun ⟨_, h⟩ => h ▸ rfl⟩
  cases value <;> first | exact ⟨_, rfl⟩ | cases h

@[simp] theorem isOfKind_array : value.IsOfKind .array ↔ ∃ address, value = .array address := by
  rw [isOfKind_iff (by decide) (by decide)]
  refine ⟨fun h => ?_, fun ⟨_, h⟩ => h ▸ rfl⟩
  cases value <;> first | exact ⟨_, rfl⟩ | cases h

@[simp] theorem isOfKind_object : value.IsOfKind .object ↔ ∃ address, value = .object address := by
  rw [isOfKind_iff (by decide) (by decide)]
  refine ⟨fun h => ?_, fun ⟨_, h⟩ => h ▸ rfl⟩
  cases value <;> first | exact ⟨_, rfl⟩ | cases h

@[simp] theorem isOfKind_quoted : value.IsOfKind .quoted ↔ ∃ body, value = .quoted body := by
  rw [isOfKind_iff (by decide) (by decide)]
  refine ⟨fun h => ?_, fun ⟨_, h⟩ => h ▸ rfl⟩
  cases value <;> first | exact ⟨_, rfl⟩ | cases h

@[simp] theorem isOfKind_function : value.IsOfKind .function ↔ value.isCallable = true := by
  rw [isOfKind_iff (by decide) (by decide)]
  cases value <;> first | exact iff_of_true rfl rfl | exact iff_of_false nofun nofun

end Value

/-! ## What the operations do -/

namespace Primitive

open Eval

/-- What an operation does with arguments of the right kinds. There is nothing it does with others. -/
def intended? (self : NodeEval) (operation : Primitive) (args : List Value) (scope : ScopeId) :
    Option (Eval Value) :=
  match operation, args with
  | .arithmetic op, [a, b] => do
    let m ← a.number?
    let n ← b.number?
    some (return .ofNumber (← checkNumber (Number.arithmetic op m n)))
  | .concat, [a, b] => some do return .string ((← text a) ++ (← text b))
  | .concatArrays, [.array a, .array b] => some (Eval.concatArrays .dispatch a b)
  | .repeatText, [.string text, .int n] | .repeatText, [.int n, .string text] =>
    some do return .string (← checkNumber (Number.repeatText text n))
  | .comparison op, [.string a, .string b] => some (return .bool (Number.holds op (some (compare a b))))
  | .comparison op, [a, b] => do
    let m ← a.number?
    let n ← b.number?
    some (return .bool (Number.satisfies op m n))
  | .equal, [a, b] => some do return .bool (← Eval.equal a b)
  | .unequal, [a, b] => some do return .bool (!(← Eval.equal a b))
  | .second, [_, .bool b] => some (return .bool b)
  | .negate, [a] => do
    let n ← a.number?
    some do return .ofNumber (← checkNumber (Number.negate n))
  | .not, [.bool a] => some (return .bool (!a))
  | .print, args => some (printValues args)
  | .len, [.array address] => some do return .ofCount ((← get).heap.items address).size
  | .len, [.string s] => some (return .ofCount s.length)
  | .len, [.object address] => some do return .ofCount ((← get).heap.entries address).length
  | .typeOf, [a] => some do return .string (← typeText .dispatch a)
  | .str, [a] => some do return .string (← text a)
  | .range, [.int stop] => some (rangeArray .dispatch 0 stop)
  | .range, [.int start, .int stop] => some (rangeArray .dispatch start stop)
  | .eval, [.quoted body] => some (self body scope)
  | .join, [.array address] => some (joinArray address ",")
  | .join, [.array address, .string separator] => some (joinArray address separator)
  | .push, [.array address, item] => some (pushItem address item)
  | .pop, [.array address] => some (popItem address)
  | .formatArray, [.array address, .string template] =>
    some do formatTemplate template (← items address)
  | .arrayAt, [.array address, .int index] => some do itemAt (← items address) index
  | .arrayContains, [.array address, item] => some (Eval.arrayContains address item)
  | .reverse, [.array address] => some (reverseArray .dispatch address)
  | .sum, [.array address] => some (sumArray .dispatch address)
  | .upper, [.string s] => some (return .string (Text.upper s))
  | .lower, [.string s] => some (return .string (Text.lower s))
  | .trim, [.string s] => some (return .string (Text.trim s))
  | .split, [.string s, .string separator] => some (splitString .dispatch s separator)
  | .stringContains, [.string s, .string part] => some (return .bool (Text.contains s part))
  | .formatString, .string template :: rest => some (formatTemplate template rest)
  | .stringAt, [.string s, .int index] => some (itemAt (characters s) index)
  | .keys, [.object address] => some (objectKeys .dispatch address)
  | .values, [.object address] => some (objectValues .dispatch address)
  | .objectAt, [.object address, .string key] => some (Eval.objectAt address key)
  | .has, [.object address, .string key] => some (objectHas address key)
  | .set, [.object address, .string key, value] => some (objectSet address key value)
  | _, _ => none

theorem number_eq {value : Value} {n : Number} (h : value.number? = some n) : number value = return n := by
  rw [number, h]

theorem compareValues_eq {a b : Value} {m n : Number} (op : BinaryOp) (ha : a.number? = some m)
    (hb : b.number? = some n) : compareValues op a b = return .bool (Number.satisfies op m n) := by
  have heq : compareValues op a b = do
      let m ← number a
      let n ← number b
      return .bool (Number.satisfies op m n) := by
    cases a with
    | string s => cases ha
    | _ => rfl
  rw [heq, number_eq ha, number_eq hb]
  rfl

/-- Two numbers are compared as numbers, of which of the two forms they may be. -/
theorem intended_comparison {self : NodeEval} {scope : ScopeId} {a b : Value} {m n : Number} (op : BinaryOp)
    (ha : a.number? = some m) (hb : b.number? = some n) :
    (comparison op).intended? self [a, b] scope = some (return .bool (Number.satisfies op m n)) := by
  have heq : (comparison op).intended? self [a, b] scope = a.number?.bind fun m => b.number?.bind fun n =>
      some (return .bool (Number.satisfies op m n)) := by
    cases a with
    | string s => cases ha
    | _ => rfl
  rw [heq, ha, hb]
  rfl

/-! ### Shapes of arguments -/

/-- The kinds that the arguments of an operation are meant to have, if there are `n` of them. -/
def shapes (operation : Primitive) (n : Nat) : List (List TypeId) :=
  match operation with
  | .arithmetic _ => [[.number, .number]]
  | .concat | .equal | .unequal => [[.any, .any]]
  | .concatArrays => [[.array, .array]]
  | .repeatText => [[.string, .int], [.int, .string]]
  | .comparison _ => [[.string, .string], [.number, .number]]
  | .second => [[.any, .boolean]]
  | .negate => [[.number]]
  | .not => [[.boolean]]
  | .print => [List.replicate n .any]
  | .len => [[.array], [.string], [.object]]
  | .typeOf | .str => [[.any]]
  | .range => [[.int], [.int, .int]]
  | .eval => [[.quoted]]
  | .join => [[.array], [.array, .string]]
  | .push | .arrayContains => [[.array, .any]]
  | .pop | .reverse | .sum => [[.array]]
  | .formatArray => [[.array, .string]]
  | .arrayAt => [[.array, .int]]
  | .upper | .lower | .trim => [[.string]]
  | .split | .stringContains => [[.string, .string]]
  | .formatString => [.string :: List.replicate (n - 1) .any]
  | .stringAt => [[.string, .int]]
  | .keys | .values => [[.object]]
  | .objectAt | .has => [[.object, .string]]
  | .set => [[.object, .string, .any]]

end Primitive

abbrev AreOfKinds (kinds : List TypeId) (values : List Value) : Prop :=
  List.Forall₂ (fun kind value => Value.IsOfKind kind value) kinds values

@[simp] theorem areOfKinds_cons {kind : TypeId} {kinds : List TypeId} {values : List Value} :
    AreOfKinds (kind :: kinds) values ↔
      ∃ v rest, v.IsOfKind kind ∧ AreOfKinds kinds rest ∧ values = v :: rest := List.forall₂_cons_left_iff

namespace Primitive

variable {self : NodeEval} {operation : Primitive} {args : List Value} {scope : ScopeId}

open Eval in
/-- With arguments of the right kinds an operation does what it is meant to do. -/
theorem intended_eq_run (h : ∃ shape ∈ operation.shapes args.length, AreOfKinds shape args) :
    operation.intended? self args scope = some (operation.run self args scope) := by
  cases operation <;> simp [shapes] at h
  case print => rfl
  case formatString =>
    obtain ⟨s, rest, -, rfl⟩ := h
    rfl
  -- Where numbers are expected it does not matter of which of the two forms they are.
  case arithmetic op =>
    obtain ⟨a, ⟨m, hm⟩, b, ⟨n, hn⟩, rfl⟩ := h
    change (a.number?.bind fun m => b.number?.bind fun n => some (do
      return Value.ofNumber (← checkNumber (Number.arithmetic op m n)))) = some (do
      let m ← number a
      let n ← number b
      return Value.ofNumber (← checkNumber (Number.arithmetic op m n)))
    rw [hm, hn, number_eq hm, number_eq hn]
    rfl
  case negate =>
    obtain ⟨a, ⟨n, hn⟩, rfl⟩ := h
    change (a.number?.bind fun n => some (do return Value.ofNumber (← checkNumber (Number.negate n)))) =
      some (do return Value.ofNumber (← checkNumber (Number.negate (← number a))))
    rw [hn, number_eq hn]
    rfl
  case comparison op =>
    rcases h with ⟨a, b, rfl⟩ | ⟨a, ⟨m, hm⟩, b, ⟨n, hn⟩, rfl⟩
    · rfl
    · rw [intended_comparison op hm hn]
      exact congrArg some (compareValues_eq op hm hn).symm
  case repeatText => rcases h with ⟨_, _, rfl⟩ | ⟨_, _, rfl⟩ <;> rfl
  case len => rcases h with ⟨_, rfl⟩ | ⟨_, rfl⟩ | ⟨_, rfl⟩ <;> rfl
  case range => rcases h with ⟨_, rfl⟩ | ⟨_, _, rfl⟩ <;> rfl
  case join => rcases h with ⟨_, rfl⟩ | ⟨_, _, rfl⟩ <;> rfl
  case second => obtain ⟨_, rfl | rfl⟩ := h <;> rfl
  case not => rcases h with rfl | rfl <;> rfl
  case set =>
    obtain ⟨_, _, _, rfl⟩ := h
    rfl
  case typeOf | str | eval | pop | reverse | sum | upper | lower | trim | keys | values =>
    obtain ⟨_, rfl⟩ := h
    rfl
  all_goals
    obtain ⟨_, _, rfl⟩ := h
    rfl

end Primitive

namespace Callback

open Eval

def intended? (call : Value → List Value → Eval Value) (operation : Callback) (args : List Value) :
    Option (Eval Value) :=
  match operation, args with
  | .map, [.array address, f] =>
    if f.isCallable then some (mapArray .dispatch (fun x => call f [x]) address) else none
  | .filter, [.array address, f] =>
    if f.isCallable then some (filterArray .dispatch (fun x => call f [x]) address) else none
  | .reduce, [.array address, f, start] =>
    if f.isCallable then some (reduceArray (fun total x => call f [total, x]) address start) else none
  | .call, f :: args => if f.isCallable then some (call f args) else none
  | _, _ => none

/-- The kinds that the arguments of an operation are meant to have, if there are `n` of them. -/
def shapes (operation : Callback) (n : Nat) : List (List TypeId) :=
  match operation with
  | .map | .filter => [[.array, .function]]
  | .reduce => [[.array, .function, .any]]
  | .call => [.function :: List.replicate (n - 1) .any]

variable {call : Value → List Value → Eval Value} {operation : Callback} {args : List Value}

theorem intended_eq_run (h : ∃ shape ∈ operation.shapes args.length, AreOfKinds shape args) :
    operation.intended? call args = some (operation.run call args) := by
  cases operation <;> simp [shapes] at h
  case map | filter =>
    obtain ⟨_, f, hf, rfl⟩ := h
    exact if_pos hf
  case reduce =>
    obtain ⟨_, f, hf, _, rfl⟩ := h
    exact if_pos hf
  case call =>
    obtain ⟨f, hf, _, -, rfl⟩ := h
    exact if_pos hf

end Callback

/-! ## Signatures -/

/-- The kinds that the arguments of what a built-in method does are meant to have. -/
def MethodBody.shapes (body : MethodBody) (n : Nat) : List (List TypeId) :=
  match body with
  | .primitive operation => operation.shapes n
  | .callback operation => operation.shapes n

/-- All values of one kind are of another, which is the same or a wider one. -/
def Widens (kind wide : TypeId) : Prop :=
  kind = wide ∨ wide = .any ∨ wide = .number ∧ (kind = .int ∨ kind = .float)

instance (kind wide : TypeId) : Decidable (Widens kind wide) := inferInstanceAs (Decidable (_ ∨ _ ∨ _ ∧ _))

/-- Among the built-in types the wider kinds are the types above. -/
theorem widens_of_isSubtype : ∀ kind < builtinTypes.length, ∀ wide < builtinTypes.length,
    TypeArena.initial.isSubtype kind wide = true → Widens kind wide := by decide

theorem Value.isOfKind_of_payload {value : Value} {kind wide : TypeId} (h : value.payload? = some kind)
    (hw : Widens kind wide) : value.IsOfKind wide := by
  rcases hw with rfl | hany | ⟨rfl, hkind⟩
  · exact .inr (.inl h)
  · exact .inl hany
  · rcases hkind with rfl | rfl <;> cases value <;> first | exact .inr (.inr ⟨rfl, rfl⟩) | cases h

theorem Value.IsOfKind.widen {value : Value} {kind wide : TypeId} (h : value.IsOfKind kind)
    (hw : Widens kind wide) : value.IsOfKind wide := by
  rcases h with rfl | h | ⟨rfl, h⟩
  · rcases hw with rfl | hany | ⟨-, hkind⟩
    · exact .inl rfl
    · exact .inl hany
    · rcases hkind with hkind | hkind <;> cases hkind
  · exact isOfKind_of_payload h hw
  · rcases hw with rfl | hany | ⟨-, hkind⟩
    · exact .inr (.inr ⟨rfl, h⟩)
    · exact .inl hany
    · rcases hkind with hkind | hkind <;> cases hkind

theorem AreOfKinds.widen {kinds shape : List TypeId} {values : List Value} (h : AreOfKinds kinds values)
    (hw : List.Forall₂ Widens kinds shape) : AreOfKinds shape values := by
  induction h generalizing shape with
  | nil =>
    cases hw
    exact .nil
  | cons hv _ ih =>
    cases hw with
    | cons hkind hkinds => exact .cons (hv.widen hkind) (ih hkinds)

/-- The kind of values that a type of a signature stands for: an applied type stands for what it is applied to. -/
def TypeArena.kindOf (arena : TypeArena) (type : TypeId) : TypeId :=
  match (arena.get type).kind with
  | .applied base _ => base
  | _ => type

/-- If two lists match then their elements do one by one. -/
theorem TypeArena.forall₂_of_matchAll {step : Bindings → TypeId → TypeId → Option Bindings} {bindings : Bindings}
    {params args : List TypeId} (h : (matchAll step bindings params args).isSome) :
    List.Forall₂ (fun p a => ∃ bindings, (step bindings p a).isSome) params args := by
  induction params generalizing bindings args with
  | nil =>
    cases args with
    | nil => exact .nil
    | cons a args => cases h
  | cons p params ih =>
    cases args with
    | nil => cases h
    | cons a args =>
      rw [matchAll] at h
      cases hp : step bindings p a with
      | none => rw [hp] at h; cases h
      | some next =>
        rw [hp] at h
        exact .cons ⟨bindings, Option.isSome_of_eq_some hp⟩ (ih h)

namespace Session

/-- The types in the signatures of built-in methods are built in, apart from the type of arrays with elements of a
type that is left open. -/
theorem nativeEntries_signature : ∀ e ∈ nativeEntries, ∀ p ∈ e.signature,
    p < builtinTypes.length ∨ p = freshArray := by decide

/-- The signatures of the built-in methods are those that what they do is meant for, or special cases of these. -/
theorem nativeEntries_shapes : ∀ e ∈ nativeEntries, ∃ shape ∈ e.body.shapes e.signature.length,
    List.Forall₂ Widens (e.signature.map freshArena.kindOf) shape := by decide

variable {base : TypeArena} {t : Session} {body : MethodBody} {signature : List TypeId} {args : List Value}

/-- Each argument is of the kind that the type in the signature stands for. -/
def Exact (t : Session) (signature : List TypeId) (args : List Value) : Prop :=
  AreOfKinds (signature.map t.arena.kindOf) args

/-- Each argument is of the kind that the type in the signature stands for, or an instance of a declared type that
has been placed below it. -/
def Suited (t : Session) (signature : List TypeId) (args : List Value) : Prop :=
  List.Forall₂ (fun kind v => v.IsOfKind kind ∨ v.IsPlacedBelow t.arena kind) (signature.map t.arena.kindOf) args

instance : Decidable (t.Exact signature args) := inferInstanceAs (Decidable (List.Forall₂ _ _ _))

instance : Decidable (t.Suited signature args) := inferInstanceAs (Decidable (List.Forall₂ _ _ _))

namespace Formed

variable (h : t.Formed base)
include h

theorem kindOf_builtin {p : TypeId} (hp : p < builtinTypes.length) : t.arena.kindOf p = p := by
  have habove := h.grown.above?_eq_none hp
  rw [kindOf]
  cases hk : (t.arena.get p).kind with
  | applied base args => rw [hk] at habove; cases habove
  | _ => rfl

theorem kind_freshArray : (t.arena.get freshArray).kind = .applied .array [freshElement] :=
  (h.indexed.index h.elements).2.1

theorem kindOf_freshArray : t.arena.kindOf freshArray = .array := by
  rw [kindOf, h.kind_freshArray]

theorem suited_of_isSubtype {v : Value} (hv : valueIn t v) {p : TypeId} (hp : p < builtinTypes.length)
    (hs : t.arena.isSubtype (v.tag t.heap) p = true) : v.IsOfKind p ∨ v.IsPlacedBelow t.arena p := by
  have hp' : p < t.arena.size := h.grown.lt_size hp
  -- Apart from arrays and instances the type of a value says what it is.
  have hplain : v.payload? = some (v.tag t.heap) → v.tag t.heap < builtinTypes.length → v.IsOfKind p := by
    intro hv htag
    rw [h.grown.isSubtype_eq htag hp] at hs
    exact Value.isOfKind_of_payload hv (widens_of_isSubtype _ htag p hp hs)
  cases v with
  | array address =>
    left
    rw [Value.tag, Heap.arrayType] at hs
    split at hs
    · next items type hc =>
      obtain ⟨element, helement⟩ := h.arrays address items type hc
      rw [isSubtype_arrayOf h.grown helement hp] at hs
      exact Value.isOfKind_of_payload rfl (widens_of_isSubtype _ (by decide) p hp hs)
    · rw [h.grown.isSubtype_eq (by decide) hp] at hs
      have hany : ∀ p < builtinTypes.length, TypeArena.initial.isSubtype .any p = true → p = TypeId.any := by
        decide
      exact .inl (hany p hp hs)
  | inst type typeName variant fields =>
    by_cases hany : p = .any
    · exact .inl (.inl hany)
    · obtain ⟨hdeclared, hlt⟩ := (Value.in_inst.mp hv).1
      have hbelow := (h.indexed.isSubtype_iff_below hlt hp').mp hs
      have hkind : ∀ p < builtinTypes.length, (TypeArena.initial.get p).kind.isNominal = true := by decide
      refine .inr ⟨type, rfl, hdeclared, ?_⟩
      refine h.regular.canonical.mem_chain_of_below _ (Nat.lt_succ_of_lt hlt) hbelow hany (.inl ?_)
      rw [h.regular.extends_initial.get_eq hp]
      exact hkind p hp
  | _ => exact .inl (hplain rfl (by rw [Value.tag]; decide))

/-- The same of the type of arrays in built-in signatures. -/
theorem suited_of_unify {v : Value} (hv : valueIn t v) {bindings : Bindings}
    (hs : (t.arena.unify? bindings freshArray (v.tag t.heap)).isSome) :
    v.IsOfKind .array ∨ v.IsPlacedBelow t.arena .array := by
  have hcanonical := h.regular.canonical
  have htag : v.tag t.heap < t.arena.size := Value.tag_lt h.builtin h.heap hv
  -- Somewhere above the type of the value there is a type of arrays, and above that the type of all arrays.
  obtain ⟨x, args, hx, hkx⟩ : ∃ x args, x ∈ t.arena.ancestors (v.tag t.heap) ∧
      (t.arena.get x).kind = .applied .array args := by
    rw [unify?, h.kind_freshArray] at hs
    dsimp only at hs
    split at hs
    · obtain ⟨b, hb⟩ := Option.isSome_iff_exists.mp hs
      obtain ⟨x, hx, hb⟩ := List.exists_of_findSome?_eq_some hb
      cases hkx : (t.arena.get x).kind with
      | applied base args =>
        rw [hkx] at hb
        dsimp only at hb
        split at hb
        · next hbase => exact ⟨x, args, hx, hbase ▸ hkx⟩
        · cases hb
      | _ => rw [hkx] at hb; cases hb
    · split at hs
      · next hsub =>
        have hbelow := (h.indexed.isSubtype_iff_below htag (h.indexed.index h.elements).1).mp hsub
        refine ⟨freshArray, _, ?_, h.kind_freshArray⟩
        refine hcanonical.mem_chain_of_below _ (Nat.lt_succ_of_lt htag) hbelow (by decide) (.inr ?_)
        rw [h.kind_freshArray]
        rfl
      · cases hs
  have habove : TypeId.array ∈ t.arena.ancestors (v.tag t.heap) :=
    h.indexed.parent_mem_chain _ (Nat.lt_succ_of_lt htag) hx (hcanonical.parent_eq hkx)
  have hnot : ¬ v.tag t.heap < builtinTypes.length := by
    intro hlt
    have hnone := h.grown.above?_eq_none (Nat.lt_of_le_of_lt (h.indexed.chain_le _ _ x hx) hlt)
    rw [hkx] at hnone
    cases hnone
  cases v with
  | array address => exact .inl (.inr (.inl rfl))
  | inst type typeName variant fields => exact .inr ⟨type, rfl, (Value.in_inst.mp hv).1.1, habove⟩
  | _ => exact absurd (by rw [Value.tag]; decide) hnot

end Formed

/-- The arguments of a built-in operation that a call selects are of the right kinds, apart from instances of types
that have been placed below these. -/
theorem Selects.suited (h : t.Formed base) (hs : t.Selects body signature args) : t.Suited signature args := by
  obtain ⟨e, hmem, rfl, -⟩ := hs.listed
  have hmatched := forall₂_of_matchAll hs.matched
  rw [List.forall₂_map_right_iff, List.forall₂_iff_zip] at hmatched
  rw [Suited, List.forall₂_map_left_iff, List.forall₂_iff_zip]
  refine ⟨hmatched.1, fun {p v} hpair => ?_⟩
  obtain ⟨hp, hv⟩ := List.of_mem_zip hpair
  obtain ⟨bindings, hunify⟩ := hmatched.2 hpair
  rcases nativeEntries_signature e hmem p hp with hbuiltin | rfl
  · rw [h.grown.unify?_eq hbuiltin] at hunify
    rw [h.kindOf_builtin hbuiltin]
    split at hunify
    · next hsub => exact h.suited_of_isSubtype (hs.values v hv) hbuiltin hsub
    · cases hunify
  · rw [h.kindOf_freshArray]
    exact h.suited_of_unify (hs.values v hv) hunify

/-- Arguments of the right kinds are of a shape that the operation is meant for. -/
theorem Selects.shape (h : t.Formed base) (hs : t.Selects body signature args) (he : t.Exact signature args) :
    ∃ shape ∈ body.shapes args.length, AreOfKinds shape args := by
  obtain ⟨e, hmem, rfl, rfl⟩ := hs.listed
  obtain ⟨shape, hshape, hwide⟩ := nativeEntries_shapes e hmem
  have hfresh : (freshState .local).Formed freshArena := freshState_formed .local
  have hkinds : e.signature.map t.arena.kindOf = e.signature.map freshArena.kindOf := by
    refine List.map_congr_left fun p hp => ?_
    rcases nativeEntries_signature e hmem p hp with hbuiltin | rfl
    · exact (h.kindOf_builtin hbuiltin).trans (hfresh.kindOf_builtin hbuiltin).symm
    · exact h.kindOf_freshArray.trans hfresh.kindOf_freshArray.symm
  have hlength : args.length = e.signature.length := by
    rw [← he.length_eq, List.length_map]
  rw [hlength]
  exact ⟨shape, hshape, AreOfKinds.widen he (hkinds ▸ hwide)⟩

end Session

/-! ## Strict operations -/

namespace Natives

open Eval

/-- Built-in operations that only accept arguments of the right kinds. Everything else is refused. -/
def exact (refusal : Eval Value) : Natives where
  primitive self operation signature args scope := do
    if (← get).Exact signature args then (operation.intended? self args scope).getD refusal else refusal
  callback call operation signature args := do
    if (← get).Exact signature args then (operation.intended? call args).getD refusal else refusal

/-- Built-in operations that apart from arguments of the right kinds only accept instances of types that have been
placed below what the signature asks for, with which they do what the operations of the dispatch strategy do. -/
def strict (refusal : Eval Value) : Natives where
  primitive self operation signature args scope := do
    let s ← get
    if ¬ s.Exact signature args ∧ s.Suited signature args then operation.run self args scope
    else (exact refusal).primitive self operation signature args scope
  callback call operation signature args := do
    let s ← get
    if ¬ s.Exact signature args ∧ s.Suited signature args then operation.run call args
    else (exact refusal).callback call operation signature args

variable {base : TypeArena} {t : Session} {signature : List TypeId} {args : List Value} (refusal : Eval Value)

theorem strict_primitive (h : t.Formed base) {op : Primitive} (hs : t.Selects (.primitive op) signature args)
    (self : NodeEval) (scope : ScopeId) :
    (strict refusal).primitive self op signature args scope t = op.run self args scope t := by
  change (if ¬ t.Exact signature args ∧ t.Suited signature args then op.run self args scope
    else (exact refusal).primitive self op signature args scope) t = _
  by_cases hexact : t.Exact signature args
  · rw [if_neg fun hnot => hnot.1 hexact]
    change (if t.Exact signature args then (op.intended? self args scope).getD refusal else refusal) t = _
    rw [if_pos hexact, Primitive.intended_eq_run (hs.shape h hexact), Option.getD_some]
  · rw [if_pos ⟨hexact, hs.suited h⟩]

theorem strict_callback (h : t.Formed base) {op : Callback} (hs : t.Selects (.callback op) signature args)
    (call : Value → List Value → Eval Value) :
    (strict refusal).callback call op signature args t = op.run call args t := by
  change (if ¬ t.Exact signature args ∧ t.Suited signature args then op.run call args
    else (exact refusal).callback call op signature args) t = _
  by_cases hexact : t.Exact signature args
  · rw [if_neg fun hnot => hnot.1 hexact]
    change (if t.Exact signature args then (op.intended? call args).getD refusal else refusal) t = _
    rw [if_pos hexact, Callback.intended_eq_run (hs.shape h hexact), Option.getD_some]
  · rw [if_pos ⟨hexact, hs.suited h⟩]

end Natives

/-- The strict operations do what the built-in ones do where calls select them. -/
theorem nativesTwins_strict (refusal : Eval Value) : NativesTwins (.strict refusal) .builtin where
  primitive {self _ _ op _ _} hself hs scope d hl := by
    rw [Natives.strict_primitive refusal hl.formed hs self scope]
    exact Twins.operation hself op hs.values scope d hl
  callback {call _ _ op _ _} hcall hs d hl := by
    rw [Natives.strict_callback refusal hl.formed hs call]
    exact Twins.callback hcall op hs.values d hl

namespace Session

/-- No program can tell the strict operations from the built-in ones, whatever they do to refuse arguments: what a
call selects a built-in operation for are arguments of the kinds that the signature stands for, with which the
operation does what it is meant to do, or some of them are instances of declared types that have been placed below
these. -/
theorem strict_unobservable (refusal : Eval Value) (options : Options) (sources : List String) :
    (fresh .dispatch options).answersBy (.strict refusal) sources = (fresh .dispatch options).answers sources := by
  obtain ⟨assignment, cache⟩ := options
  have hanswers := (fresh_like assignment cache cache).answersBy (nativesTwins_strict refusal) sources
  rw [answersBy_builtin, fresh_eq, equip_equip] at hanswers
  rw [fresh_eq]
  exact hanswers.symm

/-! ## Instances that have been placed -/

def Answer.text (answer : Answer) : String :=
  match answer.result with
  | .ok (value, _, _) => value
  | .error e => e.message

/-- A sum with an instance of a type below the integers. -/
def placedSum : String := "type P <: Int \x7b x: Int \x7d; P \x7b x: 1 \x7d + 1"

/-- An instance of a type below the arrays of integers, which something is added to. -/
def placedPush : String := "type L <: Array[Int] \x7b x: Int \x7d; L \x7b x: 1 \x7d.push(2)"

/-- Instances of types that have been placed below built-in ones do arrive: the sum is refused by what adds numbers,
and what adds to an array answers the instance as it is. Operations that only accept arguments of the right kinds
can be told from this. -/
theorem placed_instances_arrive :
    ((fresh .dispatch .standard).answers [placedSum]).map Answer.text = ["expected a number, got P \x7b x: 1 \x7d"] ∧
      ((fresh .dispatch .standard).answers [placedPush]).map Answer.text = ["L \x7b x: 1 \x7d"] ∧
        ∀ source ∈ [placedSum, placedPush],
          (fresh .dispatch .standard).answersBy (.exact (throw .exhausted)) [source] ≠
            (fresh .dispatch .standard).answers [source] := by
  have htold : ∀ source ∈ [placedSum, placedPush],
      ((fresh .dispatch .standard).answersBy (.exact (throw .exhausted)) [source]).map Answer.text ≠
        ((fresh .dispatch .standard).answers [source]).map Answer.text := by decide +kernel
  exact ⟨by decide +kernel, by decide +kernel, fun source hmem heq => htold source hmem (congrArg _ heq)⟩

end Session

end DispatchLang
