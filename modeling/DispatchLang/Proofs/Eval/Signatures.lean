import DispatchLang.Proofs.Eval.Methods

/-!
# What built-in methods take

The table of built-in methods, read from the side of the calls: for a name and a receiver there are only so many
numbers of arguments that any method takes (`arities`), and the methods are few enough to say of each which arguments
it takes. The direct strategy knows the same names (`Direct.not_fits`).

## Main definitions

* `arities`: the numbers of arguments that methods of a name take.
* `plainMethods`, `unaryMethods`, `binaryMethods`, `variadicMethods`: the methods by what they take.

## Main results

* `builtinMethod?_eq_none`: no method takes another number of arguments.
* `plainMethods_take`, `unaryMethods_take`, `binaryMethods_take`, `variadicMethods_take`: what the methods take.
* `Direct.not_fits`: where the direct strategy has no built-in method, no method takes the arguments.
-/

namespace DispatchLang

/-! ## How many arguments a method takes -/

/-- The numbers of arguments that the built-in methods of a name take for receivers of a base type. -/
def arities (name : String) (receiver : TypeId) : List Nat :=
  ((methodTable.lookup name).getD []).filterMap fun m =>
    if baseType (m.signature.headD .any) = receiver then some (m.signature.length - 1) else none

/-- No method fits if there are too many or too few arguments. -/
theorem builtinMethod?_eq_none {name : String} {receiver : TypeId} {types : List TypeId}
    (htypes : ∀ x ∈ receiver :: types, x < builtinTypes.length) (h : types.length ∉ arities name receiver) :
    builtinMethod? name (receiver :: types) = none := by
  rw [builtinMethod?, Option.map_eq_none_iff, Option.bind_eq_none_iff]
  intro methods hl
  refine List.find?_eq_none.mpr fun m hm hfits => h ?_
  obtain ⟨hhead, hlength⟩ :=
    (methodTable_builtin _ (Assoc.mem_of_lookup hl) m hm).of_fits htypes hfits
  rw [arities, hl, Option.getD_some, List.mem_filterMap]
  refine ⟨m, hm, ?_⟩
  rw [← Option.some.inj hhead, if_pos rfl, hlength, List.length_cons, Nat.add_sub_cancel]

/-- Where any arguments will do, their number decides. -/
theorem builtinMethod?_eq_of_length {name : String} {receiver : TypeId} {types : List TypeId}
    (hany : ∀ e ∈ methodTable, e.1 = name → ∀ m ∈ e.2, baseType (m.signature.headD .any) = receiver →
      ∀ p ∈ m.signature.tail, p = .any)
    (htypes : ∀ x ∈ receiver :: types, x < builtinTypes.length) :
    builtinMethod? name (receiver :: types) =
      builtinMethod? name (receiver :: List.replicate types.length .any) := by
  rw [builtinMethod?, builtinMethod?]
  cases hl : methodTable.lookup name with
  | none => rfl
  | some methods =>
    have hmem := Assoc.mem_of_lookup hl
    rw [Option.bind_some, Option.bind_some]
    refine congrArg (Option.map _) (List.find?_congr fun m hm => ?_)
    have hreceiver := (methodTable_builtin _ hmem m hm).receiver
    have htail := hany _ hmem rfl m hm
    rw [Method.fits, Method.fits]
    cases hsignature : m.signature with
    | nil => rfl
    | cons head params =>
      rw [hsignature, List.headD_cons] at hreceiver htail
      rw [List.tail_cons] at htail
      rw [List.map_cons, TypeArena.areSubtypes, TypeArena.areSubtypes,
        isSubtype_receiver _ hreceiver _ (htypes receiver List.mem_cons_self)]
      by_cases hhead : baseType head = receiver
      · have hparams : ∀ p ∈ params.map baseType, p = .any :=
          List.forall_mem_map.mpr fun p hp => by rw [htail hhead p hp]; rfl
        rw [areSubtypes_any hparams, areSubtypes_any hparams, List.length_replicate]
      · rw [beq_eq_false_iff_ne.mpr (Ne.symm hhead), Bool.false_and, Bool.false_and]

theorem basesOf_lt {D : Dialect} {heap : Heap} {values : List Value} (h : ∀ v ∈ values, v.Basic D heap) :
    ∀ x ∈ values.map Value.base, x < builtinTypes.length := by
  have hvalues : ∀ x ∈ valueTypes, x < builtinTypes.length := by decide
  exact List.forall_mem_map.mpr fun v hv => hvalues _ (h v hv).base_mem

/-! ## What methods take -/

/-- The built-in methods without arguments: their names, their receivers and what they do. -/
def plainMethods : List (String × TypeId × MethodBody) :=
  [("pop", .array, .primitive .pop), ("reverse", .array, .primitive .reverse), ("sum", .array, .primitive .sum),
   ("upper", .string, .primitive .upper), ("lower", .string, .primitive .lower), ("trim", .string, .primitive .trim),
   ("keys", .object, .primitive .keys), ("values", .object, .primitive .values)]

theorem plainMethods_take : ∀ e ∈ plainMethods,
    arities e.1 e.2.1 = [0] ∧ builtinMethod? e.1 [e.2.1] = some e.2.2 := by
  decide

/-- The built-in methods with one argument: their names, their receivers, their arguments and what they do. -/
def unaryMethods : List (String × TypeId × TypeId × MethodBody) :=
  [("map", .array, .function, .callback .map), ("filter", .array, .function, .callback .filter),
   ("push", .array, .any, .primitive .push), ("format", .array, .string, .primitive .formatArray),
   ("at", .array, .int, .primitive .arrayAt), ("contains", .array, .any, .primitive .arrayContains),
   ("split", .string, .string, .primitive .split), ("contains", .string, .string, .primitive .stringContains),
   ("at", .string, .int, .primitive .stringAt), ("at", .object, .string, .primitive .objectAt),
   ("has", .object, .string, .primitive .has)]

theorem unaryMethods_take : ∀ e ∈ unaryMethods, arities e.1 e.2.1 = [1] ∧ ∀ x ∈ valueTypes,
    builtinMethod? e.1 [e.2.1, x] = if e.2.2.1 = .any ∨ x = e.2.2.1 then some e.2.2.2 else none := by
  decide

/-- The built-in methods with two arguments, the second of which may be anything. -/
def binaryMethods : List (String × TypeId × TypeId × MethodBody) :=
  [("reduce", .array, .function, .callback .reduce), ("set", .object, .string, .primitive .set)]

theorem binaryMethods_take : ∀ e ∈ binaryMethods, arities e.1 e.2.1 = [2] ∧ ∀ x ∈ valueTypes, ∀ y ∈ valueTypes,
    builtinMethod? e.1 [e.2.1, x, y] = if x = e.2.2.1 then some e.2.2.2 else none := by
  decide

/-- The built-in methods with any number of arguments. -/
def variadicMethods : List (String × TypeId × MethodBody) :=
  [("format", .string, .primitive .formatString), ("call", .function, .callback .call)]

theorem variadicMethods_take : ∀ e ∈ variadicMethods,
    (∀ n ≤ Tables.variadicLimit, builtinMethod? e.1 (e.2.1 :: List.replicate n .any) = some e.2.2) ∧
      ∀ e' ∈ methodTable, e'.1 = e.1 → ∀ m ∈ e'.2, baseType (m.signature.headD .any) = e.2.1 →
        ∀ p ∈ m.signature.tail, p = .any := by
  decide

/-- The elements of an array are joined with a separator or with commas. -/
theorem join_takes : arities "join" .array = [0, 1] ∧ builtinMethod? "join" [.array] = some (.primitive .join) ∧
    ∀ x ∈ valueTypes, builtinMethod? "join" [.array, x] = if x = .string then some (.primitive .join) else none := by
  decide

/-! ## Methods that the direct strategy knows -/

namespace Direct

def arrayMethods : List String :=
  ["map", "filter", "reduce", "join", "push", "pop", "format", "at", "contains", "reverse", "sum"]

def stringMethods : List String := ["upper", "lower", "trim", "split", "contains", "format", "at"]

def objectMethods : List String := ["keys", "values", "at", "has", "set"]

variable (call : Value → List Value → Eval Value) (address : Nat) (name text : String) (args : List Value)

theorem isSome_arrayMethod? : (arrayMethod? call address name args).isSome = arrayMethods.contains name := by
  unfold arrayMethod?
  split
  case h_12 => simp_all [arrayMethods]
  all_goals rfl

theorem isSome_stringMethod? : (stringMethod? text name args).isSome = stringMethods.contains name := by
  unfold stringMethod?
  split
  case h_8 => simp_all [stringMethods]
  all_goals rfl

theorem isSome_objectMethod? : (objectMethod? address name args).isSome = objectMethods.contains name := by
  unfold objectMethod?
  split
  case h_6 => simp_all [objectMethods]
  all_goals rfl

def methodNames (receiver : TypeId) : List String :=
  if receiver = .array then arrayMethods
  else if receiver = .string then stringMethods
  else if receiver = .object then objectMethods
  else if receiver = .function then ["call"]
  else []

theorem isSome_method? {D : Dialect} {heap : Heap} {receiver : Value} (h : receiver.Basic D heap) :
    (method? call receiver name args).isSome = (methodNames receiver.base).contains name := by
  cases receiver with
  | array address => exact isSome_arrayMethod? call address name args
  | string text => exact isSome_stringMethod? name text args
  | object address => exact isSome_objectMethod? address name args
  | inst _ _ _ _ | function _ _ _ _ _ | constructor _ _ => exact h.elim
  | closure _ _ _ _ | generic _ =>
    by_cases hname : name = "call"
    · subst hname
      rfl
    · simp [method?, Value.isCallable, methodNames, Value.base, Value.tag, TypeId.function, TypeId.array,
        TypeId.string, TypeId.object, hname]
  | _ => rfl

theorem not_fits {D : Dialect} {heap : Heap} {receiver : Value} (hr : receiver.Basic D heap)
    (hargs : ∀ v ∈ args, v.Basic D heap) (h : method? call receiver name args = none) :
    builtinMethod? name ((receiver :: args).map Value.base) = none := by
  have hnames : ∀ e ∈ methodTable, ∀ m ∈ e.2, e.1 ∈ methodNames (baseType (m.signature.headD .any)) := by
    decide
  have hbases := basesOf_lt (List.forall_mem_cons.mpr ⟨hr, hargs⟩)
  rw [builtinMethod?, Option.map_eq_none_iff, Option.bind_eq_none_iff]
  intro methods hl
  refine List.find?_eq_none.mpr fun m hm hfits => ?_
  have hmem := Assoc.mem_of_lookup hl
  obtain ⟨hhead, -⟩ := (methodTable_builtin _ hmem m hm).of_fits hbases hfits
  have hname := hnames _ hmem m hm
  rw [← Option.some.inj hhead] at hname
  have hsome := isSome_method? call name args hr
  rw [h, Option.isSome_none, List.contains_iff_mem.mpr hname] at hsome
  exact Bool.false_ne_true hsome

end Direct

end DispatchLang
