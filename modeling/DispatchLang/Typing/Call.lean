import DispatchLang.Typing.Checker

/-!
# Checking fields, names and calls

Which type a field, a name or a call has. A call whose arguments are all known is resolved like at run
time; if only one method takes as many arguments and has no type variables, each argument is checked by
itself instead, so that every wrong one is reported; and if something is not known about the arguments,
the call has the type on which all methods with as many parameters agree.
-/

namespace DispatchLang.Check

/-! ## Names and fields -/

def nameType (name : String) (span : Span) : Check TypeId := do
  if let some type ← lookup name then
    return type
  else if (← lookupType name).isSome then
    return .type
  else if let some f ← lookupFunction name then
    match f.methods with
    | [only] => return only.implementation
    | _ => return .function
  else
    report (.undefinedVariable name) span
    return .any

def hasLength (arena : TypeArena) (type : TypeId) : Bool :=
  type = .array || type = .string || type = .object ||
    match (arena.get type).kind with
    | .applied base _ => base = .array
    | _ => false

def fieldType (owner : TypeId) (field : Located String) : Check TypeId := do
  let arena := (← get).arena
  if field.val = "length" && hasLength arena owner then return .int
  else
    let d := arena.get owner
    match d.kind with
    | .struct _ fields =>
      match fields.lookup field.val with
      | some type => return withoutVars arena type
      | none =>
        report (.typeWithoutField d.name field.val) field.span
        return .any
    | .variants _ alternatives =>
      match alternatives.filterMap (·.2.lookup field.val) with
      | [] =>
        report (.variantsWithoutField d.name field.val) field.span
        return .any
      | found => return withoutVars arena (commonType found)
    | _ => return .any

/-! ## Calls of functions -/

/-- Checks arguments against parameters one by one, the first of which has the given position. Every
argument has its place. -/
def checkArguments (function : String) :
    Nat → List (TypeId × Span) → List TypeId → Check Unit
  | position, (actual, span) :: args, expected :: params => do
    let arena := (← get).arena
    if !compatible arena actual expected then
      report (.mismatch (.argument position function) (arena.name expected) (arena.name actual)) span
    checkArguments function (position + 1) args params
  | _, _, _ => return

/-- What is wrong with a number of arguments that no method takes. -/
def arityCause (f : GenericFunction TypeId) (given : Nat) : FindingCause :=
  match f.methods.map (·.signature.length) with
  | [] => .noSuchArity f.name given
  | n :: rest => if rest.all (· = n) then .wrongArity f.name n given else .noSuchArity f.name given

def resolvedType (f : GenericFunction TypeId) (args : List TypeId) (span : Span) :
    Check TypeId := do
  match ← modifyTypes (choose f.name f.methods args) with
  | .ok r =>
    let result := resultOf (← get).arena r.method.implementation
    let type ← modifyTypes (·.substitute r.bindings result)
    return withoutVars (← get).arena type
  | .error e =>
    report (.unresolved e) span
    return .any

/-- The type of a call. Every argument has its place; the call itself is reported at `span`. -/
def callType (f : GenericFunction TypeId) (args : List (TypeId × Span)) (span : Span) :
    Check TypeId := do
  let arena := (← get).arena
  let byArguments : Check TypeId :=
    if (args.map Prod.fst).all (isKnown arena) then resolvedType f (args.map Prod.fst) span
    else
      let results := f.methods.filterMap fun m =>
        if m.signature.length = args.length then some (resultOf arena m.implementation) else none
      return withoutVars arena (commonType results)
  match f.methods.filter (·.signature.length = args.length) with
  | [] =>
    report (arityCause f args.length) span
    return .any
  | [only] =>
    if only.typeVars.isEmpty then
      checkArguments f.name 1 args only.signature
      return resultOf arena only.implementation
    else byArguments
  | _ => byArguments

def namedCallType (name : String) (args : List (TypeId × Span)) (span : Span) :
    Check TypeId := do
  match ← lookupFunction name with
  | some f => callType f args span
  | none =>
    if (← lookupType name).isSome then report (.typeNotCallable name) span
    else report (.undefinedFunction name) span
    return .any

/-! ## Calls of methods -/

def arrayMethod? (receiver element : TypeId) (name : String) :
    Option (List TypeId → Check TypeId) :=
  let callbackResult (args : List TypeId) : Check TypeId := do
    match args with
    | [] => return .any
    | f :: _ =>
      let arena := (← get).arena
      return withoutVars arena (resultOf arena f)
  match name with
  | "map" => some fun args => do
    let result ← callbackResult args
    modifyTypes (·.arrayOf result)
  | "reduce" => some callbackResult
  | "filter" | "reverse" | "push" => some fun _ => return receiver
  | "pop" | "at" => some fun _ => return element
  | "join" | "format" => some fun _ => return .string
  | "contains" => some fun _ => return .boolean
  | "sum" => some fun _ =>
    return if element = .int || element = .float then element else .number
  | _ => none

/-- The type of a call of a built-in method of strings. -/
def stringMethod? (name : String) : Option (List TypeId → Check TypeId) :=
  match name with
  | "upper" | "lower" | "trim" | "format" | "at" => some fun _ => return .string
  | "split" => some fun _ => modifyTypes (·.arrayOf .string)
  | "contains" => some fun _ => return .boolean
  | _ => none

/-- The type of a call of a built-in method of objects. -/
def objectMethod? (name : String) : Option (List TypeId → Check TypeId) :=
  match name with
  | "keys" => some fun _ => modifyTypes (·.arrayOf .string)
  | "values" => some fun _ => modifyTypes (·.arrayOf .any)
  | "at" => some fun _ => return .any
  | "has" => some fun _ => return .boolean
  | "set" => some fun _ => return .object
  | _ => none

def elementOf? (arena : TypeArena) (type : TypeId) : Option TypeId :=
  match (arena.get type).kind with
  | .applied base (element :: _) => if base = .array then some element else none
  | _ => if type = .array then some .any else none

def isFunctionType (arena : TypeArena) (type : TypeId) : Bool :=
  type = .function ||
    match (arena.get type).kind with
    | .function _ _ => true
    | _ => false

/-- The type of a call of a built-in method, if the receiver has one with the name. -/
def builtinMethod? (arena : TypeArena) (receiver : TypeId) (name : String) :
    Option (List TypeId → Check TypeId) :=
  match elementOf? arena receiver with
  | some element => arrayMethod? receiver element name
  | none =>
    if receiver = .string then stringMethod? name
    else if receiver = .object then objectMethod? name
    else if isFunctionType arena receiver && name = "call" then
      some fun _ => return resultOf (← get).arena receiver
    else none

/-- How a method call gets its type from those of its arguments, which all have places: by a built-in
method, by a field that the receiver declares, by a function that takes the receiver as first argument,
or not at all. This is decided before the arguments are looked at. -/
def methodType (receiver : TypeId) (method : Located String) :
    Check (List (TypeId × Span) → Check TypeId) := do
  let arena := (← get).arena
  match builtinMethod? arena receiver method.val with
  | some type => return fun args => type (args.map Prod.fst)
  | none =>
    match (arena.get receiver).field? method.val with
    | some field => return fun _ => return resultOf (← get).arena field
    | none =>
      if (← lookupFunction method.val).isSome then
        return fun args => namedCallType method.val ((receiver, method.span) :: args) method.span
      else return fun _ => return .any

end DispatchLang.Check
