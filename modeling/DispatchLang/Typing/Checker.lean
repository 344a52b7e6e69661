import DispatchLang.Node.Basic
import DispatchLang.Assoc
import DispatchLang.Typing.Finding

/-!
# The state of the type checker

A checker knows what the names of values, types, functions and alternatives mean, and keeps what it found
wrong and which types it inferred. Functions are generic functions whose methods have function types in
the place of bodies, so that a call is resolved as it would be when it runs.

Scopes and type variables are entered and left only by `inScope` and `withTypeVars`, which restore what
was there before.
-/

namespace DispatchLang

/-- The fields of an alternative, and the type it belongs to. -/
structure VariantInfo where
  /-- The type. -/
  type : TypeId
  /-- The fields. -/
  fields : FieldTypes

/-- The place of a node, as the ends of its text. -/
abbrev NodeKey : Type := Nat × Nat

def Span.key (span : Span) : NodeKey := (span.start, span.stop)

/-- What is known about names, and what was found so far. -/
structure Checker where
  /-- The types. -/
  arena : TypeArena
  /-- The types of values by name, the innermost scope first. -/
  scopes : List (List (String × TypeId))
  /-- The types by name. -/
  types : List (String × TypeId)
  /-- The functions by name. -/
  functions : List (String × GenericFunction TypeId)
  /-- The alternatives by name. -/
  variants : List (String × VariantInfo)
  /-- The type variables of the declarations around, by name. -/
  typeVars : TypeArena.Bindings
  /-- What was found wrong, the latest first. -/
  findings : List Finding
  /-- The inferred types by place, the latest first. -/
  inferred : List (NodeKey × TypeId)

/-- A step of the checker. It never fails. -/
abbrev Check (α : Type) : Type := StateM Checker α

namespace Check

variable {α : Type}

/-! ## What was found -/

/-- Notes that something is wrong. -/
def report (cause : FindingCause) (span : Span) : Check Unit :=
  modify fun c => { c with findings := ⟨cause, span⟩ :: c.findings }

/-- Notes the type of a node. -/
def record (span : Span) (type : TypeId) : Check Unit :=
  modify fun c => { c with inferred := (span.key, type) :: c.inferred }

/-! ## Scopes -/

/-- The type of a value, from the nearest scope that knows it. -/
def lookup (name : String) : Check (Option TypeId) :=
  return (← get).scopes.findSome? (·.lookup name)

/-- Binds a name in the innermost of some scopes. -/
def defineIn (name : String) (type : TypeId) :
    List (List (String × TypeId)) → List (List (String × TypeId))
  | [] => []
  | scope :: scopes => Assoc.insert name type scope :: scopes

/-- Rebinds a name in the nearest of some scopes that bind it, if one does. -/
def rebindIn? (name : String) (type : TypeId) :
    List (List (String × TypeId)) → Option (List (List (String × TypeId)))
  | [] => none
  | scope :: scopes =>
    if (scope.lookup name).isSome then some (Assoc.insert name type scope :: scopes)
    else (rebindIn? name type scopes).map (scope :: ·)

/-- Binds a name in the innermost scope. -/
def define (name : String) (type : TypeId) : Check Unit :=
  modify fun c => { c with scopes := defineIn name type c.scopes }

/-- Rebinds a name in the nearest scope that binds it, or binds it in the innermost one. -/
def assign (name : String) (type : TypeId) : Check Unit :=
  modify fun c =>
    { c with scopes := (rebindIn? name type c.scopes).getD (defineIn name type c.scopes) }

/-- Does something in a new scope, which is left afterwards. -/
def inScope (action : Check α) : Check α := do
  modify fun c => { c with scopes := [] :: c.scopes }
  let a ← action
  modify fun c => { c with scopes := c.scopes.tail }
  return a

/-! ## Types, functions and alternatives -/

/-- Does something to the types. -/
def modifyTypes (f : TypeArena → α × TypeArena) : Check α := modifyGet fun c =>
  let (a, arena) := f c.arena
  (a, { c with arena })

/-- The type that a name means outside all declarations. -/
def lookupType (name : String) : Check (Option TypeId) := return (← get).types.lookup name

/-- Lets a name mean a type. -/
def defineType (name : String) (type : TypeId) : Check Unit :=
  modify fun c => { c with types := Assoc.insert name type c.types }

def lookupFunction (name : String) : Check (Option (GenericFunction TypeId)) :=
  return (← get).functions.lookup name

def addMethod (name : String) (method : Method TypeId) : Check Unit :=
  modify fun c =>
    let f := (c.functions.lookup name).getD (.empty name true)
    { c with functions := Assoc.insert name (f.withMethod method) c.functions }

/-- The alternative with a name. -/
def lookupVariant (name : String) : Check (Option VariantInfo) :=
  return (← get).variants.lookup name

/-- Lets a name mean an alternative. -/
def defineVariant (name : String) (variant : VariantInfo) : Check Unit :=
  modify fun c => { c with variants := Assoc.insert name variant c.variants }

/-- Does something while the type variables of a declaration may be entered, and leaves them
afterwards. -/
def withTypeVars (action : Check α) : Check α := do
  let outer := (← get).typeVars
  let a ← action
  modify fun c => { c with typeVars := outer }
  return a

/-! ## Questions about types -/

/-- `isKnown` with a bound on the depth of the type. -/
def isKnownWithin (arena : TypeArena) : Nat → TypeId → Bool
  | 0, _ => false
  | n + 1, id =>
    if id = .any || arena.hasVars id then false
    else
      match (arena.get id).kind with
      | .applied _ args => args.all (isKnownWithin arena n)
      | _ => true

/-- Whether enough is known about a type to find something wrong with it: it is not the type above all
others, mentions no type variable, and the same holds for its arguments. -/
def isKnown (arena : TypeArena) (id : TypeId) : Bool := isKnownWithin arena (arena.size + 1) id

/-- What is known about a value of a type that may mention type variables. -/
def withoutVars (arena : TypeArena) (id : TypeId) : TypeId := if arena.hasVars id then .any else id

/-- Whether a value of one type may be used where another type is expected. -/
def compatible (arena : TypeArena) (actual expected : TypeId) : Bool :=
  !isKnown arena actual || arena.isSubtype actual expected

/-- The type of the result of calling something. -/
def resultOf (arena : TypeArena) (callee : TypeId) : TypeId :=
  match (arena.get callee).kind with
  | .function _ result => result
  | _ => .any

def commonType : List TypeId → TypeId
  | [] => .any
  | first :: rest => if rest.all (· = first) then first else .any

/-! ## The beginning -/

/-- The largest number of arguments with which printing is known. -/
def printLimit : Nat := 8

/-- Makes a built-in function known. -/
def builtin (name : String) (params : List TypeId) (result : TypeId) : Check Unit := do
  let type ← modifyTypes (·.function params result)
  addMethod name ⟨[], params, type⟩

/-- Makes all built-in functions known. -/
def builtins : Check Unit := do
  (List.range (printLimit + 1)).forM fun n => builtin "print" (List.replicate n .any) .nothing
  builtin "len" [.any] .int
  builtin "type" [.any] .string
  builtin "str" [.any] .string
  let ints ← modifyTypes (·.arrayOf .int)
  builtin "range" [.int] ints
  builtin "range" [.int, .int] ints
  builtin "eval" [.quoted] .any

end Check

namespace Checker

/-- A checker that knows only the built-in types. -/
def bare : Checker :=
  { arena := .initial
    scopes := [[]]
    types := builtinTypes.zipIdx.map fun (d, id) => (d.name, id)
    functions := []
    variants := []
    typeVars := []
    findings := []
    inferred := [] }

/-- The checker every session begins with. -/
def initial : Checker := (Check.builtins.run bare).2

end Checker

end DispatchLang
