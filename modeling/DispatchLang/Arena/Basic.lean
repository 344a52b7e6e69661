/-!
# Type arenas

An arena owns the descriptors of all types of one session. A type is the index of its descriptor, so two
types are the same exactly if their indices are. Nominal types get a fresh index for every declaration;
applied types, type variables and function types are *interned*: asked for twice with the same parts, the
arena answers the same index.

New descriptors are only ever appended, and the parts of an interned type are older than the type
itself, so the recursive operations below need no more steps than there are types.
-/

namespace DispatchLang

/-! ## Descriptors -/

/-- A type: the index of its descriptor in an arena. -/
abbrev TypeId : Type := Nat

abbrev FieldTypes : Type := List (String × TypeId)

/-- What kind of type a descriptor describes. -/
inductive TypeKind where
  /-- The type above all others. -/
  | any
  /-- A type without instances of its own. -/
  | abstract
  /-- A type whose instances have no declared fields. -/
  | concrete
  /-- A type applied to arguments. -/
  | applied (base : TypeId) (args : List TypeId)
  /-- A type variable, which stands for the types below its constraint. -/
  | var (constraint : TypeId)
  /-- A type whose instances are of one of some alternatives. -/
  | variants (params : List String) (alternatives : List (String × FieldTypes))
  /-- A type whose instances have the given fields. -/
  | struct (params : List String) (fields : FieldTypes)
  /-- A type of functions. -/
  | function (params : List TypeId) (result : TypeId)
deriving DecidableEq

def TypeKind.name : TypeKind → String
  | .any => "any"
  | .abstract => "abstract"
  | .concrete => "concrete"
  | .applied _ _ => "parametric"
  | .var _ => "typevar"
  | .variants _ _ => "adt"
  | .struct _ _ => "struct"
  | .function _ _ => "function"

/-- A type descriptor. -/
structure TypeDef where
  /-- How the type is shown. -/
  name : String
  /-- What kind of type it is. -/
  kind : TypeKind
  /-- The type right above it. -/
  parent : Option TypeId
deriving DecidableEq

namespace TypeDef

def field? (d : TypeDef) (name : String) : Option TypeId :=
  match d.kind with
  | .struct _ fields => fields.lookup name
  | _ => none

/-- The fields of an alternative. -/
def variant? (d : TypeDef) (name : String) : Option FieldTypes :=
  match d.kind with
  | .variants _ alternatives => alternatives.lookup name
  | _ => none

/-- Whether a type has no instances of its own. -/
def isAbstract (d : TypeDef) : Bool :=
  match d.kind with
  | .abstract | .any => true
  | _ => false

end TypeDef

/-! ## The types every arena begins with -/

namespace TypeId

/-- The type above all others. -/
def any : TypeId := 0
def number : TypeId := 1
/-- The type of integers. -/
def int : TypeId := 2
/-- The type of floating-point numbers. -/
def float : TypeId := 3
def string : TypeId := 4
/-- The type of truth values. -/
def boolean : TypeId := 5
/-- The type of the missing value. -/
def nothing : TypeId := 6
def array : TypeId := 7
def object : TypeId := 8
/-- The type of everything that can be called. -/
def function : TypeId := 9
/-- The type of quoted program trees. -/
def quoted : TypeId := 10
def type : TypeId := 11

end TypeId

/-- The descriptors every arena begins with, by index. -/
def builtinTypes : List TypeDef :=
  [⟨"Any", .any, none⟩,
   ⟨"Number", .abstract, some .any⟩,
   ⟨"Int", .concrete, some .number⟩,
   ⟨"Float", .concrete, some .number⟩,
   ⟨"String", .concrete, some .any⟩,
   ⟨"Boolean", .concrete, some .any⟩,
   ⟨"Nothing", .concrete, some .any⟩,
   ⟨"Array", .concrete, some .any⟩,
   ⟨"Object", .concrete, some .any⟩,
   ⟨"Function", .concrete, some .any⟩,
   ⟨"Quoted", .concrete, some .any⟩,
   ⟨"Type", .concrete, some .any⟩]

/-! ## Arenas -/

/-- An owner of types. -/
structure TypeArena where
  /-- The descriptors, by index. -/
  types : Array TypeDef
  /-- The applied types by base and arguments. -/
  appliedIndex : List ((TypeId × List TypeId) × TypeId)
  /-- The type variables by name and constraint. -/
  varIndex : List ((String × TypeId) × TypeId)
  /-- The function types by parameters and result. -/
  functionIndex : List ((List TypeId × TypeId) × TypeId)

namespace TypeArena

/-- The arena every session begins with. -/
def initial : TypeArena := ⟨builtinTypes.toArray, [], [], []⟩

/-- The number of types. -/
def size (arena : TypeArena) : Nat := arena.types.size

/-- The descriptor of a type. -/
def get (arena : TypeArena) (id : TypeId) : TypeDef :=
  arena.types[id]?.getD ⟨"Any", .any, none⟩

/-- How a type is shown. -/
def name (arena : TypeArena) (id : TypeId) : String := (arena.get id).name

/-- How several types are shown. -/
def names (arena : TypeArena) (ids : List TypeId) : List String := ids.map arena.name

/-- Adds a type and answers its index. -/
def add (arena : TypeArena) (d : TypeDef) : TypeId × TypeArena :=
  (arena.size, { arena with types := arena.types.push d })

/-- Replaces the descriptor of a type. -/
def redefine (arena : TypeArena) (id : TypeId) (d : TypeDef) : TypeArena :=
  { arena with types := arena.types.setIfInBounds id d }

/-- The type `base[args]`, right below `base`. -/
def applied (arena : TypeArena) (base : TypeId) (args : List TypeId) : TypeId × TypeArena :=
  match arena.appliedIndex.lookup (base, args) with
  | some id => (id, arena)
  | none =>
    let shown := arena.name base ++ "[" ++ ", ".intercalate (arena.names args) ++ "]"
    let (id, arena) := arena.add ⟨shown, .applied base args, some base⟩
    (id, { arena with appliedIndex := ((base, args), id) :: arena.appliedIndex })

def arrayOf (arena : TypeArena) (element : TypeId) : TypeId × TypeArena :=
  arena.applied .array [element]

def var (arena : TypeArena) (name : String) (constraint : TypeId) : TypeId × TypeArena :=
  match arena.varIndex.lookup (name, constraint) with
  | some id => (id, arena)
  | none =>
    let (id, arena) := arena.add ⟨name, .var constraint, none⟩
    (id, { arena with varIndex := ((name, constraint), id) :: arena.varIndex })

def function (arena : TypeArena) (params : List TypeId) (result : TypeId) :
    TypeId × TypeArena :=
  match arena.functionIndex.lookup (params, result) with
  | some id => (id, arena)
  | none =>
    let shown := "(" ++ ", ".intercalate (arena.names params) ++ ") -> " ++ arena.name result
    let (id, arena) := arena.add ⟨shown, .function params result, some .function⟩
    (id, { arena with functionIndex := ((params, result), id) :: arena.functionIndex })

/-! ## Parent chains -/

/-- The first `n` types of the chain of parents from `id` on. -/
def chain (arena : TypeArena) : Nat → TypeId → List TypeId
  | 0, _ => []
  | n + 1, id =>
    id :: match (arena.get id).parent with
      | none => []
      | some parent => arena.chain n parent

/-- A type, its parent, the parent of that, and so on. -/
def ancestors (arena : TypeArena) (id : TypeId) : List TypeId := arena.chain (arena.size + 1) id

/-- The lowest type that is on the chains of both types, or the type above all others. -/
def join (arena : TypeArena) (a b : TypeId) : TypeId :=
  if a = b then a
  else
    let left := arena.ancestors a
    ((arena.ancestors b).find? left.contains).getD .any

/-! ## Type variables -/

/-- The types that stand for type variables, by name. -/
abbrev Bindings : Type := List (String × TypeId)

/-- `hasVars` with a bound on the depth of the type. -/
def hasVarsWithin (arena : TypeArena) : Nat → TypeId → Bool
  | 0, _ => false
  | n + 1, id =>
    match (arena.get id).kind with
    | .var _ => true
    | .applied _ args => args.any (arena.hasVarsWithin n)
    | .function params result =>
      params.any (arena.hasVarsWithin n) || arena.hasVarsWithin n result
    | _ => false

/-- Whether a type mentions a type variable. -/
def hasVars (arena : TypeArena) (id : TypeId) : Bool := arena.hasVarsWithin (arena.size + 1) id

/-- Applies an operation that may add types to one type after another. -/
def mapTypes (f : TypeId → TypeArena → TypeId × TypeArena) :
    List TypeId → TypeArena → List TypeId × TypeArena
  | [], arena => ([], arena)
  | id :: ids, arena =>
    let (image, arena) := f id arena
    let (images, arena) := mapTypes f ids arena
    (image :: images, arena)

/-- `substitute` with a bound on the depth of the type. -/
def substituteWithin (bindings : Bindings) : Nat → TypeId → TypeArena → TypeId × TypeArena
  | 0, id, arena => (id, arena)
  | n + 1, id, arena =>
    match (arena.get id).kind with
    | .var _ => ((bindings.lookup (arena.name id)).getD id, arena)
    | .applied base args =>
      let (args, arena) := mapTypes (substituteWithin bindings n) args arena
      arena.applied base args
    | .function params result =>
      let (params, arena) := mapTypes (substituteWithin bindings n) params arena
      let (result, arena) := substituteWithin bindings n result arena
      arena.function params result
    | _ => (id, arena)

/-- Puts the bound types in the place of their variables, adding the types that arise. -/
def substitute (arena : TypeArena) (bindings : Bindings) (id : TypeId) : TypeId × TypeArena :=
  substituteWithin bindings (arena.size + 1) id arena

end TypeArena

end DispatchLang
