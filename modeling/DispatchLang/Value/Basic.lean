import DispatchLang.Arena.Basic
import DispatchLang.Node.Basic
import DispatchLang.Number.Basic
import DispatchLang.Scope

/-!
# Values

What programs compute with. Arrays and objects are shared: a value only holds the address of a cell in
the heap, and everyone who has the address sees what is stored there. Closures and functions hold the
scope they were made in. All other values are what they are.

Things that are told apart by identity rather than by content carry a number of their own: closures,
functions and constructors. Types are identified by their place in the arena.
-/

namespace DispatchLang

/-! ## Values -/

/-- What builds an instance of an alternative with fields. -/
structure Constructor where
  /-- The type of the instance. -/
  type : TypeId
  /-- The name of the type. -/
  typeName : String
  /-- The name of the alternative. -/
  variant : String
  /-- The fields, in order. -/
  fields : FieldTypes

inductive Value where
  /-- The missing value. -/
  | nothing
  /-- An integer. -/
  | int (value : Int64)
  /-- A floating-point number. -/
  | float (value : Float)
  /-- A string. -/
  | string (value : String)
  /-- A truth value. -/
  | bool (value : Bool)
  /-- An array, by its address. -/
  | array (address : Nat)
  /-- An object, by its address. -/
  | object (address : Nat)
  /-- An instance of a declared type, of one of its alternatives if it has some. -/
  | inst (type : TypeId) (typeName : String) (variant : Option String)
      (fields : List (String × Value))
  /-- A block with the scope it was written in. -/
  | closure (id : Nat) (params : List String) (body : List Node) (scope : ScopeId)
  /-- A declared function with the scope of its declaration. -/
  | function (id : Nat) (name : String) (params : List String) (body : Node) (scope : ScopeId)
  /-- A function that is known by its name. -/
  | generic (name : String)
  /-- A constructor. -/
  | constructor (id : Nat) (constructor : Constructor)
  /-- A type. -/
  | typeRef (id : TypeId) (name : String)
  /-- A quoted program tree. -/
  | quoted (body : Node)

namespace Value

def ofLiteral : Literal → Value
  | .int value => .int value
  | .float value => .float value
  | .string value => .string value
  | .bool value => .bool value

def number? : Value → Option Number
  | .int value => some (.int value)
  | .float value => some (.float value)
  | _ => none

def ofNumber : Number → Value
  | .int value => .int value
  | .float value => .float value

def ofCount (n : Nat) : Value := .int (Int64.ofNat n)

/-- Whether a value can be called. -/
def isCallable : Value → Bool
  | .closure _ _ _ _ | .function _ _ _ _ _ | .generic _ | .constructor _ _ => true
  | _ => false

end Value

/-! ## The heap -/

/-- What is stored at an address. -/
inductive Cell where
  /-- The elements of an array, and the type the array was built with. -/
  | array (items : Array Value) (type : TypeId)
  /-- The entries of an object, in the order of their first insertion. -/
  | object (entries : List (String × Value))

/-- The cells in use, by address. -/
structure Heap where
  /-- The cells. -/
  cells : Array Cell

namespace Heap

/-- The heap without cells. -/
def empty : Heap := ⟨#[]⟩

/-- The number of cells. -/
def size (heap : Heap) : Nat := heap.cells.size

/-- Stores something in a new cell. -/
def alloc (heap : Heap) (cell : Cell) : Nat × Heap := (heap.size, ⟨heap.cells.push cell⟩)

/-- The elements of an array. -/
def items (heap : Heap) (address : Nat) : Array Value :=
  match heap.cells[address]? with
  | some (.array items _) => items
  | _ => #[]

def arrayType (heap : Heap) (address : Nat) : TypeId :=
  match heap.cells[address]? with
  | some (.array _ type) => type
  | _ => .any

/-- The entries of an object. -/
def entries (heap : Heap) (address : Nat) : List (String × Value) :=
  match heap.cells[address]? with
  | some (.object entries) => entries
  | _ => []

/-- Changes the elements of an array, which keeps its type. -/
def modifyItems (heap : Heap) (address : Nat) (f : Array Value → Array Value) : Heap :=
  ⟨heap.cells.modify address fun
    | .array items type => .array (f items) type
    | cell => cell⟩

/-- Stores a value under a key of an object: in the place of the earlier one, or else at the end. -/
def setEntry (heap : Heap) (address : Nat) (key : String) (value : Value) : Heap :=
  ⟨heap.cells.modify address fun
    | .object entries => .object (Assoc.insert key value entries)
    | cell => cell⟩

end Heap

namespace Value

def tag (heap : Heap) : Value → TypeId
  | .nothing => .nothing
  | .int _ => .int
  | .float _ => .float
  | .string _ => .string
  | .bool _ => .boolean
  | .array address => heap.arrayType address
  | .object _ => .object
  | .inst type _ _ _ => type
  | .closure _ _ _ _ | .function _ _ _ _ _ | .generic _ | .constructor _ _ => .function
  | .typeRef _ _ => .type
  | .quoted _ => .quoted

/-- The number of parts of a value that has a length. -/
def length? (heap : Heap) : Value → Option Nat
  | .array address => some (heap.items address).size
  | .string value => some value.length
  | .object address => some (heap.entries address).length
  | _ => none

def ownField? (heap : Heap) (name : String) : Value → Option Value
  | .inst _ _ _ fields => fields.lookup name
  | .object address => (heap.entries address).lookup name
  | _ => none

end Value

end DispatchLang
