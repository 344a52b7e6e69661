import DispatchLang.Source.Span

/-!
# Program trees

A program is a list of *nodes*, one for each statement; statements are expressions. Every node carries
the span of the text it was read from. Patterns are nodes as well: captures, names, literals and
constructions of patterns.

`Node.pair` stands for `key: value`. The grammar uses it while it reads a list and turns it into an
object before the list is done. Only the elements of the list themselves are looked at, so a pair that ends
an assignment, as in `[x := a: 1]`, is left over.
-/

namespace DispatchLang

/-! ## Operators -/

/-- The operators with two operands. -/
inductive BinaryOp where
  | add | sub | mul | div | mod | pow
  | eq | ne | lt | gt | le | ge
  | and | or
deriving DecidableEq

namespace BinaryOp

/-- How an operator is written. -/
def text : BinaryOp → String
  | .add => "+"
  | .sub => "-"
  | .mul => "*"
  | .div => "/"
  | .mod => "%"
  | .pow => "^"
  | .eq => "=="
  | .ne => "!="
  | .lt => "<"
  | .gt => ">"
  | .le => "<="
  | .ge => ">="
  | .and => "&&"
  | .or => "||"

/-- Whether an operator compares two values. -/
def isComparison : BinaryOp → Bool
  | .eq | .ne | .lt | .gt | .le | .ge => true
  | _ => false

/-- Whether an operator looks at its second operand only if the first leaves the answer open. -/
def isLogical : BinaryOp → Bool
  | .and | .or => true
  | _ => false

/-- All operators. -/
def all : List BinaryOp :=
  [.add, .sub, .mul, .div, .mod, .pow, .eq, .ne, .lt, .gt, .le, .ge, .and, .or]

/-- The operator written in the given way. -/
def ofText? (text : String) : Option BinaryOp := all.find? (·.text = text)

end BinaryOp

/-- The operators with one operand. -/
inductive UnaryOp where
  | neg | not
deriving DecidableEq

/-- How an operator is written. -/
def UnaryOp.text : UnaryOp → String
  | .neg => "-"
  | .not => "!"

/-! ## Types as they are written -/

/-- A type as it is written: a name, perhaps with arguments in brackets. -/
inductive TypeExpr where
  /-- A name alone. -/
  | named (span : Span) (name : String)
  /-- A name with arguments. -/
  | applied (span : Span) (name : String) (args : List TypeExpr)

namespace TypeExpr

/-- Where a written type stands. -/
def span : TypeExpr → Span
  | .named span _ | .applied span _ _ => span

/-- The name at the head of a written type. -/
def name : TypeExpr → String
  | .named _ name | .applied _ name _ => name

mutual

def text : TypeExpr → String
  | .named _ name => name
  | .applied _ name args => name ++ "[" ++ ", ".intercalate (texts args) ++ "]"

/-- The texts of several written types. -/
def texts : List TypeExpr → List String
  | [] => []
  | arg :: args => text arg :: texts args

end

end TypeExpr

/-! ## Declarations -/

/-- A parameter of a function or a closure. -/
structure Param where
  /-- Its name. -/
  name : Located String
  /-- The type it is declared with. -/
  annotation : Option TypeExpr

/-- A type parameter of a declaration. -/
structure TypeParam where
  /-- Its name. -/
  name : Located String
  /-- The type that every argument has to be below. -/
  constraint : Option TypeExpr

/-- A field of a declared type. -/
structure FieldDecl where
  /-- Its name. -/
  name : Located String
  /-- The type of its values. -/
  type : TypeExpr

/-- One of the alternatives of a declared type. -/
structure VariantDecl where
  /-- Its name. -/
  name : Located String
  /-- What an instance of it holds. -/
  fields : List FieldDecl

/-- What a type declaration says about the instances of the type. -/
inductive TypeBody where
  /-- There are none but those of types below it. -/
  | abstract
  /-- Nothing more. -/
  | concrete
  /-- They have the given fields. -/
  | struct (fields : List FieldDecl)
  /-- They are of one of the given alternatives. -/
  | variants (alternatives : List VariantDecl)

structure TypeDecl where
  /-- The name of the type. -/
  name : Located String
  /-- Its type parameters. -/
  typeParams : List TypeParam
  /-- The type it is placed below. -/
  parent : Option TypeExpr
  /-- What its instances look like. -/
  body : TypeBody

/-- A function declaration without the body of the function. -/
structure FunctionHead where
  /-- The name of the function. -/
  name : Located String
  /-- Its type parameters. -/
  typeParams : List TypeParam
  /-- Its parameters. -/
  params : List Param

/-! ## Nodes -/

/-- A value that stands in the program. -/
inductive Literal where
  | int (value : Int64)
  | float (value : Float)
  | string (value : String)
  | bool (value : Bool)

/-- An expression, a pattern or a declaration, with the place it was read from. -/
inductive Node where
  /-- A literal. -/
  | literal (span : Span) (value : Literal)
  /-- A name. -/
  | ident (span : Span) (name : String)
  /-- `left op right`. -/
  | binary (span : Span) (op : BinaryOp) (left right : Node)
  /-- `op operand`. -/
  | unary (span : Span) (op : UnaryOp) (operand : Node)
  /-- `target := value`, where the target is a name or a pattern. -/
  | assign (span : Span) (target value : Node)
  /-- `object.field`. -/
  | field (span : Span) (object : Node) (field : Located String)
  /-- `function(args)`. -/
  | call (span : Span) (function : Located String) (args : List Node)
  /-- `receiver.method(args)`. -/
  | send (span : Span) (receiver : Node) (method : Located String) (args : List Node)
  /-- `{ params | body }`. -/
  | block (span : Span) (params : List Param) (body : List Node)
  /-- `match scrutinee { pattern => body, … }`. -/
  | cases (span : Span) (scrutinee : Node) (arms : List (Node × Node))
  /-- `name { field: value, … }`. -/
  | construct (span : Span) (name : Located String) (fields : List (Located String × Node))
  /-- A type declaration. -/
  | typeDecl (span : Span) (decl : TypeDecl)
  /-- A function declaration. -/
  | function (span : Span) (head : FunctionHead) (body : Node)
  /-- `?name` or `?`, which matches everything. -/
  | capture (span : Span) (name : Option String)
  /-- `?name pattern` or `? pattern`, which matches what the pattern matches. -/
  | refine (span : Span) (name : Option String) (pattern : Node)
  /-- `#body`, which stands for the tree of the body. -/
  | quoted (span : Span) (body : Node)
  /-- `[element, …]`. -/
  | array (span : Span) (elements : List Node)
  /-- `[key: value, …]`. -/
  | object (span : Span) (entries : List (Located String × Node))
  /-- `key: value`. -/
  | pair (span : Span) (key value : Node)

namespace Node

/-- Where a node stands. -/
def span : Node → Span
  | .literal span _ | .ident span _ | .binary span _ _ _ | .unary span _ _ | .assign span _ _
  | .field span _ _ | .call span _ _ | .send span _ _ _ | .block span _ _ | .cases span _ _
  | .construct span _ _ | .typeDecl span _ | .function span _ _ | .capture span _
  | .refine span _ _ | .quoted span _ | .array span _ | .object span _ | .pair span _ _ => span

mutual

def holdsCapture : Node → Bool
  | .capture _ _ | .refine _ _ _ => true
  | .construct _ _ fields => fieldsHoldCapture fields
  | _ => false

def fieldsHoldCapture : List (Located String × Node) → Bool
  | [] => false
  | (_, value) :: fields => holdsCapture value || fieldsHoldCapture fields

end

/-- Whether a node can be assigned to: it is a name or a pattern that binds or tests something. -/
def isTarget : Node → Bool
  | .ident _ _ => true
  | .construct span name fields => holdsCapture (.construct span name fields)
  | _ => false

end Node

/-- A program: its statements in order. -/
abbrev Program := List Node

end DispatchLang
