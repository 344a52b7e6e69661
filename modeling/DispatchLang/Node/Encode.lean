import DispatchLang.Json
import DispatchLang.Node.Basic

/-!
# Program trees as data

The JSON form of program trees that tools read. A node is an object with the fields `node` and `span`;
the object under `node` names its kind first. How floating-point literals are written is left to the
caller.
-/

namespace DispatchLang

def Span.toJson (s : Span) : Json :=
  .obj [("start", .int s.start), ("end", .int s.stop), ("line", .int s.line),
    ("column", .int s.column)]

namespace Node

/-- Something with its span. -/
def locatedJson (inner : Json) (span : Span) : Json :=
  .obj [("node", inner), ("span", span.toJson)]

/-- A name with its span. -/
def nameJson (name : Located String) : Json := locatedJson (.str name.val) name.span

mutual

/-- A written type. -/
def typeJson : TypeExpr → Json
  | .named span name => locatedJson (.obj [("Named", .str name)]) span
  | .applied span name args =>
    locatedJson (.obj [("Applied", .obj [("name", .str name), ("args", .arr (typesJson args))])]) span

/-- Several written types. -/
def typesJson : List TypeExpr → List Json
  | [] => []
  | type :: types => typeJson type :: typesJson types

end

def paramJson (p : Param) : Json :=
  .obj [("name", nameJson p.name), ("annotation", .option typeJson p.annotation)]

def typeParamJson (p : TypeParam) : Json :=
  .obj [("name", nameJson p.name), ("constraint", .option typeJson p.constraint)]

def fieldDeclJson (f : FieldDecl) : Json :=
  .obj [("name", nameJson f.name), ("ty", typeJson f.type)]

/-- What a type declaration says about the instances. -/
def typeBodyJson : TypeBody → Json
  | .abstract => .str "Abstract"
  | .concrete => .str "Concrete"
  | .struct fields => .obj [("Struct", .obj [("fields", .list fieldDeclJson fields)])]
  | .variants alternatives =>
    let one (v : VariantDecl) : Json :=
      .obj [("name", nameJson v.name), ("fields", .list fieldDeclJson v.fields)]
    .obj [("Adt", .obj [("variants", .list one alternatives)])]

def typeDeclJson (decl : TypeDecl) : Json :=
  .obj [("name", nameJson decl.name), ("type_params", .list typeParamJson decl.typeParams),
    ("parent", .option typeJson decl.parent), ("body", typeBodyJson decl.body)]

/-- The name of an operator. -/
def binaryOpName : BinaryOp → String
  | .add => "Add"
  | .sub => "Sub"
  | .mul => "Mul"
  | .div => "Div"
  | .mod => "Mod"
  | .pow => "Pow"
  | .eq => "Eq"
  | .ne => "Neq"
  | .lt => "Lt"
  | .gt => "Gt"
  | .le => "LtEq"
  | .ge => "GtEq"
  | .and => "And"
  | .or => "Or"

/-- The name of an operator. -/
def unaryOpName : UnaryOp → String
  | .neg => "Neg"
  | .not => "Not"

def literalJson (float : Float → Json) (value : Literal) : Json :=
  let (type, value) : String × Json :=
    match value with
    | .int value => ("Int", .int value.toInt)
    | .float value => ("Float", float value)
    | .string value => ("String", .str value)
    | .bool value => ("Boolean", .bool value)
  .obj [("type", .str type), ("value", value)]

mutual

def toJson (float : Float → Json) : Node → Json
  | .literal span value =>
    locatedJson (.obj [("kind", .str "literal"), ("value", literalJson float value)]) span
  | .ident span name =>
    locatedJson (.obj [("kind", .str "identifier"), ("name", .str name)]) span
  | .binary span op left right =>
    locatedJson (.obj [("kind", .str "binaryOp"), ("op", .str (binaryOpName op)),
      ("left", toJson float left), ("right", toJson float right)]) span
  | .unary span op operand =>
    locatedJson (.obj [("kind", .str "unaryOp"), ("op", .str (unaryOpName op)),
      ("operand", toJson float operand)]) span
  | .assign span target value =>
    locatedJson (.obj [("kind", .str "assignment"), ("target", toJson float target),
      ("value", toJson float value)]) span
  | .field span subject member =>
    locatedJson (.obj [("kind", .str "fieldAccess"), ("object", toJson float subject),
      ("field", nameJson member)]) span
  | .call span callee args =>
    locatedJson (.obj [("kind", .str "methodCall"), ("receiver", .null),
      ("method", nameJson callee), ("args", .arr (listJson float args))]) span
  | .send span receiver method args =>
    locatedJson (.obj [("kind", .str "methodCall"), ("receiver", toJson float receiver),
      ("method", nameJson method), ("args", .arr (listJson float args))]) span
  | .block span params body =>
    locatedJson (.obj [("kind", .str "block"), ("params", .list paramJson params),
      ("body", .arr (listJson float body))]) span
  | .cases span scrutinee arms =>
    locatedJson (.obj [("kind", .str "matchExpression"), ("scrutinee", toJson float scrutinee),
      ("arms", .arr (armsJson float arms))]) span
  | .construct span name fields =>
    locatedJson (.obj [("kind", .str "typeInstance"), ("name", nameJson name),
      ("fields", .arr (entriesJson float fields))]) span
  | .typeDecl span decl =>
    locatedJson (.obj [("kind", .str "typeDeclaration"), ("decl", typeDeclJson decl)]) span
  | .function span head body =>
    locatedJson (.obj [("kind", .str "functionDeclaration"),
      ("decl", .obj [("name", nameJson head.name),
        ("type_params", .list typeParamJson head.typeParams),
        ("params", .list paramJson head.params), ("body", toJson float body)])]) span
  | .capture span name =>
    locatedJson (.obj [("kind", .str "capturePattern"), ("name", .option .str name),
      ("pattern", .null)]) span
  | .refine span name pattern =>
    locatedJson (.obj [("kind", .str "capturePattern"), ("name", .option .str name),
      ("pattern", toJson float pattern)]) span
  | .quoted span body =>
    locatedJson (.obj [("kind", .str "quotedForm"), ("body", toJson float body)]) span
  | .array span elements =>
    locatedJson (.obj [("kind", .str "array"), ("elements", .arr (listJson float elements))]) span
  | .object span entries =>
    locatedJson (.obj [("kind", .str "object"), ("entries", .arr (entriesJson float entries))]) span
  | .pair span key value =>
    locatedJson (.obj [("kind", .str "keyValue"), ("key", toJson float key),
      ("value", toJson float value)]) span

/-- Several nodes. -/
def listJson (float : Float → Json) : List Node → List Json
  | [] => []
  | node :: nodes => toJson float node :: listJson float nodes

/-- Match arms. -/
def armsJson (float : Float → Json) : List (Node × Node) → List Json
  | [] => []
  | (pattern, body) :: arms =>
    .obj [("pattern", toJson float pattern), ("body", toJson float body)] :: armsJson float arms

/-- Fields or entries. -/
def entriesJson (float : Float → Json) : List (Located String × Node) → List Json
  | [] => []
  | (name, value) :: entries =>
    .arr [nameJson name, toJson float value] :: entriesJson float entries

end

end Node

end DispatchLang
