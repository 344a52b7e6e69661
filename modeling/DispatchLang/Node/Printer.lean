import DispatchLang.Node.Basic
import DispatchLang.Text.Escape
import DispatchLang.Token.Scan

/-!
# Printing programs

The text of a program tree, in one of two layouts. The *spread* layout gives every statement of a block
and every arm of a match a line of its own; the *inline* layout puts everything on one line, with
semicolons and commas in place of the line breaks.

Parentheses are put by precedence: a form is enclosed when the place it stands in asks for something
that binds more tightly. In the spread layout a line that begins with a symbol that could continue the
line before gets a semicolon in front of it, at the end of that line.
-/

namespace DispatchLang

/-! ## Layouts -/

/-- How a tree is laid out. -/
inductive Layout where
  /-- All on one line. -/
  | inline
  /-- One statement on a line, inside the given number of enclosing levels. -/
  | spread (depth : Nat)

namespace Layout

/-- The beginning of a line. -/
def margin : Layout → String
  | .inline => ""
  | .spread depth => String.ofList (List.replicate (4 * depth) ' ')

/-- The layout one level further in. -/
def deeper : Layout → Layout
  | .inline => .inline
  | .spread depth => .spread (depth + 1)

/-- Whether a block of `n` statements is broken into lines. -/
def breaks (layout : Layout) (n : Nat) : Bool :=
  match layout with
  | .inline => false
  | .spread _ => 1 < n

def ofStatements (layout : Layout) (n : Nat) : Layout :=
  if layout.breaks n then layout.deeper else layout

end Layout

/-! ## Precedence -/

namespace Printer

/-- The precedence of `-`, `!` and negative numbers. -/
def unaryPrecedence : Nat := 7

/-- The precedence of a form that stands before a point. -/
def memberPrecedence : Nat := 10

/-- The precedence of an operator. -/
def precedence : BinaryOp → Nat
  | .or => 1
  | .and => 2
  | .eq | .ne => 3
  | .lt | .gt | .le | .ge => 4
  | .add | .sub => 5
  | .mul | .div | .mod => 6
  | .pow => 8

/-- The precedences asked of the two operands: powers group to the right, all others to the left. -/
def operandPrecedences (op : BinaryOp) : Nat × Nat :=
  match op with
  | .pow => (precedence op + 1, precedence op)
  | _ => (precedence op, precedence op + 1)

/-- Encloses a text if the place asks for more than its precedence. -/
def encloseBelow (asked own : Nat) (text : String) : String :=
  if own < asked then "(" ++ text ++ ")" else text

/-! ## Words and declarations -/

/-- A string literal. -/
def quote (text : String) : String := "\"" ++ Escape.escape text ++ "\""

/-- A floating-point number, with a fraction even where that is zero. -/
def floatLiteral (x : Float) : String :=
  let text := Decimal.floatText x
  if x.isFinite && !text.toList.contains '.' then text ++ ".0" else text

def literalText (asked : Nat) : Literal → String
  | .int value =>
    if value < 0 then encloseBelow (asked + 1) unaryPrecedence (Decimal.intText value.toInt)
    else Decimal.intText value.toInt
  | .float value =>
    if value < 0.0 then encloseBelow (asked + 1) unaryPrecedence (floatLiteral value)
    else floatLiteral value
  | .string value => quote value
  | .bool true => "true"
  | .bool false => "false"

def isName (text : String) : Bool :=
  text.toList.head?.any Token.isWordStart && text.toList.all Token.isWordRest &&
    (Keyword.ofText? text).isNone

/-- The key of an object entry. -/
def key (text : String) : String := if isName text then text else quote text

/-- Things with commas between them. -/
def commas (texts : List String) : String := ", ".intercalate texts

def param (p : Param) : String :=
  match p.annotation with
  | none => p.name.val
  | some type => p.name.val ++ ": " ++ type.text

def typeParam (p : TypeParam) : String :=
  match p.constraint with
  | none => p.name.val
  | some type => p.name.val ++ " <: " ++ type.text

/-- Type parameters in brackets, or nothing. -/
def typeParams (params : List TypeParam) : String :=
  if params.isEmpty then "" else "[" ++ commas (params.map typeParam) ++ "]"

def fieldDecl (f : FieldDecl) : String := f.name.val ++ ": " ++ f.type.text

/-- An alternative of a declaration. -/
def variantDecl (v : VariantDecl) : String :=
  if v.fields.isEmpty then v.name.val
  else v.name.val ++ "(" ++ commas (v.fields.map fieldDecl) ++ ")"

/-- What a declaration says about the instances. -/
def typeBody : TypeBody → String
  | .abstract | .concrete => ""
  | .struct fields => " \x7b " ++ commas (fields.map fieldDecl) ++ " \x7d"
  | .variants alternatives => " = " ++ " | ".intercalate (alternatives.map variantDecl)

def typeDeclText (decl : TypeDecl) : String :=
  (if decl.body matches .abstract then "abstract " else "type ") ++ decl.name.val ++
    typeParams decl.typeParams ++
    (match decl.parent with
      | none => ""
      | some parent => " <: " ++ parent.text) ++
    typeBody decl.body

/-- A function declaration up to its body. -/
def functionHead (head : FunctionHead) : String :=
  "fn " ++ head.name.val ++ typeParams head.typeParams ++ "(" ++ commas (head.params.map param) ++
    ") := "

/-! ## Lines -/

/-- Whether a line with this text would continue the line before it. -/
def opensContinuation (text : String) : Bool :=
  text.toList.head?.any fun c => c = '[' || c = '(' || c = '-' || c = '+'

/-- Statements on lines of their own. A line is closed by a semicolon if the next one would continue
it. -/
def statementLines (margin : String) : List String → String
  | [] => ""
  | [text] => margin ++ text ++ "\n"
  | text :: next :: rest =>
    margin ++ text ++ (if opensContinuation next then ";\n" else "\n") ++
      statementLines margin (next :: rest)

def blockOpening (params : List Param) : String :=
  if params.isEmpty then "\x7b" else "\x7b " ++ commas (params.map param) ++ " |"

def blockText (layout : Layout) (params : List Param) (texts : List String) : String :=
  if layout.breaks texts.length then
    blockOpening params ++ "\n" ++ statementLines layout.deeper.margin texts ++ layout.margin ++
      "\x7d"
  else if texts.isEmpty then blockOpening params ++ " \x7d"
  else blockOpening params ++ " " ++ "; ".intercalate texts ++ " \x7d"

/-- The arms of a match in braces, when they have the given texts. -/
def armsText (layout : Layout) (texts : List String) : String :=
  match layout, texts with
  | .spread _, _ :: _ =>
    " \x7b\n" ++ ",\n".intercalate (texts.map (layout.deeper.margin ++ ·)) ++ "\n" ++
      layout.margin ++ "\x7d"
  | _, _ => " \x7b " ++ commas texts ++ " \x7d"

end Printer

/-! ## Trees -/

namespace Node

open Printer

mutual

/-- The text of a tree at a place that asks for the given precedence. -/
def print (layout : Layout) (asked : Nat) : Node → String
  | .literal _ value => literalText asked value
  | .ident _ name => name
  | .binary _ op left right =>
    let (l, r) := operandPrecedences op
    encloseBelow asked (precedence op)
      (print layout l left ++ " " ++ op.text ++ " " ++ print layout r right)
  | .unary _ op operand =>
    encloseBelow asked unaryPrecedence (op.text ++ print layout (precedence .pow) operand)
  | .assign _ target value =>
    encloseBelow asked 0 (print layout 1 target ++ " := " ++ print layout 0 value)
  | .field _ subject member => print layout memberPrecedence subject ++ "." ++ member.val
  | .call _ callee args => callee.val ++ "(" ++ commas (printAll layout args) ++ ")"
  | .send _ receiver method args =>
    print layout memberPrecedence receiver ++ "." ++ method.val ++ "(" ++
      commas (printAll layout args) ++ ")"
  | .block _ params body =>
    blockText layout params (printAll (layout.ofStatements body.length) body)
  | .cases _ scrutinee arms =>
    "match " ++ print layout 1 scrutinee ++
      armsText layout (printArms layout.deeper arms)
  | .construct _ name fields =>
    name.val ++ " \x7b " ++ commas (printEntries layout id fields) ++ " \x7d"
  | .typeDecl _ decl => typeDeclText decl
  | .function _ head body => functionHead head ++ print layout 1 body
  | .capture _ name => "?" ++ name.getD ""
  | .refine _ name pattern => "?" ++ name.getD "" ++ " " ++ print layout 0 pattern
  | .quoted _ body => "#" ++ print layout memberPrecedence body
  | .array _ elements => "[" ++ commas (printAll layout elements) ++ "]"
  | .object _ entries =>
    if entries.isEmpty then "[:]" else "[" ++ commas (printEntries layout key entries) ++ "]"
  | .pair _ key value => print layout 0 key ++ ": " ++ print layout 0 value

/-- The texts of several trees. -/
def printAll (layout : Layout) : List Node → List String
  | [] => []
  | node :: nodes => print layout 0 node :: printAll layout nodes

/-- The texts of match arms. -/
def printArms (layout : Layout) : List (Node × Node) → List String
  | [] => []
  | (pattern, body) :: arms =>
    (print layout 0 pattern ++ " => " ++ print layout 0 body) :: printArms layout arms

/-- The texts of fields or entries, with their names written by `label`. -/
def printEntries (layout : Layout) (label : String → String) :
    List (Located String × Node) → List String
  | [] => []
  | (name, value) :: entries =>
    (label name.val ++ ": " ++ print layout 0 value) :: printEntries layout label entries

end

/-- The text of a tree on one line. -/
def inlineText (node : Node) : String := node.print .inline 0

end Node

/-- The text of a program, one statement on a line. -/
def Program.text (program : Program) : String :=
  Printer.statementLines "" (Node.printAll (.spread 0) program)

end DispatchLang
