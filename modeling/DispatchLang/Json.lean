import DispatchLang.Decimal.Notation

/-!
# JSON

Values of the data format that tools read and write, and their two written forms: the compact one, with
no blanks at all, and the indented one, with two spaces for each level. Fields are written in the order
in which they were given.
-/

namespace DispatchLang

/-- A JSON value. -/
inductive Json where
  /-- The missing value. -/
  | null
  /-- A truth value. -/
  | bool (value : Bool)
  /-- An integer. -/
  | int (value : Int)
  /-- A floating-point number. -/
  | float (value : Float)
  /-- A text. -/
  | str (value : String)
  /-- A list of values. -/
  | arr (items : List Json)
  /-- Named values. -/
  | obj (fields : List (String × Json))

namespace Json

/-! ## Strings -/

/-- The hexadecimal digit of a number below sixteen. -/
def hexDigit (n : Nat) : Char := Nat.digitChar n

/-- How one character is written inside quotes: quote, backslash and control characters are escaped,
and every other character stands for itself. -/
def escapeChar (c : Char) : List Char :=
  match c with
  | '"' => ['\\', '"']
  | '\\' => ['\\', '\\']
  | '\x08' => ['\\', 'b']
  | '\x0c' => ['\\', 'f']
  | '\n' => ['\\', 'n']
  | '\r' => ['\\', 'r']
  | '\t' => ['\\', 't']
  | c =>
    if c.toNat < 32 then ['\\', 'u', '0', '0', hexDigit (c.toNat / 16), hexDigit (c.toNat % 16)]
    else [c]

/-- A text between quotes. -/
def quote (text : String) : String := "\"" ++ String.ofList (text.toList.flatMap escapeChar) ++ "\""

/-- How a floating-point number is written. The format has neither infinities nor a missing number. -/
def floatText (x : Float) : String :=
  match Decimal.Parts.ofFloat x with
  | .finite negative mantissa exponent => Decimal.dataText negative mantissa exponent
  | _ => "null"

/-! ## The compact form -/

mutual

/-- The written form without blanks. -/
def compact : Json → String
  | .null => "null"
  | .bool true => "true"
  | .bool false => "false"
  | .int value => Decimal.intText value
  | .float value => floatText value
  | .str value => quote value
  | .arr items => "[" ++ ",".intercalate (compactItems items) ++ "]"
  | .obj fields => "\x7b" ++ ",".intercalate (compactFields fields) ++ "\x7d"

/-- The written forms of list items. -/
def compactItems : List Json → List String
  | [] => []
  | item :: items => compact item :: compactItems items

/-- The written forms of fields. -/
def compactFields : List (String × Json) → List String
  | [] => []
  | (name, value) :: fields => (quote name ++ ":" ++ compact value) :: compactFields fields

end

/-! ## The indented form -/

/-- Puts parts on lines of their own between two brackets. -/
def enclose (opening closing : String) (depth : Nat) (parts : List String) : String :=
  let margin (n : Nat) := "\n" ++ String.ofList (List.replicate (2 * n) ' ')
  if parts.isEmpty then opening ++ closing
  else
    opening ++ margin (depth + 1) ++ ("," ++ margin (depth + 1)).intercalate parts ++
      margin depth ++ closing

mutual

/-- The written form with indentation, inside `depth` enclosing levels. -/
def indentedAt (depth : Nat) : Json → String
  | .arr items => enclose "[" "]" depth (indentedItems (depth + 1) items)
  | .obj fields => enclose "\x7b" "\x7d" depth (indentedFields (depth + 1) fields)
  | .null => "null"
  | .bool true => "true"
  | .bool false => "false"
  | .int value => Decimal.intText value
  | .float value => floatText value
  | .str value => quote value

/-- The written forms of list items. -/
def indentedItems (depth : Nat) : List Json → List String
  | [] => []
  | item :: items => indentedAt depth item :: indentedItems depth items

/-- The written forms of fields. -/
def indentedFields (depth : Nat) : List (String × Json) → List String
  | [] => []
  | (name, value) :: fields =>
    (quote name ++ ": " ++ indentedAt depth value) :: indentedFields depth fields

end

/-- The written form with indentation. -/
def indented (value : Json) : String := indentedAt 0 value

/-- A list of values, each given by `f`. -/
def list {α : Type} (f : α → Json) (items : List α) : Json := .arr (items.map f)

/-- A value that may be missing. -/
def option {α : Type} (f : α → Json) : Option α → Json
  | none => .null
  | some a => f a

end Json

end DispatchLang
