/-!
# Escapes in string literals

Between quotes a backslash and the character after it stand for one character: `\n`, `\r` and `\t`
for the control characters, `\\` and `\"` for themselves. A backslash before any other character, or
at the end, is kept as it is. `escape` is the converse used when a string is printed as a literal.
-/

namespace DispatchLang.Escape

/-- The character that an escape letter stands for. -/
def meaning? : Char → Option Char
  | 'n' => some '\n'
  | 'r' => some '\r'
  | 't' => some '\t'
  | '\\' => some '\\'
  | '"' => some '"'
  | _ => none

/-- The escape letter of a character that cannot stand for itself between quotes. -/
def letter? : Char → Option Char
  | '\n' => some 'n'
  | '\r' => some 'r'
  | '\t' => some 't'
  | '\\' => some '\\'
  | '"' => some '"'
  | _ => none

/-- Replaces every escape by the character it stands for. -/
def decode : List Char → List Char
  | [] => []
  | ['\\'] => ['\\']
  | '\\' :: e :: cs =>
    match meaning? e with
    | some c => c :: decode cs
    | none => '\\' :: e :: decode cs
  | c :: cs => c :: decode cs

/-- Writes a text so that it can stand between quotes. -/
def encode : List Char → List Char
  | [] => []
  | c :: cs =>
    match letter? c with
    | some e => '\\' :: e :: encode cs
    | none => c :: encode cs

/-- The text that the inside of a literal stands for. -/
def unescape (raw : String) : String := String.ofList (decode raw.toList)

/-- The inside of a literal that stands for `text`. -/
def escape (text : String) : String := String.ofList (encode text.toList)

end DispatchLang.Escape
