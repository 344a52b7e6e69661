import DispatchLang.Decimal.Notation
import DispatchLang.Text.Basic

/-!
# Templates

A template is a text with placeholders in braces. An empty placeholder takes the next argument, one with
a number takes the argument with that index; the empty ones are counted among themselves. A brace that
stands for itself is doubled.
-/

namespace DispatchLang.Template

/-- Why a template cannot be filled. -/
inductive Fault where
  /-- A placeholder is not closed. -/
  | unclosed
  /-- A closing brace stands alone. -/
  | unmatched
  /-- A placeholder holds something other than a number. -/
  | invalidPlaceholder (spec : String)
  /-- There are not enough arguments. -/
  | outOfRange (index given : Nat)
deriving DecidableEq

/-- The text of a fault. -/
def Fault.message : Fault → String
  | .unclosed => "unclosed '\x7b' in format template"
  | .unmatched => "unmatched '\x7d' in format template"
  | .invalidPlaceholder spec => "invalid placeholder '\x7b" ++ spec ++ "\x7d' in format template"
  | .outOfRange index given =>
    "placeholder " ++ Decimal.natText index ++ " is out of range: " ++ Decimal.natText given ++
      " argument(s) given"

/-- The largest index that can be written. -/
def indexLimit : Nat := Nat.pow 2 64

/-- The index written in a placeholder, after white space is dropped: digits after an optional plus
sign. -/
def index? (spec : List Char) : Option Nat :=
  let digits :=
    match spec with
    | '+' :: digits => digits
    | digits => digits
  if !digits.isEmpty && digits.all Char.isDigit && Decimal.digitsValue digits < indexLimit then
    some (Decimal.digitsValue digits)
  else none

/-- The argument that a placeholder takes, and the number of empty placeholders after it. -/
def select (args : List String) (blanks : Nat) (spec : List Char) :
    Except Fault (String × Nat) := do
  let trimmed := Text.trimChars spec
  let (index, blanks) ←
    if trimmed.isEmpty then pure (blanks, blanks + 1)
    else
      match index? trimmed with
      | some index => pure (index, blanks)
      | none => throw (.invalidPlaceholder (String.ofList spec))
  match args[index]? with
  | some arg => return (arg, blanks)
  | none => throw (.outOfRange index args.length)

/-- Fills the placeholders of a template. The argument `spec` holds the beginning of an open placeholder
in reverse order, and `blanks` counts the empty placeholders so far. -/
def fill (args : List String) : Option (List Char) → Nat → List Char → Except Fault (List Char)
  | none, _, [] => .ok []
  | some _, _, [] => .error .unclosed
  | some spec, blanks, '}' :: cs => do
    let (arg, blanks) ← select args blanks spec.reverse
    return arg.toList ++ (← fill args none blanks cs)
  | some spec, blanks, c :: cs => fill args (some (c :: spec)) blanks cs
  | none, blanks, '{' :: '{' :: cs => do return '{' :: (← fill args none blanks cs)
  | none, blanks, '}' :: '}' :: cs => do return '}' :: (← fill args none blanks cs)
  | none, blanks, '{' :: cs => fill args (some []) blanks cs
  | none, _, '}' :: _ => .error .unmatched
  | none, blanks, c :: cs => do return c :: (← fill args none blanks cs)

/-- Fills the placeholders of a template. -/
def format (template : String) (args : List String) : Except Fault String := do
  return String.ofList (← fill args none 0 template.toList)

end DispatchLang.Template
