import DispatchLang.Grammar.Reader
import DispatchLang.Node.Basic

/-!
# Patterns

A pattern is a capture `?name`, the name of an alternative, a literal, a negative number, or a
construction `Name { field: pattern, … }` of patterns. A capture may be followed by the pattern that it
is limited to, on the same line.
-/

namespace DispatchLang.Grammar

open Reader

/-! ## Literals -/

def literal? : Token → Option Literal
  | .int value => some (.int value)
  | .float value => some (.float value)
  | .string value => some (.string value)
  | .keyword .true => some (.bool true)
  | .keyword .false => some (.bool false)
  | _ => none

def negative? : Token → Option Literal
  | .int value => some (.int (-value))
  | .float value => some (.float (-value))
  | _ => none

/-! ## Constructions -/

/-- Whether the cursor stands on a brace, a name and a colon, which after a name begin the fields of a
construction. -/
def fieldsAhead : Reader Bool := do
  let c ← get
  return isSymbol .openBrace c.here.token &&
    match c.ahead with
    | l :: m :: _ => isName l.token && isSymbol .colon m.token
    | _ => false

/-- Reads fields in braces and answers them with the span of the closing brace. -/
def constructFields (item : Reader Node) (rounds : Nat) :
    Reader (List (Located String × Node) × Span) := do
  let _ ← expect .openBrace
  let field : Reader (Located String × Node) := do
    let head ← name
    let _ ← expect .colon
    return (head, ← item)
  let fields ← lines .closeBrace field rounds
  return (fields, ← expect .closeBrace)

/-! ## Patterns -/

/-- Whether a token on the same line begins the pattern that a capture is limited to. -/
def beginsRefinement : Token → Bool
  | .symbol .question => true
  | t => isName t || (literal? t).isSome

def captureWith (pattern : Reader Node) : Reader Node := do
  let first ← expect .question
  let l ← here
  let (bound, span) ←
    if isName l.token && l.touches then do
      let head ← name
      pure (some head.val, first.cover head.span)
    else pure (none, first)
  let l ← here
  if !l.afterBreak && beginsRefinement l.token then
    let inner ← pattern
    return .refine (span.cover inner.span) bound inner
  else return .capture span bound

def pattern : Nat → Reader Node
  | 0 => do fail .outOfRounds (← here).span
  | n + 1 => do
    let l ← here
    match l.token with
    | .symbol .question => captureWith (pattern n)
    | .ident _ =>
      let head ← name
      if ← fieldsAhead then
        let (fields, close) ← constructFields (pattern n) (n + 1)
        return .construct (head.span.cover close) head fields
      else return .ident head.span head.val
    | .symbol .minus =>
      let _ ← take
      let number ← here
      match negative? number.token with
      | some value =>
        let _ ← take
        return .literal (l.span.cover number.span) value
      | none => failHere .expectedPatternNumber
    | token =>
      match literal? token with
      | some value =>
        let _ ← take
        return .literal l.span value
      | none => failHere .expectedPattern

def capture (rounds : Nat) : Reader Node := captureWith (pattern rounds)

end DispatchLang.Grammar
