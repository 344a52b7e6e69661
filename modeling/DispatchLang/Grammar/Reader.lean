import DispatchLang.Token.Basic

/-!
# Readers

A reader looks at the lexemes of a text from left to right and either accepts some of them or refuses
with a `SyntaxError`. The *cursor* it moves always stands on a lexeme; the end of the text is a lexeme
too, and the cursor never moves past it.

Lists of things are read by `collect`, which takes one thing after another until it is told to stop.
Every thing takes at least one lexeme, so a bound on the number of lexemes left is a bound on the number
of rounds; running out of rounds is an error of its own that no text reaches.
-/

namespace DispatchLang

/-! ## Errors -/

/-- Why a text is not a program. -/
inductive SyntaxCause where
  /-- One token was required and another one is there. -/
  | expected (wanted found : Token)
  /-- A name was required. -/
  | expectedName (found : Token)
  /-- A list has to go on or to end with `close`. -/
  | expectedCommaOr (close : Symbol) (found : Token)
  /-- A match arm has to be followed by another one or by the end of the match. -/
  | expectedArmEnd (found : Token)
  /-- A function name has to be followed by parameters. -/
  | expectedParams (found : Token)
  /-- A declaration has to list its fields. -/
  | expectedField (found : Token)
  /-- A pattern was required. -/
  | expectedPattern (found : Token)
  /-- A minus sign in a pattern has to be followed by a number. -/
  | expectedPatternNumber (found : Token)
  /-- A statement goes on where it should have ended. -/
  | trailing (found : Token)
  /-- No expression begins with this token. -/
  | unexpected (found : Token)
  /-- An equals sign stands where an assignment was meant. -/
  | loneEquals
  /-- The text ends where an expression should begin. -/
  | unexpectedEnd
  /-- A word is reserved for later use. -/
  | reserved (word : Keyword)
  /-- An integer does not fit into 64 bits. -/
  | hugeInt (digits : String)
  /-- The left side of an assignment can hold no value. -/
  | invalidTarget
  /-- A list has pairs and single values. -/
  | mixedList
  /-- The key of a pair is neither a name nor a string. -/
  | invalidKey
  /-- A block is not closed. -/
  | unclosedBlock
  /-- A match is not closed. -/
  | unclosedMatch
  /-- The bound on the number of rounds was too small. -/
  | outOfRounds

namespace SyntaxCause

/-- The text of an error without its place. -/
def text : SyntaxCause → String
  | .expected wanted found => "expected " ++ wanted.describe ++ ", found " ++ found.describe
  | .expectedName found => "expected identifier, found " ++ found.describe
  | .expectedCommaOr close found =>
    "expected ',' or '" ++ close.text ++ "', found " ++ found.describe
  | .expectedArmEnd found => "expected ',' or '\x7d' after match arm, found " ++ found.describe
  | .expectedParams found =>
    "expected parameter list after function name, found " ++ found.describe
  | .expectedField found => "expected a named field 'name: Type', found " ++ found.describe
  | .expectedPattern found => "expected pattern, found " ++ found.describe
  | .expectedPatternNumber found =>
    "expected a number after '-' in pattern, found " ++ found.describe
  | .trailing found => "unexpected " ++ found.describe ++ " after expression"
  | .unexpected found => "unexpected " ++ found.describe ++ " in expression"
  | .loneEquals => "unexpected '=' (use ':=' for assignment)"
  | .unexpectedEnd => "unexpected end of input in expression"
  | .reserved word =>
    (Token.keyword word).describe ++ " is a reserved keyword and cannot start an expression"
  | .hugeInt digits =>
    "integer literal " ++ digits ++ " is out of range for Int (max " ++
      Decimal.intText Int64.maxValue.toInt ++ ")"
  | .invalidTarget =>
    "invalid assignment target: expected an identifier or a destructuring pattern"
  | .mixedList => "cannot mix key-value pairs and plain values in a list literal"
  | .invalidKey => "object keys must be identifiers or strings"
  | .unclosedBlock => "unclosed block: expected '\x7d'"
  | .unclosedMatch => "unclosed match: expected '\x7d'"
  | .outOfRounds => "nesting is too deep"

end SyntaxCause

/-- Why and where a text is not a program. -/
structure SyntaxError where
  /-- What is wrong. -/
  cause : SyntaxCause
  /-- Where it is wrong. -/
  span : Span

/-- The text of an error with its place. -/
def SyntaxError.message (e : SyntaxError) : String :=
  "Syntax error: " ++ e.cause.text ++ " at line " ++ Decimal.natText e.span.line ++ ", column " ++
    Decimal.natText e.span.column

/-! ## Cursors -/

/-- A point in a list of lexemes. -/
structure Cursor where
  /-- The span of the lexeme taken last. -/
  last : Span
  /-- The lexeme under the cursor. -/
  here : Lexeme
  /-- The lexemes after it. -/
  ahead : List Lexeme

namespace Cursor

/-- The end of the empty text. -/
def nothing : Lexeme := ⟨.eof, .nowhere, false, false⟩

/-- The cursor on the first of some lexemes. -/
def start : List Lexeme → Cursor
  | [] => ⟨.nowhere, nothing, []⟩
  | l :: ls => ⟨.nowhere, l, ls⟩

/-- The cursor on the next lexeme, or the same one at the end. -/
def next (c : Cursor) : Cursor :=
  match c.ahead with
  | [] => c
  | l :: ls => ⟨c.here.span, l, ls⟩

/-- The cursor on the first lexeme whose token does not satisfy `p`. -/
def skipWhile (p : Token → Bool) (last : Span) (here : Lexeme) : List Lexeme → Cursor
  | [] => ⟨last, here, []⟩
  | l :: ls => if p here.token then skipWhile p here.span l ls else ⟨last, here, l :: ls⟩

end Cursor

/-! ## Readers -/

/-- A computation that moves a cursor and may refuse. -/
abbrev Reader (α : Type) : Type := StateT Cursor (Except SyntaxError) α

namespace Reader

variable {α : Type}

/-- Refuses because of something at `span`. -/
def fail (cause : SyntaxCause) (span : Span) : Reader α := throw ⟨cause, span⟩

/-- The lexeme under the cursor. -/
def here : Reader Lexeme := return (← get).here

/-- Refuses because of the lexeme under the cursor. -/
def failHere (cause : Token → SyntaxCause) : Reader α := do
  let l ← here
  fail (cause l.token) l.span

/-- Takes the lexeme under the cursor. -/
def take : Reader Lexeme := do
  let c ← get
  set c.next
  return c.here

/-- Passes over all lexemes from here on whose token satisfies `p`. -/
def skipWhile (p : Token → Bool) : Reader Unit :=
  modify fun c => Cursor.skipWhile p c.last c.here c.ahead

def isSymbol (s : Symbol) : Token → Bool
  | .symbol t => t = s
  | _ => false

/-- Whether a token is the given reserved word. -/
def isKeyword (k : Keyword) : Token → Bool
  | .keyword l => l = k
  | _ => false

def isName : Token → Bool
  | .ident _ => true
  | _ => false

/-- Whether the cursor stands on the given symbol. -/
def isAt (s : Symbol) : Reader Bool := return isSymbol s (← here).token

/-- Whether the cursor stands on the end of the text. -/
def atEnd : Reader Bool :=
  return match (← here).token with
    | .eof => true
    | _ => false

/-- Takes the given symbol if the cursor stands on it, and says whether it did. -/
def accept (s : Symbol) : Reader Bool := do
  if ← isAt s then
    let _ ← take
    return true
  else return false

/-- Takes the given symbol and answers its span. -/
def expect (s : Symbol) : Reader Span := do
  if ← isAt s then return (← take).span else failHere (.expected (.symbol s))

/-- Takes the given reserved word and answers its span. -/
def expectWord (k : Keyword) : Reader Span := do
  if isKeyword k (← here).token then return (← take).span else failHere (.expected (.keyword k))

def name : Reader (Located String) := do
  let l ← here
  match l.token with
  | .ident text =>
    let _ ← take
    return ⟨text, l.span⟩
  | _ => failHere .expectedName

/-- Runs a reader; where it refuses the cursor stays and the answer is nothing. -/
def attempt (r : Reader α) : Reader (Option α) := fun c =>
  match r c with
  | .ok (a, c') => .ok (some a, c')
  | .error _ => .ok (none, c)

/-! ## Lists -/

/-- Takes one thing after another until `item` answers nothing, in at most the given number of rounds.
`item` is told whether it is asked for the first thing. -/
def collect (item : Bool → Reader (Option α)) : Nat → Bool → Reader (List α)
  | 0, _ => do fail .outOfRounds (← here).span
  | n + 1, first => do
    match ← item first with
    | none => return []
    | some a => return a :: (← collect item n false)

/-- Reads things with commas between them up to `close`, which is not taken. A comma may stand before
`close` if `trailing` is true. -/
def separated (close : Symbol) ( trailing : Bool) (item : Reader α) (rounds : Nat) :
    Reader (List α) :=
  collect (fun first => do
    if ← isAt close then return none
    if !first then
      let _ ← expect .comma
      if trailing && (← isAt close) then return none
    return some (← item)) rounds true

/-- Reads things up to `close`, which is not taken. After each thing comes a comma, a line break or the
end, and there may be more commas than needed. -/
def lines (close : Symbol) (item : Reader α) (rounds : Nat) : Reader (List α) :=
  collect (fun _ => do
    skipWhile (isSymbol .comma)
    if ← isAt close then return none
    let a ← item
    let l ← here
    if isSymbol .comma l.token || isSymbol close l.token || l.afterBreak then return some a
    else failHere (.expectedCommaOr close)) rounds true

end Reader

end DispatchLang
