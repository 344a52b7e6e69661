import DispatchLang.Text.Escape
import DispatchLang.Token.Basic

/-!
# Scanning

A text is read from left to right, one *piece* at a time. A piece is a token or something to be passed
over: a blank, a comment, or characters that begin no token. `piece` decides by the longest match which
piece comes next and how many characters it has; `scanFrom` strings the pieces together and notes where
each token stands. Scanning never fails.

* A comment begins with two slashes, or with a hash sign followed by a space or a tab, and ends with the
  line.
* A string may contain line breaks, but a backslash must be followed by a character other than a line
  feed. Where no string can be read everything read in the attempt is passed over.
* Three quotes open a long string that ends at the next three quotes. Without these the three opening
  quotes are passed over alone.
-/

namespace DispatchLang.Token

/-! ## Character classes -/

def isBlank (c : Char) : Bool := c = ' ' || c = '\t' || c = '\r' || c = '\n' || c = '\x0c'

/-- The characters that begin a word. -/
def isWordStart (c : Char) : Bool := c.isAlpha || c = '_'

/-- The characters that continue a word. -/
def isWordRest (c : Char) : Bool := isWordStart c || c.isDigit

/-! ## Strings -/

/-- Reads the inside of a string up to and including the closing quote. The result is the inside, if the
string is well formed, and the number of characters read either way. -/
def stringBody : List Char → Option (List Char) × Nat
  | [] => (none, 0)
  | '"' :: _ => (some [], 1)
  | ['\\'] => (none, 1)
  | '\\' :: e :: cs =>
    if e = '\n' then (none, 1)
    else
      let (body, n) := stringBody cs
      (body.map fun inside => '\\' :: e :: inside, n + 2)
  | c :: cs =>
    let (body, n) := stringBody cs
    (body.map fun inside => c :: inside, n + 1)

/-- The characters before the next three quotes. -/
def beforeTripleQuote? : List Char → Option (List Char)
  | [] => none
  | '"' :: '"' :: '"' :: _ => some []
  | c :: cs => (beforeTripleQuote? cs).map (c :: ·)

/-- The piece that begins with a quote, given what follows the quote. -/
def stringPiece (cs : List Char) : Option Token × Nat :=
  match cs with
  | '"' :: '"' :: rest =>
    match beforeTripleQuote? rest with
    | some inside => (some (.string (String.ofList (Escape.decode inside))), inside.length + 5)
    | none => (none, 2)
  | _ =>
    let (body, n) := stringBody cs
    (body.map fun inside => .string (String.ofList (Escape.decode inside)), n)

/-! ## Numbers and words -/

/-- The integer written by a run of digits. -/
def ofDigits (digits : List Char) : Token :=
  let n := Decimal.digitsValue digits
  if (n : Int) ≤ Int64.maxValue.toInt then .int (Int64.ofNat n) else .hugeInt (String.ofList digits)

/-- The piece that begins with the digit `c`. A point belongs to a number only between two digits. -/
def numberPiece (c : Char) (cs : List Char) : Option Token × Nat :=
  let whole := c :: cs.takeWhile Char.isDigit
  match cs.dropWhile Char.isDigit with
  | '.' :: rest =>
    let fraction := rest.takeWhile Char.isDigit
    if fraction.isEmpty then (some (ofDigits whole), whole.length - 1)
    else (some (.float (Decimal.ofDigits whole fraction)), whole.length + fraction.length)
  | _ => (some (ofDigits whole), whole.length - 1)

def ofWord (word : String) : Token :=
  match Keyword.ofText? word with
  | some k => .keyword k
  | none => .ident word

/-! ## Pieces -/

/-- The number of characters before the end of the line. -/
def lineRest (cs : List Char) : Nat := (cs.takeWhile (· ≠ '\n')).length

/-- The piece that begins with a symbol, or with a character that begins nothing. -/
def symbolPiece (c : Char) (cs : List Char) : Option Token × Nat :=
  match cs.head?.bind (Symbol.double? c) with
  | some s => (some (.symbol s), 1)
  | none => ((Symbol.single? c).map .symbol, 0)

/-- The piece at the front of `c :: cs`: its token, if it is one, and the number of characters it has
besides `c`. -/
def piece (c : Char) (cs : List Char) : Option Token × Nat :=
  if isBlank c then (none, 0)
  else if c = '"' then stringPiece cs
  else if c.isDigit then numberPiece c cs
  else if isWordStart c then
    let rest := cs.takeWhile isWordRest
    (some (ofWord (String.ofList (c :: rest))), rest.length)
  else if c = '/' && cs.head? = some '/' then (none, lineRest cs)
  else if c = '#' && (cs.head? = some ' ' || cs.head? = some '\t') then (none, lineRest cs)
  else symbolPiece c cs

/-! ## The scanner -/

/-- What has been passed over since the last token: nothing yet if there was no token. -/
structure Gap where
  /-- Whether there was a token before. -/
  started : Bool
  /-- Whether anything was passed over since. -/
  wide : Bool
  /-- Whether a line feed was passed over since. -/
  broken : Bool

namespace Gap

def initial : Gap := ⟨false, false, false⟩

def closed : Gap := ⟨true, false, false⟩

/-- The gap widened by some characters. -/
def pass (gap : Gap) (cs : List Char) : Gap :=
  { gap with wide := true, broken := gap.broken || cs.contains '\n' }

end Gap

def lexeme (token : Token) (p q : Place) (gap : Gap) : Lexeme where
  token := token
  span := .between p q
  afterBreak := gap.started && gap.broken
  touches := gap.started && !gap.wide

/-- Scans the rest of a text from the place `p` on. The last lexeme is the end of the text. -/
def scanFrom (p : Place) (gap : Gap) : List Char → List Lexeme
  | [] => [lexeme .eof p p gap]
  | c :: cs =>
    let (token, n) := piece c cs
    let q := p.advanceAll (c :: cs.take n)
    match token with
    | some token => lexeme token p q gap :: scanFrom q .closed (cs.drop n)
    | none => scanFrom q (gap.pass (c :: cs.take n)) (cs.drop n)
termination_by cs => cs.length
decreasing_by all_goals simp only [List.length_drop, List.length_cons]; omega

/-- The lexemes of a text, ending with the end of the text. -/
def scan (source : String) : List Lexeme := scanFrom .origin .initial source.toList

/-! ## Views for tools -/

/-- The piece of `source` that a span covers. -/
def slice (source : String) (span : Span) : String :=
  String.Pos.Raw.extract source ⟨span.start⟩ ⟨span.stop⟩

/-- The text of a lexeme as tools see it: what a string stands for, nothing for the end, and else the
word itself. -/
def shownText (source : String) (l : Lexeme) : String :=
  match l.token with
  | .string value => value
  | .eof => ""
  | _ => slice source l.span

end DispatchLang.Token
