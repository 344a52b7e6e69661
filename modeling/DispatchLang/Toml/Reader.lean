import DispatchLang.Decimal.Notation
import DispatchLang.Toml.Basic

/-!
# Reading settings documents

A document is read line by line: comments, headers and entries. The leaves below take the beginning off a
text, and answer nothing if the text does not begin as it has to. Loops are bounded by the length of the
text that is left, since every round takes at least one character.
-/

namespace DispatchLang.Toml

/-- Something that takes the beginning off a text. -/
abbrev Reader (α : Type) : Type := StateT (List Char) Option α

/-! ## Characters -/

/-- Whether a character separates words within a line. -/
def isBlank (c : Char) : Bool := c = ' ' || c = '\t'

/-- Whether a character may stand in a comment. -/
def inComment (c : Char) : Bool := c = '\t' || ' ' ≤ c

/-- Whether a character may stand for itself between quotes. -/
def inString (c : Char) : Bool := inComment c && c ≠ '\x7f'

/-- Whether a character may stand in a key without quotes. -/
def inKey (c : Char) : Bool := c.isAlphanum || c = '_' || c = '-'

/-! ## Leaves -/

/-- Takes a character if it comes next. -/
def accept (c : Char) : Reader Bool := modifyGet fun cs =>
  match cs with
  | d :: rest => if d = c then (true, rest) else (false, cs)
  | [] => (false, [])

/-- Takes a character that has to come next. -/
def expect (c : Char) : Reader Unit := do guard (← accept c)

/-- Takes the characters of a class that come next. -/
def takeWhile (p : Char → Bool) : Reader (List Char) := modifyGet fun cs => cs.span p

/-- Takes the blanks that come next. -/
def blanks : Reader Unit := modify (·.dropWhile isBlank)

/-- The rest of a text after the line break that it begins with. -/
def afterBreak? : List Char → Option (List Char)
  | '\n' :: cs => some cs
  | '\r' :: '\n' :: cs => some cs
  | _ => none

def lineEnd : Reader Unit := do
  blanks
  if ← accept '#' then
    let _ ← takeWhile inComment
  match ← get with
  | [] => return
  | cs => set (← afterBreak? cs)

/-- The rest of a text after blanks, line breaks and comments. -/
def skipGap : Bool → List Char → List Char
  | _, '\n' :: cs => skipGap false cs
  | _, '\r' :: '\n' :: cs => skipGap false cs
  | false, '#' :: cs => skipGap true cs
  | commented, c :: cs =>
    if isBlank c || (commented && inComment c) then skipGap commented cs else c :: cs
  | _, [] => []

/-- Takes blanks, line breaks and comments. -/
def gap : Reader Unit := modify (skipGap false)

/-! ## Strings -/

/-- The value of a hexadecimal digit. -/
def hexValue? (c : Char) : Option Nat :=
  if c.isDigit then some (c.toNat - '0'.toNat)
  else if 'a' ≤ c && c ≤ 'f' then some (c.toNat - 'a'.toNat + 10)
  else if 'A' ≤ c && c ≤ 'F' then some (c.toNat - 'A'.toNat + 10)
  else none

/-- The character whose number has the given hexadecimal digits. -/
def charOfHex? (digits : List Char) : Option Char := do
  let n ← digits.foldlM (fun n c => return 16 * n + (← hexValue? c)) 0
  if n.isValidChar then some (Char.ofNat n) else none

/-- The character that an escape stands for, which is given without its backslash, and what follows the
escape. -/
def escape? : List Char → Option (Char × List Char)
  | 'b' :: cs => some ('\x08', cs)
  | 'f' :: cs => some ('\x0c', cs)
  | 'n' :: cs => some ('\n', cs)
  | 'r' :: cs => some ('\r', cs)
  | 't' :: cs => some ('\t', cs)
  | '"' :: cs => some ('"', cs)
  | '\\' :: cs => some ('\\', cs)
  | 'u' :: cs =>
    if cs.length < 4 then none else (charOfHex? (cs.take 4)).map fun c => (c, cs.drop 4)
  | 'U' :: cs =>
    if cs.length < 8 then none else (charOfHex? (cs.take 8)).map fun c => (c, cs.drop 8)
  | _ => none

/-- The rest of a text after blanks and line breaks. -/
def skipLines : List Char → List Char
  | '\n' :: cs => skipLines cs
  | '\r' :: '\n' :: cs => skipLines cs
  | c :: cs => if isBlank c then skipLines cs else c :: cs
  | [] => []

/-- The rest of a text after the line break that a backslash at the end of a line hides. -/
def continuation? (cs : List Char) : Option (List Char) :=
  (afterBreak? (cs.dropWhile isBlank)).map skipLines

/-- What stands before the closing quotes, and what follows these. There is one closing quote, or there
are three if the string may have `lines`; quotes right before the last three belong to the string. Only
between double quotes are there escapes. -/
def stringBody? (quote : Char) (lines : Bool) :
    Nat → List Char → Option (List Char × List Char)
  | 0, _ | _, [] => none
  | n + 1, c :: cs =>
    let more (c : Char) (cs : List Char) : Option (List Char × List Char) := do
      let (text, rest) ← stringBody? quote lines n cs
      return (c :: text, rest)
    if c = quote then
      if !lines then some ([], cs)
      else if (cs.take 2).all (· = quote) && 2 ≤ cs.length then
        let extra := ((cs.drop 2).take 2).takeWhile (· = quote)
        some (extra, cs.drop (2 + extra.length))
      else more c cs
    else if c = '\\' && quote = '"' then
      match escape? cs with
      | some (c, cs) => more c cs
      | none => do
        guard lines
        stringBody? quote lines n (← continuation? cs)
    else if lines then
      match afterBreak? (c :: cs) with
      | some cs => more '\n' cs
      | none => if inString c then more c cs else none
    else if inString c then more c cs
    else none

/-- Takes what stands before the closing quotes, and these. -/
def stringRest (quote : Char) (lines : Bool) : Reader String := do
  let cs ← get
  let (text, rest) ← stringBody? quote lines (cs.length + 1) cs
  set rest
  return String.ofList text

/-- Takes a string on one line after its opening quote. -/
def shortString (quote : Char) : Reader String := stringRest quote false

/-- Takes a string after its opening quote. It may have lines if it begins with three quotes; a line
break right after these does not count. -/
def anyString (quote : Char) : Reader String := do
  let cs ← get
  if (cs.take 2).all (· = quote) && 2 ≤ cs.length then
    set ((afterBreak? (cs.drop 2)).getD (cs.drop 2))
    stringRest quote true
  else shortString quote

/-! ## Keys -/

def keyPart : Reader String := do
  if ← accept '"' then shortString '"'
  else if ← accept '\'' then shortString '\''
  else
    let name ← takeWhile inKey
    guard (!name.isEmpty)
    return String.ofList name

/-- Takes a key, whose parts are separated by points: the names of the tables on the way, and the last
name. -/
def key : Nat → Reader (List String × String)
  | 0 => failure
  | n + 1 => do
    blanks
    let name ← keyPart
    blanks
    if ← accept '.' then
      let (parents, last) ← key n
      return (name :: parents, last)
    else return ([], name)

def anyKey : Reader (List String × String) := do key ((← get).length + 1)

/-! ## Items -/

/-- Takes the items of an array and its closing bracket. -/
def arrayRest (item : Reader Item) : Nat → Reader (List Item)
  | 0 => failure
  | n + 1 => do
    gap
    if ← accept ']' then return []
    else
      let first ← item
      gap
      if ← accept ',' then return first :: (← arrayRest item n)
      else
        expect ']'
        return [first]

/-- Takes the entries of a table between braces, of which there is at least one, and its closing
brace. -/
def tableRest (item : Reader Item) : Nat → Reader (List (List String × String × Item))
  | 0 => failure
  | n + 1 => do
    let (parents, name) ← anyKey
    expect '='
    blanks
    let value ← item
    blanks
    if ← accept ',' then return (parents, name, value) :: (← tableRest item n)
    else
      expect '}'
      return [(parents, name, value)]

/-- Takes a word that has to come next. -/
def word (text : String) : Reader Unit := text.toList.forM expect

/-- Takes an item that nests at most the given number of levels. -/
def item : Nat → Reader Item
  | 0 => failure
  | n + 1 => do
    if ← accept '"' then return .string (← anyString '"')
    else if ← accept '\'' then return .string (← anyString '\'')
    else if ← accept '[' then return .array (← arrayRest (item n) ((← get).length + 1))
    else if ← accept '{' then
      blanks
      if ← accept '}' then return .table .inline []
      else Item.ofEntries? (← tableRest (item n) ((← get).length + 1))
    else if (← get).head? = some 't' then
      word "true"
      return .bool true
    else
      word "false"
      return .bool false

/-! ## Documents -/

/-- Takes the rest of a header after its opening brackets. -/
def headerRest (close : String) (piece : List String → String → Piece) : Reader Piece := do
  let (parents, name) ← anyKey
  word close
  lineEnd
  return piece parents name

def line : Reader (Option Piece) := do
  blanks
  match ← get with
  | [] | '#' :: _ | '\n' :: _ | '\r' :: _ =>
    lineEnd
    return none
  | '[' :: '[' :: cs =>
    set cs
    return some (← headerRest "]]" .element)
  | '[' :: cs =>
    set cs
    return some (← headerRest "]" .header)
  | cs =>
    let (parents, name) ← anyKey
    expect '='
    blanks
    let value ← item (cs.length + 1)
    lineEnd
    return some (.entry parents name value)

/-- The pieces of a text with at most the given number of lines. -/
def pieces? : Nat → List Char → Option (List Piece)
  | 0, _ => none
  | _, [] => some []
  | n + 1, cs => do
    let (piece, rest) ← line.run cs
    let pieces ← pieces? n rest
    return piece.toList ++ pieces

/-- The mark that a text may begin with. -/
def byteOrderMark : Char := '\ufeff'

/-- Reads a document. -/
def Item.ofText? (text : String) : Option Item := do
  let cs := text.toList
  let cs := if cs.head? = some byteOrderMark then cs.tail else cs
  Item.ofPieces? (← pieces? (cs.length + 1) cs)

end DispatchLang.Toml
