import DispatchLang.Source.Span
import DispatchLang.Decimal.Notation

/-!
# Tokens

The words of the language: reserved words, symbols, names and literals. A token says what a word is, a
lexeme says in addition where it stands and how it is set off from the word before it, which is all the
grammar ever asks about blanks: whether a line break lies between the two words, and whether they
touch.
-/

namespace DispatchLang

/-! ## Reserved words -/

/-- The reserved words. -/
inductive Keyword where
  | «fn» | «type» | «abstract» | «match» | «trait» | «impl» | «true» | «false» | «for»
deriving DecidableEq

namespace Keyword

/-- All reserved words. -/
def all : List Keyword :=
  [.fn, .type, .abstract, .match, .trait, .impl, .true, .false, .for]

/-- How a reserved word is written. -/
def text : Keyword → String
  | .fn => "fn"
  | .type => "type"
  | .abstract => "abstract"
  | .match => "match"
  | .trait => "trait"
  | .impl => "impl"
  | .true => "true"
  | .false => "false"
  | .for => "for"

/-- The reserved word that a word is, if it is one. -/
def ofText? (word : String) : Option Keyword := all.find? (·.text = word)

end Keyword

/-! ## Symbols -/

/-- Operators and punctuation. -/
inductive Symbol where
  | assign | arrow | below
  | equal | unequal | atMost | atLeast | and | or
  | plus | minus | star | slash | percent | caret | less | greater | bang
  | equals | question | hash | bar
  | openParen | closeParen | openBracket | closeBracket | openBrace | closeBrace
  | comma | semicolon | dot | colon
deriving DecidableEq

namespace Symbol

/-- How a symbol is written. -/
def text : Symbol → String
  | .assign => ":="
  | .arrow => "=>"
  | .below => "<:"
  | .equal => "=="
  | .unequal => "!="
  | .atMost => "<="
  | .atLeast => ">="
  | .and => "&&"
  | .or => "||"
  | .plus => "+"
  | .minus => "-"
  | .star => "*"
  | .slash => "/"
  | .percent => "%"
  | .caret => "^"
  | .less => "<"
  | .greater => ">"
  | .bang => "!"
  | .equals => "="
  | .question => "?"
  | .hash => "#"
  | .bar => "|"
  | .openParen => "("
  | .closeParen => ")"
  | .openBracket => "["
  | .closeBracket => "]"
  | .openBrace => "\x7b"
  | .closeBrace => "\x7d"
  | .comma => ","
  | .semicolon => ";"
  | .dot => "."
  | .colon => ":"

/-- The symbol written by one character. -/
def single? : Char → Option Symbol
  | '+' => some .plus
  | '-' => some .minus
  | '*' => some .star
  | '/' => some .slash
  | '%' => some .percent
  | '^' => some .caret
  | '<' => some .less
  | '>' => some .greater
  | '!' => some .bang
  | '=' => some .equals
  | '?' => some .question
  | '#' => some .hash
  | '|' => some .bar
  | '(' => some .openParen
  | ')' => some .closeParen
  | '[' => some .openBracket
  | ']' => some .closeBracket
  | '{' => some .openBrace
  | '}' => some .closeBrace
  | ',' => some .comma
  | ';' => some .semicolon
  | '.' => some .dot
  | ':' => some .colon
  | _ => none

/-- The symbol written by two characters. -/
def double? : Char → Char → Option Symbol
  | ':', '=' => some .assign
  | '=', '>' => some .arrow
  | '<', ':' => some .below
  | '=', '=' => some .equal
  | '!', '=' => some .unequal
  | '<', '=' => some .atMost
  | '>', '=' => some .atLeast
  | '&', '&' => some .and
  | '|', '|' => some .or
  | _, _ => none

/-- Whether a symbol separates or encloses rather than operates. -/
def isPunctuation : Symbol → Bool
  | .openParen | .closeParen | .openBracket | .closeBracket | .openBrace | .closeBrace
  | .comma | .semicolon | .dot | .colon => true
  | _ => false

def continuesLine : Symbol → Bool
  | .dot | .openBracket | .openParen | .comma | .plus | .minus | .star | .slash | .and | .or
  | .arrow | .bar => true
  | _ => false

end Symbol

/-! ## Tokens -/

/-- The classes of tokens that tools are told about. -/
inductive TokenClass where
  | number | string | identifier | keyword | operator | punctuation | eof
deriving DecidableEq

def TokenClass.name : TokenClass → String
  | .number => "number"
  | .string => "string"
  | .identifier => "identifier"
  | .keyword => "keyword"
  | .operator => "operator"
  | .punctuation => "punctuation"
  | .eof => "eof"

/-- A word of the language. -/
inductive Token where
  /-- A reserved word. -/
  | keyword (word : Keyword)
  /-- An operator or a punctuation mark. -/
  | symbol (symbol : Symbol)
  /-- A name. -/
  | ident (name : String)
  /-- An integer that fits into 64 bits. -/
  | int (value : Int64)
  /-- A run of digits too long for an integer. -/
  | hugeInt (digits : String)
  /-- A number with a decimal point. -/
  | float (value : Float)
  /-- A string literal, by the text it stands for. -/
  | string (value : String)
  /-- The end of the text. -/
  | eof

namespace Token

def tokenClass : Token → TokenClass
  | .keyword _ => .keyword
  | .symbol s => if s.isPunctuation then .punctuation else .operator
  | .ident _ => .identifier
  | .int _ | .hugeInt _ | .float _ => .number
  | .string _ => .string
  | .eof => .eof

/-- How a message names a token. -/
def describe : Token → String
  | .keyword word => "'" ++ word.text ++ "'"
  | .symbol s => "'" ++ s.text ++ "'"
  | .ident name => "identifier '" ++ name ++ "'"
  | .int value => "'" ++ Decimal.intText value.toInt ++ "'"
  | .hugeInt digits => "integer literal " ++ digits
  | .float value => "'" ++ Decimal.floatText value ++ "'"
  | .string value => "\"" ++ value ++ "\""
  | .eof => "end of input"

def continuesLine : Token → Bool
  | .symbol s => s.continuesLine
  | _ => false

end Token

/-- A token at its place. -/
structure Lexeme where
  /-- The token. -/
  token : Token
  /-- Where it stands. -/
  span : Span
  /-- Whether a line break lies between it and the token before it. -/
  afterBreak : Bool
  /-- Whether it begins where the token before it ends. -/
  touches : Bool

end DispatchLang
