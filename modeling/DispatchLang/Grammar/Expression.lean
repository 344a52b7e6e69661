import DispatchLang.Grammar.Declaration
import DispatchLang.Grammar.Pattern
import DispatchLang.Token.Scan

/-!
# Expressions and programs

Expressions are read by binding power. `primary` reads what an expression begins with, and `extend` adds
one operator or member access after another as long as the next one binds at least as tightly as the
reader was asked for. An operator gives its right side a bound of its own: one above its left power
where it groups to the left, and at most its left power where it groups to the right.

`expression` ties the knot: it takes the number of rounds it may nest, and every reader that contains
expressions takes the reader for these as an argument. Each nested expression begins after at least
one lexeme of the outer one, so a bound on the lexemes left bounds the nesting too.
-/

namespace DispatchLang.Grammar

open Reader

/-! ## Operators -/

/-- What can stand between two expressions. -/
inductive Connective where
  /-- `:=`. -/
  | assign
  /-- The colon of a pair, which only list elements have. -/
  | pair
  /-- An operator. -/
  | binary (op : BinaryOp)

namespace Connective

def ofSymbol? (pairs : Bool) : Symbol → Option Connective
  | .assign => some .assign
  | .colon => if pairs then some .pair else none
  | .plus => some (.binary .add)
  | .minus => some (.binary .sub)
  | .star => some (.binary .mul)
  | .slash => some (.binary .div)
  | .percent => some (.binary .mod)
  | .caret => some (.binary .pow)
  | .equal => some (.binary .eq)
  | .unequal => some (.binary .ne)
  | .less => some (.binary .lt)
  | .greater => some (.binary .gt)
  | .atMost => some (.binary .le)
  | .atLeast => some (.binary .ge)
  | .and => some (.binary .and)
  | .or => some (.binary .or)
  | _ => none

/-- How tightly a connective binds to its left, and the least power of what stands on its right. -/
def powers : Connective → Nat × Nat
  | .assign => (2, 1)
  | .pair => (4, 5)
  | .binary .or => (6, 7)
  | .binary .and => (8, 9)
  | .binary .eq | .binary .ne => (10, 11)
  | .binary .lt | .binary .gt | .binary .le | .binary .ge => (12, 13)
  | .binary .add | .binary .sub => (14, 15)
  | .binary .mul | .binary .div | .binary .mod => (16, 17)
  | .binary .pow => (19, 18)

end Connective

/-- The least power of the operand of `-`, `!` and `#`. -/
def operandPower : Nat := 18

/-- The least power of the body of a function declaration. -/
def bodyPower : Nat := 1

/-- What an expression may contain at its own level. -/
structure Context where
  /-- Whether it may be a pair `key: value`. -/
  pairs : Bool
  /-- Whether a name may be followed by the fields of a construction. -/
  constructs : Bool

namespace Context

/-- The context of an expression that stands alone or in brackets. -/
def nested : Context := ⟨false, true⟩

def element : Context := ⟨true, true⟩

/-- The context of the value that a match looks at, which a brace follows. -/
def scrutinee : Context := ⟨false, false⟩

end Context

/-- A reader for expressions in a context that bind at least as tightly as a given power. -/
abbrev ExpressionReader : Type := Context → Nat → Reader Node

/-! ## Statements -/

/-- Checks that a statement has ended: at a semicolon, which is taken, at the end of the text, at the
closing brace of the block it is in, or at a line break. -/
def statementEnd (inBlock : Bool) : Reader Unit := do
  let l ← here
  match l.token with
  | .symbol .semicolon => let _ ← take
  | .eof => return
  | .symbol .equals => fail .loneEquals l.span
  | token =>
    if inBlock && isSymbol .closeBrace token then return
    else if l.afterBreak then return
    else failHere .trailing

/-! ## Compound forms -/

section

variable (expr : ExpressionReader) (rounds : Nat)

/-- Reads arguments in parentheses and answers them with the span of the closing one. -/
def arguments : Reader (List Node × Span) := do
  let _ ← expect .openParen
  let args ← separated .closeParen true (expr .nested 0) rounds
  return (args, ← expect .closeParen)

/-- Reads what may follow a name: arguments or fields. -/
def afterName (ctx : Context) (head : Located String) : Reader Node := do
  if ← isAt .openParen then
    let (args, close) ← arguments expr rounds
    return .call (head.span.cover close) head args
  else if ctx.constructs && (← fieldsAhead) then
    let (fields, close) ← constructFields (expr .nested 0) rounds
    return .construct (head.span.cover close) head fields
  else return .ident head.span head.val

/-- The entries of an object literal, or an error if a key is neither a name nor a string. -/
def entries : List Node → Except SyntaxError (List (Located String × Node))
  | [] => return []
  | .pair _ (.ident span key) value :: elements =>
    return (⟨key, span⟩, value) :: (← entries elements)
  | .pair _ (.literal span (.string key)) value :: elements =>
    return (⟨key, span⟩, value) :: (← entries elements)
  | .pair _ key _ :: _ => throw ⟨.invalidKey, key.span⟩
  | _ :: elements => entries elements

def isPair : Node → Bool
  | .pair _ _ _ => true
  | _ => false

/-- The array or object that a list of elements stands for. -/
def ofElements (span : Span) (elements : List Node) : Except SyntaxError Node :=
  if elements.all (!isPair ·) then return .array span elements
  else if elements.all isPair then return .object span (← entries elements)
  else throw ⟨.mixedList, span⟩

/-- Reads an array or an object. -/
def list : Reader Node := do
  let opening ← expect .openBracket
  let c ← get
  if isSymbol .colon c.here.token && c.ahead.head?.any (isSymbol .closeBracket ·.token) then
    let _ ← take
    let closing ← take
    return .object (opening.cover closing.span) []
  else
    let elements ← separated .closeBracket true (expr .element 0) rounds
    let closing ← expect .closeBracket
    ofElements (opening.cover closing) elements

def block : Reader Node := do
  let opening ← expect .openBrace
  let params := (← attempt (closureParams rounds)).getD []
  let body ← collect (fun _ => do
    skipWhile (isSymbol .semicolon)
    if ← isAt .closeBrace then return none
    if ← atEnd then fail .unclosedBlock opening
    let statement ← expr .nested 0
    statementEnd true
    return some statement) rounds true
  let closing ← expect .closeBrace
  return .block (opening.cover closing) params body

/-- Reads a match. -/
def cases : Reader Node := do
  let first ← expectWord .match
  let scrutinee ← expr .scrutinee 0
  let opening ← expect .openBrace
  let arms ← collect (fun _ => do
    skipWhile fun t => isSymbol .comma t || isSymbol .semicolon t
    if ← isAt .closeBrace then return none
    if ← atEnd then fail .unclosedMatch opening
    let pat ← pattern rounds
    let _ ← expect .arrow
    let body ← expr .nested 0
    let l ← here
    if isSymbol .comma l.token || isSymbol .closeBrace l.token || l.afterBreak then
      return some (pat, body)
    else failHere .expectedArmEnd) rounds true
  let closing ← expect .closeBrace
  return .cases (first.cover closing) scrutinee arms

def function : Reader Node := do
  let (first, head) ← functionHead rounds
  let body ← expr .nested bodyPower
  return .function (first.cover body.span) head body

/-! ## Primary expressions -/

/-- Reads what an expression begins with. -/
def primary (ctx : Context) : Reader Node := do
  let l ← here
  match l.token with
  | .int value =>
    let _ ← take
    return .literal l.span (.int value)
  | .float value =>
    let _ ← take
    return .literal l.span (.float value)
  | .string value =>
    let _ ← take
    return .literal l.span (.string value)
  | .hugeInt digits => fail (.hugeInt digits) l.span
  | .ident _ => afterName expr rounds ctx (← name)
  | .eof => fail .unexpectedEnd l.span
  | .keyword .true =>
    let _ ← take
    return .literal l.span (.bool true)
  | .keyword .false =>
    let _ ← take
    return .literal l.span (.bool false)
  | .keyword .fn => function expr rounds
  | .keyword .type =>
    if (← get).ahead.head?.any (isSymbol .openParen ·.token) then
      let _ ← take
      afterName expr rounds ctx ⟨"type", l.span⟩
    else typeDecl rounds
  | .keyword .abstract => abstractDecl rounds
  | .keyword .match => cases expr rounds
  | .keyword word => fail (.reserved word) l.span
  | .symbol .openParen =>
    let _ ← take
    let inner ← expr .nested 0
    let _ ← expect .closeParen
    return inner
  | .symbol .openBracket => list expr rounds
  | .symbol .openBrace => block expr rounds
  | .symbol .minus =>
    let _ ← take
    let operand ← expr ctx operandPower
    return .unary (l.span.cover operand.span) .neg operand
  | .symbol .bang =>
    let _ ← take
    let operand ← expr ctx operandPower
    return .unary (l.span.cover operand.span) .not operand
  | .symbol .hash =>
    let _ ← take
    let body ← expr ctx operandPower
    return .quoted (l.span.cover body.span) body
  | .symbol .question => capture rounds
  | .symbol .equals => fail .loneEquals l.span
  | .symbol s => fail (.unexpected (.symbol s)) l.span

/-! ## Operators and members -/

/-- Joins two expressions. -/
def join (left : Node) (connective : Connective) (right : Node) : Node :=
  let span := left.span.cover right.span
  match connective with
  | .assign => .assign span left right
  | .pair => .pair span left right
  | .binary op => .binary span op left right

/-- Adds one member access or one operator with its right side to `left`, or answers nothing if the
expression ends here. A line break ends it unless the next line begins with a symbol that continues
it. -/
def extend (ctx : Context) (least : Nat) (left : Node) : Reader (Option Node) := do
  let l ← here
  if l.afterBreak && !l.token.continuesLine then return none
  match l.token with
  | .symbol .dot =>
    let _ ← take
    let member ← name
    if ← isAt .openParen then
      let (args, close) ← arguments expr rounds
      return some (.send (left.span.cover close) left member args)
    else return some (.field (left.span.cover member.span) left member)
  | .symbol .openBracket =>
    let _ ← take
    let index ← expr .nested 0
    let close ← expect .closeBracket
    return some (.send (left.span.cover close) left ⟨"at", l.span⟩ [index])
  | .symbol s =>
    match Connective.ofSymbol? ctx.pairs s with
    | none => return none
    | some connective =>
      if connective.powers.1 < least then return none
      let _ ← take
      if connective matches .assign then
        if !left.isTarget then fail .invalidTarget left.span
      let right ← expr ctx connective.powers.2
      return some (join left connective right)
  | _ => return none

/-- Extends `left` as far as possible in at most the given number of rounds. -/
def climb (ctx : Context) (least : Nat) : Nat → Node → Reader Node
  | 0, _ => do fail .outOfRounds (← here).span
  | n + 1, left => do
    match ← extend expr rounds ctx least left with
    | none => return left
    | some longer => climb ctx least n longer

end

/-! ## The knot -/

/-- Reads an expression that nests at most the given number of rounds. -/
def expression : Nat → ExpressionReader
  | 0 => fun _ _ => do fail .outOfRounds (← here).span
  | n + 1 => fun ctx least => do
    let left ← primary (expression n) (n + 1) ctx
    climb (expression n) (n + 1) ctx least (n + 1) left

/-- Reads all statements up to the end of the text. -/
def program (rounds : Nat) : Reader Program :=
  collect (fun _ => do
    skipWhile (isSymbol .semicolon)
    if ← atEnd then return none
    let statement ← expression rounds .nested 0
    statementEnd false
    return some statement) rounds true

/-- The program that some lexemes are. There are never more rounds than lexemes. -/
def parse (lexemes : List Lexeme) : Except SyntaxError Program := do
  let (statements, _) ← program (lexemes.length + 1) (.start lexemes)
  return statements

end DispatchLang.Grammar

namespace DispatchLang

/-- Reads a program from its text. -/
def Program.parse (source : String) : Except SyntaxError Program :=
  Grammar.parse (Token.scan source)

end DispatchLang
