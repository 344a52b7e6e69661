import DispatchLang.Grammar.Expression

/-!
# Reading by position

A `Reader` moves a cursor that cannot leave the text, is told by an argument what an expression may contain, and
forgets where it stood when it refuses. The machine here does by hand what these three take for granted. Its state is
the number of lexemes that were taken, which may be any number, and two flags that say what an expression may
contain. A call that reads another expression switches the flags before and switches them back after it; a call that
refuses leaves its state behind, so that nothing is restored unless some call restores it. Looking past the text
shows an end that is not there, and taking the end goes past it.

Loops and recursion are run for a number of rounds, and a run that is not over by then has no outcome at all. This is
not an error: a call that tries another one and goes on when it refuses does not go on after this.

That the machine and the readers come to the same, and what can be said of the state of the machine, is proved
elsewhere.

## Main definitions

* `Machine`: a computation on the state.
* `Machine.within`: a call with other flags.
* `Machine.expression`, `Machine.program`: the grammar.
-/

namespace DispatchLang

namespace Machine

/-- What an expression may contain at its own level. -/
structure Flags where
  /-- Whether it may be a pair. -/
  pairs : Bool
  /-- Whether a name may not be followed by the fields of a construction. -/
  restricted : Bool
deriving DecidableEq

/-- What readers are told of the flags. -/
def Flags.context (flags : Flags) : Grammar.Context := ⟨flags.pairs, !flags.restricted⟩

structure State where
  /-- How many lexemes have been taken. -/
  position : Nat
  /-- What the expression that is being read may contain. -/
  flags : Flags
deriving DecidableEq

/-- The state at the beginning of a text. -/
def State.start : State := ⟨0, ⟨false, false⟩⟩

end Machine

/-- A computation that looks at the lexemes of a text and changes the state. It has no outcome if it is not over after
the rounds that it was given. -/
def Machine (α : Type) : Type :=
  List Lexeme → Machine.State → Option (Except SyntaxError α × Machine.State)

namespace Machine

variable {α β : Type}

instance : Monad Machine where
  pure a := fun _ s => some (.ok a, s)
  bind p f := fun text s =>
    match p text s with
    | none => none
    | some (.error e, t) => some (.error e, t)
    | some (.ok a, t) => f a text t

/-! ## Steps -/

/-- No outcome. -/
def outOfRounds : Machine α := fun _ _ => none

/-- Refuses because of something at `span`. -/
def fail (cause : SyntaxCause) (span : Span) : Machine α := fun _ s => some (.error ⟨cause, span⟩, s)

/-- What was computed without reading. -/
def ofExcept (x : Except SyntaxError α) : Machine α := fun _ s => some (x, s)

def peek (ahead : Nat) : Machine Lexeme := fun text s => some (.ok (text.getD (s.position + ahead) Cursor.nothing), s)

/-- The next lexeme. -/
def here : Machine Lexeme := peek 0

def spanBefore (text : List Lexeme) : Nat → Span
  | 0 => .nowhere
  | i + 1 => (text.getD i Cursor.nothing).span

/-- The span of the lexeme taken last. -/
def last : Machine Span := fun text s => some (.ok (spanBefore text s.position), s)

/-- Takes the next lexeme, if there is one. -/
def take : Machine Lexeme := fun text s =>
  some (.ok (text.getD s.position Cursor.nothing),
    if s.position < text.length then { s with position := s.position + 1 } else s)

/-- Refuses because of the next lexeme. -/
def failHere (cause : Token → SyntaxCause) : Machine α := do
  let l ← here
  fail (cause l.token) l.span

/-- Passes over all lexemes from here on whose token satisfies `p`. -/
def skipWhile (p : Token → Bool) : Nat → Machine Unit
  | 0 => outOfRounds
  | n + 1 => do
    let l ← here
    if p l.token then
      let _ ← take
      skipWhile p n
    else return

/-- Whether the next lexeme is the given symbol. -/
def isAt (s : Symbol) : Machine Bool := return Reader.isSymbol s (← here).token

/-- Whether the next lexeme is the end of the text. -/
def atEnd : Machine Bool :=
  return match (← here).token with
    | .eof => true
    | _ => false

/-- Takes the given symbol if it is next, and says whether it did. -/
def accept (s : Symbol) : Machine Bool := do
  if ← isAt s then
    let _ ← take
    return true
  else return false

def expect (s : Symbol) : Machine Span := do
  if ← isAt s then return (← take).span else failHere (.expected (.symbol s))

/-- Takes the given reserved word and answers its span. -/
def expectWord (k : Keyword) : Machine Span := do
  if Reader.isKeyword k (← here).token then return (← take).span else failHere (.expected (.keyword k))

def name : Machine (Located String) := do
  let l ← here
  match l.token with
  | .ident text =>
    let _ ← take
    return ⟨text, l.span⟩
  | _ => failHere .expectedName

/-- Runs a machine; where it refuses the position is set back and the answer is nothing. -/
def attempt (p : Machine α) : Machine (Option α) := fun text s =>
  match p text s with
  | none => none
  | some (.ok a, t) => some (.ok (some a), t)
  | some (.error _, t) => some (.ok none, { t with position := s.position })

/-- Runs a machine with other flags and switches back to those from before, whatever it comes to. -/
def within (flags : Flags) (p : Machine α) : Machine α := fun text s =>
  match p text { s with flags := flags } with
  | none => none
  | some (x, t) => some (x, { t with flags := s.flags })

/-- Runs a machine for an expression that stands alone or in brackets. -/
def nested (p : Machine α) : Machine α := within ⟨false, false⟩ p

/-! ## Lists -/

/-- Takes one thing after another until `item` answers nothing, in at most the given number of rounds. -/
def collect (item : Bool → Machine (Option α)) : Nat → Bool → Machine (List α)
  | 0, _ => outOfRounds
  | n + 1, first => do
    match ← item first with
    | none => return []
    | some a => return a :: (← collect item n false)

/-- Reads things with commas between them up to `close`, which is not taken. -/
def separated (close : Symbol) ( trailing : Bool) (item : Machine α) (rounds : Nat) : Machine (List α) :=
  collect (fun first => do
    if ← isAt close then return none
    if !first then
      let _ ← expect .comma
      if trailing && (← isAt close) then return none
    return some (← item)) rounds true

/-- Reads things up to `close`, which is not taken, with commas or line breaks between them. -/
def lines (close : Symbol) (item : Machine α) (rounds : Nat) : Machine (List α) :=
  collect (fun _ => do
    skipWhile (Reader.isSymbol .comma) rounds
    if ← isAt close then return none
    let a ← item
    let l ← here
    if Reader.isSymbol .comma l.token || Reader.isSymbol close l.token || l.afterBreak then return some a
    else failHere (.expectedCommaOr close)) rounds true

/-! ## Types and parameters -/

/-- Reads `Name` or `Name[Type, …]`. -/
def typeExpr : Nat → Machine TypeExpr
  | 0 => outOfRounds
  | n + 1 => do
    let head ← name
    if Reader.isSymbol .openBracket (← here).token && !(← here).afterBreak then
      let _ ← take
      let args ← separated .closeBracket false (typeExpr n) (n + 1)
      let close ← expect .closeBracket
      return .applied (head.span.cover close) head.val args
    else return .named head.span head.val

def typeAfter (s : Symbol) (rounds : Nat) : Machine (Option TypeExpr) := do
  if ← accept s then return some (← typeExpr rounds) else return none

/-- Reads `name` or `name: Type`. -/
def param (rounds : Nat) : Machine Param := do
  let head ← name
  return ⟨head, ← typeAfter .colon rounds⟩

/-- Reads `T` or `T <: Type`. -/
def typeParam (rounds : Nat) : Machine TypeParam := do
  let head ← name
  return ⟨head, ← typeAfter .below rounds⟩

def typeParams (rounds : Nat) : Machine (List TypeParam) := do
  if ← accept .openBracket then
    let params ← separated .closeBracket false (typeParam rounds) rounds
    let _ ← expect .closeBracket
    return params
  else return []

def closureParams : Nat → Machine (List Param)
  | 0 => outOfRounds
  | n + 1 => do
    let p ← param (n + 1)
    if ← accept .comma then return p :: (← closureParams n)
    else
      let _ ← expect .bar
      return [p]

/-- Reads what stands between the name of a function and `:=`. -/
def functionParams (rounds : Nat) : Machine (List Param) := do
  match (← here).token with
  | .symbol .openParen =>
    let _ ← take
    let params ← separated .closeParen false (param rounds) rounds
    let _ ← expect .closeParen
    return params
  | .ident _ => return [← param rounds]
  | .symbol .assign => return []
  | _ => failHere .expectedParams

/-- Reads a function declaration up to and including `:=`. -/
def functionHead (rounds : Nat) : Machine (Span × FunctionHead) := do
  let first ← expectWord .fn
  let head ← name
  let types ← typeParams rounds
  let params ← functionParams rounds
  let _ ← expect .assign
  return (first, ⟨head, types, params⟩)

/-! ## Type declarations -/

/-- Reads `name: Type`. -/
def fieldDecl (rounds : Nat) : Machine FieldDecl := do
  if Reader.isName (← here).token then
    let head ← name
    if ← accept .colon then return ⟨head, ← typeExpr rounds⟩ else failHere .expectedField
  else failHere .expectedField

/-- Reads one alternative. -/
def variantDecl (rounds : Nat) : Machine VariantDecl := do
  let head ← name
  if Reader.isSymbol .openParen (← here).token && !(← here).afterBreak then
    let _ ← take
    let fields ← lines .closeParen (fieldDecl rounds) rounds
    let _ ← expect .closeParen
    return ⟨head, fields⟩
  else return ⟨head, []⟩

/-- Reads alternatives with bars between them. -/
def variantDecls : Nat → Machine (List VariantDecl)
  | 0 => outOfRounds
  | n + 1 => do
    let v ← variantDecl (n + 1)
    if ← accept .bar then return v :: (← variantDecls n) else return [v]

/-- Reads what a type declaration says about the instances. -/
def typeBody (rounds : Nat) : Machine TypeBody := do
  if ← accept .openBrace then
    let fields ← lines .closeBrace (fieldDecl rounds) rounds
    let _ ← expect .closeBrace
    return .struct fields
  else if ← accept .equals then return .variants (← variantDecls rounds)
  else return .concrete

/-- Reads a declaration that begins with `type`. -/
def typeDecl (rounds : Nat) : Machine Node := do
  let first ← expectWord .type
  let head ← name
  let params ← typeParams rounds
  let parent ← typeAfter .below rounds
  let body ← typeBody rounds
  return .typeDecl (first.cover (← last)) ⟨head, params, parent, body⟩

/-- Reads a declaration that begins with `abstract`. -/
def abstractDecl (rounds : Nat) : Machine Node := do
  let first ← expectWord .abstract
  if Reader.isKeyword .type (← here).token then
    let _ ← take
  let head ← name
  let parent ← typeAfter .below rounds
  return .typeDecl (first.cover (← last)) ⟨head, [], parent, .abstract⟩

/-! ## Patterns -/

/-- Whether a brace, a name and a colon are next. -/
def fieldsAhead : Machine Bool := do
  let l ← peek 0
  let m ← peek 1
  let k ← peek 2
  return Reader.isSymbol .openBrace l.token && (Reader.isName m.token && Reader.isSymbol .colon k.token)

/-- Reads fields in braces and answers them with the span of the closing brace. -/
def constructFields (item : Machine Node) (rounds : Nat) : Machine (List (Located String × Node) × Span) := do
  let _ ← expect .openBrace
  let field : Machine (Located String × Node) := do
    let head ← name
    let _ ← expect .colon
    return (head, ← item)
  let fields ← lines .closeBrace field rounds
  return (fields, ← expect .closeBrace)

def captureWith (pattern : Machine Node) : Machine Node := do
  let first ← expect .question
  let l ← here
  let (bound, span) ←
    if Reader.isName l.token && l.touches then do
      let head ← name
      pure (some head.val, first.cover head.span)
    else pure (none, first)
  let l ← here
  if !l.afterBreak && Grammar.beginsRefinement l.token then
    let inner ← pattern
    return .refine (span.cover inner.span) bound inner
  else return .capture span bound

def pattern : Nat → Machine Node
  | 0 => outOfRounds
  | n + 1 => do
    let l ← here
    match l.token with
    | .symbol .question => captureWith (pattern n)
    | .ident _ =>
      let head ← name
      if ← fieldsAhead then
        let (fields, close) ← constructFields (pattern n) (n + 1)
        return .construct (head.span.cover close) head fields
      else return .ident head.span head.val
    | .symbol .minus =>
      let _ ← take
      let number ← here
      match Grammar.negative? number.token with
      | some value =>
        let _ ← take
        return .literal (l.span.cover number.span) value
      | none => failHere .expectedPatternNumber
    | token =>
      match Grammar.literal? token with
      | some value =>
        let _ ← take
        return .literal l.span value
      | none => failHere .expectedPattern

def capture (rounds : Nat) : Machine Node := captureWith (pattern rounds)

/-! ## Statements -/

def statementEnd (inBlock : Bool) : Machine Unit := do
  let l ← here
  match l.token with
  | .symbol .semicolon => let _ ← take
  | .eof => return
  | .symbol .equals => fail .loneEquals l.span
  | token =>
    if inBlock && Reader.isSymbol .closeBrace token then return
    else if l.afterBreak then return
    else failHere .trailing

/-! ## Compound forms -/

section

variable (expr : Nat → Machine Node) (rounds : Nat)

/-- Reads arguments in parentheses and answers them with the span of the closing one. -/
def arguments : Machine (List Node × Span) := do
  let _ ← expect .openParen
  let args ← separated .closeParen true (nested (expr 0)) rounds
  return (args, ← expect .closeParen)

/-- The flags of the expression that is being read. -/
def flags : Machine Flags := fun _ s => some (.ok s.flags, s)

/-- Reads what may follow a name: arguments or fields. -/
def afterName (head : Located String) : Machine Node := do
  if ← isAt .openParen then
    let (args, close) ← arguments expr rounds
    return .call (head.span.cover close) head args
  else if !(← flags).restricted && (← fieldsAhead) then
    let (fields, close) ← constructFields (nested (expr 0)) rounds
    return .construct (head.span.cover close) head fields
  else return .ident head.span head.val

/-- Reads an array or an object. -/
def list : Machine Node := do
  let opening ← expect .openBracket
  let l ← peek 0
  let m ← peek 1
  if Reader.isSymbol .colon l.token && Reader.isSymbol .closeBracket m.token then
    let _ ← take
    let closing ← take
    return .object (opening.cover closing.span) []
  else
    let elements ← separated .closeBracket true (within ⟨true, false⟩ (expr 0)) rounds
    let closing ← expect .closeBracket
    ofExcept (Grammar.ofElements (opening.cover closing) elements)

/-- Reads a block or a closure. -/
def block : Machine Node := do
  let opening ← expect .openBrace
  let params := (← attempt (closureParams rounds)).getD []
  let body ← collect (fun _ => do
    skipWhile (Reader.isSymbol .semicolon) rounds
    if ← isAt .closeBrace then return none
    if ← atEnd then fail .unclosedBlock opening
    let statement ← nested (expr 0)
    statementEnd true
    return some statement) rounds true
  let closing ← expect .closeBrace
  return .block (opening.cover closing) params body

/-- Reads a match. -/
def cases : Machine Node := do
  let first ← expectWord .match
  let scrutinee ← within ⟨false, true⟩ (expr 0)
  let opening ← expect .openBrace
  let arms ← collect (fun _ => do
    skipWhile (fun t => Reader.isSymbol .comma t || Reader.isSymbol .semicolon t) rounds
    if ← isAt .closeBrace then return none
    if ← atEnd then fail .unclosedMatch opening
    let pat ← pattern rounds
    let _ ← expect .arrow
    let body ← nested (expr 0)
    let l ← here
    if Reader.isSymbol .comma l.token || Reader.isSymbol .closeBrace l.token || l.afterBreak then
      return some (pat, body)
    else failHere .expectedArmEnd) rounds true
  let closing ← expect .closeBrace
  return .cases (first.cover closing) scrutinee arms

/-- Reads a function declaration. -/
def function : Machine Node := do
  let (first, head) ← functionHead rounds
  let body ← nested (expr Grammar.bodyPower)
  return .function (first.cover body.span) head body

/-! ## Expressions -/

/-- Reads what an expression begins with. -/
def primary : Machine Node := do
  let l ← here
  match l.token with
  | .int value =>
    let _ ← take
    return .literal l.span (.int value)
  | .float value =>
    let _ ← take
    return .literal l.span (.float value)
  | .string value =>
    let _ ← take
    return .literal l.span (.string value)
  | .hugeInt digits => fail (.hugeInt digits) l.span
  | .ident _ => afterName expr rounds (← name)
  | .eof => fail .unexpectedEnd l.span
  | .keyword .true =>
    let _ ← take
    return .literal l.span (.bool true)
  | .keyword .false =>
    let _ ← take
    return .literal l.span (.bool false)
  | .keyword .fn => function expr rounds
  | .keyword .type =>
    if Reader.isSymbol .openParen (← peek 1).token then
      let _ ← take
      afterName expr rounds ⟨"type", l.span⟩
    else typeDecl rounds
  | .keyword .abstract => abstractDecl rounds
  | .keyword .match => cases expr rounds
  | .keyword word => fail (.reserved word) l.span
  | .symbol .openParen =>
    let _ ← take
    let inner ← nested (expr 0)
    let _ ← expect .closeParen
    return inner
  | .symbol .openBracket => list expr rounds
  | .symbol .openBrace => block expr rounds
  | .symbol .minus =>
    let _ ← take
    let operand ← expr Grammar.operandPower
    return .unary (l.span.cover operand.span) .neg operand
  | .symbol .bang =>
    let _ ← take
    let operand ← expr Grammar.operandPower
    return .unary (l.span.cover operand.span) .not operand
  | .symbol .hash =>
    let _ ← take
    let body ← expr Grammar.operandPower
    return .quoted (l.span.cover body.span) body
  | .symbol .question => capture rounds
  | .symbol .equals => fail .loneEquals l.span
  | .symbol s => fail (.unexpected (.symbol s)) l.span

/-- Adds one member access or one operator with its right side to `left`, or answers nothing if the expression ends
here. -/
def extend (least : Nat) (left : Node) : Machine (Option Node) := do
  let l ← here
  if l.afterBreak && !l.token.continuesLine then return none
  match l.token with
  | .symbol .dot =>
    let _ ← take
    let member ← name
    if ← isAt .openParen then
      let (args, close) ← arguments expr rounds
      return some (.send (left.span.cover close) left member args)
    else return some (.field (left.span.cover member.span) left member)
  | .symbol .openBracket =>
    let _ ← take
    let index ← nested (expr 0)
    let close ← expect .closeBracket
    return some (.send (left.span.cover close) left ⟨"at", l.span⟩ [index])
  | .symbol s =>
    match Grammar.Connective.ofSymbol? (← flags).pairs s with
    | none => return none
    | some connective =>
      if connective.powers.1 < least then return none
      let _ ← take
      if connective matches .assign then
        if !left.isTarget then fail .invalidTarget left.span
      let right ← expr connective.powers.2
      return some (Grammar.join left connective right)
  | _ => return none

/-- Extends `left` as far as possible in at most the given number of rounds. -/
def climb (least : Nat) : Nat → Node → Machine Node
  | 0, _ => outOfRounds
  | n + 1, left => do
    match ← extend expr rounds least left with
    | none => return left
    | some longer => climb least n longer

end

def expression : Nat → Nat → Machine Node
  | 0, _ => outOfRounds
  | n + 1, least => do
    let left ← primary (expression n) (n + 1)
    climb (expression n) (n + 1) least (n + 1) left

/-- Reads all statements up to the end of the text. -/
def program (rounds : Nat) : Machine Program :=
  collect (fun _ => do
    skipWhile (Reader.isSymbol .semicolon) rounds
    if ← atEnd then return none
    let statement ← nested (expression rounds 0)
    statementEnd false
    return some statement) rounds true

end Machine

end DispatchLang
