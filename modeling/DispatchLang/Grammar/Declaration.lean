import DispatchLang.Grammar.Reader
import DispatchLang.Node.Basic

/-!
# Written types and declarations

The parts of the grammar that contain no expressions: types, parameters, type parameters, fields and
type declarations. The argument `rounds` bounds the number of lexemes left.
-/

namespace DispatchLang.Grammar

open Reader

/-! ## Types and parameters -/

/-- Reads `Name` or `Name[Type, …]`. The bracket has to stand on the same line. -/
def typeExpr : Nat → Reader TypeExpr
  | 0 => do fail .outOfRounds (← here).span
  | n + 1 => do
    let head ← name
    if isSymbol .openBracket (← here).token && !(← here).afterBreak then
      let _ ← take
      let args ← separated .closeBracket false (typeExpr n) (n + 1)
      let close ← expect .closeBracket
      return .applied (head.span.cover close) head.val args
    else return .named head.span head.val

def typeAfter (s : Symbol) (rounds : Nat) : Reader (Option TypeExpr) := do
  if ← accept s then return some (← typeExpr rounds) else return none

/-- Reads `name` or `name: Type`. -/
def param (rounds : Nat) : Reader Param := do
  let head ← name
  return ⟨head, ← typeAfter .colon rounds⟩

/-- Reads `T` or `T <: Type`. -/
def typeParam (rounds : Nat) : Reader TypeParam := do
  let head ← name
  return ⟨head, ← typeAfter .below rounds⟩

def typeParams (rounds : Nat) : Reader (List TypeParam) := do
  if ← accept .openBracket then
    let params ← separated .closeBracket false (typeParam rounds) rounds
    let _ ← expect .closeBracket
    return params
  else return []

def closureParams : Nat → Reader (List Param)
  | 0 => do fail .outOfRounds (← here).span
  | n + 1 => do
    let p ← param (n + 1)
    if ← accept .comma then return p :: (← closureParams n)
    else
      let _ ← expect .bar
      return [p]

/-- Reads what stands between the name of a function and `:=`. -/
def functionParams (rounds : Nat) : Reader (List Param) := do
  match (← here).token with
  | .symbol .openParen =>
    let _ ← take
    let params ← separated .closeParen false (param rounds) rounds
    let _ ← expect .closeParen
    return params
  | .ident _ => return [← param rounds]
  | .symbol .assign => return []
  | _ => failHere .expectedParams

/-- Reads a function declaration up to and including `:=`, and answers the span of its first word with
it. -/
def functionHead (rounds : Nat) : Reader (Span × FunctionHead) := do
  let first ← expectWord .fn
  let head ← name
  let types ← typeParams rounds
  let params ← functionParams rounds
  let _ ← expect .assign
  return (first, ⟨head, types, params⟩)

/-! ## Type declarations -/

/-- Reads `name: Type`. -/
def fieldDecl (rounds : Nat) : Reader FieldDecl := do
  if isName (← here).token then
    let head ← name
    if ← accept .colon then return ⟨head, ← typeExpr rounds⟩ else failHere .expectedField
  else failHere .expectedField

/-- Reads one alternative: a name, perhaps with fields in parentheses on the same line. -/
def variantDecl (rounds : Nat) : Reader VariantDecl := do
  let head ← name
  if isSymbol .openParen (← here).token && !(← here).afterBreak then
    let _ ← take
    let fields ← lines .closeParen (fieldDecl rounds) rounds
    let _ ← expect .closeParen
    return ⟨head, fields⟩
  else return ⟨head, []⟩

/-- Reads alternatives with bars between them. -/
def variantDecls : Nat → Reader (List VariantDecl)
  | 0 => do fail .outOfRounds (← here).span
  | n + 1 => do
    let v ← variantDecl (n + 1)
    if ← accept .bar then return v :: (← variantDecls n) else return [v]

/-- Reads what a type declaration says about the instances. -/
def typeBody (rounds : Nat) : Reader TypeBody := do
  if ← accept .openBrace then
    let fields ← lines .closeBrace (fieldDecl rounds) rounds
    let _ ← expect .closeBrace
    return .struct fields
  else if ← accept .equals then return .variants (← variantDecls rounds)
  else return .concrete

def typeDecl (rounds : Nat) : Reader Node := do
  let first ← expectWord .type
  let head ← name
  let params ← typeParams rounds
  let parent ← typeAfter .below rounds
  let body ← typeBody rounds
  return .typeDecl (first.cover (← get).last) ⟨head, params, parent, body⟩

/-- Reads a declaration that begins with `abstract`. The word `type` after it changes nothing. -/
def abstractDecl (rounds : Nat) : Reader Node := do
  let first ← expectWord .abstract
  if isKeyword .type (← here).token then
    let _ ← take
  let head ← name
  let parent ← typeAfter .below rounds
  return .typeDecl (first.cover (← get).last) ⟨head, [], parent, .abstract⟩

end DispatchLang.Grammar
