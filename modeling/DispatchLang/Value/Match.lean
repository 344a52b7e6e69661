import DispatchLang.Eval.Fault
import DispatchLang.Value.Basic

/-!
# Matching values against patterns

A capture matches everything, or what the pattern matches that it is limited to, and binds the value to
its name. A name matches the alternative of that name, a literal the same literal, and a construction an
instance with that name whose fields match. The values that captures have met are listed inner captures
first and fields in the order of the pattern.
-/

namespace DispatchLang.Value

/-- Whether a value is the one that a literal stands for; integers and floating-point numbers are told
apart. -/
def isLiteral : Value → Literal → Bool
  | .int a, .int b => a = b
  | .float a, .float b => a == b
  | .string a, .string b => a = b
  | .bool a, .bool b => a = b
  | _, _ => false

/-- The alternative that a value is an instance of. -/
def variant? : Value → Option String
  | .inst _ _ variant _ => variant
  | _ => none

/-- The fields of an instance of the alternative, or of the type without alternatives, of the given
name. -/
def fieldsOf? (name : String) : Value → Option (List (String × Value))
  | .inst _ typeName variant fields => if variant.getD typeName = name then some fields else none
  | _ => none

mutual

/-- Matches a value against a pattern. The answer is what the captures have met, or nothing where the
pattern does not match; a tree that is no pattern is an error. -/
def matchPattern : Node → Value → Except RuntimeError (Option (List (String × Value)))
  | .capture _ name, value => .ok (some (name.toList.map (·, value)))
  | .refine _ name pattern, value => do
    match ← matchPattern pattern value with
    | some bindings => return some (bindings ++ name.toList.map (·, value))
    | none => return none
  | .literal _ literal, value => .ok (if value.isLiteral literal then some [] else none)
  | .ident _ name, value => .ok (if value.variant? = some name then some [] else none)
  | .construct _ name fields, value =>
    match value.fieldsOf? name.val with
    | some actual => matchFields fields actual
    | none => .ok none
  | pattern, _ => .error ⟨.pattern .invalid, some pattern.span⟩
termination_by structural pattern _ => pattern

/-- Matches the fields of an instance against the fields of a pattern. -/
def matchFields : List (Located String × Node) → List (String × Value) →
    Except RuntimeError (Option (List (String × Value)))
  | [], _ => .ok (some [])
  | (name, pattern) :: fields, actual =>
    match actual.lookup name.val with
    | none => .ok none
    | some value => do
      match ← matchPattern pattern value with
      | none => return none
      | some bindings =>
        match ← matchFields fields actual with
        | none => return none
        | some more => return some (bindings ++ more)
termination_by structural fields _ => fields

end

end DispatchLang.Value
