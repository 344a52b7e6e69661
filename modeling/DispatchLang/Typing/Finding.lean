import DispatchLang.ErrorKind
import DispatchLang.Method.Resolve
import DispatchLang.Source.Span

/-!
# Findings

What the type checker can find wrong with a program. A finding has a cause and a place; what it is
called, which kind of error it belongs to, and what it says follow from the cause. A cause names types by
the texts they are shown with.
-/

namespace DispatchLang

/-- The names under which findings are reported. -/
inductive FindingKind where
  | undefinedVariable | undefinedType | unknownField | missingField | duplicateField
  | typeMismatch | arity | noMatchingMethod | ambiguousCall | unknownVariant
  | invalidAssignment | invalidPattern
deriving DecidableEq

namespace FindingKind

def name : FindingKind → String
  | .undefinedVariable => "UndefinedVariable"
  | .undefinedType => "UndefinedType"
  | .unknownField => "UnknownField"
  | .missingField => "MissingField"
  | .duplicateField => "DuplicateField"
  | .typeMismatch => "TypeMismatch"
  | .arity => "Arity"
  | .noMatchingMethod => "NoMatchingMethod"
  | .ambiguousCall => "AmbiguousCall"
  | .unknownVariant => "UnknownVariant"
  | .invalidAssignment => "InvalidAssignment"
  | .invalidPattern => "InvalidPattern"

def errorKind : FindingKind → ErrorKind
  | .undefinedVariable => .undefinedVariable
  | .undefinedType | .unknownVariant => .undefinedType
  | .unknownField | .missingField | .duplicateField => .fieldAccess
  | .arity => .arity
  | .noMatchingMethod => .method
  | .ambiguousCall => .methodAmbiguity
  | .invalidAssignment | .invalidPattern => .patternMatch
  | .typeMismatch => .typeMismatch

end FindingKind

/-- What a value of a wrong type was meant for. -/
inductive ExpectedBy where
  /-- A field of a type or an alternative. -/
  | field (field owner : String)
  /-- A parameter of a function, counted from one. -/
  | argument (position : Nat) (function : String)

/-- What a value was meant for, in words. -/
def ExpectedBy.text : ExpectedBy → String
  | .field name owner => "field '" ++ name ++ "' of " ++ owner
  | .argument position function =>
    "argument " ++ Decimal.natText position ++ " of '" ++ function ++ "'"

/-- Why something is found wrong. -/
inductive FindingCause where
  | undefinedVariable (name : String)
  | undefinedFunction (name : String)
  | undefinedType (name : String)
  | typeWithoutField (type field : String)
  | variantsWithoutField (type field : String)
  | literalWithoutField (owner field : String)
  | patternWithoutField (owner field : String)
  | missingField (field owner : String)
  | duplicateField (field owner : String)
  | mismatch (purpose : ExpectedBy) (expected actual : String)
  | typeNotCallable (type : String)
  | typeWithoutFields (type : String)
  | wrongArity (function : String) (expected given : Nat)
  | noSuchArity (function : String) (given : Nat)
  | unresolved (error : DispatchError)
  | unknownVariant (name : String)
  | unknownVariantOrType (name : String)
  | invalidTarget
  | strayCapture
  | invalidPattern

namespace FindingCause

def kind : FindingCause → FindingKind
  | .undefinedVariable _ | .undefinedFunction _ => .undefinedVariable
  | .undefinedType _ => .undefinedType
  | .typeWithoutField _ _ | .variantsWithoutField _ _ | .literalWithoutField _ _
  | .patternWithoutField _ _ => .unknownField
  | .missingField _ _ => .missingField
  | .duplicateField _ _ => .duplicateField
  | .mismatch _ _ _ | .typeNotCallable _ | .typeWithoutFields _ => .typeMismatch
  | .wrongArity _ _ _ | .noSuchArity _ _ => .arity
  | .unresolved (.ambiguous _ _ _) => .ambiguousCall
  | .unresolved _ => .noMatchingMethod
  | .unknownVariant _ | .unknownVariantOrType _ => .unknownVariant
  | .invalidTarget => .invalidAssignment
  | .strayCapture | .invalidPattern => .invalidPattern

/-- What a cause says. -/
def message : FindingCause → String
  | .undefinedVariable name => "undefined variable '" ++ name ++ "'"
  | .undefinedFunction name => "undefined function '" ++ name ++ "'"
  | .undefinedType name => "undefined type '" ++ name ++ "'"
  | .typeWithoutField type field => "type '" ++ type ++ "' has no field '" ++ field ++ "'"
  | .variantsWithoutField type field =>
    "no variant of '" ++ type ++ "' has a field '" ++ field ++ "'"
  | .literalWithoutField owner field => owner ++ " has no field '" ++ field ++ "'"
  | .patternWithoutField owner field => "'" ++ owner ++ "' has no field '" ++ field ++ "'"
  | .missingField field owner => "missing field '" ++ field ++ "' in " ++ owner ++ " literal"
  | .duplicateField field owner => "field '" ++ field ++ "' of " ++ owner ++ " is given twice"
  | .mismatch purpose expected actual =>
    purpose.text ++ ": expected " ++ expected ++ ", found " ++ actual
  | .typeNotCallable type => "type '" ++ type ++ "' is not callable"
  | .typeWithoutFields type => "type '" ++ type ++ "' has no fields to instantiate"
  | .wrongArity function expected given =>
    "function '" ++ function ++ "' expects " ++ Decimal.natText expected ++
      " argument(s), got " ++ Decimal.natText given
  | .noSuchArity function given =>
    "no method of '" ++ function ++ "' takes " ++ Decimal.natText given ++ " argument(s)"
  | .unresolved error => error.message
  | .unknownVariant name => "unknown variant '" ++ name ++ "' in pattern"
  | .unknownVariantOrType name => "unknown variant or type '" ++ name ++ "' in pattern"
  | .invalidTarget => "invalid assignment target"
  | .strayCapture => "capture pattern outside of a pattern"
  | .invalidPattern => "invalid pattern"

/-- The type that was expected and the one that was found, where that is what is wrong. -/
def types? : FindingCause → Option (String × String)
  | .mismatch _ expected actual => some (expected, actual)
  | _ => none

end FindingCause

/-- Something that is found wrong with a program. -/
structure Finding where
  /-- Why it is wrong. -/
  cause : FindingCause
  /-- Where it stands. -/
  span : Span

namespace Finding

def kind (finding : Finding) : FindingKind := finding.cause.kind

/-- What a finding says. -/
def message (finding : Finding) : String := finding.cause.message

end Finding

end DispatchLang
