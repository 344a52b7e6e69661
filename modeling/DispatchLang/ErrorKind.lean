/-!
# Kinds of errors

The classes of errors that reading, checking and running a program share. The name of the kind is what
a report begins with.
-/

namespace DispatchLang

inductive ErrorKind where
  | parse | undefinedVariable | undefinedType | fieldAccess | methodNotFound | method
  | methodAmbiguity | arithmetic | patternMatch | typeMismatch | arity | format
deriving DecidableEq

def ErrorKind.name : ErrorKind → String
  | .parse => "ParseError"
  | .undefinedVariable => "UndefinedVariableError"
  | .undefinedType => "UndefinedTypeError"
  | .fieldAccess => "FieldAccessError"
  | .methodNotFound => "MethodNotFoundError"
  | .method => "MethodError"
  | .methodAmbiguity => "MethodAmbiguity"
  | .arithmetic => "ArithmeticError"
  | .patternMatch => "PatternMatchFailure"
  | .typeMismatch => "TypeMismatchError"
  | .arity => "ArityError"
  | .format => "FormatError"

end DispatchLang
