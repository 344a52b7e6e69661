import DispatchLang.ErrorKind
import DispatchLang.Method.Resolve
import DispatchLang.Number.Basic
import DispatchLang.Text.Template

/-!
# Run-time errors

The causes for which running a program can fail, grouped by kind. A cause names values and types by the
texts they are shown with. Where in the program an error arose is noted by the innermost node that was
being evaluated, unless the cause already knows a better place.
-/

namespace DispatchLang

/-! ## Causes -/

/-- What is wrong with a field or an index. -/
inductive FieldFault where
  | outOfBounds (index : Int64) (length : Nat)
  | unknown (field type : String)
  | duplicate (field : String)
  | missing (field type : String)
  | absent (field type : String)
  | inaccessible (field type : String)

/-- What is wrong with a pattern. -/
inductive PatternFault where
  | noMatch (value : String)
  | strayCapture
  | destructuring (value : String)
  | invalid

/-- What has a wrong type. -/
inductive Mismatch where
  | unaryOperand (op : UnaryOp) (type : String)
  | operands (op : BinaryOp) (left right : String)
  | logicalOperand (op : BinaryOp) (type : String)
  | assignmentTarget
  | notCallable (type : String)
  | noFields (type : String)
  | strayPair
  | lengthOf (thing : String)
  | rangeArguments
  | evalArgument (thing : String)
  | intArgument (method type : String)
  | stringArgument (method type : String)
  | callbackResult (method type : String)
  | summand (type : String)
  | fieldType (field owner expected actual : String)
  | expectedNumber (value : String)
  | expectedString (value : String)
  | expectedInt (value : String)
  | expectedBoolean (value : String)
  | expectedArray (value : String)
  | expectedArrays
  | expectedObject (value : String)
  | expectedStringAndInt

/-- What is called with a wrong number of arguments. -/
inductive ArityFault where
  /-- The thing takes exactly `expected` arguments. -/
  | exactly (callee : String) (expected given : Nat)
  /-- The thing takes one of two numbers of arguments. -/
  | either (callee : String) (few many : Nat) (given : Nat)

/-- Why running a program failed. -/
inductive Fault where
  | undefinedVariable (name : String)
  | undefinedType (name : String)
  | field (fault : FieldFault)
  | methodNotFound (method type : String)
  | dispatch (error : DispatchError)
  | number (fault : NumberFault)
  | pattern (fault : PatternFault)
  | mismatch (fault : Mismatch)
  | arity (fault : ArityFault)
  | template (fault : Template.Fault)

/-! ## Texts -/

/-- The text of a cause. -/
def FieldFault.message : FieldFault → String
  | .outOfBounds index length =>
    "index " ++ Decimal.intText index.toInt ++ " is out of bounds for length " ++
      Decimal.natText length
  | .unknown field type => "unknown field '" ++ field ++ "' for type " ++ type
  | .duplicate field => "duplicate field '" ++ field ++ "'"
  | .missing field type => "missing field '" ++ field ++ "' for type " ++ type
  | .absent field type => "no field '" ++ field ++ "' on " ++ type
  | .inaccessible field type => "cannot access field '" ++ field ++ "' on " ++ type

/-- The text of a cause. -/
def PatternFault.message : PatternFault → String
  | .noMatch value => "no matching pattern for " ++ value
  | .strayCapture => "capture patterns are only valid inside a match arm or destructuring"
  | .destructuring value => "destructuring failed: " ++ value ++ " does not match the pattern"
  | .invalid => "invalid pattern"

/-- The text of a cause. -/
def Mismatch.message : Mismatch → String
  | .unaryOperand op type => "unsupported operand type for unary '" ++ op.text ++ "': " ++ type
  | .operands op left right =>
    "unsupported operand types for '" ++ op.text ++ "': " ++ left ++ " and " ++ right
  | .logicalOperand op type => "'" ++ op.text ++ "' expects Boolean operands, got " ++ type
  | .assignmentTarget => "invalid assignment target"
  | .notCallable type => type ++ " is not callable"
  | .noFields type => "type '" ++ type ++ "' has no fields to instantiate"
  | .strayPair => "key-value pair outside of an object literal"
  | .lengthOf thing => "len() is not defined for " ++ thing
  | .rangeArguments => "range() expects Int arguments"
  | .evalArgument thing => "eval() expects a quoted form, got " ++ thing
  | .intArgument method type => "method '" ++ method ++ "' expects an Int argument, got " ++ type
  | .stringArgument method type =>
    "method '" ++ method ++ "' expects a String argument, got " ++ type
  | .callbackResult method type =>
    "callback passed to '" ++ method ++ "' must return a Boolean, got " ++ type
  | .summand type => "sum() expects numbers, got " ++ type
  | .fieldType field owner expected actual =>
    "field '" ++ field ++ "' of " ++ owner ++ " expects " ++ expected ++ ", got " ++ actual
  | .expectedNumber value => "expected a number, got " ++ value
  | .expectedString value => "expected a String, got " ++ value
  | .expectedInt value => "expected an Int, got " ++ value
  | .expectedBoolean value => "expected a Boolean, got " ++ value
  | .expectedArray value => "expected an array, got " ++ value
  | .expectedArrays => "'+' expects two arrays"
  | .expectedObject value => "expected an object, got " ++ value
  | .expectedStringAndInt => "'*' expects a String and an Int"

/-- The text of a cause. -/
def ArityFault.message : ArityFault → String
  | .exactly callee expected given =>
    callee ++ " expects " ++ Decimal.natText expected ++
      (if expected = 1 then " argument, got " else " arguments, got ") ++ Decimal.natText given
  | .either callee few many given =>
    callee ++ " expects " ++ Decimal.natText few ++ " or " ++ Decimal.natText many ++
      " arguments, got " ++ Decimal.natText given

namespace Fault

/-- The text of a cause. -/
def message : Fault → String
  | .undefinedVariable name => "undefined variable '" ++ name ++ "'"
  | .undefinedType name => "undefined type '" ++ name ++ "'"
  | .field fault => fault.message
  | .methodNotFound method type => "no method '" ++ method ++ "' for " ++ type
  | .dispatch error => error.message
  | .number fault => fault.message
  | .pattern fault => fault.message
  | .mismatch fault => fault.message
  | .arity fault => fault.message
  | .template fault => fault.message

/-- The kind of a cause. -/
def kind : Fault → ErrorKind
  | .undefinedVariable _ => .undefinedVariable
  | .undefinedType _ => .undefinedType
  | .field _ => .fieldAccess
  | .methodNotFound _ _ => .methodNotFound
  | .dispatch (.ambiguous _ _ _) => .methodAmbiguity
  | .dispatch _ => .method
  | .number (.notArithmetic _) => .typeMismatch
  | .number _ => .arithmetic
  | .pattern _ => .patternMatch
  | .mismatch _ => .typeMismatch
  | .arity _ => .arity
  | .template _ => .format

end Fault

/-- A cause with the place where it arose. -/
structure RuntimeError where
  /-- What went wrong. -/
  fault : Fault
  /-- Where, if that is known. -/
  span : Option Span

/-- Notes a place unless one is known. -/
def RuntimeError.withSpan (e : RuntimeError) (span : Span) : RuntimeError :=
  { e with span := some (e.span.getD span) }

/-- Checks that a thing is given as many arguments as it takes. -/
def checkArity (callee : String) (expected given : Nat) : Except Fault Unit :=
  if expected = given then .ok () else .error (.arity (.exactly callee expected given))

end DispatchLang
