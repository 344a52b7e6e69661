import DispatchLang.Decimal.Notation
import DispatchLang.Node.Basic

/-!
# Numbers

A number is a 64-bit integer or a floating-point number. Integer arithmetic is exact: a result that does
not fit is an error, never a wrong number. As soon as one operand is a floating-point number the other
one is widened; a quotient is always a floating-point number.

The sizes of strings and arrays that are built in one step are bounded as well; the bounds are checked on
exact numbers before anything is built.
-/

namespace DispatchLang

inductive Number where
  /-- An integer. -/
  | int (value : Int64)
  /-- A floating-point number. -/
  | float (value : Float)

/-- Why there is no result. -/
inductive NumberFault where
  /-- The result does not fit into an integer. -/
  | overflow (op : BinaryOp)
  /-- The divisor of a quotient is zero. -/
  | divisionByZero
  /-- The divisor of a remainder is zero. -/
  | moduloByZero
  /-- The operator does not compute with numbers. -/
  | notArithmetic (op : BinaryOp)
  /-- A string would get too long. -/
  | repeatTooLong (bytes : Nat) (count : Int64)
  /-- An array would get too long. -/
  | rangeTooLong (start stop : Int64) (length : Int)

namespace Number

/-! ## Exact integers -/

/-- Whether an integer fits into 64 bits. -/
def fits (n : Int) : Bool := Int64.minValue.toInt ≤ n && n ≤ Int64.maxValue.toInt

/-- The 64-bit integer with the given value, if it fits. -/
def ofInt? (n : Int) : Option Int64 := if fits n then some (Int64.ofInt n) else none

/-- The number of bits from which on every power with a base other than zero and plus or minus one is too
large. -/
def powerLimit : Nat := 64

/-- The largest exponent that is accepted. -/
def exponentLimit : Nat := Nat.pow 2 32

/-- A power, without computing one that is too large anyway. -/
def power? (base : Int) (exponent : Nat) : Option Int :=
  if exponentLimit ≤ exponent then none
  else if base = 0 then some (if exponent = 0 then 1 else 0)
  else if base = 1 then some 1
  else if base = -1 then some (if exponent % 2 = 0 then 1 else -1)
  else if exponent < powerLimit then some (Int.pow base exponent)
  else none

/-! ## Floating-point numbers -/

/-- The remainder of a quotient rounded toward zero, which is always exact. -/
def floatRemainder (x y : Float) : Float :=
  match Decimal.Parts.ofFloat x, Decimal.Parts.ofFloat y with
  | .finite negative m e, .finite _ m' e' =>
    let unit := min e e'
    let rest := (m * Nat.pow 2 (e - unit).toNat) % (m' * Nat.pow 2 (e' - unit).toNat)
    let r := (Float.ofNat rest).scaleB unit
    if negative then -r else r
  | .finite _ _ _, .infinite _ => x
  | _, _ => 0.0 / 0.0

/-- The floating-point number nearest to an integer. -/
def widen (n : Int64) : Float := if n < 0 then -(-n).toUInt64.toFloat else n.toUInt64.toFloat

def toFloat : Number → Float
  | .int n => widen n
  | .float x => x

def isZero : Number → Bool
  | .int n => n = 0
  | .float x => x == 0.0

/-! ## Arithmetic -/

/-- Applies an operator to two integers exactly. The divisor of a remainder is not zero here. -/
def computeInt (op : BinaryOp) (x y : Int) : Except NumberFault Int :=
  match op with
  | .add => .ok (x + y)
  | .sub => .ok (x - y)
  | .mul => .ok (x * y)
  | .mod => if y = -1 ∧ x = Int64.minValue.toInt then .error (.overflow .mod) else .ok (x.tmod y)
  | op => .error (.notArithmetic op)

/-- Applies an operator to two floating-point numbers. -/
def computeFloat (op : BinaryOp) (x y : Float) : Except NumberFault Float :=
  match op with
  | .add => .ok (x + y)
  | .sub => .ok (x - y)
  | .mul => .ok (x * y)
  | .mod => .ok (floatRemainder x y)
  | op => .error (.notArithmetic op)

/-- The number with the given exact value, or an overflow of the given operator. -/
def ofExact (op : BinaryOp) (n : Option Int) : Except NumberFault Number :=
  match n.bind ofInt? with
  | some n => .ok (.int n)
  | none => .error (.overflow op)

/-- Applies an arithmetic operator. -/
def arithmetic (op : BinaryOp) (a b : Number) : Except NumberFault Number :=
  if op = .div ∧ b.isZero then .error .divisionByZero
  else if op = .mod ∧ b.isZero then .error .moduloByZero
  else
    match op, a, b with
    | .div, a, b => .ok (.float (a.toFloat / b.toFloat))
    | .pow, .int x, .int y =>
      if 0 ≤ y then ofExact .pow (power? x.toInt y.toInt.toNat)
      else .ok (.float ((widen x).pow (widen y)))
    | .pow, a, b => .ok (.float (a.toFloat.pow b.toFloat))
    | op, .int x, .int y => do ofExact op (some (← computeInt op x.toInt y.toInt))
    | op, a, b => do return .float (← computeFloat op a.toFloat b.toFloat)

/-- The negative of a number. -/
def negate : Number → Except NumberFault Number
  | .int n => ofExact .sub (some (-n.toInt))
  | .float x => .ok (.float (-x))

/-! ## Comparison -/

/-- Whether two things that compare in the given way satisfy a comparison. Things that do not compare at
all are just unequal. -/
def holds (op : BinaryOp) (order : Option Ordering) : Bool :=
  match op, order with
  | .lt, some .lt => true
  | .gt, some .gt => true
  | .le, some .lt | .le, some .eq => true
  | .ge, some .gt | .ge, some .eq => true
  | .eq, some .eq => true
  | .ne, some .lt | .ne, some .gt | .ne, none => true
  | _, _ => false

/-- How two floating-point numbers compare; the missing number does not. -/
def floatOrder (x y : Float) : Option Ordering :=
  if x < y then some .lt else if x == y then some .eq else if y < x then some .gt else none

/-- How two numbers compare: integers exactly, all others as floating-point numbers. -/
def order (a b : Number) : Option Ordering :=
  match a, b with
  | .int x, .int y => some (compare x.toInt y.toInt)
  | a, b => floatOrder a.toFloat b.toFloat

/-- Whether two numbers satisfy a comparison. -/
def satisfies (op : BinaryOp) (a b : Number) : Bool := holds op (order a b)

/-! ## Sizes -/

/-- The size of the largest string or array that is built in one step. -/
def sizeLimit : Nat := Nat.pow 2 28

/-- A text repeated `count` times, and not at all for a negative count. -/
def repeatText (text : String) (count : Int64) : Except NumberFault String :=
  let times := count.toInt.toNat
  if text.isEmpty then .ok ""
  else if text.utf8ByteSize * times ≤ sizeLimit then .ok (String.join (List.replicate times text))
  else .error (.repeatTooLong text.utf8ByteSize count)

/-- The integers from one to another one, without the last. -/
structure Range where
  /-- The first integer. -/
  start : Int64
  /-- The integer after the last one. -/
  stop : Int64

/-- The integers of a range. -/
def Range.toList (r : Range) : List Int64 :=
  (List.range (r.stop.toInt - r.start.toInt).toNat).map fun i =>
    Int64.ofInt (r.start.toInt + Int.ofNat i)

/-- The range from `start` to `stop`, if it is not too long. -/
def range (start stop : Int64) : Except NumberFault Range :=
  let length := stop.toInt - start.toInt
  if length ≤ sizeLimit then .ok ⟨start, stop⟩
  else .error (.rangeTooLong start stop (min length Int64.maxValue.toInt))

/-- The position that an index means in a sequence; a negative one counts from the end. -/
def resolveIndex (i : Int64) (length : Nat) : Option Nat :=
  let i := if i < 0 then length + i.toInt else i.toInt
  if 0 ≤ i ∧ i < length then some i.toNat else none

end Number

/-- The text of a fault. -/
def NumberFault.message : NumberFault → String
  | .overflow op => "integer overflow in '" ++ op.text ++ "'"
  | .divisionByZero => "division by zero"
  | .moduloByZero => "modulo by zero"
  | .notArithmetic op => "'" ++ op.text ++ "' is not arithmetic"
  | .repeatTooLong bytes count =>
    "repeating a string of " ++ Decimal.natText bytes ++ " byte(s) " ++
      Decimal.intText count.toInt ++ " times exceeds the limit of " ++
      Decimal.natText Number.sizeLimit ++ " bytes"
  | .rangeTooLong start stop length =>
    "range(" ++ Decimal.intText start.toInt ++ ", " ++ Decimal.intText stop.toInt ++ ") has " ++
      Decimal.intText length ++ " elements, more than the limit of " ++
      Decimal.natText Number.sizeLimit

end DispatchLang
