import DispatchLang.Decimal.Shortest

/-!
# Decimal notation

How numbers are written and read. Values show a floating-point number by its shortest digits in plain
positional notation, never with an exponent and without a fraction that would be zero. Data files show
it with a fraction or an exponent always, so that it cannot be taken for an integer.
-/

namespace DispatchLang.Decimal

/-! ## Digits -/

/-- The decimal digits of a natural number. -/
def natText (n : Nat) : String := String.ofList (Nat.toDigits 10 n)

/-- The decimal form of an integer. -/
def intText (n : Int) : String :=
  match n with
  | .ofNat n => natText n
  | .negSucc n => "-" ++ natText (n + 1)

/-- A run of `n` zeros. -/
def zeros (n : Nat) : List Char := List.replicate n '0'

/-- The digits of `d * 10 ^ k` before and after the point, with no point when there is no
fraction. -/
def positional (d : Nat) (k : Int) : List Char :=
  let digits := Nat.toDigits 10 d
  if 0 ≤ k then digits ++ zeros k.toNat
  else
    let places := (-k).toNat
    if digits.length ≤ places then
      '0' :: '.' :: (zeros (places - digits.length) ++ digits)
    else
      digits.take (digits.length - places) ++ '.' :: digits.drop (digits.length - places)

/-! ## Values -/

/-- How a value shows a floating-point number. -/
def floatText (x : Float) : String :=
  match Parts.ofFloat x with
  | .nan => "NaN"
  | .infinite false => "inf"
  | .infinite true => "-inf"
  | .finite negative mantissa exponent =>
    let (d, k) := shortest mantissa exponent
    String.ofList ((if negative then ['-'] else []) ++ if d = 0 then ['0'] else positional d k)

/-! ## Data files -/

/-- The exponents of ten up to which a data file writes a number positionally. -/
def positionalLimit : Int := 16

/-- The number of zeros after the point from which on a data file writes an exponent. -/
def leadingZeroLimit : Int := 5

/-- How a data file shows a finite floating-point number: positionally with at least one digit after
the point where the number is neither too large nor too small, and else with an exponent. -/
def dataText (negative : Bool) (mantissa : Nat) (exponent : Int) : String :=
  let (d, k) := shortest mantissa exponent
  let digits := Nat.toDigits 10 d
  let point := digits.length + k
  let body :=
    if d = 0 then ['0', '.', '0']
    else if 0 ≤ k ∧ point ≤ positionalLimit then positional d k ++ ['.', '0']
    else if -leadingZeroLimit < point ∧ point ≤ positionalLimit then positional d k
    else
      digits.take 1 ++ (if digits.length = 1 then [] else '.' :: digits.drop 1) ++
        'e' :: (intText (point - 1)).toList
  String.ofList ((if negative then ['-'] else []) ++ body)

/-! ## Reading -/

def digitsValue (cs : List Char) : Nat :=
  cs.foldl (fun n c => 10 * n + (c.toNat - '0'.toNat)) 0

/-- A decimal with more digits than this before the point is infinite, and one with more zeros than
this after it is zero. -/
def exponentRange : Int := 400

/-- The number nearest to `± coefficient * 10 ^ exponent`. -/
def nearest (negative : Bool) (coefficient : Nat) (exponent : Int) : Float :=
  let size := (Nat.toDigits 10 coefficient).length + exponent
  let x :=
    if coefficient = 0 ∨ size < -exponentRange then 0.0
    else if exponentRange < size then 1.0 / 0.0
    else if exponent < 0 then Float.ofScientific coefficient true (-exponent).toNat
    else Float.ofScientific coefficient false exponent.toNat
  if negative then -x else x

/-- The number nearest to the decimal with the given digits before and after the point. -/
def ofDigits (whole fraction : List Char) : Float :=
  nearest false (digitsValue (whole ++ fraction)) (-(fraction.length : Int))

/-- Reads an integer: digits after an optional sign. -/
def readInt? (cs : List Char) : Option Int :=
  let digits? (ds : List Char) : Option Nat :=
    if !ds.isEmpty && ds.all Char.isDigit then some (digitsValue ds) else none
  match cs with
  | '-' :: ds => (digits? ds).map fun n => -(n : Int)
  | '+' :: ds => (digits? ds).map Int.ofNat
  | ds => (digits? ds).map Int.ofNat

/-- Reads what follows the sign of a number: a name of infinity, the name of the missing number, or
digits with an optional point and an optional exponent. -/
def readMagnitude? (negative : Bool) (cs : List Char) : Option Float :=
  let name := cs.map Char.toLower
  let sign (x : Float) : Float := if negative then -x else x
  if name = "inf".toList ∨ name = "infinity".toList then some (sign (1.0 / 0.0))
  else if name = "nan".toList then some (sign (0.0 / 0.0))
  else
    let whole := cs.takeWhile Char.isDigit
    let cs := cs.dropWhile Char.isDigit
    let (fraction, cs) :=
      match cs with
      | '.' :: rest => (rest.takeWhile Char.isDigit, rest.dropWhile Char.isDigit)
      | _ => ([], cs)
    let digits := whole ++ fraction
    if digits.isEmpty then none
    else
      let scaled (e : Int) : Float := nearest negative (digitsValue digits) (e - fraction.length)
      match cs with
      | [] => some (scaled 0)
      | e :: rest => if e = 'e' ∨ e = 'E' then (readInt? rest).map scaled else none

/-- Reads a floating-point number. -/
def readFloat? (text : String) : Option Float :=
  match text.toList with
  | '-' :: cs => readMagnitude? true cs
  | '+' :: cs => readMagnitude? false cs
  | cs => readMagnitude? false cs

end DispatchLang.Decimal
