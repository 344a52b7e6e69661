/-!
# The shortest decimal of a floating-point number

A finite floating-point number is `m * 2 ^ q` for a natural number `m` and an integer `q`. The reals
that are rounded to it form an interval around it; its ends belong to it exactly when `m` is even,
because ties are rounded to even. A decimal `d * 10 ^ k` reads back as the number exactly when it lies
in that interval.

`shortest` looks for the coarsest decimal grid that has a point in the interval. On each grid only the
two neighbours of the number have to be tried: if any point of the grid is in the interval, so is one
of these. All comparisons are made between natural numbers, so nothing is rounded on the way.
-/

namespace DispatchLang.Decimal

/-! ## Decoding -/

/-- A floating-point number, taken apart. -/
inductive Parts where
  /-- Not a number. -/
  | nan
  /-- An infinity, with its sign. -/
  | infinite (negative : Bool)
  /-- The number `± mantissa * 2 ^ exponent`. -/
  | finite (negative : Bool) (mantissa : Nat) (exponent : Int)
deriving DecidableEq

/-- The least exponent of a finite number. -/
def leastExponent : Int := -1074

/-- Takes the 64 bits of a number apart: one for the sign, eleven for the exponent, the others for the
mantissa. -/
def Parts.ofBits (bits : UInt64) : Parts :=
  let bits := bits.toNat
  let negative := bits / Nat.pow 2 63 == 1
  let exponent := bits / Nat.pow 2 52 % Nat.pow 2 11
  let fraction := bits % Nat.pow 2 52
  if exponent = Nat.pow 2 11 - 1 then
    if fraction = 0 then .infinite negative else .nan
  else if exponent = 0 then .finite negative fraction leastExponent
  else .finite negative (Nat.pow 2 52 + fraction) (Int.ofNat exponent + leastExponent - 1)

/-- Takes a number apart. -/
def Parts.ofFloat (x : Float) : Parts := .ofBits x.toBits

/-! ## The rounding interval -/

/-- The reals that are rounded to one positive number. The ends and the number itself are given as
multiples of `2 ^ unit`. -/
structure RoundingInterval where
  /-- The lower end. -/
  low : Nat
  /-- The number. -/
  mid : Nat
  /-- The upper end. -/
  high : Nat
  /-- The exponent of the unit. -/
  unit : Int
  /-- Whether the ends belong to the interval. -/
  closed : Bool

/-- The interval of `mantissa * 2 ^ exponent`. The number below a power of two is half as far away as
the number above it. -/
def RoundingInterval.of (mantissa : Nat) (exponent : Int) : RoundingInterval where
  low := if mantissa = Nat.pow 2 52 ∧ leastExponent < exponent then 4 * mantissa - 1 else 4 * mantissa - 2
  mid := 4 * mantissa
  high := 4 * mantissa + 2
  unit := exponent - 2
  closed := mantissa % 2 == 0

/-- The fraction by which multiples of `2 ^ unit` are turned into multiples of `10 ^ k`. -/
def gridRatio (unit k : Int) : Nat × Nat :=
  (Nat.pow 2 unit.toNat * Nat.pow 10 (-k).toNat, Nat.pow 2 (-unit).toNat * Nat.pow 10 k.toNat)

/-- Whether `d * 10 ^ k` lies in the interval. -/
def RoundingInterval.holds (interval : RoundingInterval) (k : Int) (d : Nat) : Bool :=
  let (num, den) := gridRatio interval.unit k
  if interval.closed then interval.low * num ≤ d * den ∧ d * den ≤ interval.high * num
  else interval.low * num < d * den ∧ d * den < interval.high * num

/-- The neighbour of the number on the grid of multiples of `10 ^ k` that lies in the interval, the
nearer one if both do, the upper one if both are equally near. -/
def RoundingInterval.onGrid? (interval : RoundingInterval) (k : Int) : Option Nat :=
  let (num, den) := gridRatio interval.unit k
  let below := interval.mid * num / den
  let rest := interval.mid * num % den
  match interval.holds k below, interval.holds k (below + 1) with
  | true, true => some (if 2 * rest < den then below else below + 1)
  | true, false => some below
  | false, true => some (below + 1)
  | false, false => none

/-! ## The search -/

/-- A power of ten that is greater than `mantissa * 2 ^ exponent`, as its exponent. -/
def magnitude (mantissa : Nat) (exponent : Int) : Int :=
  ((mantissa.log2 + 1 : Nat) + exponent) * 30103 / 100000 + 2

/-- Tries the grids `10 ^ k`, `10 ^ (k - 1)`, … in turn, at most `tries` of them. -/
def RoundingInterval.search (interval : RoundingInterval) : Nat → Int → Nat × Int
  | 0, k => (0, k)
  | tries + 1, k =>
    match interval.onGrid? k with
    | some d => (d, k)
    | none => interval.search tries (k - 1)

/-- The number of grids between the magnitude of a number and one so fine that it must hit. -/
def gridTries : Nat := 800

/-- The coefficient and the exponent of ten of the shortest decimal that reads back as
`mantissa * 2 ^ exponent`; of several, the one nearest to it. -/
def shortest (mantissa : Nat) (exponent : Int) : Nat × Int :=
  if mantissa = 0 then (0, 0)
  else (RoundingInterval.of mantissa exponent).search gridTries (magnitude mantissa exponent)

end DispatchLang.Decimal
