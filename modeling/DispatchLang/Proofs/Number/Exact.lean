import DispatchLang.Eval.Fault
import Mathlib

/-!
# Exact integers

Integer arithmetic is exact: an operator answers the integer that the mathematics of it gives, if that fits into 64
bits, and an overflow otherwise (`arithmetic_exact`). What the mathematics gives is `unbounded?`, on integers without a
bound; remainders have the sign of the dividend, and there is nothing to say about a remainder by zero or a negative
exponent.

Two families of operations are refused although their result fits, since they are given up before it is known. The
remainder of the least integer by minus one is zero, but the quotient next to it overflows. Exponents from 2³² on are
taken for too large whatever the base, which is wrong for the bases whose powers stay small: minus one, zero and one.
`Spurious` is the list of them.

## Main results

* `Number.arithmetic_exact`: exact results and overflows of the operators.
* `Number.power?_eq`: which powers are computed.
-/

namespace DispatchLang.Number

/-! ## What fits -/

theorem fits_iff {n : Int} : fits n = true ↔ -2 ^ 63 ≤ n ∧ n < 2 ^ 63 := by
  have hmin : Int64.minValue.toInt = -2 ^ 63 := rfl
  have hmax : Int64.maxValue.toInt = 2 ^ 63 - 1 := rfl
  rw [fits, Bool.and_eq_true, decide_eq_true_iff, decide_eq_true_iff, hmin, hmax]
  omega

theorem fits_toInt (n : Int64) : fits n.toInt = true := fits_iff.mpr ⟨n.le_toInt, n.toInt_lt⟩

theorem toInt_ofInt {n : Int} (h : fits n = true) : (Int64.ofInt n).toInt = n := by
  obtain ⟨hmin, hmax⟩ := fits_iff.mp h
  exact Int64.toInt_ofInt_of_le hmin hmax

theorem ofInt?_eq_none {n : Int} (h : fits n = false) : ofInt? n = none := by
  rw [ofInt?, h]
  rfl

/-! ## Powers -/

/-- A base of two or more outgrows 64 bits where the exponent reaches the limit. -/
theorem fits_pow_eq_false {x : Int} {k : Nat} (hx : 1 < |x|) (hk : powerLimit ≤ k) : fits (x ^ k) = false := by
  have hlarge : (2 : Int) ^ 64 ≤ |x ^ k| := by
    rw [abs_pow]
    calc (2 : Int) ^ 64 ≤ 2 ^ k := pow_le_pow_right₀ (by omega) hk
      _ ≤ |x| ^ k := pow_le_pow_left₀ (by omega) hx k
  refine Bool.eq_false_iff.mpr fun hfits => ?_
  obtain ⟨hmin, hmax⟩ := fits_iff.mp hfits
  have := abs_le.mpr ⟨hmin, hmax.le⟩
  omega

/-- A power is computed unless the exponent is beyond all bounds or the result does not fit. -/
theorem power?_eq {x : Int} {k : Nat} (hk : k < exponentLimit) :
    power? x k = some (x ^ k) ∨ power? x k = none ∧ fits (x ^ k) = false := by
  rw [power?, if_neg (Nat.not_le.mpr hk)]
  by_cases hzero : x = 0
  · subst hzero
    rw [if_pos rfl]
    refine .inl ?_
    split
    · next h => rw [h, pow_zero]
    · next h => rw [zero_pow h]
  by_cases hone : x = 1
  · subst hone
    rw [if_neg hzero, if_pos rfl, one_pow]
    exact .inl rfl
  by_cases hminus : x = -1
  · subst hminus
    rw [if_neg hzero, if_neg hone, if_pos rfl]
    refine .inl ?_
    split
    · next h => rw [(Nat.even_iff.mpr h).neg_one_pow]
    · next h => rw [(Nat.not_even_iff_odd.mp (mt Nat.even_iff.mp h)).neg_one_pow]
  · rw [if_neg hzero, if_neg hone, if_neg hminus]
    split
    · exact .inl rfl
    · next h =>
      refine .inr ⟨rfl, fits_pow_eq_false ?_ (Nat.not_lt.mp h)⟩
      have := abs_pos.mpr hzero
      rcases abs_cases x with ⟨h, -⟩ | ⟨h, -⟩ <;> omega

/-! ## Operators -/

/-- What an operator makes of two integers, without a bound on the result. -/
def unbounded? (op : BinaryOp) (x y : Int) : Option Int :=
  match op with
  | .add => some (x + y)
  | .sub => some (x - y)
  | .mul => some (x * y)
  | .mod => if y = 0 then none else some (x.tmod y)
  | .pow => if y < 0 then none else some (x ^ y.toNat)
  | _ => none

/-- The operations that are refused although their result fits. -/
def Spurious (op : BinaryOp) (x y : Int) : Prop :=
  op = .mod ∧ x = -2 ^ 63 ∧ y = -1 ∨ op = .pow ∧ |x| ≤ 1 ∧ 2 ^ 32 ≤ y

variable {op : BinaryOp} {x y : Int64} {n : Int}

theorem ofExact_of_fits (h : fits n = true) : ofExact op (some n) = .ok (.int (Int64.ofInt n)) := by
  rw [ofExact, Option.bind_some, ofInt?, if_pos h]

theorem ofExact_of_not_fits (h : fits n = false) : ofExact op (some n) = .error (.overflow op) := by
  rw [ofExact, Option.bind_some, ofInt?_eq_none h]

theorem isZero_int : (Number.int y).isZero = true ↔ y.toInt = 0 := by
  rw [isZero, decide_eq_true_iff, ← Int64.toInt_inj, Int64.toInt_zero]

theorem arithmetic_mod (h : y.toInt ≠ 0) : arithmetic .mod (.int x) (.int y) =
    (computeInt .mod x.toInt y.toInt).bind fun n => ofExact .mod (some n) := by
  have hzero : (Number.int y).isZero = false := Bool.eq_false_iff.mpr (mt isZero_int.mp h)
  rw [arithmetic, if_neg (by simp), if_neg (by simp [hzero])]
  · rfl
  all_goals exact nofun

theorem arithmetic_pow (h : 0 ≤ y.toInt) :
    arithmetic .pow (.int x) (.int y) = ofExact .pow (power? x.toInt y.toInt.toNat) := by
  have hnonneg : 0 ≤ y := Int64.le_iff_toInt_le.mpr h
  rw [arithmetic, if_neg (by simp), if_neg (by simp)]
  exact if_pos hnonneg

/-- A remainder is exact, except that of the least integer by minus one. -/
theorem computeInt_mod {x y : Int} (h : ¬Spurious .mod x y) : computeInt .mod x y = .ok (x.tmod y) :=
  if_neg fun ⟨hy, hx⟩ => h (.inl ⟨rfl, hx, hy⟩)

/-- A power is exact, except where the exponent is too large for the powers of small bases. -/
theorem ofExact_power? (h : 0 ≤ y.toInt) (hspurious : ¬Spurious .pow x.toInt y.toInt) :
    ofExact .pow (power? x.toInt y.toInt.toNat) = ofExact .pow (some (x.toInt ^ y.toInt.toNat)) := by
  by_cases hlimit : exponentLimit ≤ y.toInt.toNat
  · have hbase : 1 < |x.toInt| := by
      refine not_le.mp fun hsmall => hspurious (.inr ⟨rfl, hsmall, ?_⟩)
      have : 2 ^ 32 ≤ y.toInt.toNat := hlimit
      omega
    have hlarge : powerLimit ≤ y.toInt.toNat := le_trans (by decide) hlimit
    rw [power?, if_pos hlimit, ofExact_of_not_fits (fits_pow_eq_false hbase hlarge)]
    rfl
  · rcases power?_eq (x := x.toInt) (Nat.not_le.mp hlimit) with hpower | ⟨hpower, hfits⟩
    · rw [hpower]
    · rw [hpower, ofExact_of_not_fits hfits]
      rfl

theorem arithmetic_eq_ofExact (h : unbounded? op x.toInt y.toInt = some n) (hspurious : ¬Spurious op x.toInt y.toInt) :
    arithmetic op (.int x) (.int y) = ofExact op (some n) := by
  cases op with
  | add | sub | mul => cases h; rfl
  | mod =>
    rw [unbounded?] at h
    split at h
    · cases h
    · next hzero =>
      cases h
      rw [arithmetic_mod hzero, computeInt_mod hspurious]
      rfl
  | pow =>
    rw [unbounded?] at h
    split at h
    · cases h
    · next hneg =>
      cases h
      rw [arithmetic_pow (Int.not_lt.mp hneg), ofExact_power? (Int.not_lt.mp hneg) hspurious]
  | div | eq | ne | lt | gt | le | ge | and | or => cases h

theorem arithmetic_of_spurious (h : Spurious op x.toInt y.toInt) :
    arithmetic op (.int x) (.int y) = .error (.overflow op) := by
  rcases h with ⟨rfl, hx, hy⟩ | ⟨rfl, -, hy⟩
  · have hcompute : computeInt .mod x.toInt y.toInt = .error (.overflow .mod) := if_pos ⟨hy, hx⟩
    rw [arithmetic_mod (hy ▸ by decide), hcompute]
    rfl
  · have hlimit : exponentLimit ≤ y.toInt.toNat := by
      have : (exponentLimit : Int) = 2 ^ 32 := rfl
      omega
    rw [arithmetic_pow (le_trans (by decide) hy), power?, if_pos hlimit]
    rfl

/-! ## The law -/

/-- Integer arithmetic gives the exact result if it fits and is not refused for another reason, and an overflow in all
other cases; a negation likewise. Overflows are errors of arithmetic. -/
theorem arithmetic_exact (h : unbounded? op x.toInt y.toInt = some n) :
    ((∃ r : Int64, arithmetic op (.int x) (.int y) = .ok (.int r) ∧ r.toInt = n) ↔
        fits n = true ∧ ¬Spurious op x.toInt y.toInt) ∧
      (fits n = false ∨ Spurious op x.toInt y.toInt → arithmetic op (.int x) (.int y) = .error (.overflow op)) ∧
      (fits (-x.toInt) = true → ∃ r : Int64, negate (.int x) = .ok (.int r) ∧ r.toInt = -x.toInt) ∧
      (fits (-x.toInt) = false → negate (.int x) = .error (.overflow .sub)) ∧
      ∀ op, (Fault.number (.overflow op)).kind = .arithmetic := by
  refine ⟨⟨?_, ?_⟩, ?_, ?_, fun hfits => ofExact_of_not_fits hfits, fun _ => rfl⟩
  · rintro ⟨r, hr, rfl⟩
    refine ⟨fits_toInt r, fun hspurious => ?_⟩
    rw [arithmetic_of_spurious hspurious] at hr
    cases hr
  · rintro ⟨hfits, hspurious⟩
    refine ⟨Int64.ofInt n, ?_, toInt_ofInt hfits⟩
    rw [arithmetic_eq_ofExact h hspurious, ofExact_of_fits hfits]
  · intro hfails
    by_cases hspurious : Spurious op x.toInt y.toInt
    · exact arithmetic_of_spurious hspurious
    · rw [arithmetic_eq_ofExact h hspurious, ofExact_of_not_fits (hfails.resolve_right hspurious)]
  · exact fun hfits => ⟨Int64.ofInt (-x.toInt), ofExact_of_fits hfits, toInt_ofInt hfits⟩

/-- The largest integer has no successor, but it can be negated. -/
theorem maxValue_overflows : arithmetic .add (.int Int64.maxValue) (.int 1) = .error (.overflow .add) ∧
    ∃ r : Int64, negate (.int Int64.maxValue) = .ok (.int r) ∧ r.toInt = -Int64.maxValue.toInt := by
  obtain ⟨-, hfails, hnegate, -⟩ := @arithmetic_exact .add Int64.maxValue 1 (2 ^ 63) (by decide)
  exact ⟨hfails (.inl (by decide)), hnegate (by decide)⟩

/-- Both kinds of refusal: a power of one and a remainder by minus one, which fit. -/
theorem fitting_overflow : (∃ n, unbounded? .pow (1 : Int64).toInt (4294967296 : Int64).toInt = some n ∧ fits n = true ∧
      arithmetic .pow (.int 1) (.int 4294967296) = .error (.overflow .pow)) ∧
    ∃ n, unbounded? .mod Int64.minValue.toInt (-1 : Int64).toInt = some n ∧ fits n = true ∧
      arithmetic .mod (.int Int64.minValue) (.int (-1)) = .error (.overflow .mod) := by
  refine ⟨⟨1, ?_, rfl, rfl⟩, 0, rfl, rfl, rfl⟩
  have hnonneg : ¬(4294967296 : Int64).toInt < 0 := by decide
  rw [unbounded?, if_neg hnonneg]
  exact congrArg some (one_pow _)

end DispatchLang.Number
