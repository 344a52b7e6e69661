import DispatchLang.Number.Basic
import Mathlib

/-!
# Floating-point numbers

Two floating-point numbers compare as equal if they are the same or both are zero, and none of them is the missing
number. So on all other numbers the comparison is an equality, of what is left if the sign of zero is forgotten
(`beq_iff_unsigned`). An integer that is widened never is the missing number (`widen_ne_nan`): it is rounded to a
finite number, and packing a number into bits does not turn it into the missing one.

A floating-point number has 53 bits of mantissa, so an integer whose absolute value is less than 2⁵³ is widened without
being rounded: its mantissa is shifted until it has all 53 bits, and the exponent says how far. The integer can be read
off the result, and so no two of these integers are widened to numbers that compare as equal (`widen_beq_iff`). From
2⁵³ on this is no longer so, since the odd integers are rounded to even ones.

## Main results

* `Number.beq_iff_unsigned`: what compares as equal.
* `Number.widen_ne_nan`: integers are widened to numbers.
* `Number.unpack_widen`: what the small integers are widened to.
* `Number.widen_beq_iff`: they are told apart after they have been widened.
-/

namespace DispatchLang.Number

/-! ## What compares as equal -/

/-- A floating-point number without the sign, if it is zero. -/
def unsigned (x : Float) : Float := if x == 0 then 0 else x

theorem beq_comm (x y : Float) : (x == y) = (y == x) := by
  rw [Bool.eq_iff_iff, Float.beq_iff_ne_nan_and_eq, Float.beq_iff_ne_nan_and_eq]
  grind

theorem beq_trans {x y z : Float} (h : (x == y) = true) (h' : (y == z) = true) : (x == z) = true := by
  rw [Float.beq_iff_ne_nan_and_eq] at *
  grind

/-- Numbers compare as equal if they differ at most in the sign of zero. -/
theorem beq_iff_unsigned {x y : Float} (hx : x ≠ Float.nan) : (x == y) = true ↔ unsigned x = unsigned y := by
  have hrefl : (x == x) = true := Float.beq_self_iff.mpr hx
  rw [unsigned, unsigned]
  constructor
  · intro h
    have hzero : (x == 0) = (y == 0) := by
      rw [Bool.eq_iff_iff]
      exact ⟨fun hx => beq_trans (beq_comm x y ▸ h) hx, beq_trans h⟩
    rw [hzero]
    split
    · rfl
    · next hy =>
      obtain ⟨-, -, heq | ⟨rfl, -⟩ | ⟨-, rfl⟩⟩ := Float.beq_iff_ne_nan_and_eq.mp h
      · exact heq
      · exact absurd (hzero ▸ hrefl) hy
      · exact absurd (by decide) hy
  · intro h
    split at h
    · next hx0 =>
      split at h
      · next hy0 => exact beq_trans hx0 (beq_comm y 0 ▸ hy0)
      · exact h ▸ hx0
    · split at h
      · next hy0 => exact h ▸ beq_comm y 0 ▸ hy0
      · exact h ▸ hrefl

/-! ## Integers -/

section

open Float.Model Float.Model.UnpackedFloat

theorem isNaN_packComponents {sign : Sign} {exponent : BitVec Format.binary64.exponentBits}
    {mantissa : BitVec Format.binary64.mantissaBitsWithoutImplicit}
    (h : exponent = -BitVec.ofNat _ 1 → mantissa = BitVec.ofNat _ 0) :
    (UnpackedFloat.unpack .binary64 (packComponents .binary64 sign exponent mantissa)).isNaN = false := by
  rw [UnpackedFloat.unpack]
  simp only [unpackMantissa_packComponents, unpackExponent_packComponents]
  split
  · next he =>
    rw [if_pos (h he)]
    rfl
  · split
    · split <;> rfl
    · rfl

theorem isNaN_pack {x : UnpackedFloat} (h : x.isNaN = false) : (Float.Model.pack x).isNaN = false := by
  change (UnpackedFloat.unpack .binary64 (UnpackedFloat.pack .binary64 x)).isNaN = false
  cases x with
  | notANumber => cases h
  | infinity sign => exact isNaN_packComponents fun _ => rfl
  | zero sign =>
    rw [UnpackedFloat.pack, unpack_packedZero]
    rfl
  | finite sign mantissa exponent hm =>
    rw [UnpackedFloat.pack]
    dsimp only
    split
    · exact isNaN_packComponents fun _ => rfl
    · next hfits =>
      split
      · refine isNaN_packComponents fun he => ?_
        have hbits := congrArg BitVec.toNat he
        rw [BitVec.toNat_ofNat, Nat.mod_eq_of_lt (by omega)] at hbits
        exact absurd (hbits ▸ hfits) (by decide)
      · exact isNaN_packComponents fun he => absurd he (by decide)

theorem isNaN_neg (x : UnpackedFloat) : x.neg.isNaN = x.isNaN := by cases x <;> rfl

theorem isNaN_round (sign : Sign) (mantissa : Nat) (exponent : Int) :
    (UnpackedFloat.round .binary64 sign mantissa exponent).isNaN = false := by
  rw [UnpackedFloat.round]
  dsimp only
  rw [UnpackedFloat.roundWithAccuracy]
  dsimp only
  split <;> rfl

theorem isNaN_ofUInt64 (n : UInt64) : (UnpackedFloat.ofUInt64 .binary64 n).isNaN = false := by
  rw [UnpackedFloat.ofUInt64, UnpackedFloat.ofNat, UnpackedFloat.ofInt, UnpackedFloat.normalize]
  split
  · exact isNaN_round _ _ _
  · rfl
  · exact isNaN_round _ _ _

end

theorem ne_nan_of_isNaN {x : Float} (h : x.isNaN = false) : x ≠ Float.nan := by
  rw [Float.isNaN_eq_decide_eq_nan] at h
  exact of_decide_eq_false h

theorem widen_ne_nan (n : Int64) : widen n ≠ Float.nan := by
  have hnat (n : UInt64) : n.toFloat.toModel.isNaN = false := isNaN_pack (isNaN_ofUInt64 n)
  rw [widen]
  refine ne_nan_of_isNaN ?_
  split
  · refine isNaN_pack ?_
    rw [isNaN_neg]
    exact hnat _
  · exact hnat _

open Float.Model Float.Model.UnpackedFloat

/-! ## Mantissas of full length -/

/-- The mantissa of an integer, shifted until it has 53 bits. -/
def fullMantissa (n : Nat) : Nat := n * 2 ^ (52 - n.log2)

theorem fullMantissa_pos {n : Nat} (h : 0 < n) : 0 < fullMantissa n := Nat.mul_pos h (Nat.two_pow_pos _)

section

variable {m : Nat} (hlow : 2 ^ 52 ≤ m) (hhigh : m < 2 ^ 53)
include hlow hhigh

theorem log2_full : m.log2 = 52 := (Nat.log2_eq_iff (by omega)).mpr ⟨hlow, hhigh⟩

/-- Shifting a mantissa of full length to the exponent where it should be does nothing. -/
theorem shiftToTargetExponent_full {e : Int} (he : -1074 ≤ e) :
    shiftToTargetExponent .binary64 m e .exact = (⟨m, false, false⟩, e) := by
  have htarget : Format.targetExponent .binary64 (totalExponent m e) = e := by
    simp only [Format.targetExponent, totalExponent, log2_full hlow hhigh, Format.mantissaBits, Format.minExponent]
    omega
  rw [shiftToTargetExponent, htarget, shiftToExponent, sub_self, Int.toNat_zero]
  exact Prod.ext rfl (add_zero e)

/-- Packing a number with such a mantissa loses nothing, unless the exponent is too small or too large. -/
theorem unpack_pack_full (sign : Sign) {e : Int} (he : -1074 ≤ e) (he' : e ≤ 971) (hpos : 0 < m) :
    (Float.Model.pack (.finite sign m e hpos)).unpack = .finite sign m e hpos := by
  obtain ⟨biased, rfl⟩ : ∃ biased : Nat, e = biased - 1075 := ⟨(e + 1075).toNat, by omega⟩
  have hbiased : ((biased : Int) - 1075 + (1023 : Nat) + (52 : Nat)).toNat = biased := by omega
  have hpack : UnpackedFloat.pack .binary64 (.finite sign m (biased - 1075) hpos) =
      packComponents .binary64 sign (BitVec.ofNat 11 biased) (BitVec.ofNat 52 m) := by
    rw [UnpackedFloat.pack]
    simp only [log2_full hlow hhigh]
    refine (if_neg ?_).trans ((if_pos rfl).trans ?_)
    · change ¬2 ^ 11 ≤ ((biased : Int) - 1075 + (1023 : Nat) + (52 : Nat)).toNat + 1
      omega
    · exact congrArg (fun n => packComponents .binary64 sign (BitVec.ofNat 11 n) (BitVec.ofNat 52 m)) hbiased
  have hexponent : (BitVec.ofNat 11 biased).toNat = biased := by
    rw [BitVec.toNat_ofNat]
    omega
  have hmantissa : (1#1 ++ BitVec.ofNat 52 m).toNat = m := by
    have hbits : (BitVec.ofNat 52 m).toNat = m - 2 ^ 52 := by
      rw [BitVec.toNat_ofNat]
      omega
    have hone : (1#1).toNat <<< 52 = 2 ^ 52 := by decide
    rw [BitVec.toNat_append, hbits, ← Nat.shiftLeft_add_eq_or_of_lt (by omega), hone]
    omega
  have hfinite : BitVec.ofNat 11 biased ≠ -1#11 := by
    intro h
    have := congrArg BitVec.toNat h
    rw [hexponent] at this
    change biased = 2047 at this
    omega
  have hnormal : BitVec.ofNat 11 biased ≠ 0#11 := by
    intro h
    have := congrArg BitVec.toNat h
    rw [hexponent] at this
    change biased = 0 at this
    omega
  change UnpackedFloat.unpack .binary64 (UnpackedFloat.pack .binary64 _) = _
  rw [hpack, UnpackedFloat.unpack]
  simp only [unpackMantissa_packComponents, unpackExponent_packComponents, unpackSign_packComponents,
    Sign.ofBitVec_toBitVec]
  rw [if_neg hfinite, if_neg hnormal]
  simp only [hmantissa, hexponent]
  rfl

end

/-! ## Small integers -/

section

variable {n : Nat} (hpos : 0 < n) (hsmall : n < 2 ^ 53)
include hpos hsmall

theorem log2_le : n.log2 ≤ 52 := by
  have := (Nat.log2_lt hpos.ne').mpr hsmall
  omega

theorem fullMantissa_bounds : 2 ^ 52 ≤ fullMantissa n ∧ fullMantissa n < 2 ^ 53 := by
  have hlog := log2_le hpos hsmall
  have hbits : 2 ^ n.log2 * 2 ^ (52 - n.log2) = 2 ^ 52 := by rw [← pow_add, Nat.add_sub_cancel' hlog]
  constructor
  · rw [← hbits]
    exact Nat.mul_le_mul_right _ (Nat.log2_self_le hpos.ne')
  · calc fullMantissa n < 2 ^ (n.log2 + 1) * 2 ^ (52 - n.log2) :=
        Nat.mul_lt_mul_of_pos_right Nat.lt_log2_self (Nat.two_pow_pos _)
      _ = 2 ^ 53 := by rw [pow_succ, mul_right_comm, hbits]; rfl

/-- Rounding does nothing to an integer with at most 53 bits. -/
theorem round_eq (sign : Sign) : UnpackedFloat.round .binary64 sign n 0 =
    .finite sign (fullMantissa n) (n.log2 - 52) (fullMantissa_pos hpos) := by
  have hlog := log2_le hpos hsmall
  obtain ⟨hlow, hhigh⟩ := fullMantissa_bounds hpos hsmall
  have hstays := shiftToTargetExponent_full hlow hhigh (e := (n.log2 : Int) - 52) (by omega)
  have htarget : Format.targetExponent .binary64 (totalExponent n 0) = n.log2 - 52 := by
    simp only [Format.targetExponent, totalExponent, Format.mantissaBits, Format.minExponent]
    omega
  have hdecrease : decreaseExponent n 0 (n.log2 - 52) = (fullMantissa n, (n.log2 : Int) - 52) := by
    have hamount : (0 - ((n.log2 : Int) - 52)).toNat = 52 - n.log2 := by omega
    rw [decreaseExponent, hamount, Nat.shiftLeft_eq]
    refine Prod.ext rfl ?_
    simp only
    omega
  rw [UnpackedFloat.round, htarget]
  simp only [hdecrease]
  rw [roundWithAccuracy, hstays]
  simp only [ExtendedMantissa.roundedMantissa, ExtendedMantissa.accuracy, Accuracy.roundToNearestEven, hstays]
  exact dif_neg (fullMantissa_pos hpos).ne'

end

/-- What an integer is as a floating-point number, if it is not rounded. -/
def normalized (n : Int) : UnpackedFloat :=
  if h : n = 0 then .zero .positive
  else .finite (if n < 0 then .negative else .positive) (fullMantissa n.natAbs) (n.natAbs.log2 - 52)
    (fullMantissa_pos (Int.natAbs_pos.mpr h))

theorem normalized_injective : Function.Injective normalized := by
  intro a b h
  rw [normalized, normalized] at h
  by_cases ha : a = 0 <;> by_cases hb : b = 0 <;> simp only [ha, hb, dite_true, dite_false] at h
  · rw [ha, hb]
  · cases h
  · cases h
  · injection h with hsign hmantissa hexponent
    have hlog : a.natAbs.log2 = b.natAbs.log2 := by omega
    rw [fullMantissa, fullMantissa, hlog] at hmantissa
    have habs : a.natAbs = b.natAbs := Nat.eq_of_mul_eq_mul_right (Nat.two_pow_pos _) hmantissa
    split at hsign <;> split at hsign <;> first | omega | cases hsign

theorem normalized_ne_negative_zero (n : Int) : normalized n ≠ .zero .negative := by
  rw [normalized]
  split <;> exact nofun

theorem toNat_toUInt64 {n : Int64} (h : 0 ≤ n.toInt) : n.toUInt64.toNat = n.toInt.natAbs := by
  rw [← Int64.toInt_toBitVec] at h ⊢
  rw [BitVec.toInt_eq_toNat_of_lt (BitVec.toInt_pos_iff.mp h)]
  rfl

theorem unpack_toFloat {n : UInt64} (h : n.toNat < 2 ^ 53) : n.toFloat.toModel.unpack = normalized n.toNat := by
  change (Float.Model.pack (UnpackedFloat.ofUInt64 .binary64 n)).unpack = _
  rw [UnpackedFloat.ofUInt64, UnpackedFloat.ofNat, UnpackedFloat.ofInt, UnpackedFloat.normalize]
  generalize n.toNat = k at h
  rcases Nat.eq_zero_or_pos k with rfl | hpos
  · exact unpack_packedZero
  · have hlog := log2_le hpos h
    have hgt : compare (k : Int) 0 = .gt := compare_gt_iff_gt.mpr (by omega)
    obtain ⟨hlow, hhigh⟩ := fullMantissa_bounds hpos h
    simp only [hgt, Int.toNat_natCast]
    rw [round_eq hpos h, unpack_pack_full hlow hhigh _ (by omega) (by omega)]
    rw [normalized, dif_neg (by omega), if_neg (by omega)]
    rfl

theorem unpack_neg (x : Float) : (-x).toModel.unpack = (Float.Model.pack x.toModel.unpack.neg).unpack := rfl

/-- An integer whose absolute value is less than 2⁵³ is not rounded. -/
theorem unpack_widen {n : Int64} (h : n.toInt.natAbs < 2 ^ 53) : (widen n).toModel.unpack = normalized n.toInt := by
  rw [widen]
  split
  · next hneg =>
    have hneg : n.toInt < 0 := Int64.lt_iff_toInt_lt.mp hneg
    have hminus : (-n).toInt = -n.toInt := by
      rw [Int64.toInt_neg, Int.bmod_eq_of_le (by omega) (by omega)]
    have hnat : (-n).toUInt64.toNat = n.toInt.natAbs := by
      rw [toNat_toUInt64 (by omega), hminus, Int.natAbs_neg]
    have hpos : 0 < n.toInt.natAbs := by omega
    have hlog := log2_le hpos h
    obtain ⟨hlow, hhigh⟩ := fullMantissa_bounds hpos h
    have hpositive : normalized (n.toInt.natAbs : Int) =
        .finite .positive (fullMantissa n.toInt.natAbs) (n.toInt.natAbs.log2 - 52) (fullMantissa_pos hpos) := by
      rw [normalized, dif_neg (by omega), if_neg (by omega)]
      rfl
    rw [unpack_neg, unpack_toFloat (hnat ▸ h), hnat, hpositive, normalized, dif_neg (by omega), if_pos hneg]
    exact unpack_pack_full hlow hhigh .negative (by omega) (by omega) (fullMantissa_pos hpos)
  · next hnonneg =>
    have hnonneg : 0 ≤ n.toInt := Int.not_lt.mp fun hneg => hnonneg (Int64.lt_iff_toInt_lt.mpr hneg)
    have hnat := toNat_toUInt64 hnonneg
    rw [unpack_toFloat (hnat ▸ h), hnat, Int.natAbs_of_nonneg hnonneg]

/-- Integers whose absolute values are less than 2⁵³ compare as equal after they have been widened only if they are. -/
theorem widen_beq_iff {a b : Int64} (ha : a.toInt.natAbs < 2 ^ 53) (hb : b.toInt.natAbs < 2 ^ 53) :
    (widen a == widen b) = true ↔ a = b := by
  constructor
  · intro h
    change UnpackedFloat.beq (widen a).toModel.unpack (widen b).toModel.unpack = true at h
    rw [unpack_widen ha, unpack_widen hb, beq_iff_ne_notANumber_and_eq] at h
    obtain ⟨-, -, heq | ⟨-, hzero⟩ | ⟨hzero, -⟩⟩ := h
    · exact Int64.toInt_inj.mp (normalized_injective heq)
    · exact absurd hzero (normalized_ne_negative_zero _)
    · exact absurd hzero (normalized_ne_negative_zero _)
  · rintro rfl
    exact Float.beq_self_iff.mpr (widen_ne_nan a)

end DispatchLang.Number
