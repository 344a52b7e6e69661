import DispatchLang.Node.Printer
import DispatchLang.Proofs.Number.Floats

/-!
# Floating-point numbers and their texts

The numbers that are read from digits have no sign: their highest bit is zero. Digits are turned into a number by
conversion, multiplication and division, and each of these gives a number without a sign for numbers without one.

A finite number is printed as digits, a point and more digits, after a minus sign if it has a sign. If the text is read as
the number, then the number is the one that these digits stand for.

## Main results

* `Decimal.signless_ofDigits`: what digits stand for has no sign.
* `Printer.exists_floatLiteral`: the parts of the text of a finite number.
-/

namespace DispatchLang

/-! ## Numbers without a sign -/

namespace Number

open Float.Model Float.Model.UnpackedFloat

/-- Whether a number has no sign, as the missing one does not. -/
def Positive : UnpackedFloat → Prop
  | .notANumber => True
  | .infinity sign | .zero sign | .finite sign _ _ _ => sign = .positive

/-- Whether the highest bit of a number is zero. -/
def Signless (x : Float) : Prop := x.toBits.toNat < 2 ^ 63

theorem positive_roundWithAccuracy (m : Nat) (e : Int) (accuracy : Accuracy) :
    Positive (roundWithAccuracy .binary64 .positive m e accuracy) := by
  rw [roundWithAccuracy]
  dsimp only
  split <;> rfl

theorem positive_round (m : Nat) (e : Int) : Positive (UnpackedFloat.round .binary64 .positive m e) :=
  positive_roundWithAccuracy _ _ _

theorem Positive.mul {x y : UnpackedFloat} (hx : Positive x) (hy : Positive y) :
    Positive (UnpackedFloat.mul .binary64 x y) := by
  cases x <;> cases y <;> first | trivial | (cases hx; cases hy; first | rfl | exact positive_roundWithAccuracy _ _ _)

theorem Positive.div {x y : UnpackedFloat} (hx : Positive x) (hy : Positive y) :
    Positive (UnpackedFloat.div .binary64 x y) := by
  cases x <;> cases y <;> first | trivial | (cases hx; cases hy; first | rfl | exact positive_roundWithAccuracy _ _ _)

theorem positive_ofUInt64 (n : UInt64) : Positive (UnpackedFloat.ofUInt64 .binary64 n) := by
  rw [UnpackedFloat.ofUInt64, UnpackedFloat.ofNat, UnpackedFloat.ofInt, UnpackedFloat.normalize]
  split
  · next h => exact absurd (Int.compare_eq_lt.mp h) (by omega)
  · rfl
  · exact positive_round _ _

theorem toNat_packComponents_lt (exponent : BitVec Format.binary64.exponentBits)
    (mantissa : BitVec Format.binary64.mantissaBitsWithoutImplicit) :
    (packComponents .binary64 .positive exponent mantissa).toNat < 2 ^ 63 := by
  have he : exponent.toNat < 2 ^ 11 := exponent.isLt
  have hm : mantissa.toNat < 2 ^ 52 := mantissa.isLt
  have hs : (Sign.toBitVec .positive ++ exponent).toNat = exponent.toNat := by
    rw [BitVec.toNat_append]
    simp [Sign.toBitVec]
  rw [packComponents, BitVec.toNat_append, hs]
  refine Nat.or_lt_two_pow ?_ (Nat.lt_of_lt_of_le hm (by decide))
  rw [Nat.shiftLeft_eq]
  exact Nat.mul_lt_mul_of_pos_right he (Nat.two_pow_pos 52)

theorem Positive.signless {x : UnpackedFloat} (h : Positive x) : Signless ⟨.pack x⟩ := by
  show (UnpackedFloat.pack .binary64 x).toNat < 2 ^ 63
  cases x with
  | notANumber => exact toNat_packComponents_lt _ _
  | infinity sign | zero sign =>
    cases h
    exact toNat_packComponents_lt _ _
  | finite sign m e hm =>
    cases h
    rw [UnpackedFloat.pack]
    dsimp only
    split
    · exact toNat_packComponents_lt _ _
    · split <;> exact toNat_packComponents_lt _ _

theorem Signless.positive {x : Float} (h : Signless x) : Positive x.toModel.unpack := by
  have hsign : Sign.ofBitVec (@unpackSign .binary64 x.toModel.toBits.toBitVec) = .positive := by
    have hbits : x.toModel.toBits.toBitVec.toNat < 2 ^ 63 := h
    refine if_pos (BitVec.eq_of_toNat_eq ?_)
    simp only [unpackSign, BitVec.toNat_cast, BitVec.extractLsb_toNat]
    rw [Nat.shiftRight_eq_div_pow, Nat.div_eq_of_lt hbits]
    rfl
  show Positive (UnpackedFloat.unpack .binary64 x.toModel.toBits.toBitVec)
  rw [UnpackedFloat.unpack]
  dsimp only
  rw [hsign]
  split
  · split
    · rfl
    · trivial
  · split
    · split <;> rfl
    · rfl

/-- A number without a sign is not below zero. -/
theorem Signless.not_lt_zero {x : Float} (h : Signless x) : ¬x < 0.0 := by
  have hx := h.positive
  intro hlt
  have hlt : (x.toModel.unpack.lt (.zero .positive)) = true := of_decide_eq_true hlt
  generalize x.toModel.unpack = y at hx hlt
  cases y <;> cases hx <;> cases hlt

theorem Signless.mul {x y : Float} (hx : Signless x) (hy : Signless y) : Signless (x * y) :=
  (hx.positive.mul hy.positive).signless

theorem Signless.div {x y : Float} (hx : Signless x) (hy : Signless y) : Signless (x / y) :=
  (hx.positive.div hy.positive).signless

theorem signless_powersOfTen {e : Nat} (h : e < Float.exactlyRepresentablePowersOfTen.size) :
    Signless Float.exactlyRepresentablePowersOfTen[e] := by
  have hall : ∀ x ∈ Float.exactlyRepresentablePowersOfTen, x.toBits.toNat < 2 ^ 63 := by decide +kernel
  exact hall _ (Array.getElem_mem h)

theorem positive_ofScientific (m : Nat) (e : Int) : Positive (UnpackedFloat.ofScientific .binary64 m e) := by
  rw [UnpackedFloat.ofScientific]
  split
  · rfl
  · split
    · rfl
    · split
      · rfl
      · split
        · exact Positive.mul rfl rfl
        · exact Positive.div rfl rfl

/-- Decimals are turned into numbers without a sign. -/
theorem signless_ofScientific (m : Nat) (fraction : Bool) (e : Nat) : Signless (Float.ofScientific m fraction e) := by
  rw [Float.ofScientific]
  split
  · next h =>
    have hm : Signless m.toUInt64.toFloat := (positive_ofUInt64 _).signless
    have he : e < Float.exactlyRepresentablePowersOfTen.size := Nat.lt_succ_of_le h.2
    dsimp only
    split
    · exact hm.div (signless_powersOfTen he)
    · exact hm.mul (signless_powersOfTen he)
  · exact (positive_ofScientific _ _).signless

end Number

theorem takeWhile_append_stop {α : Type} {p : α → Bool} {xs ys : List α}
    (hx : ∀ x ∈ xs, p x = true) (hy : ∀ y ∈ ys.head?, p y = false) :
    (xs ++ ys).takeWhile p = xs := by
  rw [List.takeWhile_append_of_pos hx]
  cases ys with
  | nil => simp
  | cons y ys => rw [List.takeWhile_cons_of_neg (by simp [hy y rfl]), List.append_nil]

theorem dropWhile_append_stop {α : Type} {p : α → Bool} {xs ys : List α}
    (hx : ∀ x ∈ xs, p x = true) (hy : ∀ y ∈ ys.head?, p y = false) :
    (xs ++ ys).dropWhile p = ys := by
  rw [List.dropWhile_append_of_pos hx]
  cases ys with
  | nil => rfl
  | cons y ys => rw [List.dropWhile_cons_of_neg (by simp [hy y rfl])]

namespace Decimal

open Number

/-- What digits stand for has no sign. -/
theorem signless_ofDigits (whole fraction : List Char) : Signless (ofDigits whole fraction) := by
  rw [ofDigits, nearest, if_neg Bool.false_ne_true]
  split
  · exact signless_ofScientific 0 true 1
  · split
    · exact (signless_ofScientific 10 true 1).div (signless_ofScientific 0 true 1)
    · split
      · exact signless_ofScientific _ _ _
      · exact signless_ofScientific _ _ _

/-- A number without a sign has none when it is taken apart. -/
theorem Parts.negative_eq_false {x : Float} {negative : Bool} {m : Nat} {e : Int} (h : Signless x)
    (hx : ofFloat x = .finite negative m e) : negative = false := by
  have hsign : (x.toBits.toNat / Nat.pow 2 63 == 1) = false := by
    rw [show x.toBits.toNat / Nat.pow 2 63 = 0 from Nat.div_eq_of_lt h]
    rfl
  rw [ofFloat, ofBits] at hx
  simp only [hsign] at hx
  split at hx
  · split at hx <;> cases hx
  · split at hx <;> cases hx <;> rfl

/-! ## The parts of a text -/

/-- Whether characters are digits, and at least one. -/
def IsRun (cs : List Char) : Prop := cs ≠ [] ∧ ∀ c ∈ cs, c.isDigit = true

theorem isRun_toDigits (n : Nat) : IsRun (Nat.toDigits 10 n) :=
  ⟨Nat.toDigits_ne_nil, fun _ hd => Nat.isDigit_of_mem_toDigits (by decide) (by decide) hd⟩

theorem isDigit_of_mem_zeros {n : Nat} : ∀ c ∈ zeros n, c.isDigit = true := by
  intro c hc
  rw [List.eq_of_mem_replicate hc]
  decide

/-- Positional notation is a run of digits, or two of them with a point between them. -/
theorem positional_cases (d : Nat) (k : Int) :
    IsRun (positional d k) ∨
      ∃ whole fraction, positional d k = whole ++ '.' :: fraction ∧ IsRun whole ∧ IsRun fraction := by
  obtain ⟨hne, hdigits⟩ := isRun_toDigits d
  rw [positional]
  dsimp only
  generalize Nat.toDigits 10 d = digits at hne hdigits
  have hlen : 0 < digits.length := List.length_pos_of_ne_nil hne
  split
  · refine .inl ⟨fun h => hne (List.append_eq_nil_iff.mp h).1, fun c hc => ?_⟩
    exact (List.mem_append.mp hc).elim (hdigits c) (isDigit_of_mem_zeros c)
  · refine .inr ?_
    split
    · refine ⟨['0'], _, rfl, ⟨nofun, List.forall_mem_singleton.mpr rfl⟩,
        fun h => hne (List.append_eq_nil_iff.mp h).2, fun c hc => ?_⟩
      exact (List.mem_append.mp hc).elim (isDigit_of_mem_zeros c) (hdigits c)
    · refine ⟨_, _, rfl, ⟨?_, fun c hc => hdigits c (List.mem_of_mem_take hc)⟩,
        ?_, fun c hc => hdigits c (List.mem_of_mem_drop hc)⟩
      · rw [← List.length_pos_iff, List.length_take]
        omega
      · rw [← List.length_pos_iff, List.length_drop]
        omega

theorem toLower_of_isDigit {c : Char} (h : c.isDigit = true) : c.toLower = c := by
  have h9 : c.val ≤ 57 := of_decide_eq_true (Bool.and_eq_true_iff.mp h).2
  refine dif_neg fun hc => ?_
  exact absurd (UInt32.le_trans hc.1 h9) (by decide)

def signText (negative : Bool) : List Char := if negative then ['-'] else []

theorem readFloat?_point (negative : Bool) {whole fraction : List Char} (hw : IsRun whole) (hf : IsRun fraction) :
    readFloat? (String.ofList (signText negative ++ (whole ++ '.' :: fraction))) =
      some (nearest negative (digitsValue (whole ++ fraction)) (-(fraction.length : Int))) := by
  obtain ⟨hne, hwhole⟩ := hw
  obtain ⟨d, ds, rfl⟩ := List.exists_cons_of_ne_nil hne
  have hd : d.isDigit = true := hwhole d List.mem_cons_self
  have hread : readMagnitude? negative ((d :: ds) ++ '.' :: fraction) =
      some (nearest negative (digitsValue ((d :: ds) ++ fraction)) (-(fraction.length : Int))) := by
    -- A text that begins with a digit is no name.
    have hname (name : String) (hn : ∃ c cs, name.toList = c :: cs ∧ c.isDigit = false) :
        ((d :: ds) ++ '.' :: fraction).map Char.toLower ≠ name.toList := by
      intro h
      obtain ⟨c, cs, hc, hcd⟩ := hn
      rw [hc, List.cons_append, List.map_cons, toLower_of_isDigit hd] at h
      rw [← (List.cons.inj h).1, hd] at hcd
      cases hcd
    have hinf := not_or.mpr ⟨hname "inf" ⟨_, _, rfl, rfl⟩, hname "infinity" ⟨_, _, rfl, rfl⟩⟩
    rw [readMagnitude?, if_neg hinf, if_neg (hname "nan" ⟨_, _, rfl, rfl⟩)]
    rw [takeWhile_append_stop hwhole (by simp), dropWhile_append_stop hwhole (by simp)]
    simp [List.takeWhile_eq_self_iff.mpr hf.2, List.dropWhile_eq_nil_iff.mpr hf.2]
  rw [readFloat?, String.toList_ofList]
  cases negative with
  | true => exact hread
  | false =>
    rw [signText, if_neg Bool.false_ne_true, List.nil_append]
    split
    · next h =>
      rw [(List.cons.inj h).1] at hd
      exact absurd hd (by decide)
    · next h =>
      rw [(List.cons.inj h).1] at hd
      exact absurd hd (by decide)
    · exact hread

end Decimal

namespace Printer

open Decimal

theorem exists_floatLiteral {x : Float} (hfinite : x.isFinite = true) (hread : readFloat? (floatLiteral x) = some x) :
    ∃ negative whole fraction, (floatLiteral x).toList = signText negative ++ (whole ++ '.' :: fraction) ∧
      IsRun whole ∧ IsRun fraction ∧
      x = nearest negative (digitsValue (whole ++ fraction)) (-(fraction.length : Int)) ∧
      (Number.Signless x → negative = false) := by
  suffices hparts : ∃ negative whole fraction,
      (floatLiteral x).toList = signText negative ++ (whole ++ '.' :: fraction) ∧ IsRun whole ∧ IsRun fraction ∧
      (Number.Signless x → negative = false) by
    obtain ⟨negative, whole, fraction, htext, hw, hf, hs⟩ := hparts
    refine ⟨negative, whole, fraction, htext, hw, hf, ?_, hs⟩
    rw [← String.ofList_toList (s := floatLiteral x), htext, readFloat?_point negative hw hf] at hread
    exact (Option.some.inj hread).symm
  have hliteral : floatLiteral x =
      if (floatText x).toList.contains '.' then floatText x else floatText x ++ ".0" := by
    rw [floatLiteral, hfinite, Bool.true_and]
    cases (floatText x).toList.contains '.' <;> rfl
  have hnone {goal : Prop} (text : String) (h : (readFloat? text).isSome = false) (hread : readFloat? text = some x) :
      goal := by
    rw [hread] at h
    cases h
  cases hx : Parts.ofFloat x with
  | nan =>
    have htext : floatText x = "NaN" := by rw [floatText, hx]
    rw [hliteral, htext] at hread
    exact hnone "NaN.0" (by decide +kernel) hread
  | infinite negative =>
    have htext : floatText x = if negative then "-inf" else "inf" := by
      rw [floatText, hx]
      cases negative <;> rfl
    rw [hliteral, htext] at hread
    cases negative
    · exact hnone "inf.0" (by decide +kernel) hread
    · exact hnone "-inf.0" (by decide +kernel) hread
  | finite negative m e =>
    have htext : (floatText x).toList = signText negative ++
        if (shortest m e).1 = 0 then ['0'] else positional (shortest m e).1 (shortest m e).2 := by
      rw [floatText, hx]
      exact String.toList_ofList
    have hsign (hu : Number.Signless x) : negative = false := Parts.negative_eq_false hu hx
    have hbody : ∀ cs, cs = (if (shortest m e).1 = 0 then ['0'] else positional (shortest m e).1 (shortest m e).2) →
        IsRun cs ∨ ∃ whole fraction, cs = whole ++ '.' :: fraction ∧ IsRun whole ∧ IsRun fraction := by
      rintro _ rfl
      split
      · exact .inl ⟨nofun, List.forall_mem_singleton.mpr rfl⟩
      · exact positional_cases _ _
    generalize (if (shortest m e).1 = 0 then ['0'] else positional (shortest m e).1 (shortest m e).2) = body
      at htext hbody
    rw [hliteral, htext]
    obtain hrun | ⟨whole, fraction, rfl, hw, hf⟩ := hbody body rfl
    · -- Digits alone get a point and a zero.
      refine ⟨negative, body, ['0'], ?_, hrun, ⟨nofun, List.forall_mem_singleton.mpr rfl⟩, hsign⟩
      have hpoint : (signText negative ++ body).contains '.' = false := by
        rw [List.contains_eq_mem, decide_eq_false_iff_not, List.mem_append, not_or]
        refine ⟨by cases negative <;> decide, fun h => absurd (hrun.2 _ h) (by decide)⟩
      rw [hpoint, if_neg Bool.false_ne_true, String.toList_append, htext, List.append_assoc]
      rfl
    · refine ⟨negative, whole, fraction, ?_, hw, hf, hsign⟩
      rw [if_pos (by simp), htext]

end Printer

end DispatchLang
