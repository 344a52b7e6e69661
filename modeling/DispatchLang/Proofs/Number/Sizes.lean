import DispatchLang.Proofs.Number.Exact

/-!
# Sizes on machine words

The bounds on texts and ranges and the meaning of an index are defined on exact integers. A machine computes them
on words of 64 bits, and where a step leaves the words it goes wrong. The functions `repeatTextOnWords`,
`rangeOnWords` and `resolveIndexOnWords` are the same computations step by step on words: a conversion or a sum
that would not be exact makes the whole computation answer nothing, a product that does not fit is noticed, and a
difference stops at the ends of the range. They never answer nothing, and what they answer is what the exact
functions do.

For a text this needs that the number of its bytes is a word, and for an index that the length of the sequence is
a nonnegative signed one. There is no condition on counts, ends of ranges and indices.

## Main results

* `Number.repeatTextOnWords_eq`, `Number.rangeOnWords_eq`, `Number.resolveIndexOnWords_eq`: no step on words is
  inexact.
* `Number.sizes_exact`: which sizes and indices are accepted, and what they mean.
-/

namespace DispatchLang.Number

/-! ## Words -/

/-- The unsigned word with the given value, if there is one. -/
def word? : Int → Option UInt64
  | .ofNat n => if n < UInt64.size then some (UInt64.ofNat n) else none
  | .negSucc _ => none

/-- The size of the largest string or array that is built in one step, as a word. -/
def wordLimit : UInt64 := 268435456

/-- The difference of two signed words, or the end of the range on its side. -/
def saturatingSub (x y : Int64) : Int64 :=
  if x.toInt - y.toInt < Int64.minValue.toInt then Int64.minValue
  else if Int64.maxValue.toInt < x.toInt - y.toInt then Int64.maxValue
  else x - y

theorem word?_natCast {n : Nat} (h : n < UInt64.size) : word? n = some (UInt64.ofNat n) := if_pos h

theorem word?_of_neg {n : Int} (h : n < 0) : word? n = none := by
  cases n with
  | ofNat n => exact absurd h (Int.not_lt.mpr (Int.natCast_nonneg n))
  | negSucc n => rfl

theorem word?_of_size_le {n : Nat} (h : UInt64.size ≤ n) : word? n = none := if_neg (Nat.not_lt.mpr h)

/-- The values of the signed words from zero on. -/
theorem word?_toInt {x : Int64} (h : 0 ≤ x.toInt) : word? x.toInt = some (UInt64.ofNat x.toInt.toNat) := by
  have hlt := x.toInt_lt
  have hsize : UInt64.size = 2 ^ 64 := rfl
  obtain ⟨n, hn⟩ := Int.eq_ofNat_of_zero_le h
  rw [hn, word?_natCast (by omega), Int.toNat_natCast]

theorem toNat_wordLimit : wordLimit.toNat = sizeLimit := rfl

theorem sizeLimit_lt : sizeLimit < UInt64.size := toNat_wordLimit ▸ wordLimit.toNat_lt

theorem toInt_saturatingSub (x y : Int64) :
    (saturatingSub x y).toInt = max Int64.minValue.toInt (min (x.toInt - y.toInt) Int64.maxValue.toInt) := by
  have hmin : Int64.minValue.toInt = -2 ^ 63 := rfl
  have hmax : Int64.maxValue.toInt = 2 ^ 63 - 1 := rfl
  rw [saturatingSub]
  split
  · omega
  split
  · omega
  · rw [Int64.toInt_sub, Int.bmod_eq_of_le (by omega) (by omega)]
    omega

/-! ## The computations on words -/

/-- A text repeated, on words, with the number of its bytes and the number of times. A product that is no word is
too large. -/
def buildOnWords (text : String) (count : Int64) (bytes times : UInt64) : Except NumberFault String :=
  match word? (bytes.toNat * times.toNat : Nat) with
  | some length =>
    if length ≤ wordLimit then .ok (String.join (List.replicate times.toNat text))
    else .error (.repeatTooLong bytes.toNat count)
  | none => .error (.repeatTooLong bytes.toNat count)

/-- A text repeated, on words. A count that is no unsigned word stands for zero. -/
def repeatTextOnWords (text : String) (count : Int64) : Option (Except NumberFault String) :=
  (word? text.utf8ByteSize).map fun bytes => buildOnWords text count bytes ((word? count.toInt).getD 0)

def rangeOnWords (start stop : Int64) : Option (Except NumberFault Range) := do
  let length ← word? (max (saturatingSub stop start).toInt 0)
  if wordLimit < length then return .error (.rangeTooLong start stop length.toNat)
  else return .ok ⟨start, stop⟩

/-- An index from the beginning of a sequence, on words; a negative one counts from the end. -/
def fromStart? (i length : Int64) : Option Int64 :=
  if i < 0 then ofInt? (length.toInt + i.toInt) else some i

def resolveIndexOnWords (i : Int64) (length : UInt64) : Option (Option UInt64) := do
  let length ← ofInt? length.toNat
  let i ← fromStart? i length
  if 0 ≤ i ∧ i < length then return some (← word? i.toInt) else return none

/-! ## Every step is exact -/

theorem toNat_times (count : Int64) : ((word? count.toInt).getD 0).toNat = count.toInt.toNat := by
  have hlt := count.toInt_lt
  have hsize : UInt64.size = 2 ^ 64 := rfl
  by_cases h : 0 ≤ count.toInt
  · rw [word?_toInt h, Option.getD_some, UInt64.toNat_ofNat_of_lt' (by omega)]
  · rw [word?_of_neg (Int.not_le.mp h), Option.getD_none, Int.toNat_of_nonpos (Int.le_of_lt (Int.not_le.mp h))]
    rfl

theorem repeatText_eq (text : String) (count : Int64) : repeatText text count =
    if text.utf8ByteSize * count.toInt.toNat ≤ sizeLimit then
      .ok (String.join (List.replicate count.toInt.toNat text))
    else .error (.repeatTooLong text.utf8ByteSize count) := by
  have hempty : text.isEmpty = true → text.utf8ByteSize = 0 ∧ ∀ n, String.join (List.replicate n text) = "" := by
    intro h
    obtain rfl : text = "" := by simpa using h
    refine ⟨rfl, fun n => ?_⟩
    induction n with
    | zero => rfl
    | succ n ih => rw [List.replicate_succ, String.join_cons, ih, String.empty_append]
  rw [repeatText]
  split
  · next h =>
    obtain ⟨hsize, hjoin⟩ := hempty h
    rw [if_pos (by rw [hsize, Nat.zero_mul]; exact Nat.zero_le _), hjoin]
  · rfl

theorem buildOnWords_eq (text : String) (count : Int64) (bytes times : UInt64) :
    buildOnWords text count bytes times =
      if bytes.toNat * times.toNat ≤ sizeLimit then .ok (String.join (List.replicate times.toNat text))
      else .error (.repeatTooLong bytes.toNat count) := by
  rw [buildOnWords]
  by_cases hfits : bytes.toNat * times.toNat < UInt64.size
  · have hle : UInt64.ofNat (bytes.toNat * times.toNat) ≤ wordLimit ↔
        bytes.toNat * times.toNat ≤ sizeLimit := by
      rw [UInt64.le_iff_toNat_le, UInt64.toNat_ofNat_of_lt' hfits, toNat_wordLimit]
    rw [word?_natCast hfits]
    dsimp only
    by_cases hlimit : bytes.toNat * times.toNat ≤ sizeLimit
    · rw [if_pos (hle.mpr hlimit), if_pos hlimit]
    · rw [if_neg (mt hle.mp hlimit), if_neg hlimit]
  · have hlarge : UInt64.size ≤ bytes.toNat * times.toNat := Nat.not_lt.mp hfits
    rw [word?_of_size_le hlarge, if_neg (Nat.not_le.mpr (Nat.lt_of_lt_of_le sizeLimit_lt hlarge))]

theorem repeatTextOnWords_eq {text : String} (h : text.utf8ByteSize < UInt64.size) (count : Int64) :
    repeatTextOnWords text count = some (repeatText text count) := by
  rw [repeatTextOnWords, word?_natCast h, Option.map_some, buildOnWords_eq, toNat_times,
    UInt64.toNat_ofNat_of_lt' h, repeatText_eq]

theorem rangeOnWords_eq (start stop : Int64) : rangeOnWords start stop = some (range start stop) := by
  have hmin : Int64.minValue.toInt = -2 ^ 63 := rfl
  have hmax : Int64.maxValue.toInt = 2 ^ 63 - 1 := rfl
  have hlimit : (sizeLimit : Int) = 2 ^ 28 := rfl
  obtain ⟨length, hlength⟩ := Int.eq_ofNat_of_zero_le (Int.le_max_right (saturatingSub stop start).toInt 0)
  have hvalue := toInt_saturatingSub stop start
  have hfits : length < UInt64.size := by
    have : UInt64.size = 2 ^ 64 := rfl
    omega
  have hlt : wordLimit < UInt64.ofNat length ↔ ¬stop.toInt - start.toInt ≤ sizeLimit := by
    rw [UInt64.lt_iff_toNat_lt, UInt64.toNat_ofNat_of_lt' hfits, toNat_wordLimit]
    omega
  rw [rangeOnWords, range, hlength, word?_natCast hfits]
  simp only [Option.bind_eq_bind, Option.bind_some, hlt, UInt64.toNat_ofNat_of_lt' hfits, ite_not]
  split
  · rfl
  · -- The length that is reported is the exact one, as far as a signed word reaches.
    have : (length : Int) = min (stop.toInt - start.toInt) Int64.maxValue.toInt := by omega
    rw [this]
    rfl

theorem some_toNat_iff {p : Prop} [Decidable p] {k : Int} (hp : p → 0 ≤ k) (j : Nat) :
    (if p then some k.toNat else none) = some j ↔ p ∧ (j : Int) = k := by
  by_cases h : p
  · rw [if_pos h, and_iff_right h, Option.some.injEq, ← Int.ofNat_inj, Int.toNat_of_nonneg (hp h), eq_comm]
  · rw [if_neg h]
    exact iff_of_false nofun fun hj => h hj.1

theorem lt_zero_iff (i : Int64) : i < 0 ↔ ¬0 ≤ i.toInt := Int64.lt_iff_toInt_lt.trans Int.not_le.symm

theorem resolveIndex_eq_some_iff (i : Int64) (length j : Nat) : resolveIndex i length = some j ↔
    -(length : Int) ≤ i.toInt ∧ i.toInt < length ∧ (j : Int) = if 0 ≤ i.toInt then i.toInt else length + i.toInt := by
  rw [resolveIndex, some_toNat_iff And.left]
  simp only [lt_zero_iff, ite_not]
  split
  · omega
  · omega

/-- An index counted from the end lies between the least word and the length, so the sum is exact. -/
theorem exists_fromStart? (i length : Int64) (h : 0 ≤ length.toInt) : ∃ k, fromStart? i length = some k ∧
    k.toInt = if i < 0 then length.toInt + i.toInt else i.toInt := by
  have hmin := i.le_toInt
  have hmax := length.toInt_lt
  by_cases hi : i < 0
  · have hneg : i.toInt < 0 := Int64.lt_iff_toInt_lt.mp hi
    have hfits : fits (length.toInt + i.toInt) = true := fits_iff.mpr (by omega)
    rw [fromStart?, if_pos hi, if_pos hi, ofInt?, if_pos hfits]
    exact ⟨_, rfl, toInt_ofInt hfits⟩
  · rw [fromStart?, if_neg hi, if_neg hi]
    exact ⟨i, rfl, rfl⟩

theorem resolveIndexOnWords_eq (i : Int64) (length : UInt64) (h : length.toNat < 2 ^ 63) :
    resolveIndexOnWords i length = some ((resolveIndex i length.toNat).map UInt64.ofNat) := by
  have hfits : fits length.toNat = true := fits_iff.mpr (by omega)
  have hvalue : (Int64.ofInt length.toNat).toInt = length.toNat := toInt_ofInt hfits
  obtain ⟨k, hk, hkvalue⟩ := exists_fromStart? i (Int64.ofInt length.toNat) (by omega)
  have hinside : 0 ≤ k ∧ k < Int64.ofInt length.toNat ↔ 0 ≤ k.toInt ∧ k.toInt < length.toNat := by
    rw [Int64.le_iff_toInt_le, Int64.lt_iff_toInt_lt, hvalue]
    rfl
  rw [resolveIndexOnWords, ofInt?, if_pos hfits, resolveIndex, ← hvalue, ← hkvalue, hvalue]
  simp only [Option.bind_eq_bind, Option.bind_some, hk, hinside]
  by_cases hj : 0 ≤ k.toInt ∧ k.toInt < length.toNat
  · rw [if_pos hj, if_pos hj, word?_toInt hj.1]
    rfl
  · rw [if_neg hj, if_neg hj]
    rfl

/-! ## What is accepted, and what it means -/

theorem max_zero_eq (n : Int) : max n 0 = n.toNat := by omega

theorem ofNat_sizeLimit : (sizeLimit : Int) = 2 ^ 28 := rfl

/-- The integers of a range are counted up from the first one, and none of them is beyond the words. -/
theorem Range.map_toInt_toList (r : Range) : r.toList.map Int64.toInt =
    (List.range (r.stop.toInt - r.start.toInt).toNat).map fun i : Nat => r.start.toInt + i := by
  rw [toList, List.map_map]
  refine List.map_congr_left fun i hi => ?_
  show (Int64.ofInt (r.start.toInt + i)).toInt = r.start.toInt + i
  refine toInt_ofInt (fits_iff.mpr ?_)
  have hlt := List.mem_range.mp hi
  have hmin := r.start.le_toInt
  have hmax := r.stop.toInt_lt
  omega

variable {text : String} {count start stop : Int64}

theorem exists_repeatText_iff :
    (∃ r, repeatText text count = .ok r) ↔ text.utf8ByteSize * max count.toInt 0 ≤ 2 ^ 28 := by
  rw [repeatText_eq, max_zero_eq, ← ofNat_sizeLimit, ← Int.natCast_mul, Int.ofNat_le]
  split
  · next h => exact iff_of_true ⟨_, rfl⟩ h
  · next h => exact iff_of_false nofun h

theorem repeatText_ok {r : String} (h : repeatText text count = .ok r) :
    r = String.join (List.replicate (max count.toInt 0).toNat text) := by
  rw [repeatText_eq] at h
  split at h
  · rw [max_zero_eq, Int.toNat_natCast]
    exact (Except.ok.inj h).symm
  · cases h

theorem exists_range_iff : (∃ r, range start stop = .ok r) ↔ stop.toInt - start.toInt ≤ 2 ^ 28 := by
  rw [range, ← ofNat_sizeLimit]
  split
  · next h => exact iff_of_true ⟨_, rfl⟩ h
  · next h => exact iff_of_false nofun h

theorem range_ok {r : Range} (h : range start stop = .ok r) : r = ⟨start, stop⟩ := by
  rw [range] at h
  split at h
  · exact (Except.ok.inj h).symm
  · cases h

/-- A text is repeated exactly if the result is not too long, whatever the count; a range exists exactly if it is not
too long, and holds the integers from its beginning to its end; an index means a position exactly if it counts from the
beginning or the end of the sequence and stays in it. On words none of this goes wrong. -/
theorem sizes_exact :
    (∀ (text : String) (count : Int64),
      ((∃ r, repeatText text count = .ok r) ↔ text.utf8ByteSize * max count.toInt 0 ≤ 2 ^ 28) ∧
      (∀ r, repeatText text count = .ok r →
        r = String.join (List.replicate (max count.toInt 0).toNat text)) ∧
      (text.utf8ByteSize < 2 ^ 64 → repeatTextOnWords text count = some (repeatText text count))) ∧
    (∀ start stop : Int64,
      ((∃ r, range start stop = .ok r) ↔ stop.toInt - start.toInt ≤ 2 ^ 28) ∧
      (∀ r, range start stop = .ok r →
        r.toList.map Int64.toInt = (List.range (stop.toInt - start.toInt).toNat).map fun i : Nat => start.toInt + i) ∧
      rangeOnWords start stop = some (range start stop)) ∧
    ∀ (i : Int64) (length : Nat), length < 2 ^ 63 →
      (∀ j : Nat, resolveIndex i length = some j ↔ -(length : Int) ≤ i.toInt ∧ i.toInt < length ∧
        (j : Int) = if 0 ≤ i.toInt then i.toInt else length + i.toInt) ∧
      resolveIndexOnWords i (UInt64.ofNat length) = some ((resolveIndex i length).map UInt64.ofNat) := by
  refine ⟨fun text count => ⟨exists_repeatText_iff, fun r => repeatText_ok, fun h => repeatTextOnWords_eq h count⟩,
    fun start stop => ⟨exists_range_iff, fun r hr => ?_, rangeOnWords_eq start stop⟩, fun i length h =>
      ⟨resolveIndex_eq_some_iff i length, ?_⟩⟩
  · rw [range_ok hr]
    exact Range.map_toInt_toList _
  · have hvalue : (UInt64.ofNat length).toNat = length := UInt64.toNat_ofNat_of_lt' (h.trans (by decide))
    have hwords := resolveIndexOnWords_eq i (UInt64.ofNat length) (by rw [hvalue]; exact h)
    rwa [hvalue] at hwords

/-- At the ends of the words: the largest count of an empty text, the longest range, and the last position of the
longest sequence. -/
theorem sizes_at_ends : (∃ r, repeatText "" Int64.maxValue = .ok r) ∧
    (¬∃ r, range Int64.minValue Int64.maxValue = .ok r) ∧
    (2 ^ 63 - 1 < 2 ^ 63 ∧ resolveIndex (-1) (2 ^ 63 - 1) = some (2 ^ 63 - 2)) := by
  obtain ⟨hrepeat, hrange, hindex⟩ := sizes_exact
  refine ⟨(hrepeat "" Int64.maxValue).1.mpr ?_, mt (hrange Int64.minValue Int64.maxValue).1.mp ?_, by decide,
    ((hindex (-1) (2 ^ 63 - 1) (by decide)).1 _).mpr ?_⟩
  · decide
  · decide
  · decide

end DispatchLang.Number
