import DispatchLang.Text.Case.Data

/-!
# Letter case

Texts in upper and in lower case. A letter may have several characters as its image, and a capital sigma
has two lower-case forms: the final one where it ends a word, that is, where the nearest character before
it that counts is a letter with case and the nearest one after it is not.
-/

namespace DispatchLang.Text

namespace Case

def rangeImage? (code : Nat) : MappingRange → Option Nat
  | (first, last, step, image) =>
    if first ≤ code ∧ code ≤ last ∧ (code - first) % step = 0 then some (image + (code - first))
    else none

def image (ranges : List MappingRange) (sequences : List (Nat × List Nat)) (c : Char) :
    List Char :=
  match ranges.findSome? (rangeImage? c.toNat) with
  | some code => [Char.ofNat code]
  | none =>
    match sequences.lookup c.toNat with
    | some codes => codes.map Char.ofNat
    | none => [c]

/-- Whether a character is in one of some ranges. -/
def isIn (ranges : List (Nat × Nat)) (c : Char) : Bool :=
  ranges.any fun (first, last) => first ≤ c.toNat && c.toNat ≤ last

/-- Whether the first of some characters that is not passed over is a letter with case. -/
def reachesLetter (cs : List Char) : Bool :=
  (cs.dropWhile (isIn ignorableRanges)).head?.any (isIn casedRanges)

def capitalSigma : Char := 'Σ'

/-- The small sigma that ends a word. -/
def finalSigma : Char := 'ς'

/-- A text in lower case, after the given characters in reverse order. -/
def lowerAfter (before : List Char) : List Char → List Char
  | [] => []
  | c :: cs =>
    (if c = capitalSigma && reachesLetter before && !reachesLetter cs then [finalSigma]
      else image lowerRanges lowerSequences c) ++ lowerAfter (c :: before) cs

end Case

def upper (text : String) : String :=
  String.ofList (text.toList.flatMap (Case.image Case.upperRanges Case.upperSequences))

def lower (text : String) : String := String.ofList (Case.lowerAfter [] text.toList)

end DispatchLang.Text
