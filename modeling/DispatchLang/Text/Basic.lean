/-!
# Texts

What is dropped at the ends of a text when it is trimmed, namely all characters with the Unicode property
`White_Space`; whether a text occurs in another one, and the pieces between its occurrences.
-/

namespace DispatchLang.Text

/-! ## White space -/

/-- The characters with the property `White_Space`, as ranges of code points. -/
def blankRanges : List (Nat × Nat) :=
  [(0x09, 0x0d), (0x20, 0x20), (0x85, 0x85), (0xa0, 0xa0), (0x1680, 0x1680), (0x2000, 0x200a),
   (0x2028, 0x2029), (0x202f, 0x202f), (0x205f, 0x205f), (0x3000, 0x3000)]

/-- Whether a character is white space. -/
def isBlank (c : Char) : Bool :=
  blankRanges.any fun (first, last) => first ≤ c.toNat && c.toNat ≤ last

/-- A text without the white space at its ends. -/
def trimChars (cs : List Char) : List Char :=
  ((cs.dropWhile isBlank).reverse.dropWhile isBlank).reverse

/-- A text without the white space at its ends. -/
def trim (text : String) : String := String.ofList (trimChars text.toList)

/-! ## Occurrences -/

def occursIn (needle : List Char) : List Char → Bool
  | [] => needle.isEmpty
  | c :: cs => needle.isPrefixOf (c :: cs) || occursIn needle cs

/-- Whether `needle` occurs in `text`. -/
def contains (text needle : String) : Bool := occursIn needle.toList text.toList

/-- The pieces of a text between the occurrences of a separator, which are found from left to right and
do not overlap. The next `skip` characters belong to the last occurrence, and `piece` holds the
beginning of the current piece in reverse order. -/
def splitFrom (separator : List Char) (skip : Nat) (piece : List Char) :
    List Char → List (List Char)
  | [] => [piece.reverse]
  | c :: cs =>
    match skip with
    | skip + 1 => splitFrom separator skip piece cs
    | 0 =>
      if separator.isPrefixOf (c :: cs) then
        piece.reverse :: splitFrom separator (separator.length - 1) [] cs
      else splitFrom separator 0 (c :: piece) cs

/-- The pieces of a text between the occurrences of a separator; an empty separator gives the single
characters. -/
def split (text separator : String) : List String :=
  if separator.isEmpty then text.toList.map String.singleton
  else (splitFrom separator.toList 0 [] text.toList).map String.ofList

end DispatchLang.Text
