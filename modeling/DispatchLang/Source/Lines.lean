import DispatchLang.Source.Span

/-!
# Line tables

A line table lists the byte offsets at which the lines of a text begin. With it the line and column
of any byte offset can be found without reading the text from its beginning: the line is the last one
that begins at or before the offset, and the column counts the characters from there on.

An offset past the end stands for the end. An offset inside a character has no column of its own;
there the bytes since the beginning of the line are counted instead.
-/

namespace DispatchLang

/-! ## Counting along a text -/

/-- The offsets just past the line feeds of a text that itself begins at `offset`. -/
def lineBreaks (offset : Nat) : List Char → List Nat
  | [] => []
  | c :: cs =>
    if c = '\n' then (offset + c.utf8Size) :: lineBreaks (offset + c.utf8Size) cs
    else lineBreaks (offset + c.utf8Size) cs

/-- What is left of a text after its first `n` bytes, when these end between two characters. -/
def dropBytes : Nat → List Char → List Char
  | 0, cs => cs
  | _ + 1, [] => []
  | n + 1, c :: cs => dropBytes (n + 1 - c.utf8Size) cs

/-- The number of characters in the first `n` bytes, or nothing when these do not end between two
characters. -/
def charsWithin : Nat → List Char → Option Nat
  | 0, _ => some 0
  | _ + 1, [] => none
  | n + 1, c :: cs =>
    if n + 1 < c.utf8Size then none else (charsWithin (n + 1 - c.utf8Size) cs).map (· + 1)

/-! ## The table -/

/-- A text with the offsets at which its lines begin. -/
structure LineTable where
  /-- The text. -/
  source : String
  /-- The offsets of the line beginnings, in increasing order, the first being zero. -/
  starts : List Nat

namespace LineTable

/-- The table of a text. -/
def ofSource (source : String) : LineTable := ⟨source, 0 :: lineBreaks 0 source.toList⟩

/-- The line and column of a byte offset, both counted from one. The line is the last one that begins at or before
the offset. As the beginnings increase, these are the ones a binary search finds up to the offset, whether it finds
the offset itself or the place where it would go; here they are taken one after the other. -/
def position (table : LineTable) (offset : Nat) : Nat × Nat :=
  let offset := min offset table.source.utf8ByteSize
  let reached := table.starts.takeWhile (· ≤ offset)
  let start := reached.getLast?.getD 0
  let width := offset - start
  (reached.length, (charsWithin width (dropBytes start table.source.toList)).getD width + 1)

end LineTable

end DispatchLang
