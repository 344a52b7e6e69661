/-!
# Places and spans

A *place* is a point of a source text between two characters: its byte offset together with the
one-based line and column it stands at. A *span* is a piece of the text, with the line and column of
its beginning. Columns count characters, offsets count bytes of the UTF-8 form.

`Place.advance` moves a place over one character, so the place after a text is a fold over its
characters; `Span.cover` is how the span of a compound form is made from the spans of its parts.
-/

namespace DispatchLang

/-! ## Places -/

/-- A point of a source text. -/
structure Place where
  /-- The number of bytes before this point. -/
  offset : Nat
  /-- The line, counted from one. -/
  line : Nat
  /-- The column, counted from one in characters. -/
  column : Nat
deriving DecidableEq, Inhabited

namespace Place

/-- The beginning of every text. -/
def origin : Place := ⟨0, 1, 1⟩

/-- The point after the character `c`. A line feed starts a new line and every other character
moves one column to the right. -/
def advance (p : Place) (c : Char) : Place :=
  if c = '\n' then ⟨p.offset + c.utf8Size, p.line + 1, 1⟩
  else ⟨p.offset + c.utf8Size, p.line, p.column + 1⟩

/-- The point after all of `cs`. -/
def advanceAll (p : Place) (cs : List Char) : Place := cs.foldl advance p

@[simp] theorem advanceAll_nil (p : Place) : p.advanceAll [] = p := rfl

@[simp] theorem advanceAll_cons (p : Place) (c : Char) (cs : List Char) :
    p.advanceAll (c :: cs) = (p.advance c).advanceAll cs := rfl

theorem advanceAll_append (p : Place) (cs ds : List Char) :
    p.advanceAll (cs ++ ds) = (p.advanceAll cs).advanceAll ds := by
  rw [advanceAll, List.foldl_append]
  rfl

@[simp] theorem offset_advance (p : Place) (c : Char) :
    (p.advance c).offset = p.offset + c.utf8Size := by
  rw [advance]
  split <;> rfl

end Place

/-! ## Spans -/

/-- A piece of a source text, with the line and column of its beginning. -/
structure Span where
  /-- The byte offset of the first byte. -/
  start : Nat
  /-- The byte offset just past the last byte. -/
  stop : Nat
  /-- The line of the beginning, counted from one. -/
  line : Nat
  /-- The column of the beginning, counted from one in characters. -/
  column : Nat
deriving DecidableEq, Inhabited

namespace Span

/-- The piece between two places. -/
def between (p q : Place) : Span := ⟨p.offset, q.offset, p.line, p.column⟩

/-- The span that belongs to no text. -/
def nowhere : Span := ⟨0, 0, 0, 0⟩

/-- The piece from the beginning of `s` to the end of `t`, or to the end of `s` where that is
later. -/
def cover (s t : Span) : Span := { s with stop := max t.stop s.stop }

@[simp] theorem start_cover (s t : Span) : (s.cover t).start = s.start := rfl

theorem stop_le_stop_cover (s t : Span) : s.stop ≤ (s.cover t).stop := Nat.le_max_right _ _

theorem stop_le_stop_cover' (s t : Span) : t.stop ≤ (s.cover t).stop := Nat.le_max_left _ _

end Span

/-- A value together with the piece of text it was read from. -/
structure Located (α : Type) where
  /-- The value. -/
  val : α
  /-- Where it stands. -/
  span : Span
deriving DecidableEq, Inhabited

end DispatchLang
