import DispatchLang.Proofs.Grammar.Places
import Mathlib.Data.List.DropRight
import Mathlib.Data.Prod.Lex

/-!
# Positions by counting

A line table answers the line and the column of an offset from the beginnings of lines it has noted. The same
numbers come out of the text itself: the line is one more than the number of line feeds among the bytes before the
offset, and the column of a point between two characters is one more than the number of characters since the last
line feed before it.

The first holds of every offset, also of one inside a character and of one past the end: the bytes of all other
characters differ from a line feed, so a line never begins inside a character.

Moving over a character makes the pair of line and column larger in the lexicographic order, so points between
characters are told apart by their lines and columns, and so are the lexemes of a text.

## Main results

* `LineTable.line_position`, `LineTable.column_position`: lines and columns by counting.
* `LineTable.position_lt_position`: later points have later positions.
* `LineTable.position_counts`: all of it together, with the lexemes of the text.
-/

namespace DispatchLang

/-! ## Line feeds among bytes -/

/-- Of the bytes of a character only that of a line feed is the byte of a line feed. -/
theorem count_utf8EncodeChar (c : Char) : (String.utf8EncodeChar c).count 10 = if c = '\n' then 1 else 0 := by
  have hval : c = '\n' ↔ c.val.toNat = 10 := by
    rw [← Char.val_inj, ← UInt32.toNat_inj]
    rfl
  have hbyte (n : Nat) : UInt8.ofNat n = 10 ↔ n % 256 = 10 := by
    rw [← UInt8.toNat_inj, UInt8.toNat_ofNat']
    rfl
  -- all bytes of a longer encoding are 128 or more
  simp only [String.utf8EncodeChar, hval]
  split_ifs <;> simp only [List.count_cons, List.count_nil, beq_iff_eq, hbyte] <;> split_ifs <;> omega

theorem bytes_eq (source : String) :
    source.toUTF8.data.toList = source.toList.flatMap String.utf8EncodeChar := by
  obtain ⟨cs, rfl⟩ : ∃ cs, source = String.ofList cs := ⟨source.toList, String.ofList_toList.symm⟩
  rw [String.toUTF8_eq_toByteArray, String.toByteArray_ofList, List.utf8Encode, List.data_toByteArray,
    String.toList_ofList]

/-- The lines that begin up to an offset, by the line feeds before it. -/
theorem length_takeWhile_lineBreaks (start n : Nat) (cs : List Char) :
    ((lineBreaks start cs).takeWhile (· ≤ start + n)).length =
      ((cs.flatMap String.utf8EncodeChar).take n).count 10 := by
  induction cs generalizing start n with
  | nil => rw [lineBreaks, List.flatMap_nil, List.take_nil, List.takeWhile_nil, List.count_nil, List.length_nil]
  | cons c cs ih =>
    have hlength := String.length_utf8EncodeChar c
    have hcount := count_utf8EncodeChar c
    rw [List.flatMap_cons, List.take_append, List.count_append, hlength, lineBreaks]
    by_cases hn : n < c.utf8Size
    · -- no line begins between the offset and the end of this character
      have hnone {b : Nat} {bs : List Nat} (hb : start + c.utf8Size ≤ b) :
          ((b :: bs).takeWhile (· ≤ start + n)).length = 0 := by
        rw [List.takeWhile_cons_of_neg (by simp; omega), List.length_nil]
      have hhead : ((String.utf8EncodeChar c).take n).count 10 = 0 := by
        by_cases hc : c = '\n'
        · subst hc
          obtain rfl : n = 0 := Nat.lt_one_iff.mp hn
          rfl
        · rw [if_neg hc] at hcount
          exact Nat.le_zero.mp (hcount ▸ (List.take_sublist n _).count_le 10)
      rw [hhead, Nat.sub_eq_zero_of_le hn.le, List.take_zero, List.count_nil]
      split
      · exact hnone le_rfl
      · cases hbs : lineBreaks (start + c.utf8Size) cs with
        | nil => rfl
        | cons b bs => exact hnone (mem_lineBreaks (hbs ▸ List.mem_cons_self)).1.le
    · obtain ⟨m, rfl⟩ := Nat.exists_eq_add_of_le (Nat.not_lt.mp hn)
      rw [List.take_of_length_le (by omega), hcount, Nat.add_sub_cancel_left, ← ih (start + c.utf8Size),
        Nat.add_assoc]
      split
      · rw [List.takeWhile_cons_of_pos (by simp), List.length_cons, Nat.add_comm]
      · rw [Nat.zero_add]

/-! ## Columns -/

namespace Place

/-- The column is one more than the number of characters since the last line feed. -/
theorem column_advanceAll (cs : List Char) :
    (origin.advanceAll cs).column = 1 + (cs.rtakeWhile (· ≠ '\n')).length := by
  induction cs using List.reverseRecOn with
  | nil => rfl
  | append_singleton cs c ih =>
    rw [advanceAll_append, advanceAll_cons, advanceAll_nil, advance]
    by_cases hc : c = '\n'
    · rw [if_pos hc, List.rtakeWhile_concat_neg _ _ _ (by simpa using hc), List.length_nil]
    · rw [if_neg hc, List.rtakeWhile_concat_pos _ _ _ (by simpa using hc), List.length_append,
        List.length_singleton, ih, Nat.add_assoc]

/-! ## The order of positions -/

/-- The line and column of a place, ordered by line and then by column. -/
def position (p : Place) : Nat ×ₗ Nat := toLex (p.line, p.column)

theorem position_lt_advance (p : Place) (c : Char) : p.position < (p.advance c).position := by
  rw [position, position, Prod.Lex.toLex_lt_toLex, advance]
  split
  · exact .inl (Nat.lt_succ_self _)
  · exact .inr ⟨rfl, Nat.lt_succ_self _⟩

theorem position_le_advanceAll (p : Place) (cs : List Char) : p.position ≤ (p.advanceAll cs).position := by
  induction cs generalizing p with
  | nil => exact le_rfl
  | cons c cs ih => exact (p.position_lt_advance c).le.trans (ih _)

theorem position_lt_advanceAll (p : Place) (c : Char) (cs : List Char) :
    p.position < (p.advanceAll (c :: cs)).position :=
  (p.position_lt_advance c).trans_le (position_le_advanceAll _ cs)

end Place

/-- The line and column of a lexeme, ordered by line and then by column. -/
def Lexeme.position (l : Lexeme) : Nat ×ₗ Nat := toLex (l.span.line, l.span.column)

/-- The lexemes of the rest of a text have later and later positions. -/
theorem Token.positions_scanFrom (p : Place) (gap : Gap) (cs : List Char) :
    (∀ l ∈ scanFrom p gap cs, p.position ≤ l.position) ∧
      (scanFrom p gap cs).Pairwise fun l l' => l.position < l'.position := by
  induction p, gap, cs using scanFrom.induct with
  | case1 p gap =>
    rw [scanFrom]
    exact ⟨fun l hl => List.mem_singleton.mp hl ▸ le_rfl, List.pairwise_singleton _ _⟩
  | case2 p gap c cs n q token hpiece ih =>
    rw [scanFrom, hpiece]
    have hlt : p.position < q.position := p.position_lt_advanceAll c _
    refine ⟨List.forall_mem_cons.mpr ⟨le_rfl, fun l hl => hlt.le.trans (ih.1 l hl)⟩, .cons (fun l hl => ?_) ih.2⟩
    exact hlt.trans_le (ih.1 l hl)
  | case3 p gap c cs n q hpiece ih =>
    rw [scanFrom, hpiece]
    exact ⟨fun l hl => (p.position_lt_advanceAll c _).le.trans (ih.1 l hl), ih.2⟩

/-! ## Line tables -/

namespace LineTable

variable {source front back front' back' : String}

/-- The line is one more than the number of line feeds before the offset. -/
theorem line_position (source : String) (offset : Nat) : ((ofSource source).position offset).1 =
    1 + (source.toUTF8.data.toList.take (min offset source.utf8ByteSize)).count 10 := by
  rw [bytes_eq, ← length_takeWhile_lineBreaks 0, Nat.zero_add]
  show ((0 :: lineBreaks 0 source.toList).takeWhile (· ≤ min offset source.utf8ByteSize)).length = _
  rw [List.takeWhile_cons_of_pos (by simp), List.length_cons, Nat.add_comm]

theorem position_front (h : source = front ++ back) :
    toLex ((ofSource source).position front.utf8ByteSize) = (Place.origin.advanceAll front.toList).position := by
  have hprefix : front.toList <+: source.toList := by
    rw [h, String.toList_append]
    exact List.prefix_append _ _
  have hoffset : (Place.origin.advanceAll front.toList).offset = front.utf8ByteSize := by
    rw [Place.offset_advanceAll, String.utf8Len_toList]
    exact Nat.zero_add _
  rw [Place.position, ← position_advanceAll hprefix, hoffset]

/-- The column of a point between two characters is one more than the number of characters since the last line feed
before it. -/
theorem column_position (h : source = front ++ back) :
    ((ofSource source).position front.utf8ByteSize).2 = 1 + (front.toList.rtakeWhile (· ≠ '\n')).length := by
  rw [← Place.column_advanceAll]
  exact congrArg (fun p => (ofLex p).2) (position_front h)

theorem position_min (source : String) (offset : Nat) :
    (ofSource source).position (min offset source.utf8ByteSize) = (ofSource source).position offset := by
  have hsource : (ofSource source).source = source := rfl
  rw [position, position, hsource, min_assoc, min_self]

/-- Later points between characters have later positions. -/
theorem position_lt_position (h : source = front ++ back) (h' : source = front' ++ back')
    (hlt : front.utf8ByteSize < front'.utf8ByteSize) :
    toLex ((ofSource source).position front.utf8ByteSize) <
      toLex ((ofSource source).position front'.utf8ByteSize) := by
  have hprefix : front.toList <+: source.toList := ⟨back.toList, by rw [h, String.toList_append]⟩
  have hprefix' : front'.toList <+: source.toList := ⟨back'.toList, by rw [h', String.toList_append]⟩
  rw [position_front h, position_front h']
  rcases List.prefix_or_prefix_of_prefix hprefix hprefix' with ⟨cs, hcs⟩ | ⟨cs, hcs⟩
  · rw [← hcs, Place.advanceAll_append]
    cases cs with
    | nil =>
      rw [List.append_nil] at hcs
      exact absurd hlt (String.toList_inj.mp hcs ▸ lt_irrefl _)
    | cons c cs => exact Place.position_lt_advanceAll _ c cs
  · rw [← String.utf8Len_toList, ← String.utf8Len_toList, ← hcs, String.utf8Len_append] at hlt
    exact absurd hlt (Nat.not_lt_of_le (Nat.le_add_right _ _))

/-- For every offset the line is what counting line feeds gives, and for a point between two characters the column is what
counting characters gives. Later points have later positions, and so have later lexemes, which stand where the table
says. -/
theorem position_counts (source : String) :
    (∀ offset, ((ofSource source).position offset).1 =
        1 + (source.toUTF8.data.toList.take (min offset source.utf8ByteSize)).count 10 ∧
      (∀ front back, source = front ++ back → min offset source.utf8ByteSize = front.utf8ByteSize →
        ((ofSource source).position offset).2 = 1 + (front.toList.rtakeWhile (· ≠ '\n')).length) ∧
      1 ≤ ((ofSource source).position offset).1 ∧ 1 ≤ ((ofSource source).position offset).2) ∧
    (∀ front back front' back', source = front ++ back → source = front' ++ back' →
      front.utf8ByteSize < front'.utf8ByteSize → toLex ((ofSource source).position front.utf8ByteSize) <
        toLex ((ofSource source).position front'.utf8ByteSize)) ∧
    (∀ l ∈ Token.scan source, (ofSource source).position l.span.start = (l.span.line, l.span.column)) ∧
    (Token.scan source).Pairwise fun l l' => toLex (l.span.line, l.span.column) < toLex (l'.span.line, l'.span.column) := by
  refine ⟨fun offset => ⟨line_position source offset, fun front back h hoffset => ?_, ?_, ?_⟩, ?_, ?_, ?_⟩
  · rw [← position_min, hoffset, column_position h]
  · rw [line_position]
    exact Nat.le_add_right _ _
  · exact Nat.le_add_left _ _
  · exact fun front back front' back' => position_lt_position
  · exact fun l hl => (Token.marks_of_mem_scan hl).placed
  · exact (Token.positions_scanFrom .origin .initial source.toList).2

end LineTable

end DispatchLang
