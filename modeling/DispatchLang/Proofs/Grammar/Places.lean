import DispatchLang.Source.Lines
import DispatchLang.Token.Scan
import Mathlib.Data.List.Induction
import Mathlib.Data.String.Basic

/-!
# Where lexemes stand

Lines and columns are counted in two ways. The scanner carries them along with the offset, one character at
a time; a line table finds them again from the offset alone. `LineTable.position_advanceAll` says that the two
agree on every place of a text.

The scanner lays the lexemes of a text down in order: one does not begin before the last one has ended, and
each takes up some of the text, except the end of the text, which comes last and takes up none.

## Main results

* `LineTable.position_advanceAll`: the table finds the line and the column that the scanner has counted.
* `Token.marks_of_mem_scan`: the spans of lexemes are pieces of the text, at the line and column that the
  table says.
* `Token.laid_scan`: the lexemes of a text stand in order.
-/

namespace DispatchLang

/-! ## Counting lines and columns -/

section Lines

variable (cs ds : List Char) (p : Place)

theorem Place.offset_advanceAll : (p.advanceAll cs).offset = p.offset + String.utf8Len cs := by
  induction cs generalizing p with
  | nil => rfl
  | cons c cs ih =>
    rw [advanceAll_cons, ih, offset_advance, String.utf8Len_cons]
    omega

theorem Place.line_advanceAll (offset : Nat) :
    (p.advanceAll cs).line = p.line + (lineBreaks offset cs).length := by
  induction cs generalizing p offset with
  | nil => rfl
  | cons c cs ih =>
    rw [advanceAll_cons, ih _ (offset + c.utf8Size), lineBreaks, advance]
    split
    · rw [List.length_cons, Nat.add_right_comm, Nat.add_assoc]
    · rfl

theorem lineBreaks_append (offset : Nat) :
    lineBreaks offset (cs ++ ds) =
      lineBreaks offset cs ++ lineBreaks (offset + String.utf8Len cs) ds := by
  induction cs generalizing offset with
  | nil => rfl
  | cons c cs ih =>
    have hs : offset + c.utf8Size + String.utf8Len cs =
        offset + String.utf8Len (c :: cs) := by
      rw [String.utf8Len_cons]
      omega
    simp only [List.cons_append, lineBreaks, ih, hs]
    split <;> rfl

/-- Lines begin inside the text or right after it. -/
theorem mem_lineBreaks {offset b : Nat} {cs : List Char} (h : b ∈ lineBreaks offset cs) :
    offset < b ∧ b ≤ offset + String.utf8Len cs := by
  induction cs generalizing offset with
  | nil => cases h
  | cons c cs ih =>
    have hc := c.utf8Size_pos
    rw [String.utf8Len_cons]
    rw [lineBreaks] at h
    split at h
    · rcases List.mem_cons.1 h with rfl | h
      · omega
      · have := ih h
        omega
    · have := ih h
      omega

/-- The last line that begins in a text, and what the text has of it. -/
theorem Place.exists_lastLine :
    ∃ before line, cs = before ++ line ∧
      (0 :: lineBreaks 0 cs).getLast? = some (String.utf8Len before) ∧
      (origin.advanceAll cs).column = line.length + 1 := by
  induction cs using List.reverseRecOn with
  | nil => exact ⟨[], [], rfl, rfl, rfl⟩
  | append_singleton cs c ih =>
    obtain ⟨before, line, hcs, hlast, hcolumn⟩ := ih
    rw [lineBreaks_append, advanceAll_append]
    by_cases hc : c = '\n'
    · refine ⟨cs ++ [c], [], by rw [List.append_nil], ?_, ?_⟩
      · simp only [lineBreaks, if_pos hc, ← List.cons_append, List.getLast?_concat,
          String.utf8Len_append, String.utf8Len_cons, String.utf8Len_nil, Nat.zero_add]
      · simp only [advanceAll_cons, advanceAll_nil, advance, if_pos hc, List.length_nil]
    · refine ⟨before, line ++ [c], by rw [hcs, List.append_assoc], ?_, ?_⟩
      · simpa only [lineBreaks, if_neg hc, List.append_nil] using hlast
      · simp only [advanceAll_cons, advanceAll_nil, advance, if_neg hc, hcolumn, List.length_append,
          List.length_singleton]

theorem utf8Len_cons_ne_zero (c : Char) : String.utf8Len (c :: cs) ≠ 0 := by
  rw [Ne, String.utf8Len_eq_zero]
  exact List.cons_ne_nil c cs

theorem dropBytes_utf8Len : dropBytes (String.utf8Len cs) (cs ++ ds) = ds := by
  induction cs with
  | nil => rw [String.utf8Len_nil, dropBytes, List.nil_append]
  | cons c cs ih =>
    obtain ⟨n, hn⟩ : ∃ n, String.utf8Len (c :: cs) = n + 1 :=
      Nat.exists_eq_succ_of_ne_zero (utf8Len_cons_ne_zero cs c)
    rw [hn, List.cons_append, dropBytes, ← hn, String.utf8Len_cons, Nat.add_sub_cancel, ih]

theorem charsWithin_utf8Len : charsWithin (String.utf8Len cs) (cs ++ ds) = some cs.length := by
  induction cs with
  | nil => rw [String.utf8Len_nil, charsWithin, List.length_nil]
  | cons c cs ih =>
    obtain ⟨n, hn⟩ : ∃ n, String.utf8Len (c :: cs) = n + 1 :=
      Nat.exists_eq_succ_of_ne_zero (utf8Len_cons_ne_zero cs c)
    have hlt : ¬n + 1 < c.utf8Size := by
      rw [← hn, String.utf8Len_cons]
      omega
    rw [hn, List.cons_append, charsWithin, if_neg hlt, ← hn, String.utf8Len_cons, Nat.add_sub_cancel, ih]
    rfl

end Lines

theorem LineTable.position_advanceAll {source : String} {cs : List Char}
    (h : cs <+: source.toList) :
    (ofSource source).position (Place.origin.advanceAll cs).offset =
      ((Place.origin.advanceAll cs).line, (Place.origin.advanceAll cs).column) := by
  obtain ⟨ds, hds⟩ := h
  obtain ⟨before, line, rfl, hlast, hcolumn⟩ := Place.exists_lastLine cs
  have hsize : source.utf8ByteSize = String.utf8Len (before ++ line) + String.utf8Len ds := by
    rw [← String.utf8Len_toList, ← hds, String.utf8Len_append]
  have hoffset : (Place.origin.advanceAll (before ++ line)).offset =
      String.utf8Len (before ++ line) := by
    rw [Place.offset_advanceAll]
    exact Nat.zero_add _
  have hreached : (ofSource source).starts.takeWhile (· ≤ String.utf8Len (before ++ line)) =
      0 :: lineBreaks 0 (before ++ line) := by
    show List.takeWhile _ (0 :: lineBreaks 0 source.toList) = _
    rw [← hds, lineBreaks_append, ← List.cons_append, List.takeWhile_append_of_pos]
    · -- what comes later begins past the place
      rw [Nat.zero_add]
      have hnone : (lineBreaks (String.utf8Len (before ++ line)) ds).takeWhile
          (· ≤ String.utf8Len (before ++ line)) = [] := by
        cases hb : lineBreaks (String.utf8Len (before ++ line)) ds with
        | nil => rfl
        | cons b bs =>
          have := (mem_lineBreaks (hb ▸ List.mem_cons_self)).1
          exact List.takeWhile_cons_of_neg (by simpa using this)
      rw [hnone, List.append_nil]
    · intro b hb
      rcases List.mem_cons.1 hb with rfl | hb
      · exact decide_eq_true (Nat.zero_le _)
      · have := (mem_lineBreaks hb).2
        exact decide_eq_true (by omega)
  have hwidth : String.utf8Len (before ++ line) - String.utf8Len before = String.utf8Len line := by
    rw [String.utf8Len_append, Nat.add_sub_cancel_left]
  have htext : (ofSource source).source.toList = before ++ (line ++ ds) := by
    rw [← List.append_assoc]
    exact hds.symm
  have hmin : min (String.utf8Len (before ++ line)) (ofSource source).source.utf8ByteSize =
      String.utf8Len (before ++ line) := by
    show min _ source.utf8ByteSize = _
    omega
  simp only [position, hoffset, hmin, hreached, hlast, Option.getD_some, hwidth, htext, dropBytes_utf8Len,
    charsWithin_utf8Len, hcolumn, Place.line_advanceAll _ _ 0, List.length_cons, Prod.mk.injEq, and_true]
  exact Nat.add_comm _ _

/-! ## Pieces of a text -/

/-- Whether a place is the one of a text that has `rest` after it. -/
def Place.Before (source : String) (rest : List Char) (p : Place) : Prop :=
  ∃ passed, passed ++ rest = source.toList ∧ p = origin.advanceAll passed

/-- A piece of a text, with the line and column that the line table of the text has for its beginning. -/
structure Span.Marks (source : String) (span : Span) : Prop where
  /-- It does not end before it begins. -/
  forward : span.start ≤ span.stop
  /-- It ends in the text. -/
  within : span.stop ≤ source.utf8ByteSize
  /-- It begins where it says. -/
  placed : (LineTable.ofSource source).position span.start = (span.line, span.column)

section Before

variable {source : String} {c : Char} {cs ds : List Char} {p q : Place}

theorem Place.Before.offset_le (h : p.Before source cs) : p.offset ≤ source.utf8ByteSize := by
  obtain ⟨passed, hs, rfl⟩ := h
  rw [offset_advanceAll, ← String.utf8Len_toList, ← hs, String.utf8Len_append]
  exact (Nat.zero_add _).trans_le (Nat.le_add_right _ _)

theorem Place.Before.advanceAll (h : p.Before source (c :: cs)) (n : Nat) :
    (p.advanceAll (c :: cs.take n)).Before source (cs.drop n) := by
  obtain ⟨passed, hs, rfl⟩ := h
  refine ⟨passed ++ c :: cs.take n, ?_, (advanceAll_append ..).symm⟩
  rw [← hs, List.append_assoc, List.cons_append, List.take_append_drop]

theorem Span.Marks.between (hp : p.Before source cs) (hq : q.Before source ds)
    (h : p.offset ≤ q.offset) : (Span.between p q).Marks source where
  forward := h
  within := hq.offset_le
  placed := by
    obtain ⟨passed, hs, rfl⟩ := hp
    exact LineTable.position_advanceAll (hs ▸ List.prefix_append ..)

end Before

/-! ## Lexemes in order -/

/-- Lexemes that stand in order from an offset on. All of them but the last take up some of the text, and
the last is the end of the text. -/
inductive Lexeme.Laid : Nat → List Lexeme → Prop where
  /-- The end of the text. -/
  | eof {n : Nat} {l : Lexeme} (token : l.token = .eof) (after : n ≤ l.span.start) : Laid n [l]
  /-- A word before other lexemes. -/
  | word {n : Nat} {l : Lexeme} {ls : List Lexeme} (token : l.token ≠ .eof) (after : n ≤ l.span.start)
    (wide : l.span.start < l.span.stop) (ahead : Laid l.span.stop ls) : Laid n (l :: ls)

theorem Lexeme.Laid.mono {m n : Nat} {ls : List Lexeme} (h : Laid n ls) (hmn : m ≤ n) : Laid m ls := by
  cases h with
  | eof token after => exact .eof token (hmn.trans after)
  | word token after wide ahead => exact .word token (hmn.trans after) wide ahead

namespace Token

theorem ofDigits_ne_eof (digits : List Char) : ofDigits digits ≠ .eof := by
  rw [ofDigits]
  split <;> exact Token.noConfusion

theorem ofWord_ne_eof (word : String) : ofWord word ≠ .eof := by
  rw [ofWord]
  split <;> exact Token.noConfusion

theorem stringPiece_ne_eof (cs : List Char) : (stringPiece cs).1 ≠ some .eof := by
  unfold stringPiece
  split
  · split <;> simp
  · simp

theorem numberPiece_ne_eof (c : Char) (cs : List Char) : (numberPiece c cs).1 ≠ some .eof := by
  have hd := ofDigits_ne_eof (c :: cs.takeWhile Char.isDigit)
  unfold numberPiece
  split
  · dsimp only
    split <;> simp [hd]
  · simp [hd]

theorem symbolPiece_ne_eof (c : Char) (cs : List Char) : (symbolPiece c cs).1 ≠ some .eof := by
  unfold symbolPiece
  split <;> simp

/-- No piece of a text is taken for its end. -/
theorem piece_ne_eof (c : Char) (cs : List Char) : (piece c cs).1 ≠ some .eof := by
  unfold piece
  split_ifs
  · simp
  · exact stringPiece_ne_eof cs
  · exact numberPiece_ne_eof c cs
  · simpa using ofWord_ne_eof _
  · simp
  · simp
  · exact symbolPiece_ne_eof c cs

/-- Every piece takes up some of the text. -/
theorem offset_lt_advanceAll (p : Place) (c : Char) (cs : List Char) :
    p.offset < (p.advanceAll (c :: cs)).offset := by
  have := c.utf8Size_pos
  rw [Place.offset_advanceAll, String.utf8Len_cons]
  omega

/-- The lexemes of the rest of a text stand in order from there on. -/
theorem laid_scanFrom (p : Place) (gap : Gap) (cs : List Char) :
    Lexeme.Laid p.offset (scanFrom p gap cs) := by
  induction p, gap, cs using scanFrom.induct with
  | case1 p gap =>
    rw [scanFrom]
    exact .eof rfl le_rfl
  | case2 p gap c cs n q token hpiece ih =>
    have hne := piece_ne_eof c cs
    rw [scanFrom, hpiece]
    rw [hpiece] at hne
    exact .word (fun h => hne (congrArg some h)) le_rfl (offset_lt_advanceAll p c _) ih
  | case3 p gap c cs n q hpiece ih =>
    rw [scanFrom, hpiece]
    exact ih.mono (offset_lt_advanceAll p c _).le

theorem laid_scan (source : String) : Lexeme.Laid 0 (scan source) :=
  laid_scanFrom .origin .initial source.toList

/-- The lexemes of the rest of a text are pieces of the text. -/
theorem marks_of_mem_scanFrom {source : String} (p : Place) (gap : Gap) (cs : List Char) :
    p.Before source cs → ∀ l ∈ scanFrom p gap cs, l.span.Marks source := by
  induction p, gap, cs using scanFrom.induct with
  | case1 p gap =>
    intro hp l hl
    rw [scanFrom] at hl
    rw [List.mem_singleton.1 hl]
    exact .between hp hp le_rfl
  | case2 p gap c cs n q token hpiece ih =>
    intro hp l hl
    rw [scanFrom, hpiece] at hl
    rcases List.mem_cons.1 hl with rfl | hl
    · exact .between hp (hp.advanceAll n) (offset_lt_advanceAll p c _).le
    · exact ih (hp.advanceAll n) l hl
  | case3 p gap c cs n q hpiece ih =>
    intro hp l hl
    rw [scanFrom, hpiece] at hl
    exact ih (hp.advanceAll n) l hl

theorem marks_of_mem_scan {source : String} {l : Lexeme} (hl : l ∈ scan source) :
    l.span.Marks source :=
  marks_of_mem_scanFrom .origin .initial source.toList ⟨[], rfl, rfl⟩ l hl

end Token

end DispatchLang
