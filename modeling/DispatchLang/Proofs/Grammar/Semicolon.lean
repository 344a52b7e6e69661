import DispatchLang.Proofs.Grammar.NextLine

/-!
# Semicolons on lines of their own

A line that holds a semicolon and nothing else puts two programs together: nothing that is left open at the end of the
first one can take the semicolon, since no expression continues with it, and what is read after it is read as at the
beginning of a text. The statements are those of the first program and then those of the second one, at the places
where they stand now: the second text begins on a new line, so its offsets and lines are moved and its columns stay.

## Main results

* `Program.parse_afterSemicolon`: a text is read after a semicolon on the line before as it is read alone, moved.
* `Program.parse_semicolon`: two texts with a semicolon on a line between them are read one after the other.
-/

namespace DispatchLang

/-- How the spans of a text are moved that stands after another one. -/
def Span.after (text : String) : Span → Span := shift text.utf8ByteSize (text.toList.count '\n')

/-- Standing after a line with a semicolon, and this below a text, is standing after both. -/
theorem Span.below_after (p : String) : below p ∘ after ";\n" = after (p ++ "\n;\n") := by
  funext s
  simp only [Function.comp_apply, below, after, shift, String.utf8Len_toList, String.utf8ByteSize_append,
    String.toList_append, List.count_append, show "\n;\n".utf8ByteSize = 3 from rfl,
    show ";\n".utf8ByteSize = 2 from rfl, show ";\n".toList.count '\n' = 1 from rfl,
    show "\n;\n".toList.count '\n' = 2 from rfl, Span.mk.injEq, and_true]
  omega

namespace Token

/-- A line with a semicolon is one lexeme, and what is below it is scanned from there on. -/
theorem scan_semicolon (q : String) : ∃ semicolon : Lexeme, semicolon.token = .symbol .semicolon ∧
    scan (";\n" ++ q) = semicolon ::
      scanFrom (Place.origin.shift ";\n".utf8ByteSize (";\n".toList.count '\n')) (Gap.closed.pass ['\n']) q.toList := by
  have hsemicolon : piece ';' ('\n' :: q.toList) = (some (.symbol .semicolon), 0) := rfl
  have hline : piece '\n' q.toList = (none, 0) := rfl
  refine ⟨lexeme (.symbol .semicolon) .origin (Place.origin.advance ';') .initial, rfl, ?_⟩
  show scanFrom _ _ _ = _
  rw [String.toList_append, show ";\n".toList ++ q.toList = ';' :: '\n' :: q.toList from rfl, scanFrom, hsemicolon]
  show _ :: scanFrom _ _ ('\n' :: q.toList) = _
  rw [scanFrom, hline]
  rfl

end Token

open Reader

/-- A text is read below a line with a semicolon as it is read alone, moved. -/
theorem Program.parse_afterSemicolon {q : String} {qs : Program} (hq : Program.parse q = .ok qs) :
    Program.parse (";\n" ++ q) = .ok (qs.moved (.after ";\n")) := by
  obtain ⟨c, hq⟩ := Program.exists_of_parse hq
  obtain ⟨semicolon, hsemicolon, hscan⟩ := Token.scan_semicolon q
  obtain ⟨l, ls, l', ls', hscanq, hrest, htoken, hplace, hlike, -⟩ :=
    Token.scanFrom_gap ";\n".utf8ByteSize (";\n".toList.count '\n') .origin .initial (Token.Gap.closed.pass ['\n'])
      q.toList
  obtain ⟨words, stop, hwords, hstop, hne⟩ := (Token.laid_scan q).exists_words
  have hqscan : Token.scan q = l :: ls := hscanq
  rw [hrest] at hscan
  have hlength : (Token.scan (";\n" ++ q)).length = (Token.scan q).length + 1 := by
    rw [hscan, hqscan, List.length_cons, List.length_cons, List.length_cons, hlike.length_eq]
  have hcount : qs.length ≤ words.length := Program.length_le_of_run hwords hstop hq
  have hrounds : words.length + 1 = (Token.scan q).length := by
    rw [hwords, List.length_append, List.length_singleton]
  -- the first statement begins after the semicolon
  have hskip : (Cursor.start (Token.scan (";\n" ++ q))).skip (isSymbol .semicolon) =
      (Cursor.mk semicolon.span l' ls').skip (isSymbol .semicolon) := by
    rw [hscan]
    exact (Cursor.skip_next ⟨.nowhere, semicolon, l' :: ls'⟩ (by rw [hsemicolon]; rfl)).symm
  rw [Grammar.program_eq, hqscan] at hq
  rw [hqscan] at hwords
  obtain ⟨rs, d, hrun, hrs⟩ := Grammar.statements_elsewhere (m := (Token.scan (";\n" ++ q)).length + 1)
    (d := ⟨semicolon.span, l', ls'⟩) (by rw [hlength, ← hqscan]; omega) hne hstop hwords htoken hplace hlike hq
    ((Token.scan q).length + 1 - qs.length) true
  obtain rfl : qs.moved (.after ";\n") = rs := by
    rw [Program.moved, Node.movedAll_eq_map, ← Node.movedAll_id rs, Node.movedAll_eq_map]
    exact Placing.UpTo.map hrs
  refine Program.parse_of_run (c := d) ?_
  rw [Grammar.program_eq, Grammar.collect_congr (Grammar.programItem_congr hskip), ← hrun]
  congr 1
  omega

/-- Two programs with a semicolon on a line between them are read one after the other, if no quote of the first one is
left open. The second one is moved to where it stands now. -/
theorem Program.parse_semicolon {p q : String} {ps qs : Program} (hp : Program.parse p = .ok ps)
    (hq : Program.parse q = .ok qs) (hquotes : Token.QuotesEnclosed p.toList) :
    Program.parse (p ++ "\n;\n" ++ q) = .ok (ps ++ qs.moved (.after (p ++ "\n;\n"))) := by
  obtain ⟨semicolon, hsemicolon, hscan⟩ := Token.scan_semicolon q
  have hfirst : ∀ l ∈ (Token.scan (";\n" ++ q)).head?, l.token.continuesLine = false := by
    rw [hscan]
    rintro l ⟨⟩
    rw [hsemicolon]
    rfl
  have hbrace : ps.takesBrace (Token.scan p) (Token.scan (";\n" ++ q)) = false := by
    have hbegin : Lexeme.beginBrace (Token.scan (";\n" ++ q)) = false := by
      rw [hscan, Lexeme.beginBrace, List.head?_cons, Option.any_some, hsemicolon]
      rfl
    simp only [Program.takesBrace, hbegin, Bool.false_and, Option.any_false]
  have hbelow := Program.parse_below hp (Program.parse_afterSemicolon hq) hquotes hfirst hbrace
  rw [Program.moved_moved, Span.below_after] at hbelow
  rw [← hbelow]
  exact congrArg Program.parse (by simp only [← String.append_assoc, show "\n;\n" = "\n" ++ ";\n" from rfl])

/-- A brace that a declaration without a body would take on the next line is not taken after a semicolon. The quotes
of the first text are in a string and in a comment. -/
theorem Program.parse_afterType : ∃ ps qs, Program.parse "f := \"a\" // say \"f\"\ntype A" = .ok ps ∧
    Program.parse "\x7b x \x7d" = .ok qs ∧ Token.QuotesEnclosed "f := \"a\" // say \"f\"\ntype A".toList ∧
    Program.parse ("f := \"a\" // say \"f\"\ntype A" ++ "\n;\n" ++ "\x7b x \x7d") =
      .ok (ps ++ qs.moved (.after ("f := \"a\" // say \"f\"\ntype A" ++ "\n;\n"))) := by
  have hp : (Program.parse "f := \"a\" // say \"f\"\ntype A").toOption.any (fun _ => true) = true := by
    decide +kernel
  have hq : (Program.parse "\x7b x \x7d").toOption.any (fun _ => true) = true := by decide +kernel
  obtain ⟨ps, hp, -⟩ := exists_of_any_toOption hp
  obtain ⟨qs, hq, -⟩ := exists_of_any_toOption hq
  have hquotes : Token.QuotesEnclosed "f := \"a\" // say \"f\"\ntype A".toList := by decide +kernel
  exact ⟨ps, qs, hp, hq, hquotes, Program.parse_semicolon hp hq hquotes⟩

end DispatchLang
