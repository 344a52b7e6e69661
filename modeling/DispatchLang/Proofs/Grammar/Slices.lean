import DispatchLang.Proofs.Grammar.LineBreaks

/-!
# Scanning the words of a text one by one

What a text has between its words, blanks and comments and whatever begins no word, is passed over. It can be left
out: with every word on a line of its own, the same words are found again.

That needs two facts about a piece that is a token. It is found again without the text after it
(`Token.piece_alone`), and it is found again before a line feed (`Token.piece_before`). Taken together they are
stronger than they look. A quote may be stray in one text and open a string in another; but a string token has its
closing quotes with it, so that nothing after it can be drawn into it. The other pieces that look ahead, numbers before
a point and signs that begin longer ones, look at a line feed now, with which nothing goes on.

## Main results

* `Token.piece_alone`: a token is found again without the text after it.
* `Token.tokens_lines`: the tokens of words on lines of their own.
* `Token.scan_slices`: the words of a text stand in order, and scanning them one by one finds the same tokens.
-/

namespace DispatchLang

/-- One lexeme ends before the next one begins. -/
theorem Lexeme.Laid.pairwise {n : Nat} {ls : List Lexeme} (h : Laid n ls) :
    ls.Pairwise fun l l' => l.span.stop ≤ l'.span.start := by
  induction h with
  | eof token after => exact List.pairwise_singleton _ _
  | word token after wide ahead ih => exact List.pairwise_cons.2 ⟨fun _ hl => ahead.le_start hl, ih⟩

/-- A place is between two characters. -/
theorem Place.Before.isValid {source : String} {p : Place} {cs : List Char} (h : p.Before source cs) :
    String.Pos.Raw.IsValid source ⟨p.offset⟩ := by
  obtain ⟨passed, hs, rfl⟩ := h
  rw [String.Pos.Raw.isValid_iff_exists_append]
  refine ⟨String.ofList passed, String.ofList cs, ?_, ?_⟩
  · rw [← String.ofList_append, hs, String.ofList_toList]
  · rw [offset_advanceAll, String.rawEndPos_ofList]
    simp [origin]

namespace Token

/-! ## Strings at the front of a text -/

section Front

variable {c : Char} {cs ds : List Char}

theorem stringBody_front (hs : (stringBody (cs ++ ds)).1.isSome) (h : (stringBody (cs ++ ds)).2 ≤ cs.length) :
    stringBody (cs ++ ds) = stringBody cs := by
  -- it is enough that the front has a string, as that ends at its closing quote
  suffices hcs : (stringBody cs).1.isSome from stringBody_before ds hcs
  induction cs using stringBody.induct with
  | case1 =>
    cases ds with
    | nil => exact hs
    | cons d ds => exact absurd (stringBody_pos d ds) (Nat.not_lt.2 h)
  | case2 cs => rfl
  | case3 =>
    cases ds with
    | nil => exact hs
    | cons d ds =>
      rw [List.singleton_append, stringBody] at hs h
      split at hs
      · cases hs
      · next hd =>
        rw [if_neg hd] at h
        exact absurd h (by simp)
  | case4 cs =>
    rw [List.cons_append, List.cons_append, stringBody, if_pos rfl] at hs
    cases hs
  | case5 e cs he body n hb ih =>
    rw [List.cons_append, List.cons_append, stringBody, if_neg he] at hs h
    rw [stringBody, if_neg he, Option.isSome_map]
    exact ih (by simpa using hs) (Nat.le_of_add_le_add_right h)
  | case6 c cs hq hnil hcons body n hb ih =>
    have hc : c ≠ '\\' := by
      rintro rfl
      cases cs with
      | nil => exact hnil rfl rfl
      | cons e cs => exact hcons e cs rfl rfl
    rw [List.cons_append, stringBody_cons hq hc] at hs h
    rw [stringBody_cons hq hc, Option.isSome_map]
    exact ih (by simpa using hs) (Nat.le_of_add_le_add_right h)

/-- Three quotes that lie in the front of a text are the first ones of the front. -/
theorem beforeTripleQuote?_front {inside : List Char} (h : beforeTripleQuote? (cs ++ ds) = some inside)
    (hlength : inside.length + 3 ≤ cs.length) : beforeTripleQuote? cs = some inside := by
  induction cs generalizing inside with
  | nil => exact absurd hlength (by simp)
  | cons c cs ih =>
    by_cases hquotes : ∃ rest, c :: (cs ++ ds) = '"' :: '"' :: '"' :: rest
    · obtain ⟨rest, hrest⟩ := hquotes
      rw [List.cons_append, hrest, beforeTripleQuote?] at h
      cases h
      have hsplit : (c :: cs) ++ ds = ['"', '"', '"'] ++ rest := hrest
      obtain ⟨tail, htail, -⟩ := exists_tail_of_length_le _ hsplit hlength
      rw [htail]
      rfl
    · rw [List.cons_append, beforeTripleQuote?_cons fun rest hrest => hquotes ⟨rest, hrest⟩] at h
      obtain ⟨inside, hinside, rfl⟩ := Option.map_eq_some_iff.1 h
      rw [beforeTripleQuote?_cons fun rest hrest => hquotes ⟨rest ++ ds, congrArg (· ++ ds) hrest⟩,
        ih hinside (Nat.le_of_succ_le_succ hlength)]
      rfl

theorem stringPiece_front (hs : (stringPiece (cs ++ ds)).1.isSome) (h : (stringPiece (cs ++ ds)).2 ≤ cs.length) :
    stringPiece (cs ++ ds) = stringPiece cs := by
  by_cases hlong : ∃ rest, cs ++ ds = '"' :: '"' :: rest
  · obtain ⟨rest, hrest⟩ := hlong
    cases hinside : beforeTripleQuote? rest with
    | none =>
      rw [hrest, stringPiece, hinside] at hs
      cases hs
    | some inside =>
      rw [hrest, stringPiece, hinside] at h
      obtain ⟨tail, rfl, rfl⟩ := exists_tail_of_length_le ['"', '"'] hrest ((Nat.le_add_left 2 _).trans h)
      have hlength : inside.length + 3 ≤ tail.length := by simpa using h
      show stringPiece ('"' :: '"' :: (tail ++ ds)) = stringPiece ('"' :: '"' :: tail)
      rw [stringPiece, hinside, stringPiece, beforeTripleQuote?_front hinside hlength]
  · have hlong' (rest : List Char) : cs ≠ '"' :: '"' :: rest := by
      rintro rfl
      exact hlong ⟨_, rfl⟩
    rw [stringPiece_short fun rest hrest => hlong ⟨rest, hrest⟩] at hs h
    rw [stringPiece_short fun rest hrest => hlong ⟨rest, hrest⟩, stringPiece_short hlong',
      stringBody_front (by simpa using hs) h]

end Front

/-! ## Words -/

/-- Whether some characters are a single token. -/
def IsWord (w : Piece) : Prop :=
  ∃ c cs token, w = ⟨some token, c :: cs⟩ ∧ piece c cs = (some token, cs.length)

/-- A token is found again without the text after it. -/
theorem piece_alone {c : Char} {cs : List Char} {token : Token} {n : Nat} (h : piece c cs = (some token, n)) :
    IsWord ⟨some token, c :: cs.take n⟩ := by
  have hlength : (cs.take n).length = n := by
    have hle := piece_length c cs
    rw [h] at hle
    exact List.length_take_of_le hle
  refine ⟨c, cs.take n, token, rfl, ?_⟩
  have hwhole : piece c (cs.take n ++ cs.drop n) = (some token, n) := by rw [List.take_append_drop, h]
  by_cases hc : c = '"'
  · subst hc
    have hstring : stringPiece (cs.take n ++ cs.drop n) = (some token, n) := hwhole
    have hfront : stringPiece (cs.take n) = (some token, n) := by
      rw [← hstring, stringPiece_front]
      · rw [hstring]
        rfl
      · rw [hstring, hlength]
    rw [hlength]
    exact hfront
  · rw [hlength, ← hwhole, piece_front hc]
    rw [hwhole, hlength]

theorem isWord_of_mem_pieces {cs : List Char} {w : Piece} (h : w ∈ pieces cs) (hw : w.token.isSome) : IsWord w := by
  induction cs using pieces.induct with
  | case1 =>
    rw [pieces] at h
    cases h
  | case2 c cs token n hpiece ih =>
    rw [pieces, hpiece] at h
    rcases List.mem_cons.1 h with rfl | h
    · obtain ⟨token, rfl⟩ := Option.isSome_iff_exists.1 hw
      exact piece_alone hpiece
    · exact ih h

theorem IsWord.pieces {w : Piece} (h : IsWord w) : pieces w.text = [w] := by
  obtain ⟨c, cs, token, rfl, hpiece⟩ := h
  rw [Token.pieces, hpiece]
  dsimp only
  rw [List.take_length, List.drop_length, Token.pieces]

theorem IsWord.pieces_line {w : Piece} (h : IsWord w) (rest : List Char) :
    Token.pieces (w.text ++ '\n' :: rest) = w :: ⟨none, ['\n']⟩ :: Token.pieces rest := by
  obtain ⟨c, cs, token, rfl, hpiece⟩ := h
  have hbefore : piece c (cs ++ '\n' :: rest) = (some token, cs.length) := by
    rw [piece_before c cs rest fun _ => by rw [hpiece]; rfl, hpiece]
  rw [List.cons_append, Token.pieces, hbefore]
  dsimp only
  rw [List.take_left, List.drop_left, Token.pieces]
  rfl

theorem IsWord.tokens_line {w : Piece} (h : IsWord w) (rest : List Char) :
    (Token.pieces (w.text ++ '\n' :: rest)).filterMap Piece.token =
      [w].filterMap Piece.token ++ (Token.pieces rest).filterMap Piece.token := by
  rw [h.pieces_line, ← List.singleton_append, List.filterMap_append]
  rfl

theorem tokens_lines {ws : List Piece} (h : ∀ w ∈ ws, IsWord w) :
    (pieces (ws.flatMap fun w => w.text ++ ['\n'])).filterMap Piece.token = ws.filterMap Piece.token := by
  induction ws with
  | nil => simp [pieces]
  | cons w ws ih =>
    obtain ⟨hw, hws⟩ := List.forall_mem_cons.1 h
    rw [List.flatMap_cons, List.append_assoc, List.singleton_append, hw.tokens_line, ih hws, ← List.filterMap_append,
      List.singleton_append]

/-- The tokens of words with line feeds between them. -/
theorem tokens_intercalate {ws : List Piece} (h : ∀ w ∈ ws, IsWord w) :
    (pieces (['\n'].intercalate (ws.map Piece.text))).filterMap Piece.token = ws.filterMap Piece.token := by
  induction ws with
  | nil => simp [pieces]
  | cons w ws ih =>
    obtain ⟨hw, hws⟩ := List.forall_mem_cons.1 h
    cases ws with
    | nil => simp [hw.pieces]
    | cons w' ws =>
      have hrest : ['\n'].intercalate ((w :: w' :: ws).map Piece.text) =
          w.text ++ '\n' :: ['\n'].intercalate ((w' :: ws).map Piece.text) := by simp
      rw [hrest, hw.tokens_line, ih hws, ← List.filterMap_append, List.singleton_append]

/-! ## The words of a text -/

/-- The tokens that are found in a text are those of its pieces, wherever it stands. -/
theorem tokens_scanFrom (p : Place) (gap : Gap) (cs : List Char) :
    (scanFrom p gap cs).map Lexeme.token = (pieces cs).filterMap Piece.token ++ [.eof] := by
  induction p, gap, cs using scanFrom.induct with
  | case1 p gap =>
    rw [scanFrom, pieces]
    rfl
  | case2 p gap c cs n q token hpiece ih =>
    rw [scanFrom, pieces, hpiece]
    exact congrArg (token :: ·) ih
  | case3 p gap c cs n q hpiece ih =>
    rw [scanFrom, pieces, hpiece]
    exact ih

/-- What stands between two places. -/
theorem slice_between {source : String} {p : Place} {c : Char} {cs : List Char} (h : p.Before source (c :: cs))
    (n : Nat) : slice source (.between p (p.advanceAll (c :: cs.take n))) = String.ofList (c :: cs.take n) := by
  obtain ⟨passed, hs, rfl⟩ := h
  have hsource : source = String.ofList (passed ++ (c :: cs.take n) ++ cs.drop n) := by
    rw [List.append_assoc, List.cons_append, List.take_append_drop, hs, String.ofList_toList]
  rw [slice, Span.between, Place.offset_advanceAll _ (Place.origin.advanceAll passed), Place.offset_advanceAll]
  simp only [Place.origin, Nat.zero_add]
  rw [hsource]
  exact String.extract_of_valid _ _ _

/-- The words that are found in a text are the pieces that are tokens, and stand where these do. -/
theorem words_scanFrom {source : String} (p : Place) (gap : Gap) (cs : List Char) : p.Before source cs →
    ∃ words stop, scanFrom p gap cs = words ++ [stop] ∧ stop.token = .eof ∧
      (words.map fun l => (⟨some l.token, (slice source l.span).toList⟩ : Piece)) =
        (pieces cs).filter (·.token.isSome) ∧
      ∀ l ∈ words, l.token ≠ .eof ∧ String.Pos.Raw.IsValid source ⟨l.span.start⟩ ∧
        String.Pos.Raw.IsValid source ⟨l.span.stop⟩ := by
  induction p, gap, cs using scanFrom.induct with
  | case1 p gap =>
    intro _
    rw [scanFrom, pieces]
    exact ⟨[], _, rfl, rfl, rfl, List.forall_mem_nil _⟩
  | case2 p gap c cs n q token hpiece ih =>
    intro hp
    have hne := piece_ne_eof c cs
    rw [hpiece] at hne
    obtain ⟨words, stop, hscan, hstop, hpieces, hwords⟩ := ih (hp.advanceAll n)
    refine ⟨lexeme token p q gap :: words, stop, ?_, hstop, ?_, List.forall_mem_cons.2 ⟨?_, hwords⟩⟩
    · rw [scanFrom, hpiece]
      exact congrArg (_ :: ·) hscan
    · rw [pieces, hpiece]
      have hslice : (slice source (.between p q)).toList = c :: cs.take n := by
        rw [slice_between hp, String.toList_ofList]
      exact congrArg₂ (· :: ·) (congrArg (Piece.mk (some token)) hslice) hpieces
    · exact ⟨fun h => hne (congrArg some h), hp.isValid, (hp.advanceAll n).isValid⟩
  | case3 p gap c cs n q hpiece ih =>
    intro hp
    rw [scanFrom, pieces, hpiece]
    exact ih (hp.advanceAll n)

/-- Scanning finds words that take up some of the text, begin and end between two of its characters and stand in
order, and then its end. If what the text has of every word is put on a line of its own, scanning that finds the same
tokens. -/
theorem scan_slices (source : String) :
    ∃ words stop, scan source = words ++ [stop] ∧ stop.token = .eof ∧
      (∀ l ∈ words, l.token ≠ .eof ∧ l.span.start < l.span.stop ∧ l.span.stop ≤ source.utf8ByteSize ∧
        String.Pos.Raw.IsValid source ⟨l.span.start⟩ ∧ String.Pos.Raw.IsValid source ⟨l.span.stop⟩) ∧
      words.Pairwise (fun l l' => l.span.stop ≤ l'.span.start) ∧
      let slices := words.map fun l => slice source l.span
      (scan ("\n".intercalate slices)).map Lexeme.token = words.map Lexeme.token ++ [.eof] ∧
      (scan (String.join (slices.map (· ++ "\n")))).map Lexeme.token = words.map Lexeme.token ++ [.eof] := by
  obtain ⟨words, stop, hscan, hstop, hpieces, hwords⟩ : ∃ words stop, scan source = words ++ [stop] ∧ _ :=
    words_scanFrom .origin .initial source.toList ⟨[], rfl, rfl⟩
  have hlaid := laid_scan source
  have hmem {l : Lexeme} (hl : l ∈ words) : l ∈ scan source := hscan ▸ List.mem_append_left _ hl
  refine ⟨words, stop, hscan, hstop, fun l hl => ?_, ?_, ?_⟩
  · obtain ⟨hne, hstart, hend⟩ := hwords l hl
    exact ⟨hne, hlaid.wide_of_mem (hmem hl) hne, (marks_of_mem_scan (hmem hl)).within, hstart, hend⟩
  · have hpairwise := hlaid.pairwise
    rw [hscan] at hpairwise
    exact (List.pairwise_append.1 hpairwise).1
  · -- the slices are the texts of pieces
    generalize hws : (words.map fun l => (⟨some l.token, (slice source l.span).toList⟩ : Piece)) = ws at hpieces
    have hword : ∀ w ∈ ws, IsWord w := by
      intro w hw
      rw [hpieces, List.mem_filter] at hw
      exact isWord_of_mem_pieces hw.1 hw.2
    have htokens : ws.filterMap Piece.token = words.map Lexeme.token := by
      rw [← hws, List.filterMap_map]
      exact congrFun List.filterMap_eq_map words
    have htexts : (words.map fun l => slice source l.span).map String.toList = ws.map Piece.text := by
      rw [← hws, List.map_map, List.map_map]
      rfl
    intro slices
    constructor
    · rw [scan, tokens_scanFrom, String.toList_intercalate, htexts]
      exact congrArg (· ++ [eof]) ((tokens_intercalate hword).trans htokens)
    · have hjoin : (String.join (slices.map (· ++ "\n"))).toList = ws.flatMap fun w => w.text ++ ['\n'] := by
        rw [← hws, String.toList_join, List.flatMap_map, List.flatMap_map, List.flatMap_map]
        exact congrArg (words.flatMap ·) (funext fun l => String.toList_append)
      rw [scan, tokens_scanFrom, hjoin, tokens_lines hword, htokens]

end Token

end DispatchLang
