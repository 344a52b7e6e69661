import DispatchLang.Proofs.Grammar.Moving
import DispatchLang.Proofs.Grammar.Places

/-!
# Scanning one text after another

A text is put on a new line after another one. No piece of the first text but a string goes on over the end
of a line, and a string ends at its own closing quote; so the pieces of the first text are found as before, and
the scanner stands at the beginning of the second text with a line break behind it. What could spoil this is a
quote that opens no string: it might find its closing quote in the second text.

The lexemes of the second text are found again, moved by the bytes and lines of the first. Only the first of them is
also set off in another way from what is before it.

## Main definitions

* `Token.pieces`: the pieces of a text.
* `Token.QuotesEnclosed`: whether every quote of a text is in a string or in a comment.
* `Lexeme.Like`: whether two lexemes differ at most in their places.
* `Placing.Twins`: whether they also stand at places that are compared as the same.

## Main results

* `Token.scanFrom_append`: the lexemes of a text with another one on the next line.
* `Token.scanFrom_shift`: the lexemes of a text that stands after other text.
-/

namespace DispatchLang

namespace Token

/-! ## Pieces -/

/-- A piece of a text: a token, or something that is passed over. -/
structure Piece where
  /-- The token that it is. -/
  token : Option Token
  /-- Its characters. -/
  text : List Char

/-- The pieces of a text in order. -/
def pieces : List Char → List Piece
  | [] => []
  | c :: cs =>
    let (token, n) := piece c cs
    ⟨token, c :: cs.take n⟩ :: pieces (cs.drop n)
termination_by cs => cs.length
decreasing_by simp only [List.length_drop, List.length_cons]; omega

namespace Piece

def isString (p : Piece) : Bool := p.token matches some (.string _)

def isComment (p : Piece) : Bool :=
  p.token.isNone && ["//", "# ", "#\t"].any fun start => start.toList.isPrefixOf p.text

end Piece

/-- Whether every quote of a text is in one of its string tokens or comments. -/
def QuotesEnclosed (cs : List Char) : Prop :=
  ∀ p ∈ pieces cs, '"' ∈ p.text → p.isString ∨ p.isComment

instance (cs : List Char) : Decidable (QuotesEnclosed cs) :=
  inferInstanceAs (Decidable (∀ p ∈ pieces cs, '"' ∈ p.text → p.isString ∨ p.isComment))

/-- A quote that begins a piece begins a string. -/
theorem QuotesEnclosed.here {c : Char} {cs : List Char} (h : QuotesEnclosed (c :: cs)) (hc : c = '"') :
    (piece c cs).1.isSome := by
  rw [QuotesEnclosed, pieces, List.forall_mem_cons] at h
  rcases h.1 (hc ▸ List.mem_cons_self) with hs | hs
  · revert hs
    unfold Piece.isString
    cases (piece c cs).1 <;> simp
  · -- comments begin in another way
    subst hc
    simp [Piece.isComment] at hs

theorem QuotesEnclosed.rest {c : Char} {cs : List Char} (h : QuotesEnclosed (c :: cs)) :
    QuotesEnclosed (cs.drop (piece c cs).2) := by
  rw [QuotesEnclosed, pieces, List.forall_mem_cons] at h
  exact h.2

/-! ## Pieces before a line break -/

section Before

variable (c : Char) (cs ds : List Char)

theorem takeWhile_before {p : Char → Bool} (hc : p c = false) :
    (cs ++ c :: ds).takeWhile p = cs.takeWhile p := by
  induction cs with
  | nil => rw [List.nil_append, List.takeWhile_cons_of_neg (by simp [hc]), List.takeWhile_nil]
  | cons d cs ih =>
    rw [List.cons_append, List.takeWhile_cons, List.takeWhile_cons, ih]

theorem dropWhile_before {p : Char → Bool} (hc : p c = false) :
    (cs ++ c :: ds).dropWhile p = cs.dropWhile p ++ c :: ds := by
  induction cs with
  | nil => rw [List.nil_append, List.dropWhile_cons_of_neg (by simp [hc]), List.dropWhile_nil,
      List.nil_append]
  | cons d cs ih =>
    rw [List.cons_append, List.dropWhile_cons, List.dropWhile_cons, ih]
    split <;> rfl

/-- A number ends before a character that is no part of one. -/
theorem numberPiece_before {e : Char} (hdigit : e.isDigit = false) (hpoint : e ≠ '.') :
    numberPiece c (cs ++ e :: ds) = numberPiece c cs := by
  unfold numberPiece
  rw [takeWhile_before _ cs ds hdigit, dropWhile_before _ cs ds hdigit]
  cases cs.dropWhile Char.isDigit with
  | nil => simp [hpoint]
  | cons d rest =>
    rw [List.cons_append]
    by_cases hd : d = '.'
    · subst hd
      simp only [takeWhile_before _ rest ds hdigit]
    · simp [hd]

/-- A symbol ends before a character that is the second one of no symbol. -/
theorem symbolPiece_before {e : Char} (he : Symbol.double? c e = none) :
    symbolPiece c (cs ++ e :: ds) = symbolPiece c cs := by
  cases cs with
  | cons d cs => rfl
  | nil => simp [symbolPiece, he]

theorem stringBody_cons {c : Char} (hq : c ≠ '"') (hb : c ≠ '\\') (cs : List Char) :
    stringBody (c :: cs) = ((stringBody cs).1.map fun inside => c :: inside, (stringBody cs).2 + 1) := by
  rw [stringBody]
  · exact hq
  · exact fun h => absurd h hb
  · exact fun _ _ h => absurd h hb

/-- A string ends at its closing quote. -/
theorem stringBody_before {cs : List Char} (h : (stringBody cs).1.isSome) :
    stringBody (cs ++ ds) = stringBody cs := by
  induction cs using stringBody.induct with
  | case1 => cases h
  | case2 cs => rfl
  | case3 => cases h
  | case4 cs => cases h
  | case5 e cs he body n hb ih =>
    rw [stringBody, if_neg he, Option.isSome_map] at h
    rw [List.cons_append, List.cons_append, stringBody, if_neg he, ih h, stringBody, if_neg he]
  | case6 c cs hq hnil hcons body n hb ih =>
    have hc : c ≠ '\\' := by
      rintro rfl
      cases cs with
      | nil => exact hnil rfl rfl
      | cons e cs => exact hcons e cs rfl rfl
    rw [stringBody_cons hq hc, Option.isSome_map] at h
    rw [List.cons_append, stringBody_cons hq hc, stringBody_cons hq hc, ih h]

/-- What a text begins with stands before a character that is not in it. -/
theorem exists_tail_of_notMem (q : List Char) {cs ds rest : List Char} {c : Char} (h : cs ++ c :: ds = q ++ rest)
    (hc : c ∉ q) : ∃ tail, cs = q ++ tail := by
  obtain ⟨as, rfl, hds⟩ | ⟨tail, hcs, -⟩ := List.append_eq_append_iff.1 h
  · cases as with
    | nil => exact ⟨[], by rw [List.append_nil, List.append_nil]⟩
    | cons a as =>
      obtain ⟨rfl, -⟩ := List.cons_eq_cons.1 hds
      exact absurd (List.mem_append_right _ List.mem_cons_self) hc
  · exact ⟨tail, hcs⟩

/-- What a text begins with stands in its front if that is long enough. -/
theorem exists_tail_of_length_le (q : List Char) {cs ds rest : List Char} (h : cs ++ ds = q ++ rest)
    (hle : q.length ≤ cs.length) : ∃ tail, cs = q ++ tail ∧ rest = tail ++ ds := by
  obtain ⟨as, rfl, hds⟩ | htail := List.append_eq_append_iff.1 h
  · obtain rfl : as = [] := by
      rw [List.length_append] at hle
      exact List.eq_nil_of_length_eq_zero (by omega)
    exact ⟨[], by rw [List.append_nil, List.append_nil], hds.symm⟩
  · exact htail

/-- A long string ends at the next three quotes. -/
theorem beforeTripleQuote?_before {cs inside : List Char} (h : beforeTripleQuote? cs = some inside) :
    beforeTripleQuote? (cs ++ ds) = some inside := by
  induction cs using beforeTripleQuote?.induct generalizing inside with
  | case1 => cases h
  | case2 cs => exact h
  | case3 c cs hc ih =>
    rw [beforeTripleQuote?] at h
    · obtain ⟨rest, hr, rfl⟩ := Option.map_eq_some_iff.1 h
      rw [List.cons_append, beforeTripleQuote?]
      · rw [ih hr]
        rfl
      · -- three quotes that reach over the end would leave nothing to find in `cs`
        rintro tail rfl htail
        match cs, hc, hr, htail with
        | [], _, hr, _ => cases hr
        | [d], _, hr, _ => simp [beforeTripleQuote?] at hr
        | _ :: _ :: cs, hc, _, htail =>
          obtain ⟨rfl, rfl, -⟩ : _ ∧ _ ∧ _ := by simpa using htail
          exact hc cs rfl rfl
    · exact hc

/-- A string is found whatever comes on the next line. -/
theorem stringPiece_before (h : (stringPiece cs).1.isSome) :
    stringPiece (cs ++ '\n' :: ds) = stringPiece cs := by
  by_cases hq : ∃ rest, cs = '"' :: '"' :: rest
  · obtain ⟨rest, rfl⟩ := hq
    cases hr : beforeTripleQuote? rest with
    | none => simp [stringPiece, hr] at h
    | some inside => simp [stringPiece, hr, beforeTripleQuote?_before ('\n' :: ds) hr]
  · have hplain (es : List Char) (he : ¬∃ rest, es = '"' :: '"' :: rest) : stringPiece es =
        ((stringBody es).1.map fun inside => .string (String.ofList (Escape.decode inside)),
          (stringBody es).2) := by
      unfold stringPiece
      split
      · next rest => exact absurd ⟨rest, rfl⟩ he
      · rfl
    have hq' : ¬∃ rest, cs ++ '\n' :: ds = '"' :: '"' :: rest := by
      rintro ⟨rest, hrest⟩
      exact hq (exists_tail_of_notMem ['"', '"'] hrest (by simp))
    rw [hplain cs hq, Option.isSome_map] at h
    rw [hplain cs hq, hplain _ hq', stringBody_before _ h]

/-- A piece is found whatever comes on the next line, unless it is a quote that begins no string. -/
theorem piece_before (h : c = '"' → (piece c cs).1.isSome) :
    piece c (cs ++ '\n' :: ds) = piece c cs := by
  have hhead (d : Char) (hd : d ≠ '\n') : (cs ++ '\n' :: ds).head? = some d ↔ cs.head? = some d := by
    cases cs with
    | nil => simpa using hd.symm
    | cons e cs => rfl
  have hline : lineRest (cs ++ '\n' :: ds) = lineRest cs := by
    rw [lineRest, lineRest, takeWhile_before _ _ _ (by simp)]
  have hword : isWordRest '\n' = false := by decide
  have hdouble : Symbol.double? c '\n' = none := by
    unfold Symbol.double?
    split <;> first | rfl | contradiction
  unfold piece at h ⊢
  simp only [hhead '/' (by decide), hhead ' ' (by decide), hhead '\t' (by decide), hline,
    numberPiece_before c cs ds (e := '\n') rfl (by decide), symbolPiece_before c cs ds hdouble,
    takeWhile_before _ _ _ hword]
  split_ifs with hblank hquote
  · rfl
  · have h := h hquote
    rw [if_neg hblank, if_pos hquote] at h
    exact stringPiece_before cs ds h
  all_goals rfl

end Before

/-! ## How long pieces are -/

section Length

variable (c : Char) (cs : List Char)

theorem stringBody_length : (stringBody cs).2 ≤ cs.length := by
  induction cs using stringBody.induct with
  | case1 => exact le_rfl
  | case2 cs => simp [stringBody]
  | case3 => exact le_rfl
  | case4 cs => simp [stringBody]
  | case5 e cs he body n hb ih =>
    rw [stringBody, if_neg he, List.length_cons, List.length_cons]
    exact Nat.add_le_add_right ih 2
  | case6 c cs hq hnil hcons body n hb ih =>
    rw [stringBody, List.length_cons]
    · exact Nat.add_le_add_right ih 1
    · exact hq
    · exact hnil
    · exact hcons

theorem beforeTripleQuote?_length {cs inside : List Char} (h : beforeTripleQuote? cs = some inside) :
    inside.length + 3 ≤ cs.length := by
  induction cs using beforeTripleQuote?.induct generalizing inside with
  | case1 => cases h
  | case2 cs =>
    cases h
    simp
  | case3 c cs hc ih =>
    rw [beforeTripleQuote?] at h
    · obtain ⟨rest, hr, rfl⟩ := Option.map_eq_some_iff.1 h
      simpa [Nat.add_right_comm] using ih hr
    · exact hc

theorem stringPiece_length : (stringPiece cs).2 ≤ cs.length := by
  unfold stringPiece
  split
  · next rest =>
    split
    · next inside h =>
      have := beforeTripleQuote?_length h
      simp only [List.length_cons]
      omega
    · simp
  · exact stringBody_length cs

theorem numberPiece_length : (numberPiece c cs).2 ≤ cs.length := by
  have hlen : (cs.takeWhile Char.isDigit).length + (cs.dropWhile Char.isDigit).length = cs.length := by
    rw [← List.length_append, List.takeWhile_append_dropWhile]
  unfold numberPiece
  split
  · next rest h =>
    have hrest := (List.takeWhile_prefix (l := rest) Char.isDigit).length_le
    rw [h, List.length_cons] at hlen
    dsimp only
    split
    · simp only [List.length_cons]
      omega
    · simp only [List.length_cons]
      omega
  · simp only [List.length_cons]
    omega

/-- A piece has no more characters than there are. -/
theorem piece_length : (piece c cs).2 ≤ cs.length := by
  have hword := (List.takeWhile_prefix (l := cs) isWordRest).length_le
  have hline : lineRest cs ≤ cs.length := (List.takeWhile_prefix _).length_le
  have hsymbol : (symbolPiece c cs).2 ≤ cs.length := by
    unfold symbolPiece
    cases cs with
    | nil => simp
    | cons d cs => split <;> simp
  unfold piece
  split_ifs
  · exact Nat.zero_le _
  · exact stringPiece_length cs
  · exact numberPiece_length c cs
  · exact hword
  · exact hline
  · exact hline
  · exact hsymbol

end Length

/-! ## The lexemes of two texts -/

/-- The lexemes of a text without stray quotes that has another text on the line after it: its own words, and
then the lexemes of the other text, with a line break before the first of them. -/
theorem scanFrom_append (p : Place) (gap : Gap) (cs ds : List Char) (h : QuotesEnclosed cs) :
    ∃ words q gap', scanFrom p gap cs = words ++ [lexeme .eof q q gap'] ∧
      scanFrom p gap (cs ++ '\n' :: ds) =
        words ++ scanFrom (q.advance '\n') (gap'.pass ['\n']) ds ∧
      (∀ l ∈ words, l.token ≠ .eof) ∧ gap'.started = (gap.started || !words.isEmpty) ∧
      q = p.advanceAll cs := by
  have hplace (p : Place) (c : Char) (cs : List Char) (n : Nat) :
      (p.advanceAll (c :: cs.take n)).advanceAll (cs.drop n) = p.advanceAll (c :: cs) := by
    rw [← Place.advanceAll_append, List.cons_append, List.take_append_drop]
  induction p, gap, cs using scanFrom.induct with
  | case1 p gap =>
    refine ⟨[], p, gap, by rw [scanFrom, List.nil_append], ?_, by simp, by simp, rfl⟩
    have hn : piece '\n' ds = (none, 0) := rfl
    rw [List.nil_append, List.nil_append, scanFrom, hn]
    rfl
  | case2 p gap c cs n q token hpiece ih =>
    have hlen := piece_length c cs
    have hrest := h.rest
    rw [hpiece] at hlen hrest
    obtain ⟨words, q', gap', hscan, hjoin, hwords, hstarted, rfl⟩ := ih hrest
    refine ⟨lexeme token p q gap :: words, _, gap', ?_, ?_, ?_, ?_, hplace p c cs n⟩
    · rw [scanFrom, hpiece, List.cons_append]
      exact congrArg _ hscan
    · rw [List.cons_append, scanFrom, piece_before c cs ds fun hc => h.here hc, hpiece]
      dsimp only at hlen ⊢
      rw [List.drop_append_of_le_length hlen, List.take_append_of_le_length hlen, List.cons_append]
      exact congrArg _ hjoin
    · have hne := piece_ne_eof c cs
      rw [hpiece] at hne
      exact List.forall_mem_cons.2 ⟨fun he => hne (congrArg some he), hwords⟩
    · rw [hstarted]
      simp [Gap.closed]
  | case3 p gap c cs n q hpiece ih =>
    have hlen := piece_length c cs
    have hrest := h.rest
    rw [hpiece] at hlen hrest
    obtain ⟨words, q', gap', hscan, hjoin, hwords, hstarted, rfl⟩ := ih hrest
    refine ⟨words, _, gap', ?_, ?_, hwords, hstarted, hplace p c cs n⟩
    · rw [scanFrom, hpiece]
      exact hscan
    · rw [List.cons_append, scanFrom, piece_before c cs ds fun hc => h.here hc, hpiece]
      dsimp only at hlen ⊢
      rw [List.drop_append_of_le_length hlen, List.take_append_of_le_length hlen]
      exact hjoin

end Token

/-- Whether two lexemes differ at most in their places. -/
structure Lexeme.Like (l l' : Lexeme) : Prop where
  /-- They are the same token. -/
  token : l.token = l'.token
  /-- They begin lines or do not. -/
  afterBreak : l.afterBreak = l'.afterBreak
  /-- They touch what is before them or do not. -/
  touches : l.touches = l'.touches

/-- Two lexemes that are the same up to their places, and stand at the same place. -/
structure Placing.Twins (π : Placing) (l l' : Lexeme) : Prop extends l.Like l' where
  /-- They stand at the same place. -/
  place : π.Same l.span l'.span

/-! ## Lexemes after other text -/

/-- A place moved by a number of bytes and lines. The column stays: the text before it ends with a line break. -/
def Place.shift (bytes lines : Nat) (p : Place) : Place := ⟨p.offset + bytes, p.line + lines, p.column⟩

theorem Place.shift_advance (bytes lines : Nat) (p : Place) (c : Char) :
    (p.shift bytes lines).advance c = (p.advance c).shift bytes lines := by
  unfold advance
  split_ifs
  all_goals simp only [shift, Nat.add_right_comm]

theorem Place.shift_advanceAll (bytes lines : Nat) (p : Place) (cs : List Char) :
    (p.shift bytes lines).advanceAll cs = (p.advanceAll cs).shift bytes lines := by
  induction cs generalizing p with
  | nil => rfl
  | cons c cs ih => rw [advanceAll_cons, advanceAll_cons, shift_advance, ih]

theorem length_lineBreaks (offset : Nat) (cs : List Char) : (lineBreaks offset cs).length = cs.count '\n' := by
  induction cs generalizing offset with
  | nil => rfl
  | cons c cs ih =>
    rw [lineBreaks, List.count_cons]
    by_cases hc : c = '\n'
    · simp only [hc, if_true, List.length_cons, ih, beq_self_eq_true]
    · simp only [hc, if_false, ih, beq_iff_eq, Nat.add_zero]

/-- The place after a text whose last line is ended. -/
theorem Place.advanceAll_line (cs : List Char) :
    (origin.advanceAll cs).advance '\n' = origin.shift (String.utf8Len cs + 1) (cs.count '\n' + 1) := by
  have hoffset := offset_advanceAll cs origin
  have hline := line_advanceAll cs origin 0
  unfold advance
  rw [if_pos rfl, hoffset, hline, length_lineBreaks]
  simp only [shift, origin, Place.mk.injEq, and_true]
  have hbytes : ('\n' : Char).utf8Size = 1 := by decide
  constructor
  · rw [hbytes, Nat.zero_add, Nat.zero_add]
  · omega

namespace Token

/-- A text has the same lexemes after other text, moved. -/
theorem scanFrom_shift (bytes lines : Nat) (p : Place) (gap : Gap) (cs : List Char) :
    List.Forall₂ (Placing.shifted bytes lines).Twins (scanFrom p gap cs) (scanFrom (p.shift bytes lines) gap cs) := by
  induction p, gap, cs using scanFrom.induct with
  | case1 p gap =>
    rw [scanFrom, scanFrom]
    exact .cons ⟨⟨rfl, rfl, rfl⟩, rfl⟩ .nil
  | case2 p gap c cs n q token hpiece ih =>
    rw [scanFrom, scanFrom, hpiece]
    dsimp only
    rw [Place.shift_advanceAll]
    exact .cons ⟨⟨rfl, rfl, rfl⟩, rfl⟩ ih
  | case3 p gap c cs n q hpiece ih =>
    rw [scanFrom, scanFrom, hpiece]
    dsimp only
    rw [Place.shift_advanceAll]
    exact ih

/-- How a lexeme is set off from what is before it if there is at least the given gap between them. -/
structure SetOff (gap : Gap) (l : Lexeme) : Prop where
  /-- The first lexeme of a text is not set off. -/
  first : gap.started = false → l.afterBreak = false ∧ l.touches = false
  /-- A break in the gap is a break before the lexeme. -/
  broken : gap.started = true → gap.broken = true → l.afterBreak = true
  /-- A wide gap keeps the lexeme from touching. -/
  wide : gap.wide = true → l.touches = false

theorem SetOff.lexeme (token : Token) (p q : Place) (gap : Gap) : SetOff gap (lexeme token p q gap) where
  first := fun h => by simp [Token.lexeme, h]
  broken := fun hs hb => by simp [Token.lexeme, hs, hb]
  wide := fun h => by simp [Token.lexeme, h]

/-- What is passed over only widens a gap. -/
theorem SetOff.of_pass {gap : Gap} {cs : List Char} {l : Lexeme} (h : SetOff (gap.pass cs) l) :
    SetOff gap l where
  first := h.first
  broken := fun hs hb => h.broken hs (by simp [Gap.pass, hb])
  wide := fun _ => h.wide rfl

/-- Only the first lexeme of a text depends on the gap before the text, and this only in how it is set off. -/
theorem scanFrom_gap (bytes lines : Nat) (p : Place) (gap gap' : Gap) (cs : List Char) :
    ∃ l ls l' ls', scanFrom p gap cs = l :: ls ∧ scanFrom (p.shift bytes lines) gap' cs = l' :: ls' ∧
      l.token = l'.token ∧ (Placing.shifted bytes lines).Same l.span l'.span ∧
      List.Forall₂ (Placing.shifted bytes lines).Twins ls ls' ∧ SetOff gap l ∧ SetOff gap' l' := by
  induction p, gap, cs using scanFrom.induct generalizing gap' with
  | case1 p gap =>
    rw [scanFrom, scanFrom]
    exact ⟨_, _, _, _, rfl, rfl, rfl, rfl, .nil, .lexeme .., .lexeme ..⟩
  | case2 p gap c cs n q token hpiece ih =>
    rw [scanFrom, scanFrom, hpiece]
    dsimp only
    rw [Place.shift_advanceAll]
    exact ⟨_, _, _, _, rfl, rfl, rfl, rfl, scanFrom_shift .., .lexeme .., .lexeme ..⟩
  | case3 p gap c cs n q hpiece ih =>
    obtain ⟨l, ls, l', ls', h, h', htoken, hplace, hlike, hoff, hoff'⟩ := ih (gap'.pass (c :: cs.take n))
    rw [scanFrom, scanFrom, hpiece]
    dsimp only
    rw [Place.shift_advanceAll]
    exact ⟨l, ls, l', ls', h, h', htoken, hplace, hlike, hoff.of_pass, hoff'.of_pass⟩

end Token

end DispatchLang
