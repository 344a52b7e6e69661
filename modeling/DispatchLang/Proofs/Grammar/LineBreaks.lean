import DispatchLang.Proofs.Grammar.Joining
import DispatchLang.Proofs.Grammar.Placement

/-!
# Scanning a text with a line break put in

A line break is put into a text where a lexeme begins. Every piece before that point is found again: a piece that
ends before the break or right at it has been read without looking at more than one character after its end, and
none goes on because that character is now a line feed. The one piece that looks further is a quote for which no
closing quotes are found, and a line feed is no quote either. So the lexemes before the break are the same. The
one after it has the break in its gap now, and all others are the same but for their places.

It is not enough that the break is put between two characters of different tokens; it has to be known of a
lexeme that it begins there, because otherwise the break might lie in a string or a comment.

## Main results

* `Token.piece_break`: a piece that ends before a line break is the same without it.
* `Token.scan_break`: the lexemes of a text with a line break in front of one of them.
-/

namespace DispatchLang

theorem Lexeme.Laid.wide_of_mem {n : Nat} {ls : List Lexeme} {l : Lexeme} (h : Laid n ls)
    (hl : l ∈ ls) (ht : l.token ≠ .eof) : l.span.start < l.span.stop := by
  induction h with
  | eof token after => exact absurd token (List.mem_singleton.1 hl ▸ ht)
  | word token after wide ahead ih =>
    rcases List.mem_cons.1 hl with rfl | hl
    · exact wide
    · exact ih hl

namespace Token

/-! ## Pieces at the front of a text -/

section Front

variable {c : Char} {cs ds : List Char}

theorem takeWhile_front {p : Char → Bool} (h : ((cs ++ ds).takeWhile p).length ≤ cs.length) :
    (cs ++ ds).takeWhile p = cs.takeWhile p := by
  induction cs with
  | nil => exact List.length_eq_zero_iff.1 (Nat.le_zero.1 h)
  | cons c cs ih =>
    by_cases hc : p c = true
    · rw [List.cons_append, List.takeWhile_cons_of_pos hc] at h ⊢
      rw [List.takeWhile_cons_of_pos hc, ih (Nat.le_of_succ_le_succ h)]
    · rw [List.cons_append, List.takeWhile_cons_of_neg hc, List.takeWhile_cons_of_neg hc]

theorem dropWhile_front {p : Char → Bool} (h : ((cs ++ ds).takeWhile p).length ≤ cs.length) :
    (cs ++ ds).dropWhile p = cs.dropWhile p ++ ds := by
  have hwhole := List.takeWhile_append_dropWhile (p := p) (l := cs ++ ds)
  rw [takeWhile_front h] at hwhole
  refine (List.append_right_inj (cs.takeWhile p)).mp ?_
  rw [hwhole, ← List.append_assoc, List.takeWhile_append_dropWhile]

theorem numberPiece_whole (h : ∀ rest, cs.dropWhile Char.isDigit = '.' :: rest → rest.takeWhile Char.isDigit = []) :
    numberPiece c cs = (some (ofDigits (c :: cs.takeWhile Char.isDigit)), (cs.takeWhile Char.isDigit).length) := by
  unfold numberPiece
  split
  · next rest hrest =>
    dsimp only
    rw [h rest hrest, List.isEmpty_nil, if_pos rfl]
    rfl
  · rfl

theorem numberPiece_point {rest : List Char} (hrest : cs.dropWhile Char.isDigit = '.' :: rest)
    (h : rest.takeWhile Char.isDigit ≠ []) : numberPiece c cs =
      (some (.float (Decimal.ofDigits (c :: cs.takeWhile Char.isDigit) (rest.takeWhile Char.isDigit))),
        (cs.takeWhile Char.isDigit).length + 1 + (rest.takeWhile Char.isDigit).length) := by
  unfold numberPiece
  rw [hrest]
  exact if_neg (by rwa [List.isEmpty_iff])

theorem numberPiece_front (h : (numberPiece c (cs ++ ds)).2 ≤ cs.length) :
    numberPiece c (cs ++ ds) = numberPiece c cs := by
  have hlength : (cs.takeWhile Char.isDigit).length + (cs.dropWhile Char.isDigit).length = cs.length := by
    rw [← List.length_append, List.takeWhile_append_dropWhile]
  by_cases hpoint : ∃ rest, (cs ++ ds).dropWhile Char.isDigit = '.' :: rest ∧ rest.takeWhile Char.isDigit ≠ []
  · obtain ⟨rest, hrest, hfraction⟩ := hpoint
    rw [numberPiece_point hrest hfraction] at h ⊢
    have hfront : ((cs ++ ds).takeWhile Char.isDigit).length ≤ cs.length := by omega
    rw [takeWhile_front hfront] at h ⊢
    rw [dropWhile_front hfront] at hrest
    -- the point and the digits after it are in the front
    cases hcs : cs.dropWhile Char.isDigit with
    | nil =>
      rw [hcs] at hlength
      simp only [List.length_nil] at hlength
      omega
    | cons e es =>
      rw [hcs, List.length_cons] at hlength
      rw [hcs, List.cons_append] at hrest
      obtain ⟨rfl, rfl⟩ := List.cons.inj hrest
      have hfront' : ((es ++ ds).takeWhile Char.isDigit).length ≤ es.length := by omega
      rw [takeWhile_front hfront'] at hfraction ⊢
      rw [numberPiece_point hcs hfraction]
  · have hwhole (rest : List Char) (hrest : (cs ++ ds).dropWhile Char.isDigit = '.' :: rest) :
        rest.takeWhile Char.isDigit = [] := by
      by_contra hfraction
      exact hpoint ⟨rest, hrest, hfraction⟩
    rw [numberPiece_whole hwhole] at h ⊢
    rw [takeWhile_front h, numberPiece_whole]
    intro rest hrest
    have hempty := hwhole (rest ++ ds) (by rw [dropWhile_front h, hrest, List.cons_append])
    rw [takeWhile_front (by rw [hempty]; exact Nat.zero_le _)] at hempty
    exact hempty

theorem symbolPiece_front (h : (symbolPiece c (cs ++ ds)).2 ≤ cs.length) :
    symbolPiece c (cs ++ ds) = symbolPiece c cs := by
  cases cs with
  | cons d cs => rfl
  | nil =>
    rw [List.nil_append] at h ⊢
    unfold symbolPiece at h ⊢
    cases hdouble : ds.head?.bind (Symbol.double? c) with
    | none => rfl
    | some s =>
      rw [hdouble] at h
      exact absurd h (Nat.not_succ_le_zero 0)

theorem head?_append_of_head? {d : Char} (h : cs.head? = some d) : (cs ++ ds).head? = some d := by
  cases cs with
  | nil => cases h
  | cons e cs => exact h

/-- A comment is not over after its first character. -/
theorem head?_of_lineRest {d : Char} (hd : d ≠ '\n') (hds : (cs ++ ds).head? = some d)
    (h : lineRest (cs ++ ds) ≤ cs.length) : cs.head? = some d := by
  cases cs with
  | cons e cs => exact hds
  | nil =>
    cases ds with
    | nil => cases hds
    | cons e es =>
      obtain rfl : e = d := Option.some.inj hds
      rw [List.nil_append, lineRest, List.takeWhile_cons_of_pos (by simpa using hd)] at h
      exact absurd h (Nat.not_succ_le_zero _)

theorem piece_front (hc : c ≠ '"') (h : (piece c (cs ++ ds)).2 ≤ cs.length) :
    piece c (cs ++ ds) = piece c cs := by
  unfold piece at h ⊢
  by_cases hblank : isBlank c = true
  · rw [if_pos hblank, if_pos hblank]
  by_cases hdigit : c.isDigit = true
  · simp only [if_neg hblank, if_neg hc, if_pos hdigit] at h ⊢
    exact numberPiece_front h
  by_cases hword : isWordStart c = true
  · simp only [if_neg hblank, if_neg hc, if_neg hdigit, if_pos hword] at h ⊢
    rw [takeWhile_front h]
  simp only [if_neg hblank, if_neg hc, if_neg hdigit, if_neg hword, Bool.and_eq_true, Bool.or_eq_true,
    decide_eq_true_eq] at h ⊢
  by_cases hslashes : c = '/' ∧ (cs ++ ds).head? = some '/'
  · rw [if_pos hslashes] at h
    rw [if_pos hslashes, if_pos ⟨hslashes.1, head?_of_lineRest (by decide) hslashes.2 h⟩, lineRest, lineRest,
      takeWhile_front h]
  have hslashes' : ¬(c = '/' ∧ cs.head? = some '/') := fun hcs => hslashes ⟨hcs.1, head?_append_of_head? hcs.2⟩
  rw [if_neg hslashes] at h
  rw [if_neg hslashes, if_neg hslashes']
  by_cases hhash : c = '#' ∧ ((cs ++ ds).head? = some ' ' ∨ (cs ++ ds).head? = some '\t')
  · rw [if_pos hhash] at h
    have hhash' : c = '#' ∧ (cs.head? = some ' ' ∨ cs.head? = some '\t') :=
      ⟨hhash.1, hhash.2.imp (head?_of_lineRest (by decide) · h) (head?_of_lineRest (by decide) · h)⟩
    rw [if_pos hhash, if_pos hhash', lineRest, lineRest, takeWhile_front h]
  have hhash' : ¬(c = '#' ∧ (cs.head? = some ' ' ∨ cs.head? = some '\t')) := fun hcs =>
    hhash ⟨hcs.1, hcs.2.imp head?_append_of_head? head?_append_of_head?⟩
  rw [if_neg hhash] at h
  rw [if_neg hhash, if_neg hhash']
  exact symbolPiece_front h

end Front

/-! ## Pieces before a line break that is put in -/

section Break

variable {c : Char} {cs ds : List Char}

/-- Every attempt at a string takes something. -/
theorem stringBody_pos (c : Char) (cs : List Char) : 0 < (stringBody (c :: cs)).2 := by
  by_cases hq : c = '"'
  · subst hq
    exact Nat.one_pos
  by_cases hb : c = '\\'
  · subst hb
    cases cs with
    | nil => exact Nat.one_pos
    | cons e cs =>
      rw [stringBody]
      split
      · exact Nat.one_pos
      · exact Nat.succ_pos _
  · rw [stringBody_cons hq hb]
    exact Nat.succ_pos _

/-- A string, or an attempt at one, that ends before a line break is the same without it. -/
theorem stringBody_break (hds : ds ≠ []) (h : (stringBody (cs ++ ds)).2 ≤ cs.length) :
    stringBody (cs ++ '\n' :: ds) = stringBody (cs ++ ds) := by
  induction cs using stringBody.induct with
  | case1 =>
    obtain ⟨e, es, rfl⟩ := List.exists_cons_of_ne_nil hds
    exact absurd (stringBody_pos e es) (Nat.not_lt.2 h)
  | case2 cs => rfl
  | case3 =>
    -- a backslash is not read without the character after it, unless this is a line feed
    obtain ⟨e, es, rfl⟩ := List.exists_cons_of_ne_nil hds
    rw [List.singleton_append] at h ⊢
    rw [List.singleton_append, stringBody, if_pos rfl]
    rw [stringBody] at h ⊢
    split
    · rfl
    · next he =>
      rw [if_neg he] at h
      exact absurd h (by simp)
  | case4 cs =>
    rw [List.cons_append, List.cons_append, List.cons_append, List.cons_append, stringBody, stringBody, if_pos rfl,
      if_pos rfl]
  | case5 e cs he body n hb ih =>
    rw [List.cons_append, List.cons_append, stringBody, if_neg he] at h
    rw [List.cons_append, List.cons_append, List.cons_append, List.cons_append, stringBody, stringBody, if_neg he,
      if_neg he, ih (Nat.le_of_add_le_add_right h)]
  | case6 c cs hq hnil hcons body n hb ih =>
    have hc : c ≠ '\\' := by
      rintro rfl
      cases cs with
      | nil => exact hnil rfl rfl
      | cons e cs => exact hcons e cs rfl rfl
    rw [List.cons_append, stringBody_cons hq hc] at h
    rw [List.cons_append, List.cons_append, stringBody_cons hq hc, stringBody_cons hq hc,
      ih (Nat.le_of_add_le_add_right h)]

theorem beforeTripleQuote?_cons (h : ∀ rest, c :: cs ≠ '"' :: '"' :: '"' :: rest) :
    beforeTripleQuote? (c :: cs) = (beforeTripleQuote? cs).map (c :: ·) := by
  rw [beforeTripleQuote?]
  rintro rest rfl rfl
  exact h rest rfl

/-- Three quotes that lie before a line break are found without it, and where none are found a line break brings
none. -/
theorem beforeTripleQuote?_break
    (h : ∀ inside, beforeTripleQuote? (cs ++ ds) = some inside → inside.length + 3 ≤ cs.length) :
    beforeTripleQuote? (cs ++ '\n' :: ds) = beforeTripleQuote? (cs ++ ds) := by
  induction cs with
  | nil =>
    have hnone : beforeTripleQuote? ds = none := by
      cases hds : beforeTripleQuote? ds with
      | none => rfl
      | some inside => exact absurd (h inside hds) (by simp)
    rw [List.nil_append, List.nil_append, beforeTripleQuote?_cons (by simp), hnone]
    rfl
  | cons c cs ih =>
    by_cases hquotes : ∃ rest, c :: (cs ++ ds) = '"' :: '"' :: '"' :: rest
    · obtain ⟨rest, hrest⟩ := hquotes
      have hlength := h [] (by rw [List.cons_append, hrest, beforeTripleQuote?])
      have hsplit : (c :: cs) ++ ds = ['"', '"', '"'] ++ rest := hrest
      obtain ⟨tail, htail, -⟩ := exists_tail_of_length_le _ hsplit hlength
      rw [htail]
      rfl
    · have hquotes' (rest : List Char) : c :: (cs ++ '\n' :: ds) ≠ '"' :: '"' :: '"' :: rest := by
        intro hrest
        have hsplit : (c :: cs) ++ '\n' :: ds = ['"', '"', '"'] ++ rest := hrest
        obtain ⟨tail, htail⟩ := exists_tail_of_notMem _ hsplit (by simp)
        exact hquotes ⟨tail ++ ds, congrArg (· ++ ds) htail⟩
      rw [List.cons_append, List.cons_append, beforeTripleQuote?_cons hquotes',
        beforeTripleQuote?_cons fun rest hrest => hquotes ⟨rest, hrest⟩, ih]
      intro inside hinside
      have hlength : inside.length + 1 + 3 ≤ cs.length + 1 := h (c :: inside) (by
        rw [List.cons_append, beforeTripleQuote?_cons fun rest hrest => hquotes ⟨rest, hrest⟩, hinside]
        rfl)
      omega

theorem stringPiece_short (h : ∀ rest, cs ≠ '"' :: '"' :: rest) : stringPiece cs =
    ((stringBody cs).1.map fun inside => .string (String.ofList (Escape.decode inside)), (stringBody cs).2) := by
  unfold stringPiece
  split
  · next rest => exact absurd rfl (h rest)
  · rfl

theorem stringPiece_break (hds : ds ≠ []) (h : (stringPiece (cs ++ ds)).2 ≤ cs.length) :
    stringPiece (cs ++ '\n' :: ds) = stringPiece (cs ++ ds) := by
  by_cases hlong : ∃ rest, cs ++ ds = '"' :: '"' :: rest
  · obtain ⟨rest, hrest⟩ := hlong
    have htwo : 2 ≤ (stringPiece (cs ++ ds)).2 := by
      rw [hrest, stringPiece]
      split <;> simp
    obtain ⟨tail, rfl, -⟩ := exists_tail_of_length_le ['"', '"'] hrest (htwo.trans h)
    have hbreak : beforeTripleQuote? (tail ++ '\n' :: ds) = beforeTripleQuote? (tail ++ ds) := by
      refine beforeTripleQuote?_break fun inside hinside => ?_
      have h : (stringPiece ('"' :: '"' :: (tail ++ ds))).2 ≤ tail.length + 2 := h
      rw [stringPiece, hinside] at h
      have hlength : inside.length + 3 + 2 ≤ tail.length + 2 := h
      exact Nat.le_of_add_le_add_right hlength
    show stringPiece ('"' :: '"' :: (tail ++ '\n' :: ds)) = stringPiece ('"' :: '"' :: (tail ++ ds))
    rw [stringPiece, stringPiece, hbreak]
  · have hlong' (rest : List Char) : cs ++ '\n' :: ds ≠ '"' :: '"' :: rest := by
      intro hrest
      obtain ⟨tail, rfl⟩ := exists_tail_of_notMem ['"', '"'] hrest (by simp)
      exact hlong ⟨tail ++ ds, rfl⟩
    rw [stringPiece_short fun rest hrest => hlong ⟨rest, hrest⟩] at h
    rw [stringPiece_short fun rest hrest => hlong ⟨rest, hrest⟩, stringPiece_short hlong', stringBody_break hds h]

/-- A piece that ends before a line break, or right at it, is the same without it. -/
theorem piece_break (hds : ds ≠ []) (h : (piece c (cs ++ ds)).2 ≤ cs.length) :
    piece c (cs ++ '\n' :: ds) = piece c (cs ++ ds) := by
  by_cases hc : c = '"'
  · subst hc
    exact stringPiece_break hds h
  · rw [piece_front hc h, piece_before c cs ds fun hq => absurd hq hc]

end Break

/-! ## The lexemes of a text with a line break put in -/

section Lexemes

variable {gap gap' : Gap}

/-- A wider gap has a line break if the other one has. -/
theorem lexeme_afterBreak (hstarted : gap'.started = gap.started) (hbroken : gap.broken = true → gap'.broken = true)
    {token : Token} {p q p' q' : Place} (h : (lexeme token p q gap).afterBreak = true) :
    (lexeme token p' q' gap').afterBreak = true := by
  obtain ⟨hs, hb⟩ := (Bool.and_eq_true _ _).mp h
  exact (Bool.and_eq_true _ _).mpr ⟨hstarted ▸ hs, hbroken hb⟩

/-- The lexemes of a text depend on where the text stands and on the gap before it only in their places and in how
the first of them is set off. -/
theorem scanFrom_like (p : Place) (gap : Gap) (cs : List Char) : ∀ (p' : Place) (gap' : Gap),
    gap'.started = gap.started → (gap.broken = true → gap'.broken = true) →
    ∃ l ls l' ls', scanFrom p gap cs = l :: ls ∧ scanFrom p' gap' cs = l' :: ls' ∧ l.token = l'.token ∧
      (l.afterBreak = true → l'.afterBreak = true) ∧ (gap = gap' → l.Like l') ∧ List.Forall₂ Lexeme.Like ls ls' := by
  induction p, gap, cs using scanFrom.induct with
  | case1 p gap =>
    intro p' gap' hstarted hbroken
    rw [scanFrom, scanFrom]
    exact ⟨_, _, _, _, rfl, rfl, rfl, lexeme_afterBreak hstarted hbroken, fun h => h ▸ ⟨rfl, rfl, rfl⟩, .nil⟩
  | case2 p gap c cs n q token hpiece ih =>
    intro p' gap' hstarted hbroken
    obtain ⟨l, ls, l', ls', h, h', -, -, hlike, hrest⟩ := ih (p'.advanceAll (c :: cs.take n)) .closed rfl fun h => h
    rw [scanFrom, scanFrom, hpiece]
    dsimp only
    rw [h, h']
    exact ⟨_, _, _, _, rfl, rfl, rfl, lexeme_afterBreak hstarted hbroken, fun h => h ▸ ⟨rfl, rfl, rfl⟩,
      .cons (hlike rfl) hrest⟩
  | case3 p gap c cs n q hpiece ih =>
    intro p' gap' hstarted hbroken
    have hpass (h : (gap.pass (c :: cs.take n)).broken = true) : (gap'.pass (c :: cs.take n)).broken = true :=
      (Bool.or_eq_true _ _).mpr (((Bool.or_eq_true _ _).mp h).imp hbroken fun h => h)
    obtain ⟨l, ls, l', ls', h, h', htoken, hbreak, hlike, hrest⟩ :=
      ih (p'.advanceAll (c :: cs.take n)) (gap'.pass (c :: cs.take n)) hstarted hpass
    rw [scanFrom, scanFrom, hpiece]
    exact ⟨l, ls, l', ls', h, h', htoken, hbreak, fun h => hlike (h ▸ rfl), hrest⟩

/-- Nothing is before a lexeme that begins where the text does. -/
theorem eq_nil_of_start {p : Place} {cs : List Char} {before after : List Lexeme} {l : Lexeme}
    (h : scanFrom p gap cs = before ++ l :: after) (hstart : l.span.start ≤ p.offset) : before = [] := by
  have hlaid := laid_scanFrom p gap cs
  rw [h] at hlaid
  cases before with
  | nil => rfl
  | cons first before =>
    rw [List.cons_append] at hlaid
    generalize hls : before ++ l :: after = ls at hlaid
    cases hlaid with
    | eof token first => exact absurd hls (by simp)
    | word token first wide ahead =>
      have hle := ahead.le_start (hls ▸ List.mem_append_right _ List.mem_cons_self)
      omega

/-- The lexemes of a text with a line break put in where one of them begins: those before it are the same, the one
after it is on another line, and the others stand elsewhere. -/
theorem scanFrom_break {p : Place} {cs ds : List Char} {before after : List Lexeme} {l : Lexeme}
    (h : scanFrom p gap (cs ++ ds) = before ++ l :: after) (hstart : l.span.start = p.offset + String.utf8Len cs)
    (hds : ds ≠ []) : ∃ l' after', scanFrom p gap (cs ++ '\n' :: ds) = before ++ l' :: after' ∧ l.token = l'.token ∧
      (l.afterBreak = true → l'.afterBreak = true) ∧ List.Forall₂ Lexeme.Like after after' := by
  induction hn : cs.length using Nat.strong_induction_on generalizing p gap cs before with
  | _ n ih =>
    subst hn
    cases cs with
    | nil =>
      obtain rfl := eq_nil_of_start h hstart.le
      have hblank : piece '\n' ds = (none, 0) := rfl
      obtain ⟨k, ks, k', ks', hk, hk', htoken, hbreak, -, hlike⟩ :=
        scanFrom_like p gap ds (p.advance '\n') (gap.pass ['\n']) rfl fun _ => Bool.or_true _
      obtain ⟨rfl, rfl⟩ := List.cons.inj (hk.symm.trans h)
      refine ⟨k', ks', ?_, htoken, hbreak, hlike⟩
      rw [List.nil_append, List.nil_append, scanFrom, hblank, ← hk']
      rfl
    | cons c cs =>
      rw [List.cons_append, scanFrom] at h
      rw [List.cons_append, scanFrom]
      have hhead {token : Token} {q : Place} (hl : lexeme token p q gap = l) :
          l.span.start ≠ p.offset + String.utf8Len (c :: cs) := by
        have hc := c.utf8Size_pos
        rw [← hl, String.utf8Len_cons]
        exact (show p.offset < _ by omega).ne
      by_cases hlen : (piece c (cs ++ ds)).2 ≤ cs.length
      · rw [piece_break hds hlen]
        generalize piece c (cs ++ ds) = found at h hlen
        obtain ⟨token, n⟩ := found
        dsimp only at h hlen ⊢
        rw [List.drop_append_of_le_length hlen, List.take_append_of_le_length hlen] at h ⊢
        have hrest : l.span.start = (p.advanceAll (c :: cs.take n)).offset + String.utf8Len (cs.drop n) := by
          rw [hstart, Place.offset_advanceAll, Nat.add_assoc, ← String.utf8Len_append, List.cons_append,
            List.take_append_drop]
        have hlt : (cs.drop n).length < (c :: cs).length := by
          rw [List.length_drop, List.length_cons]
          omega
        cases token with
        | none => exact ih _ hlt h hrest rfl
        | some token =>
          cases before with
          | nil => exact absurd hstart (hhead (List.cons.inj h).1)
          | cons first before =>
            obtain ⟨rfl, hafter⟩ := List.cons.inj h
            obtain ⟨l', after', hbreak, hl⟩ := ih _ hlt hafter hrest rfl
            exact ⟨l', after', by rw [hbreak]; rfl, hl⟩
      · -- a piece that goes on over the point leaves no lexeme that begins there
        generalize hfound : piece c (cs ++ ds) = found at h hlen
        obtain ⟨token, n⟩ := found
        dsimp only at h hlen
        have hover : p.offset + String.utf8Len (c :: cs) < (p.advanceAll (c :: (cs ++ ds).take n)).offset := by
          obtain ⟨e, es, rfl⟩ := List.exists_cons_of_ne_nil hds
          have he := e.utf8Size_pos
          obtain ⟨m, hm⟩ : ∃ m, n - cs.length = m + 1 := Nat.exists_eq_succ_of_ne_zero (by omega)
          rw [List.take_append, List.take_of_length_le (by omega), hm, List.take_succ_cons, ← List.cons_append,
            Place.offset_advanceAll, String.utf8Len_append, String.utf8Len_cons (c := e)]
          omega
        have hrest {gap : Gap} {ls : List Lexeme} (hls : scanFrom (p.advanceAll (c :: (cs ++ ds).take n)) gap
            ((cs ++ ds).drop n) = ls) (hl : l ∈ ls) : False := by
          have hle := (laid_scanFrom _ gap ((cs ++ ds).drop n)).le_start (hls ▸ hl)
          omega
        cases token with
        | none => exact (hrest h (List.mem_append_right _ List.mem_cons_self)).elim
        | some token =>
          cases before with
          | nil => exact absurd hstart (hhead (List.cons.inj h).1)
          | cons first before =>
            exact (hrest (List.cons.inj h).2 (List.mem_append_right _ List.mem_cons_self)).elim

end Lexemes

/-- The lexemes of a text with a line break put in front of one of them. -/
theorem scan_break {u v : String} {before after : List Lexeme} {l : Lexeme}
    (h : scan (u ++ v) = before ++ l :: after) (hstart : l.span.start = u.utf8ByteSize) (hl : l.token ≠ .eof) :
    ∃ l' after', scan (u ++ "\n" ++ v) = before ++ l' :: after' ∧ l.token = l'.token ∧
      (l.afterBreak = true → l'.afterBreak = true) ∧ List.Forall₂ Lexeme.Like after after' := by
  have hscan : scanFrom .origin .initial (u.toList ++ v.toList) = before ++ l :: after := by
    rw [← String.toList_append]
    exact h
  have hds : v.toList ≠ [] := by
    intro hnil
    have hmem : l ∈ scan (u ++ v) := h ▸ List.mem_append_right _ List.mem_cons_self
    have hwithin := (marks_of_mem_scan hmem).within
    have hwide := (laid_scan (u ++ v)).wide_of_mem hmem hl
    rw [String.toList_eq_nil_iff.1 hnil, String.append_empty] at hwithin
    omega
  obtain ⟨l', after', hbreak, hlike⟩ := scanFrom_break hscan
    (by rw [hstart, ← String.utf8Len_toList]; exact (Nat.zero_add _).symm) hds
  refine ⟨l', after', ?_, hlike⟩
  show scanFrom _ _ _ = _
  rw [String.toList_append, String.toList_append, List.append_assoc]
  exact hbreak

end Token

end DispatchLang
