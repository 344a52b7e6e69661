import DispatchLang.Proofs.Grammar.FirstWords

/-!
# Scanning printed words

Written down, the words of a tree run into each other only where the scanner takes them apart again. Whether it does so
depends on what follows a word: a name or a number must not be followed by another letter or digit, an empty string not
by a quote, `!` not by an equals sign, a hash sign not by a space.

`Word.Ends` says that the scanner finds exactly the word in front of a given text. It is proved once for
each sort of word, from what the text begins with: after most words comes a *closing* text, after opening
brackets, signs and points a *plain* one. A phrase *scans* if it can be put before every closing text, and
scanning phrases are put together along the tree.

## Main results

* `Node.Printable.words_scan`: the words of a printable tree scan.
* `Token.scan_render`: the lexemes of a text made of words that end where they should are these words.
-/

namespace DispatchLang

/-! ## Where a word ends -/

/-- Whether the scanner finds exactly the word at the front of its text followed by `rest`. -/
def Word.Ends (w : Word) (rest : List Char) : Prop :=
  ∃ c cs, w.text = c :: cs ∧ Token.piece c (cs ++ rest) = (some w.token, cs.length)

/-- A text that begins with no character that is the second one of a symbol. A colon is the second one only of `<:`. -/
def Plain (cs : List Char) : Prop := ∀ c ∈ cs.head?, c ∉ ['=', '>', '&', '|', '/']

/-- A text before which a word of any sort ends. -/
structure Closing (cs : List Char) : Prop where
  /-- It does not lengthen a symbol. -/
  plain : Plain cs
  /-- It does not lengthen a name or a run of digits. -/
  word : ∀ c ∈ cs.head?, Token.isWordRest c = false
  /-- It does not open a long string together with an empty one. -/
  quote : cs.head? ≠ some '"'
  /-- It is no fraction. -/
  point : ∀ ds, cs = '.' :: ds → ∀ d ∈ ds.head?, d.isDigit = false

theorem Plain.cons {c : Char} (h : c ∉ ['=', '>', '&', '|', '/']) (cs : List Char) :
    Plain (c :: cs) := by
  rintro d hd
  obtain rfl := Option.some.inj hd
  exact h

theorem Closing.nil : Closing [] where
  plain := fun _ h => absurd h (by simp)
  word := fun _ h => absurd h (by simp)
  quote := by simp
  point := fun _ h => absurd h (by simp)

theorem Closing.cons {c : Char} (hp : c ∉ ['=', '>', '&', '|', '/', '"', '.'])
    (hw : Token.isWordRest c = false) (cs : List Char) : Closing (c :: cs) := by
  simp only [List.mem_cons, List.not_mem_nil, or_false, not_or] at hp
  refine ⟨Plain.cons (by simp [hp]) cs, ?_, by simp [hp], ?_⟩
  · rintro d hd
    obtain rfl := Option.some.inj hd
    exact hw
  · rintro ds hds
    exact absurd (List.cons.inj hds).1 hp.2.2.2.2.2.2

/-! ### Symbols -/

namespace Symbol

/-- The characters that begin a symbol. -/
def isMark (c : Char) : Bool :=
  !Token.isBlank c && c ≠ '"' && !c.isDigit && !Token.isWordStart c

/-- A symbol is written with one character or with two. -/
theorem text_cases (s : Symbol) :
    (∃ c, s.text.toList = [c] ∧ single? c = some s ∧ isMark c) ∨
      ∃ c d, s.text.toList = [c, d] ∧ double? c d = some s ∧ isMark c ∧ c ≠ '/' ∧ c ≠ '#' := by
  cases s <;>
    first
      | exact .inl ⟨_, rfl, rfl, by decide⟩
      | exact .inr ⟨_, _, rfl, rfl, by decide, by decide, by decide⟩

/-- A character that is the second one of no symbol but `<:` makes no symbol with the one before it. -/
theorem double?_eq_none {c d : Char} (h : d ∉ ['=', '>', '&', '|', '/']) (hc : c = '<' → d ≠ ':') :
    double? c d = none := by
  unfold double?
  split
  case h_3 => exact absurd rfl (hc rfl)
  all_goals first | rfl | exact absurd (by decide) h

end Symbol

theorem Token.piece_mark {c : Char} {cs : List Char} (h : Symbol.isMark c)
    (hs : c = '/' → cs.head? ≠ some '/') (hh : c ≠ '#') : piece c cs = symbolPiece c cs := by
  simp only [Symbol.isMark, Bool.and_eq_true, Bool.not_eq_true', decide_eq_true_eq] at h
  obtain ⟨⟨⟨hb, hq⟩, hd⟩, hw⟩ := h
  have hl : (decide (c = '/') && decide (cs.head? = some '/')) = false := by
    simpa using hs
  simp [piece, hb, hq, hd, hw, hl, hh]

def Symbol.EndsPlain (s : Symbol) : Prop := s ∉ [.hash, .less]

instance (s : Symbol) : Decidable s.EndsPlain := inferInstanceAs (Decidable (s ∉ _))

/-- A symbol ends before a plain text, unless a hash sign begins a comment or `<` goes on with a colon. -/
theorem Word.ends_symbol {s : Symbol} {rest : List Char} (lead : Lead) (hs : s ≠ .hash) (h : Plain rest)
    (hl : s = .less → rest.head? ≠ some ':') : (Word.symbol lead s).Ends rest := by
  obtain ⟨c, ht, hc, hm⟩ | ⟨c, d, ht, hcd, hm, hl, hh⟩ := s.text_cases
  · refine ⟨c, [], ht, ?_⟩
    have hh : c ≠ '#' := by
      rintro rfl
      exact hs (Option.some.inj hc).symm
    have hd : rest.head?.bind (Symbol.double? c) = none := by
      cases rest with
      | nil => rfl
      | cons d ds =>
        refine Symbol.double?_eq_none (h d rfl) ?_
        rintro rfl rfl
        exact hl (Option.some.inj hc).symm rfl
    have hr : rest.head? ≠ some '/' := fun hr => h '/' hr (by decide)
    rw [List.nil_append, Token.piece_mark hm (fun _ => hr) hh, Token.symbolPiece, hd, hc]
    rfl
  · refine ⟨c, [d], ht, ?_⟩
    rw [Token.piece_mark hm (fun h => absurd h hl) hh, Token.symbolPiece]
    simp only [List.cons_append, List.head?_cons, Option.bind_some, hcd]
    rfl

/-- A hash sign ends if it does not begin a comment. -/
theorem Word.ends_hash {c : Char} (cs : List Char) (lead : Lead) (h : c ≠ ' ' ∧ c ≠ '\t') :
    (Word.symbol lead .hash).Ends (c :: cs) := by
  refine ⟨'#', [], rfl, ?_⟩
  have hp : Token.piece '#' (c :: cs) = Token.symbolPiece '#' (c :: cs) := by
    simp [Token.piece, Token.isBlank, Token.isWordStart, h]
  rw [List.nil_append, hp, Token.symbolPiece]
  rfl

/-! ### Names -/

theorem Token.isBlank_eq_false {c : Char} (h : isWordRest c) : isBlank c = false := by
  by_contra hb
  simp only [isBlank, Bool.or_eq_true, decide_eq_true_eq, Bool.not_eq_false] at hb
  obtain (((rfl | rfl) | rfl) | rfl) | rfl := hb <;> exact absurd h (by decide)

theorem Token.isDigit_eq_false {c : Char} (h : isWordStart c) : c.isDigit = false := by
  by_contra hd
  rw [Bool.not_eq_false] at hd
  have h9 : c.val.toNat ≤ 57 :=
    UInt32.le_iff_toNat_le.1 (of_decide_eq_true (Bool.and_eq_true_iff.1 hd).2)
  have h : ((c.isUpper || c.isLower) || decide (c = '_')) = true := h
  rw [Bool.or_eq_true, Bool.or_eq_true, decide_eq_true_eq] at h
  obtain (h | h) | rfl := h
  · have hA : 65 ≤ c.val.toNat := UInt32.le_iff_toNat_le.1 (of_decide_eq_true h).1
    omega
  · have ha : 97 ≤ c.val.toNat :=
      UInt32.le_iff_toNat_le.1 (of_decide_eq_true (Bool.and_eq_true_iff.1 h).1)
    omega
  · exact absurd hd (by decide)

theorem Token.piece_word {c : Char} (h : isWordStart c) (cs : List Char) :
    piece c cs = (some (ofWord (String.ofList (c :: cs.takeWhile isWordRest))),
      (cs.takeWhile isWordRest).length) := by
  have hb : isBlank c = false := isBlank_eq_false (by simp [isWordRest, h])
  have hq : c ≠ '"' := by rintro rfl; exact absurd h (by decide)
  simp [piece, hb, hq, isDigit_eq_false h, h]

/-- The words that are made of letters and digits. -/
def IsWord (text : String) : Prop :=
  text.toList.head?.any Token.isWordStart ∧ text.toList.all Token.isWordRest

theorem IsWord.of_isName {text : String} (h : Printer.isName text) : IsWord text := by
  simp only [Printer.isName, Bool.and_eq_true] at h
  exact h.1

theorem IsWord.exists_cons {text : String} (h : IsWord text) :
    ∃ c cs, text.toList = c :: cs ∧ Token.isWordStart c ∧ ∀ d ∈ cs, Token.isWordRest d = true := by
  obtain ⟨hs, ha⟩ := h
  cases ht : text.toList with
  | nil => rw [ht] at hs; cases hs
  | cons c cs =>
    rw [ht] at hs ha
    exact ⟨c, cs, rfl, by simpa using hs, (List.forall_mem_cons.1 (List.all_eq_true.1 ha)).2⟩

theorem Word.ends_name {text : String} {rest : List Char} (lead : Lead) (ht : IsWord text)
    (h : ∀ c ∈ rest.head?, Token.isWordRest c = false) : (Word.name lead text).Ends rest := by
  obtain ⟨c, cs, hc, hs, hcs⟩ := ht.exists_cons
  refine ⟨c, cs, hc, ?_⟩
  rw [Token.piece_word hs, takeWhile_append_stop hcs h, ← hc, String.ofList_toList]
  rfl

/-! ### Numbers -/

theorem Decimal.digitsValue_toDigits (n : Nat) : digitsValue (Nat.toDigits 10 n) = n := by
  have h := Nat.ofDigitChars_ten_toDigits (n := n)
  rw [Nat.ofDigitChars_eq_foldl] at h
  exact h

theorem Decimal.intText_of_nonneg {value : Int64} (h : 0 ≤ value) :
    (intText value.toInt).toList = Nat.toDigits 10 value.toInt.toNat := by
  have hn : 0 ≤ value.toInt := Int64.le_iff_toInt_le.1 h
  obtain ⟨n, hn⟩ := Int.eq_ofNat_of_zero_le hn
  rw [hn]
  exact String.toList_ofList

theorem Token.ofDigits_toDigits {value : Int64} (h : 0 ≤ value) :
    ofDigits (Nat.toDigits 10 value.toInt.toNat) = .int value := by
  have hn : 0 ≤ value.toInt := Int64.le_iff_toInt_le.1 h
  have hm : (value.toInt.toNat : Int) ≤ Int64.maxValue.toInt := by
    rw [Int.toNat_of_nonneg hn]
    exact Int64.le_iff_toInt_le.1 (Int64.le_maxValue value)
  rw [ofDigits, Decimal.digitsValue_toDigits, if_pos hm, ← Int64.ofInt_eq_ofNat, Int.toNat_of_nonneg hn,
    Int64.ofInt_toInt]

/-- A number that needs no sign is a run of digits. -/
theorem Word.exists_digits {value : Int64} (lead : Lead) (hv : 0 ≤ value) :
    ∃ c cs, (Word.int lead value).text = c :: cs ∧ (∀ d ∈ c :: cs, d.isDigit = true) ∧
      Token.ofDigits (c :: cs) = .int value := by
  have hd : ∀ d ∈ Nat.toDigits 10 value.toInt.toNat, d.isDigit = true := fun d hd =>
    Nat.isDigit_of_mem_toDigits (by decide) (by decide) hd
  have ht := Token.ofDigits_toDigits hv
  obtain ⟨c, cs, hc⟩ :=
    List.exists_cons_of_ne_nil (Nat.toDigits_ne_nil (n := value.toInt.toNat) (b := 10))
  rw [hc] at hd ht
  exact ⟨c, cs, (Decimal.intText_of_nonneg hv).trans hc, hd, ht⟩

theorem Token.piece_digit {c : Char} (h : c.isDigit = true) (cs : List Char) : piece c cs = numberPiece c cs := by
  have hb : isBlank c = false := isBlank_eq_false (by simp [isWordRest, h])
  have hq : c ≠ '"' := by rintro rfl; exact absurd h (by decide)
  simp [piece, hb, hq, h]

theorem Closing.digit {rest : List Char} (h : Closing rest) : ∀ d ∈ rest.head?, d.isDigit = false :=
  fun d hd => (Bool.or_eq_false_iff.1 (h.word d hd)).2

theorem Word.ends_int {value : Int64} {rest : List Char} (lead : Lead) (hv : 0 ≤ value)
    (h : Closing rest) : (Word.int lead value).Ends rest := by
  obtain ⟨c, cs, ht, hd, hv⟩ := exists_digits lead hv
  obtain ⟨hcd, hcs⟩ := List.forall_mem_cons.1 hd
  refine ⟨c, cs, ht, ?_⟩
  rw [Token.piece_digit hcd, Token.numberPiece, takeWhile_append_stop hcs h.digit, dropWhile_append_stop hcs h.digit]
  have hw : (some (Token.ofDigits (c :: cs)), (c :: cs).length - 1) =
      (some (Word.int lead value).token, cs.length) := by rw [hv]; rfl
  split
  -- A point after the number begins no fraction.
  · next ds =>
    have hf : ds.takeWhile Char.isDigit = [] := by
      cases ds with
      | nil => rfl
      | cons d ds => exact List.takeWhile_cons_of_neg (by simp [h.point _ rfl d rfl])
    rw [hf]
    exact hw
  · exact hw

theorem Word.token_float {whole fraction : List Char} {lead : Lead} (hw : Decimal.IsRun whole) :
    (Word.float lead (whole ++ '.' :: fraction)).token = .float (Decimal.ofDigits whole fraction) := by
  have hpoint : ∀ d ∈ ('.' :: fraction).head?, d.isDigit = false := by simp
  rw [float, takeWhile_append_stop hw.2 hpoint, dropWhile_append_stop hw.2 hpoint]
  rfl

theorem Word.ends_float {whole fraction rest : List Char} (lead : Lead) (hw : Decimal.IsRun whole)
    (hf : Decimal.IsRun fraction) (h : Closing rest) : (Word.float lead (whole ++ '.' :: fraction)).Ends rest := by
  have hpoint {cs : List Char} : ∀ d ∈ ('.' :: cs).head?, d.isDigit = false := by simp
  obtain ⟨c, cs, rfl⟩ := List.exists_cons_of_ne_nil hw.1
  obtain ⟨hcd, hcs⟩ := List.forall_mem_cons.1 hw.2
  refine ⟨c, cs ++ '.' :: fraction, rfl, ?_⟩
  rw [token_float hw, Token.piece_digit hcd, Token.numberPiece, List.append_assoc, List.cons_append,
    takeWhile_append_stop hcs hpoint, dropWhile_append_stop hcs hpoint]
  have hne : fraction.isEmpty = false := by simpa using hf.1
  simp only [takeWhile_append_stop hf.2 h.digit, hne, Bool.false_eq_true, if_false]
  simp
  omega

/-! ### Strings -/

theorem Escape.letter?_cases (c : Char) :
    (∃ e, letter? c = some e ∧ meaning? e = some c ∧ e ≠ '\n') ∨
      (letter? c = none ∧ c ≠ '\\' ∧ c ≠ '"') := by
  unfold letter?
  split
  case h_6 => exact .inr ⟨rfl, by simp_all⟩
  all_goals exact .inl ⟨_, rfl, rfl, by decide⟩

theorem Escape.decode_encode (cs : List Char) : decode (encode cs) = cs := by
  induction cs with
  | nil => rfl
  | cons c cs ih =>
    obtain ⟨e, he, hm, -⟩ | ⟨hn, hb, -⟩ := letter?_cases c
    · simp only [encode, he, decode, hm, ih]
    · simp [encode, hn, decode, hb, ih]

theorem Token.stringBody_encode (cs rest : List Char) :
    stringBody (Escape.encode cs ++ '"' :: rest) =
      (some (Escape.encode cs), (Escape.encode cs).length + 1) := by
  induction cs with
  | nil => rfl
  | cons c cs ih =>
    obtain ⟨e, he, -, hf⟩ | ⟨hn, hb, hq⟩ := Escape.letter?_cases c
    · simp only [Escape.encode, he, List.cons_append, stringBody, if_neg hf, ih]
      rfl
    · simp [Escape.encode, hn, stringBody, hb, ih]

theorem Word.text_string (lead : Lead) (text : String) :
    (Word.string lead text).text = '"' :: (Escape.encode text.toList ++ ['"']) := by
  simp [Word.string, Printer.quote, Escape.escape]

theorem Word.ends_string {text : String} {rest : List Char} (lead : Lead) (h : rest.head? ≠ some '"') :
    (Word.string lead text).Ends rest := by
  refine ⟨'"', _, Word.text_string lead text, ?_⟩
  have hp : ∀ cs, Token.piece '"' cs = Token.stringPiece cs := fun cs => rfl
  rw [hp, List.append_assoc, List.singleton_append, Token.stringPiece.eq_2]
  · simp [Token.stringBody_encode, Escape.decode_encode, Word.string]
  -- Only an empty string could open a long one, and only before another quote.
  · intro ds hds
    cases hc : text.toList with
    | nil =>
      rw [hc] at hds
      exact h (by rw [(List.cons.inj hds).2]; rfl)
    | cons c cs =>
      rw [hc, Escape.encode] at hds
      obtain ⟨e, he, -, -⟩ | ⟨hn, -, hq⟩ := Escape.letter?_cases c
      · rw [he] at hds
        exact absurd (List.cons.inj hds).1 (by decide)
      · rw [hn] at hds
        exact hq (List.cons.inj hds).1

/-! ## Scanning phrases -/

/-- Whether every word ends where the next one begins, when the words are followed by `rest`. -/
def Separated (rest : List Char) : List Word → Prop
  | [] => True
  | w :: ws => w.Ends (render ws ++ rest) ∧ Separated rest ws

/-- Words that can be put after a word of any sort. -/
structure Closes (rest : List Char) (ws : List Word) : Prop where
  /-- Every word ends where the next one begins. -/
  separated : Separated rest ws
  /-- The word before them ends. -/
  closing : Closing (render ws ++ rest)

/-- Whether a phrase can be put before all words that can be put after a word of any sort. -/
def Phrase.Scans (p : Phrase) : Prop :=
  ∀ lead rest ws, Closes rest ws → Separated rest (p lead ++ ws)

/-- Whether there are blanks before a word. -/
def Lead.spaced : Lead → Bool
  | .start | .tight => false
  | .space | .wide | .line _ => true

theorem Lead.closing {lead : Lead} (h : lead.spaced = true) (cs : List Char) : Closing (lead.chars ++ cs) := by
  cases lead with
  | start | tight => cases h
  | space | wide | line => exact Closing.cons (by decide) (by decide) _

theorem Lead.cases_chars (lead : Lead) : lead.chars = [] ∨ lead.spaced = true := by
  cases lead with
  | start | tight => exact .inl rfl
  | space | wide | line => exact .inr rfl

theorem Lead.spaced_of_breaks {lead : Lead} (h : lead.breaks = true) : lead.spaced = true := by
  cases lead with
  | line => rfl
  | _ => cases h

/-! ### First words -/

theorem Plain.of_isWordRest {c : Char} (h : Token.isWordRest c) (cs : List Char) :
    Plain (c :: cs) := by
  refine Plain.cons (fun hc => ?_) cs
  simp only [List.mem_cons, List.not_mem_nil, or_false] at hc
  obtain rfl | rfl | rfl | rfl | rfl := hc <;> exact absurd h (by decide)

theorem IsWord.of_opens {text : String} (h : Printer.isName text ∨ text ∈ Keyword.openers) : IsWord text := by
  obtain h | h := h
  · exact .of_isName h
  · simp only [Keyword.openers, List.mem_cons, List.not_mem_nil, or_false] at h
    obtain rfl | rfl | rfl | rfl | rfl | rfl := h <;> exact ⟨by decide, by decide⟩

/-- The first word of a tree begins with no blank, and it does not lengthen a symbol. -/
theorem Word.Opens.exists_cons {w : Word} (h : w.Opens) :
    ∃ c cs, w.text = c :: cs ∧ c ∉ ['=', '>', '&', '|', '/'] ∧ Token.isBlank c = false := by
  have hword {c : Char} (hc : Token.isWordRest c) :
      c ∉ ['=', '>', '&', '|', '/'] ∧ Token.isBlank c = false :=
    ⟨Plain.of_isWordRest hc [] c rfl, Token.isBlank_eq_false hc⟩
  cases h with
  | @int lead value nonneg =>
    obtain ⟨c, ds, ht, hd, -⟩ := Word.exists_digits lead nonneg
    exact ⟨c, ds, ht, hword (by simp [Token.isWordRest, hd c List.mem_cons_self])⟩
  | @float lead whole fraction whole_run _ =>
    obtain ⟨c, ds, rfl⟩ := List.exists_cons_of_ne_nil whole_run.1
    exact ⟨c, _, rfl, hword (by simp [Token.isWordRest, whole_run.2 c List.mem_cons_self])⟩
  | @string lead text => exact ⟨'"', _, Word.text_string lead text, by decide, by decide⟩
  | name isName =>
    obtain ⟨c, ds, hc, hs, -⟩ := (IsWord.of_opens isName).exists_cons
    exact ⟨c, ds, hc, hword (by simp [Token.isWordRest, hs])⟩
  | symbol opening =>
    simp only [Symbol.openers, List.mem_cons, List.not_mem_nil, or_false] at opening
    obtain rfl | rfl | rfl | rfl | rfl | rfl | rfl := opening <;> exact ⟨_, _, rfl, by decide, by decide⟩

theorem Phrase.Opens.plain {p : Phrase} (h : p.Opens) (lead : Lead) (ws : List Word)
    (rest : List Char) : Plain (render (p lead ++ ws) ++ rest) := by
  obtain ⟨w, vs, hp, rfl, hw⟩ := h.head lead
  rw [hp, List.cons_append, render_cons, List.append_assoc]
  obtain hl | hl := w.lead.cases_chars
  · obtain ⟨c, cs, hc, hplain, -⟩ := hw.exists_cons
    rw [hl, hc]
    exact Plain.cons hplain _
  · exact (Lead.closing hl _).plain

theorem Phrase.Opens.closing {p : Phrase} (h : p.Opens) {lead : Lead} (hl : lead.spaced = true) (ws : List Word)
    (rest : List Char) : Closing (render (p lead ++ ws) ++ rest) := by
  obtain ⟨w, vs, hp, rfl, -⟩ := h.head lead
  rw [hp, List.cons_append, render_cons, List.append_assoc]
  exact Lead.closing hl _

/-! ### Words before other words -/

theorem Separated.symbol {lead : Lead} {s : Symbol} {rest : List Char} {ws : List Word}
    (h : Separated rest ws) (hs : s.EndsPlain) (hp : Plain (render ws ++ rest)) :
    Separated rest (.symbol lead s :: ws) := by
  simp only [Symbol.EndsPlain, List.mem_cons, List.not_mem_nil, or_false, not_or] at hs
  exact ⟨Word.ends_symbol lead hs.1 hp fun he => absurd he hs.2, h⟩

/-- A hash sign ends before a tree that touches it. -/
theorem Separated.hash {lead : Lead} {p : Phrase} {rest : List Char} {ws : List Word}
    (h : Separated rest (p .tight ++ ws)) (ho : p.Opens) :
    Separated rest (.symbol lead .hash :: (p .tight ++ ws)) := by
  refine ⟨?_, h⟩
  obtain ⟨w, vs, hp, hl, hw⟩ := ho.head .tight
  obtain ⟨c, cs, hc, -, hb⟩ := hw.exists_cons
  rw [hp, List.cons_append, render_cons, hl, hc]
  refine Word.ends_hash _ lead ?_
  constructor <;> rintro rfl <;> cases hb

theorem Closes.name {lead : Lead} {text : String} {rest : List Char} {ws : List Word}
    (h : Closes rest ws) (ht : IsWord text) : Separated rest (.name lead text :: ws) :=
  ⟨Word.ends_name lead ht h.closing.word, h.separated⟩

theorem Closes.spaced_name {lead : Lead} {text : String} {rest : List Char} {ws : List Word}
    (h : Closes rest ws) (hl : lead.spaced = true) (ht : IsWord text) : Closes rest (.name lead text :: ws) := by
  refine ⟨h.name ht, ?_⟩
  rw [render_cons, List.append_assoc]
  exact Lead.closing hl _

/-- A key ends before every word that may follow a word of any sort. -/
theorem Closes.key {lead : Lead} {text : String} {rest : List Char} {ws : List Word}
    (h : Closes rest ws) : Separated rest (.key lead text :: ws) := by
  unfold Word.key
  split
  · next hn => exact h.name (.of_isName hn)
  · exact ⟨Word.ends_string lead h.closing.quote, h.separated⟩

/-- The symbols that can be put right after a word of any sort. -/
def Symbol.closers : List Symbol :=
  [.openParen, .openBracket, .closeParen, .closeBracket, .closeBrace, .comma, .semicolon, .colon]

/-- Whether a symbol can be put after a word of any sort: it need not touch it, or it is one of those that may. -/
def Symbol.Follows (lead : Lead) (s : Symbol) : Prop := s.EndsPlain ∧ (lead.spaced = true ∨ s ∈ closers)

instance (lead : Lead) (s : Symbol) : Decidable (s.Follows lead) := inferInstanceAs (Decidable (_ ∧ _))

theorem Separated.closer {lead : Lead} {s : Symbol} {rest : List Char} {ws : List Word}
    (h : Separated rest ws) (hs : s.Follows lead) (hp : Plain (render ws ++ rest)) :
    Closes rest (.symbol lead s :: ws) := by
  refine ⟨h.symbol hs.1 hp, ?_⟩
  rw [render_cons, show (Word.symbol lead s).lead = lead from rfl]
  obtain hl | hl := lead.cases_chars
  · have hc : s ∈ Symbol.closers := hs.2.resolve_left fun hf => by cases lead <;> cases hf <;> cases hl
    simp only [Symbol.closers, List.mem_cons, List.not_mem_nil, or_false] at hc
    rw [hl]
    obtain rfl | rfl | rfl | rfl | rfl | rfl | rfl | rfl := hc <;> exact Closing.cons (by decide) (by decide) _
  · rw [List.append_assoc]
    exact Lead.closing hl _

/-- A member can be put right after a word of any sort: its name is no fraction. -/
theorem Closes.member {text : String} {rest : List Char} {ws : List Word} (h : Closes rest ws)
    (ht : Printer.isName text) :
    Closes rest (.symbol .tight .dot :: .name .tight text :: ws) := by
  obtain ⟨c, cs, hc, hs, -⟩ := (IsWord.of_isName ht).exists_cons
  have hr : render (Word.symbol .tight .dot :: Word.name .tight text :: ws) ++ rest =
      '.' :: c :: (cs ++ (render ws ++ rest)) := by
    simp [Word.symbol, Word.name, Symbol.text, Lead.chars, hc]
  refine ⟨(h.name (.of_isName ht)).symbol (by decide) ?_, ?_⟩
  · rw [render_cons, show (Word.name .tight text).text = c :: cs from hc]
    exact Plain.of_isWordRest (by simp [Token.isWordRest, hs]) _
  · rw [hr]
    refine ⟨Plain.cons (by decide) _, ?_, by simp, ?_⟩
    · rintro d hd
      obtain rfl := Option.some.inj hd
      decide
    · rintro ds hds d hd
      obtain rfl := (List.cons.inj hds).2
      obtain rfl := Option.some.inj hd
      exact Token.isDigit_eq_false hs

/-! ### Phrases -/

namespace Phrase

/-- A phrase that begins like a tree and scans. -/
structure Fits (p : Phrase) : Prop where
  /-- It begins with a word that can begin a tree. -/
  opens : p.Opens
  /-- It scans. -/
  scans : p.Scans

namespace Fits

variable {p q : Phrase}

/-- After a space a phrase can be put behind a word of any sort. -/
theorem closes (h : p.Fits) {lead : Lead} {rest : List Char} {ws : List Word} (hw : Closes rest ws)
    (hl : lead.spaced = true) : Closes rest (p lead ++ ws) :=
  ⟨h.scans lead rest ws hw, h.opens.closing hl ws rest⟩

theorem after_symbol (h : p.Fits) {lead : Lead} {s : Symbol} (later : Lead) {rest : List Char} {ws : List Word}
    (hw : Closes rest ws) (hs : s.Follows lead) : Closes rest (.symbol lead s :: (p later ++ ws)) :=
  (h.scans later rest ws hw).closer hs (h.opens.plain later ws rest)

/-- The symbol of an operator can be put before a phrase, with spaces around it. -/
theorem after_operator (h : p.Fits) (op : BinaryOp) {rest : List Char} {ws : List Word} (hw : Closes rest ws) :
    Closes rest (.symbol .space op.symbol :: (p .space ++ ws)) := by
  have hc : Closes rest (p .space ++ ws) := h.closes hw rfl
  refine ⟨⟨Word.ends_symbol _ (by cases op <;> decide) hc.closing.plain fun _ => ?_, hc.separated⟩, ?_⟩
  · obtain ⟨w, vs, hp, hl, -⟩ := h.opens.head .space
    rw [hp, List.cons_append, render_cons, hl]
    simp [Lead.chars]
  · rw [render_cons, List.append_assoc]
    exact Lead.closing rfl _

theorem enclosed (h : p.Fits) : p.enclosed.Scans := by
  intro lead rest ws hw
  have hc : Closes rest (.symbol .tight .closeParen :: ws) := hw.separated.closer (by decide) hw.closing.plain
  rw [Phrase.enclosed, List.cons_append, List.append_assoc]
  exact (h.scans _ _ _ hc).symbol (by decide) (h.opens.plain _ _ _)

theorem encloseBelow (h : p.Fits) (asked own : Nat) : (p.encloseBelow asked own).Scans := by
  unfold Phrase.encloseBelow
  split
  · exact h.enclosed
  · exact h.scans

/-- A phrase can be put under a name. -/
theorem labelled {label : Lead → Word} (h : p.Fits)
    (hl : ∀ lead rest ws, Closes rest ws → Separated rest (label lead :: ws)) : (p.labelled label).Scans :=
  fun lead _ _ hw => hl lead _ _ (h.after_symbol .space hw (by decide))

theorem arm (hp : p.Fits) (hq : q.Fits) : (p.arm q).Scans := by
  intro lead rest ws hw
  rw [Phrase.arm, List.append_assoc, List.cons_append]
  exact hp.scans _ _ _ (hq.after_symbol .space hw (by decide))

end Fits

/-- The words that may stand between two phrases. -/
def Divides (later : Lead) (ws : List Word) : Prop :=
  ws = [] ∧ later.breaks = true ∨ ∃ lead s, s.Follows lead ∧ ws = [.symbol lead s]

theorem divides_comma (later : Lead) (p : Phrase) : Divides later (comma p) :=
  .inr ⟨_, _, by decide, rfl⟩

theorem divides_bar (later : Lead) (p : Phrase) : Divides later (bar p) :=
  .inr ⟨_, _, by decide, rfl⟩

theorem divides_semicolon (later : Lead) (p : Phrase) : Divides later (semicolon later p) := by
  unfold semicolon
  split
  · next h => exact .inl ⟨rfl, (Bool.and_eq_true_iff.1 h).1⟩
  · exact .inr ⟨_, _, by decide, rfl⟩

section

variable {between : Phrase → List Word} {later : Lead} {ps : List Phrase} {rest : List Char}
  {ws : List Word}

theorem closes_tail (hb : ∀ p, Divides later (between p)) (hp : ∀ p ∈ ps, p.Fits)
    (hw : Closes rest ws) : Closes rest (tail between later ps ++ ws) := by
  induction ps with
  | nil => exact hw
  | cons p ps ih =>
    obtain ⟨h, hps⟩ := List.forall_mem_cons.1 hp
    rw [tail, List.append_assoc, List.append_assoc]
    obtain ⟨he, hl⟩ | ⟨lead, s, hs, he⟩ := hb p
    · rw [he, List.nil_append]
      exact h.closes (ih hps) (Lead.spaced_of_breaks hl)
    · rw [he, List.singleton_append]
      exact h.after_symbol later (ih hps) hs

theorem separated_joined (hb : ∀ p, Divides later (between p)) (hp : ∀ p ∈ ps, p.Fits)
    (hw : Closes rest ws) (lead : Lead) : Separated rest (joined between later ps lead ++ ws) := by
  cases ps with
  | nil => exact hw.separated
  | cons p ps =>
    obtain ⟨h, hps⟩ := List.forall_mem_cons.1 hp
    rw [joined, List.append_assoc]
    exact h.scans _ _ _ (closes_tail hb hps hw)

theorem plain_joined (hp : ∀ p ∈ ps, p.Fits) (hw : Plain (render ws ++ rest)) (lead : Lead) :
    Plain (render (joined between later ps lead ++ ws) ++ rest) := by
  cases ps with
  | nil => exact hw
  | cons p ps =>
    rw [joined, List.append_assoc]
    exact (hp p (List.mem_cons_self ..)).opens.plain _ _ _

theorem closes_joined (hb : ∀ p, Divides later (between p)) (hp : ∀ p ∈ ps, p.Fits) (hw : Closes rest ws)
    {lead : Lead} (hl : lead.spaced = true) : Closes rest (joined between later ps lead ++ ws) := by
  cases ps with
  | nil => exact hw
  | cons p ps =>
    obtain ⟨h, hps⟩ := List.forall_mem_cons.1 hp
    rw [joined, List.append_assoc]
    exact h.closes (closes_tail hb hps hw) hl

end

end Phrase

open Phrase

/-! ### Lists -/

section

variable {ps : List Phrase} {rest : List Char} {ws : List Word} {opening closing : Symbol} {first last : Lead}

/-- A list with a symbol before and after it. -/
theorem Closes.enclosed (h : Closes rest ws) (hp : ∀ p ∈ ps, p.Fits) (ho : opening.EndsPlain)
    (hc : closing.Follows last) (later lead : Lead) : Separated rest (.symbol first opening ::
      (commas later ps lead ++ .symbol last closing :: ws)) := by
  have hlast : Closes rest (.symbol last closing :: ws) := h.separated.closer hc h.closing.plain
  exact (separated_joined (divides_comma _) hp hlast lead).symbol ho (plain_joined hp hlast.closing.plain lead)

/-- A list with a symbol before and after it can be put behind a word of any sort. -/
theorem Closes.bracketed (h : Closes rest ws) (hp : ∀ p ∈ ps, p.Fits) (ho : opening.Follows first)
    (hc : closing.Follows last) (later lead : Lead) : Closes rest (.symbol first opening ::
      (commas later ps lead ++ .symbol last closing :: ws)) := by
  have hlast : Closes rest (.symbol last closing :: ws) := h.separated.closer hc h.closing.plain
  exact (separated_joined (divides_comma _) hp hlast lead).closer ho (plain_joined hp hlast.closing.plain lead)

end

/-! ### Declarations -/

/-- A written type can be put before all words that can be put after a word of any sort. -/
theorem TypeExpr.Lexical.fits {type : TypeExpr} (h : type.Lexical) : type.words.Fits := by
  refine ⟨h.words_opens, ?_⟩
  induction h with
  | named isName =>
    intro lead rest ws hw
    rw [words]
    exact hw.name (.of_isName isName)
  | applied isName args_lexical ih =>
    intro lead rest ws hw
    rw [words, TypeExpr.phrases_eq_map, List.cons_append, List.cons_append, List.append_assoc]
    exact (hw.bracketed (List.forall_mem_map.2 fun a hm => ⟨(args_lexical a hm).words_opens, ih a hm⟩) (by decide)
      (by decide) .space .tight).name (.of_isName isName)

theorem Param.Lexical.fits {p : Param} (h : p.Lexical) : p.words.Fits where
  opens := h.words_opens
  scans lead rest ws hw := by
    rw [words]
    cases ht : p.annotation with
    | none => exact hw.name (.of_isName h.isName)
    | some type =>
      exact ((h.annotation type ht).fits.after_symbol .space hw (by decide)).name (.of_isName h.isName)

theorem TypeParam.Lexical.fits {p : TypeParam} (h : p.Lexical) : p.words.Fits where
  opens := h.words_opens
  scans lead rest ws hw := by
    rw [words]
    cases ht : p.constraint with
    | none => exact hw.name (.of_isName h.isName)
    | some type =>
      exact ((h.constraint type ht).fits.after_symbol .space hw (by decide)).name (.of_isName h.isName)

theorem FieldDecl.Lexical.fits {f : FieldDecl} (h : f.Lexical) : f.words.Fits where
  opens := h.words_opens
  scans := h.type.fits.labelled fun _ _ _ hw => hw.name (.of_isName h.isName)

theorem VariantDecl.Lexical.fits {v : VariantDecl} (h : v.Lexical) : v.words.Fits where
  opens := h.words_opens
  scans lead rest ws hw := by
    rw [words, List.cons_append]
    refine Closes.name ?_ (.of_isName h.isName)
    split
    · exact hw
    · rw [List.cons_append, List.append_assoc]
      exact hw.bracketed (List.forall_mem_map.2 fun f hm => (h.fields f hm).fits) (by decide) (by decide) .space .tight

section

variable {rest : List Char} {ws : List Word}

theorem Closes.typeParams {params : List TypeParam} (h : Closes rest ws) (hp : ∀ p ∈ params, p.Lexical) :
    Closes rest (TypeParam.list params ++ ws) := by
  unfold TypeParam.list
  split
  · exact h
  · rw [List.cons_append, List.append_assoc]
    exact h.bracketed (List.forall_mem_map.2 fun p hm => (hp p hm).fits) (by decide) (by decide) .space .tight

theorem Closes.typeBody {body : TypeBody} (h : Closes rest ws) (hb : body.Lexical) : Closes rest (body.words ++ ws) := by
  cases body with
  | abstract | concrete => exact h
  | struct fields =>
    rw [TypeBody.words, List.cons_append, List.append_assoc]
    refine h.bracketed (List.forall_mem_map.2 fun f hm => (hb f hm).fits) (by decide) ?_ .space .space
    exact ⟨by decide, .inr (by decide)⟩
  | variants alternatives =>
    rw [TypeBody.words, List.cons_append]
    have hf : ∀ p ∈ alternatives.map VariantDecl.words, p.Fits := List.forall_mem_map.2 fun v hm => (hb.2 v hm).fits
    have hs := separated_joined (divides_bar .space) hf h .space
    exact hs.closer (by decide) (plain_joined hf h.closing.plain .space)

theorem TypeDecl.Lexical.fits {decl : TypeDecl} (h : decl.Lexical) : decl.words.Fits where
  opens := Opens.name (.inr (by split <;> decide)) _
  scans lead rest ws hw := by
    have hbody := hw.typeBody h.body
    have hparent : Closes rest (decl.parentWords ++ (decl.body.words ++ ws)) := by
      unfold parentWords
      split
      · exact hbody
      · next parent hp => exact (h.parent parent hp).fits.after_symbol .space hbody (by decide)
    rw [words, List.cons_append, List.cons_append, List.append_assoc, List.append_assoc]
    refine ((hparent.typeParams h.typeParams).spaced_name rfl (.of_isName h.isName)).name (.of_opens (.inr ?_))
    split <;> decide

theorem FunctionHead.Lexical.scans {head : FunctionHead} (h : head.Lexical) (lead : Lead) {body : Phrase}
    (hb : body.Fits) (hw : Closes rest ws) : Separated rest (head.words lead ++ (body .space ++ ws)) := by
  have hassign : Closes rest (.symbol .space .assign :: (body .space ++ ws)) := hb.after_symbol .space hw (by decide)
  have hparams : Closes rest (.symbol .tight .openParen :: (commas .space (head.params.map Param.words) .tight ++
      .symbol .tight .closeParen :: .symbol .space .assign :: (body .space ++ ws))) :=
    hassign.bracketed (List.forall_mem_map.2 fun p hm => (h.params p hm).fits) (by decide) (by decide) .space .tight
  simp only [FunctionHead.words, List.cons_append, List.append_assoc, List.nil_append]
  exact ((hparams.typeParams h.typeParams).spaced_name rfl (.of_isName h.isName)).name (.of_opens (.inr (by decide)))

end

/-! ### Trees -/

section

variable {ps : List Phrase} {rest : List Char} {ws : List Word}

/-- The statements of a block and its closing brace can be put after a word of any sort. -/
theorem Closes.statements {later last : Lead} (h : Closes rest ws) (hp : ∀ p ∈ ps, p.Fits)
    (hl : later.spaced = true) : Closes rest (Phrase.statements later ps later ++ .symbol last .closeBrace :: ws) :=
  closes_joined (divides_semicolon later) hp
    (h.separated.closer ⟨by decide, .inr (by decide)⟩ h.closing.plain) hl

/-- The opening of a block can be put before its statements. -/
theorem Closes.opening {params : List Param} (h : Closes rest ws) (hp : ∀ p ∈ params, p.Lexical) (lead : Lead) :
    Separated rest (Param.opening params lead ++ ws) := by
  rw [Param.opening, Param.list, List.cons_append]
  split
  · exact h.separated.symbol (by decide) h.closing.plain
  · rw [List.append_assoc, List.singleton_append]
    exact h.enclosed (List.forall_mem_map.2 fun p hm => (hp p hm).fits) (by decide) (by decide) .space .space

theorem Layout.statementLead_spaced (layout : Layout) (n : Nat) : (layout.statementLead n).spaced = true := by
  unfold statementLead
  split
  · rfl
  · split <;> rfl

theorem Closes.capture {name : Option String} (h : Closes rest ws) (hn : ∀ n ∈ name, Printer.isName n) (lead : Lead) :
    Separated rest (.symbol lead .question :: (Word.bound name ++ ws)) := by
  cases name with
  | none => exact h.separated.symbol (by decide) h.closing.plain
  | some text =>
    have ht : IsWord text := .of_isName (hn text rfl)
    have hname : Separated rest (.name .tight text :: ws) := h.name ht
    refine hname.symbol (by decide) ?_
    obtain ⟨c, cs, hc, hs, -⟩ := ht.exists_cons
    rw [render_cons, show (Word.name .tight text).text = c :: cs from hc]
    exact Plain.of_isWordRest (by simp [Token.isWordRest, hs]) _

end

theorem Literal.scans {value : Literal} (h : value.Signed) (hr : value.Restored) : value.words.Scans := by
  intro lead rest ws hw
  cases value with
  | int value =>
    rw [words]
    split
    · next hn =>
      have hv : 0 ≤ -value := h.resolve_left (Int64.not_le.2 hn)
      obtain ⟨c, cs, hc, hd, -⟩ := Word.exists_digits .tight hv
      have hdigits : Separated rest (.int .tight (-value) :: ws) := ⟨Word.ends_int .tight hv hw.closing, hw.separated⟩
      refine hdigits.symbol (by decide) ?_
      rw [render_cons, hc]
      exact Plain.of_isWordRest (by simp [Token.isWordRest, hd c List.mem_cons_self]) _
    · next hn => exact ⟨Word.ends_int lead (Int64.not_lt.1 hn) hw.closing, hw.separated⟩
  | float x =>
    obtain ⟨whole, fraction, hwhole, hf, ⟨hwords, -⟩ | ⟨-, hwords, -⟩⟩ := hr.words_float
    · rw [hwords]
      exact ⟨Word.ends_float lead hwhole hf hw.closing, hw.separated⟩
    · rw [hwords]
      refine Separated.symbol ⟨Word.ends_float .tight hwhole hf hw.closing, hw.separated⟩ (by decide) ?_
      obtain ⟨c, cs, rfl⟩ := List.exists_cons_of_ne_nil hwhole.1
      exact Plain.of_isWordRest (by simp [Token.isWordRest, hwhole.2 c List.mem_cons_self]) _
  | string text => exact ⟨Word.ends_string lead hw.closing.quote, hw.separated⟩
  | bool value => cases value <;> exact hw.name ⟨by decide, by decide⟩

namespace Node

/-- The fields of a construction can be put before all words that can be put after a word of any sort, if the values
can. -/
theorem scans_construct {layout : Layout} {span : Span} {name : Located String} {fields : List (Located String × Node)}
    (asked : Nat) (hname : Printer.isName name.val) (hnames : ∀ field ∈ fields, Printer.isName field.1.val)
    (h : ∀ field ∈ fields, (field.2.words layout 0).Fits) : ((construct span name fields).words layout asked).Scans := by
  intro lead rest ws hw
  rw [words, entryPhrases_eq_map, List.cons_append, List.cons_append, List.append_assoc]
  refine (hw.bracketed (List.forall_mem_map.2 fun f hm => ⟨Opens.labelled (hnames f hm), ?_⟩) (by decide) (by decide)
    .space .space).name (.of_isName hname)
  exact (h f hm).labelled fun _ _ _ hw => hw.name (.of_isName (hnames f hm))

theorem PrintablePattern.words_scan {e : Node} (h : e.PrintablePattern) (layout : Layout) (asked : Nat) :
    (e.words layout asked).Scans := by
  induction h generalizing asked with
  | literal signed restored =>
    rw [words]
    exact Literal.scans signed restored
  | ident isName =>
    intro lead rest ws hw
    rw [words]
    exact hw.name (.of_isName isName)
  | capture isName =>
    intro lead rest ws hw
    rw [words]
    exact hw.capture isName lead
  | refine isName _ hp ih =>
    intro lead rest ws hw
    rw [words, List.cons_append, List.append_assoc]
    exact Closes.capture (Fits.closes ⟨hp.words_opens layout 0, ih 0⟩ hw rfl) isName lead
  | construct isName _ names hf ih =>
    exact scans_construct asked isName names fun f hm => ⟨(hf f hm).words_opens layout 0, ih f hm 0⟩

/-- A pattern begins like a tree and scans. -/
theorem PrintablePattern.fits {e : Node} (h : e.PrintablePattern) (layout : Layout) : (e.words layout 0).Fits where
  opens := h.words_opens layout 0
  scans := h.words_scan layout 0

theorem Printable.words_scan {e : Node} (h : e.Printable) (layout : Layout) (asked : Nat) :
    (e.words layout asked).Scans := by
  induction h generalizing layout asked with
  | literal unsigned restored =>
    rw [words]
    exact Literal.scans unsigned.signed restored
  | ident isName =>
    intro lead rest ws hw
    rw [words]
    exact hw.name (.of_isName isName)
  | @binary span op left right _ hl hr ihl ihr =>
    rw [words]
    refine Fits.encloseBelow ⟨(hl.words_opens _ _).append _, fun lead rest ws hw => ?_⟩ _ _
    rw [List.append_assoc, List.cons_append]
    exact ihl _ _ _ _ _ (Fits.after_operator ⟨hr.words_opens _ _, ihr _ _⟩ op hw)
  | @unary span op operand _ ho ih =>
    rw [words]
    refine Fits.encloseBelow ⟨Opens.symbol (by cases op <;> decide) _, fun lead rest ws hw => ?_⟩ _ _
    exact (ih _ _ _ _ _ hw).symbol (by cases op <;> decide) ((ho.words_opens _ _).plain _ _ _)
  | assign _ ht hv iht ihv =>
    rw [words]
    refine Fits.encloseBelow ⟨(ht.words_opens _ _).append _, fun lead rest ws hw => ?_⟩ _ _
    rw [List.append_assoc, List.cons_append]
    exact iht _ _ _ _ _ (Fits.after_symbol ⟨hv.words_opens _ _, ihv _ _⟩ .space hw (by decide))
  | field _ isName _ ih =>
    intro lead rest ws hw
    rw [words, List.append_assoc]
    exact ih _ _ _ _ _ (hw.member isName)
  | call _ isCallee ha iha =>
    intro lead rest ws hw
    rw [words, phrases_eq_map, List.cons_append, List.cons_append, List.append_assoc]
    refine (hw.bracketed (List.forall_mem_map.2 fun a hm => ?_) (by decide) (by decide) .space .tight).name
      (.of_opens (isCallee.imp_right fun h => by rw [h]; decide))
    exact ⟨(ha a hm).words_opens _ _, iha a hm _ _⟩
  | send _ isName _ ha ih iha =>
    intro lead rest ws hw
    rw [words, phrases_eq_map, List.append_assoc, List.cons_append, List.cons_append,
      List.cons_append, List.append_assoc]
    refine ih _ _ _ _ _ (Closes.member (hw.bracketed (List.forall_mem_map.2 fun a hm => ?_) (by decide) (by decide)
      .space .tight) isName)
    exact ⟨(ha a hm).words_opens _ _, iha a hm _ _⟩
  | @block span params body _ hp hb ihb =>
    intro lead rest ws hw
    rw [words, phrases_eq_map, List.append_assoc, List.append_assoc]
    refine Closes.opening (hw.statements (List.forall_mem_map.2 fun s hm => ?_)
      (layout.statementLead_spaced _)) hp lead
    exact ⟨(hb s hm).words_opens _ _, ihb s hm _ _⟩
  | @cases span scrutinee arms _ hs hp ha ihs iha =>
    intro lead rest ws hw
    rw [words, armPhrases_eq_map, List.cons_append, List.append_assoc, List.cons_append, List.append_assoc]
    refine Closes.name (Fits.closes ⟨hs.words_opens layout 1, ihs layout 1⟩ ?_ rfl) (.of_opens (.inr (by decide)))
    refine hw.bracketed (List.forall_mem_map.2 fun a hm => ?_) (by decide) ⟨by decide, .inr (by decide)⟩ _ _
    exact ⟨((hp a hm).words_opens _ _).arm, ((hp a hm).fits layout.deeper).arm ⟨(ha a hm).words_opens _ _, iha a hm _ _⟩⟩
  | construct _ isName _ names hf ihf =>
    exact scans_construct asked isName names fun f hm => ⟨(hf f hm).words_opens layout 0, ihf f hm layout 0⟩
  | typeDecl lexical =>
    rw [words]
    exact lexical.fits.scans
  | function _ lexical hb ih =>
    intro lead rest ws hw
    rw [words, List.append_assoc]
    exact lexical.scans lead ⟨hb.words_opens layout 1, ih layout 1⟩ hw
  | capture printable | refine printable => exact printable.words_scan layout asked
  | quoted _ hb ih =>
    intro lead rest ws hw
    rw [words]
    exact (ih _ _ _ _ _ hw).hash (hb.words_opens _ _)
  | array _ he ihe =>
    intro lead rest ws hw
    rw [words, phrases_eq_map, List.cons_append, List.append_assoc]
    exact hw.enclosed (List.forall_mem_map.2 fun e hm => ⟨(he e hm).words_opens layout 0, ihe e hm layout 0⟩)
      (by decide) (by decide) .space .tight
  | @object span entries _ he ihe =>
    intro lead rest ws hw
    rw [words, entryPhrases_eq_map, List.cons_append, List.append_assoc]
    -- An object without entries has a colon between its brackets.
    split
    · have hclose : Closes rest (.symbol .tight .closeBracket :: ws) :=
        hw.separated.closer (by decide) hw.closing.plain
      have hcolon : Separated rest (.symbol .tight .colon :: .symbol .tight .closeBracket :: ws) :=
        hclose.separated.symbol (by decide) hclose.closing.plain
      exact hcolon.symbol (by decide) (Plain.cons (by decide) _)
    · refine hw.enclosed (List.forall_mem_map.2 fun e hm => ⟨Opens.key _, ?_⟩) (by decide) (by decide) .space .tight
      exact Fits.labelled ⟨(he e hm).words_opens layout 0, ihe e hm layout 0⟩ fun _ _ _ hw => hw.key
  | pair _ hk hv ihk ihv =>
    intro lead rest ws hw
    rw [words, List.append_assoc, List.cons_append]
    exact ihk _ _ _ _ _ (Fits.after_symbol ⟨hv.words_opens layout 0, ihv layout 0⟩ .space hw (by decide))

/-- A printable tree begins like a tree and scans. -/
theorem Printable.fits {e : Node} (h : e.Printable) (layout : Layout) : (e.words layout 0).Fits where
  opens := h.words_opens layout 0
  scans := h.words_scan layout 0

end Node

/-! ## The lexemes of a text -/

def Lead.touches : Lead → Bool
  | .tight => true
  | _ => false

/-- Whether a lexeme is a word. -/
structure Lexeme.Is (l : Lexeme) (w : Word) : Prop where
  /-- It has the token of the word. -/
  token : l.token = w.token
  /-- It begins a line if the word does. -/
  afterBreak : l.afterBreak = w.lead.breaks
  /-- It touches the lexeme before it if the word does. -/
  touches : w.lead ≠ .start → l.touches = w.lead.touches

/-- Whether lexemes are words, followed by the end of the text. -/
inductive Lexeme.Are : List Lexeme → List Word → Prop where
  /-- The end of the text is no word. -/
  | eof {l : Lexeme} (token : l.token = .eof) : Are [l] []
  /-- The first lexeme is the first word. -/
  | word {l : Lexeme} {ls : List Lexeme} {w : Word} {ws : List Word} (here : l.Is w)
    (ahead : Are ls ws) : Are (l :: ls) (w :: ws)

namespace Token

theorem scanFrom_blanks {bs : List Char} (hb : ∀ b ∈ bs, isBlank b = true) (p : Place) (gap : Gap)
    (cs : List Char) :
    ∃ q gap', scanFrom p gap (bs ++ cs) = scanFrom q gap' cs ∧ gap'.started = gap.started ∧
      gap'.broken = (gap.broken || bs.contains '\n') ∧ gap'.wide = (gap.wide || !bs.isEmpty) := by
  induction bs generalizing p gap with
  | nil => exact ⟨p, gap, rfl, rfl, by simp, by simp⟩
  | cons b bs ih =>
    obtain ⟨hbb, hbs⟩ := List.forall_mem_cons.1 hb
    obtain ⟨q, gap', hq, hs, hn, hw⟩ := ih hbs (p.advance b) (gap.pass [b])
    refine ⟨q, gap', ?_, hs, ?_, ?_⟩
    · have hp : piece b (bs ++ cs) = (none, 0) := if_pos hbb
      rw [List.cons_append, scanFrom, hp]
      exact hq
    · rw [hn]
      simp [Gap.pass, Bool.or_assoc]
    · rw [hw]
      simp [Gap.pass]

theorem isBlank_of_mem_chars {lead : Lead} : ∀ b ∈ lead.chars, isBlank b = true := by
  intro b hb
  cases lead with
  | start | tight => cases hb
  | space | wide =>
    simp only [Lead.chars, List.mem_cons, List.not_mem_nil, or_false, or_self] at hb
    obtain rfl := hb
    decide
  | line depth =>
    simp only [Lead.chars, Layout.margin, String.toList_ofList, List.mem_cons,
      List.mem_replicate] at hb
    obtain rfl | ⟨-, rfl⟩ := hb <;> decide

theorem contains_chars (lead : Lead) : lead.chars.contains '\n' = lead.breaks := by
  cases lead <;> simp [Lead.chars, Lead.breaks]

theorem isEmpty_chars {lead : Lead} (h : lead ≠ .start) : lead.chars.isEmpty = lead.touches := by
  cases lead with
  | start => exact absurd rfl h
  | _ => rfl

theorem scanFrom_word {w : Word} {cs : List Char} (h : w.Ends cs) (p : Place) (gap : Gap) :
    ∃ q r, scanFrom p gap (w.text ++ cs) = lexeme w.token q r gap :: scanFrom r .closed cs := by
  obtain ⟨d, ds, ht, hp⟩ := h
  refine ⟨p, p.advanceAll (d :: (ds ++ cs).take ds.length), ?_⟩
  rw [ht, List.cons_append, scanFrom, hp]
  simp

/-- The lexemes of a text made of words that end where they should are these words. Blanks at the end of
the text do not count. -/
theorem are_scanFrom {rest : List Char} (hr : ∀ b ∈ rest, isBlank b = true) {ws : List Word}
    (h : Separated rest ws) (p : Place) (gap : Gap) (hg : gap.broken = false) (hw : gap.wide = false)
    (hs : gap.started = false → ∀ w ∈ ws.head?, w.lead = .start) :
    Lexeme.Are (scanFrom p gap (render ws ++ rest)) ws := by
  induction ws generalizing p gap with
  | nil =>
    obtain ⟨q, gap', hq, -⟩ := scanFrom_blanks hr p gap []
    rw [List.append_nil] at hq
    rw [render_nil, List.nil_append, hq, scanFrom]
    exact .eof rfl
  | cons w ws ih =>
    obtain ⟨hends, hws⟩ := h
    obtain ⟨q, gap', hq, hs', hn, hw'⟩ :=
      scanFrom_blanks isBlank_of_mem_chars p gap (w.text ++ (render ws ++ rest))
    obtain ⟨r, r', hr'⟩ := scanFrom_word hends q gap'
    rw [render_cons, List.append_assoc, List.append_assoc, hq, hr']
    rw [contains_chars, hg, Bool.false_or] at hn
    rw [hw, Bool.false_or] at hw'
    refine .word ⟨rfl, ?_, fun hstart => ?_⟩ (ih hws r' .closed rfl rfl fun h => absurd h (by decide))
    · show (gap'.started && gap'.broken) = _
      rw [hs', hn]
      cases hst : gap.started with
      | true => rw [Bool.true_and]
      | false =>
        rw [Bool.false_and, hs hst w rfl]
        rfl
    · show (gap'.started && !gap'.wide) = _
      have hst : gap.started = true := by
        by_contra hst
        exact hstart (hs (Bool.not_eq_true _ ▸ hst) w rfl)
      rw [hs', hst, hw', Bool.not_not, Bool.true_and, isEmpty_chars hstart]

/-- The lexemes of a text made of words that end where they should are these words. -/
theorem scan_render {rest : List Char} (hr : ∀ b ∈ rest, isBlank b = true) {ws : List Word}
    (h : Separated rest ws) (hl : ∀ w ∈ ws.head?, w.lead = .start) {source : String}
    (ht : source.toList = render ws ++ rest) : Lexeme.Are (scan source) ws := by
  rw [scan, ht]
  exact are_scanFrom hr h .origin .initial rfl rfl fun _ => hl

end Token

end DispatchLang
