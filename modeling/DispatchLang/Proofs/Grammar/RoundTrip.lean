import DispatchLang.Proofs.Grammar.Legibility
import DispatchLang.Proofs.Grammar.Statements
import DispatchLang.Proofs.Node.Parts

/-!
# Printing and reading again

A printable program that is printed and read again is the same program, but for the places of its parts. The three parts
of the argument are one module each: the text is made of words (`Node.Printable.spells_words`), the scanner finds these
words in it (`Node.Printable.words_scan`), and the words read as the tree (`Node.Printable.readsAs`). What is read from a
text is printable unless the printer slips at one of its nodes (`Program.printable_of_parse`).

Where the printer does slip this fails. Quoting is printed without regard to its precedence, so that a member of a
quoted name comes back as the quoted member.

A string is printed between quotes, with an escape for every character that could end the literal or be taken for an
escape itself. The scanner knows nothing of escapes but that a backslash and the character after it belong together,
so it finds the closing quote where the printer has put it, and what the escapes stand for is the string again. The key
of an entry is printed as a name if it is one, and as a string otherwise. The keys that are spelled like reserved words
have to be strings: a reserved word begins some other expression or none.

## Main results

* `Node.parse_inlineText`: an expression of the core, printed on one line.
* `Program.parse_text`: a legible program, printed on lines.
* `Printer.literals_read`: strings and keys are read as what they were printed for.
-/

namespace DispatchLang

open Grammar Reader Phrase

/-! ## Reading programs -/

theorem Lexeme.Are.length_eq {ls : List Lexeme} {ws : List Word} (h : Lexeme.Are ls ws) :
    ls.length = ws.length + 1 := by
  induction h with
  | eof => rfl
  | word _ _ ih => rw [List.length_cons, ih, List.length_cons]

theorem Lexeme.Are.on_start {ls : List Lexeme} {ws : List Word} (h : Lexeme.Are ls ws) :
    (Cursor.start ls).On ws := by
  cases h with
  | eof token => exact .eof token
  | word here ahead => exact .word here ahead

section

variable {later lead : Lead} {layout : Layout} {es : List Node}

/-- Statements are read as a program. -/
theorem accepts_program {n : Nat} (h : Readable layout es)
    (hn : (joined (semicolon later) later (es.map (Node.words layout 0)) lead).length < n) :
    Accepts (program n) (joined (semicolon later) later (es.map (Node.words layout 0)) lead) []
      fun es' => es'.map Node.erase = es.map Node.erase := by
  rw [program, ← List.append_nil (joined (semicolon later) later _ lead)]
  refine accepts_statements false ?_ ?_ (fun e he => .nil he rfl) ?_ h true lead (by simpa using hn) (by simpa using hn)
  · intro first
    refine (Accepts.skipWhile rfl).bind fun _ _ => ?_
    refine (Accepts.here_token.bind fun l hl => Accepts.pure (P := (· = true)) ?_).bind fun b hb => ?_
    · rw [hl]
      rfl
    · rw [hb]
      exact Accepts.pure rfl
  · refine Accepts.here_token.bind fun l hl => ?_
    rw [hl]
    exact Accepts.pure trivial
  · intro first lead e ws ws' hopens hreads hs hf hk hend
    refine (Accepts.skipWhile (hopens.not_symbol _ _ (by decide))).bind fun _ _ => ?_
    refine (accepts_atEnd hopens _ _).bind fun b hb => ?_
    rw [hb]
    exact accepts_statement hreads hs hf hk hend

/-- A text whose lexemes are the words of statements is read as these statements. -/
theorem parse_statements {source : String} (h : Readable layout es)
    (hs : Lexeme.Are (Token.scan source) (joined (semicolon later) later (es.map (Node.words layout 0)) lead)) :
    ∃ es', Program.parse source = .ok es' ∧ es'.map Node.erase = es.map Node.erase := by
  have hn : (joined (semicolon later) later (es.map (Node.words layout 0)) lead).length <
      (Token.scan source).length + 1 := by
    rw [hs.length_eq]
    omega
  obtain ⟨es', c, hes, -, he⟩ := accepts_program h hn _ hs.on_start
  refine ⟨es', ?_, he⟩
  rw [Program.parse, Grammar.parse, hes]
  rfl

end

/-! ## Main results -/

theorem joined_start {between : Phrase → List Word} {later : Lead} {ps : List Phrase}
    (hp : ∀ p ∈ ps, p.Opens) : ∀ w ∈ (joined between later ps .start).head?, w.lead = .start := by
  cases ps with
  | nil => exact nofun
  | cons p ps =>
    obtain ⟨w, ws, h, hl, -⟩ := (hp p List.mem_cons_self).head .start
    rw [joined, h]
    rintro v hv
    obtain rfl := Option.some.inj hv
    exact hl

/-- Statements that are written down, perhaps with blanks after them, are read as these statements. -/
theorem parse_render {later : Lead} {layout : Layout} {es : List Node} {source : String}
    {rest : List Char} (h : Readable layout es) (hr : ∀ b ∈ rest, Token.isBlank b = true)
    (hc : Closing rest)
    (ht : source.toList =
      render (joined (semicolon later) later (es.map (Node.words layout 0)) .start) ++ rest) :
    ∃ es', Program.parse source = .ok es' ∧ es'.map Node.erase = es.map Node.erase := by
  have hf : ∀ p ∈ es.map (Node.words layout 0), p.Fits :=
    List.forall_mem_map.2 fun e hm => (h.printable e hm).fits layout
  have hw : Closes rest [] := ⟨trivial, hc⟩
  have hs := separated_joined (divides_semicolon later) hf hw .start
  rw [List.append_nil] at hs
  exact parse_statements h (Token.scan_render hr hs (joined_start fun p hp => (hf p hp).opens) ht)

/-- A printable tree that is printed alone and read again is one statement, the same tree but for the places of its
parts. -/
theorem Node.Printable.parse_print {e : Node} (h : e.Printable) (hpair : e.endsInPair = false) (layout : Layout) :
    ∃ e', Program.parse (e.print layout 0) = .ok [e'] ∧ e'.erase = e.erase := by
  have ht : (e.print layout 0).toList =
      render (joined (semicolon .space) .space ([e].map (words layout 0)) .start) ++ [] := by
    rw [List.append_nil, List.map_singleton, joined, tail_nil, List.append_nil, h.spells_words layout 0 .start]
    rfl
  have hreadable : Readable layout [e] :=
    .of_printable (List.forall_mem_singleton.2 h) (List.forall_mem_singleton.2 hpair) rfl
  obtain ⟨es', hes, he⟩ := parse_render hreadable (fun _ hb => absurd hb List.not_mem_nil) Closing.nil ht
  obtain ⟨e', t, rfl, he', ht⟩ := List.map_eq_cons_iff.1 he
  obtain rfl := List.map_eq_nil_iff.1 ht
  exact ⟨e', hes, he'⟩

/-- An expression of the core that is printed on one line and read again is one statement, the same
expression but for the places of its parts. -/
theorem Node.parse_inlineText {e : Node} (h : e.Core) :
    ∃ e', Program.parse e.inlineText = .ok [e'] ∧ e'.erase = e.erase :=
  h.printable.parse_print h.endsInPair_eq_false .inline

/-- The tree of `{ x, y | z := (x + y) ^ 2; -z.abs() }`. -/
def Node.squaring : Node :=
  .block .nowhere [⟨⟨"x", .nowhere⟩, none⟩, ⟨⟨"y", .nowhere⟩, none⟩]
    [.assign .nowhere (.ident .nowhere "z")
      (.binary .nowhere .pow
        (.binary .nowhere .add (.ident .nowhere "x") (.ident .nowhere "y"))
        (.literal .nowhere (.int 2))),
     .unary .nowhere .neg (.send .nowhere (.ident .nowhere "z") ⟨"abs", .nowhere⟩ [])]

theorem Node.squaring_core : squaring.Core := by
  refine .block (by decide) ?_
  simp only [List.forall_mem_cons]
  refine ⟨.assign (by decide) (.binary ?_ (.int (by decide))), .unary (.send ?_ ?_ nofun), nofun⟩
  · exact .binary (.ident (by decide)) (.ident (by decide))
  · decide
  · exact .ident (by decide)

/-- A closure that is written as the printer writes it is read as its tree. -/
theorem Node.parse_squaring :
    ∃ e', Program.parse "\x7b x, y | z := (x + y) ^ 2; -z.abs() \x7d" = .ok [e'] ∧
      e'.erase = squaring.erase := by
  have h := Node.parse_inlineText squaring_core
  rwa [show squaring.inlineText = "\x7b x, y | z := (x + y) ^ 2; -z.abs() \x7d" by decide +kernel] at h

/-- A printable program that is printed and read again is the same program, but for the places of its parts. -/
theorem Program.parse_text_of_printable {program : Program} (hp : ∀ e ∈ program, e.Printable)
    (hpairs : ∀ e ∈ program, e.endsInPair = false) (happ : Node.stayApart program = true) :
    ∃ program', Program.parse program.text = .ok program' ∧ program'.erase = program.erase := by
  have ht := Program.text_eq hp
  rw [Program.words, Node.phrases_eq_map] at ht
  have hb : ∀ b ∈ (if program.isEmpty then [] else ['\n']), Token.isBlank b = true := by
    split
    · exact fun _ hb => absurd hb List.not_mem_nil
    · exact List.forall_mem_singleton.2 (by decide)
  have hc : Closing (if program.isEmpty then [] else ['\n']) := by
    split
    · exact Closing.nil
    · exact Closing.cons (by decide) (by decide) _
  obtain ⟨program', hparse, he⟩ := parse_render (.of_printable hp hpairs happ) hb hc ht
  exact ⟨program', hparse, by rwa [Program.erase, Program.erase, Node.eraseAll_eq_map, Node.eraseAll_eq_map]⟩

/-- A legible program that is printed and read again is the same program, but for the places of its parts, if its numbers
are read as what they are printed for. -/
theorem Program.parse_text {source : String} {program : Program} (hparse : Program.parse source = .ok program)
    (hlegible : program.isLegible = true)
    (hfloats : ∀ span x, Node.literal span (.float x) ∈ program.nodes →
      Decimal.readFloat? (Printer.floatLiteral x) = some x) :
    ∃ program', Program.parse program.text = .ok program' ∧ program'.erase = program.erase :=
  parse_text_of_printable (printable_of_parse hparse hlegible hfloats) (parse_wellFormed hparse).2
    (Bool.and_eq_true_iff.1 hlegible).2

theorem exists_of_any_toOption {ε α : Type} {x : Except ε α} {f : α → Bool}
    (h : x.toOption.any f = true) : ∃ a, x = .ok a ∧ f a = true := by
  cases x with
  | ok a => exact ⟨a, rfl, h⟩
  | error e => cases h

def Node.readsBack : Node → Bool
  | .literal _ (.float x) => decide (Decimal.readFloat? (Printer.floatLiteral x) = some x)
  | _ => true

/-- A program with nodes of many sorts, its text, and what is read from that. -/
theorem Program.parse_lines :
    ∃ program program', Program.parse
        "type C \x7b r: T \x7d; fn g(k) := [y: #k]\nP \x7b x: ?a \x7d := C \x7b r: 1.5 \x7d; (x := 1) + 2
match (x) \x7b -1 => \x7b u: Int | u.max(!b) \x7d \x7d" =
          .ok program ∧
      program.text =
        "type C \x7b r: T \x7d\nfn g(k) := [y: #k]\nP \x7b x: ?a \x7d := C \x7b r: 1.5 \x7d;\n(x := 1) + 2
match x \x7b\n    -1 => \x7b u: Int | u.max(!b) \x7d\n\x7d\n" ∧
      Program.parse program.text = .ok program' ∧ program'.erase = program.erase := by
  have h : (Program.parse
      "type C \x7b r: T \x7d; fn g(k) := [y: #k]\nP \x7b x: ?a \x7d := C \x7b r: 1.5 \x7d; (x := 1) + 2
match (x) \x7b -1 => \x7b u: Int | u.max(!b) \x7d \x7d").toOption.any
      (fun p => (p.isLegible && p.nodes.all Node.readsBack) && p.text ==
        "type C \x7b r: T \x7d\nfn g(k) := [y: #k]\nP \x7b x: ?a \x7d := C \x7b r: 1.5 \x7d;\n(x := 1) + 2
match x \x7b\n    -1 => \x7b u: Int | u.max(!b) \x7d\n\x7d\n") =
        true := by decide +kernel
  obtain ⟨program, hparse, h⟩ := exists_of_any_toOption h
  simp only [Bool.and_eq_true, List.all_eq_true, beq_iff_eq] at h
  obtain ⟨program', hread, herase⟩ := Program.parse_text hparse h.1.1 fun span x hm => of_decide_eq_true (h.1.2 _ hm)
  exact ⟨program, program', hparse, h.2, hread, herase⟩

/-! ## Where it fails -/

theorem Node.isQuoted_erase (e : Node) : e.erase.isQuoted = e.isQuoted := by
  cases e <;> rfl

/-- The text of a program need not be read as the program. A construction that is matched on is printed
without the parentheses it needs, and a quoted name that is asked for a member without the ones that keep the
member out of the quote. -/
theorem Program.text_unfaithful :
    (∃ p e, Program.parse "match (P \x7b x: 1 \x7d) \x7b ? => 0 \x7d" = .ok p ∧
      Program.parse p.text = .error e) ∧
    ∃ p p', Program.parse "(#x).y" = .ok p ∧ Program.parse p.text = .ok p' ∧ p'.erase ≠ p.erase := by
  constructor
  · have h : (Program.parse "match (P \x7b x: 1 \x7d) \x7b ? => 0 \x7d").toOption.any
        (fun p => !(Program.parse p.text).isOk) = true := by decide +kernel
    obtain ⟨p, hp, h⟩ := exists_of_any_toOption h
    cases he : Program.parse p.text with
    | ok p' => rw [he] at h; cases h
    | error e => exact ⟨p, e, hp, he⟩
  · have h : (Program.parse "(#x).y").toOption.any (fun p => (Program.parse p.text).toOption.any
        fun p' => p'.map Node.isQuoted != p.map Node.isQuoted) = true := by decide +kernel
    obtain ⟨p, hp, h⟩ := exists_of_any_toOption h
    obtain ⟨p', hp', h⟩ := exists_of_any_toOption h
    refine ⟨p, p', hp, hp', fun he => ?_⟩
    have hq := congrArg (List.map Node.isQuoted) he
    simp only [Program.erase, Node.eraseAll_eq_map, List.map_map, Function.comp_def,
      Node.isQuoted_erase] at hq
    exact absurd h (by simp [hq])

/-! ## Strings -/

theorem Escape.unescape_escape (text : String) : unescape (escape text) = text := by
  rw [unescape, escape, String.toList_ofList, decode_encode, String.ofList_toList]

/-- What is printed for a string is scanned as that string alone. -/
theorem Token.tokens_quote (text : String) :
    (scan (Printer.quote text)).map Lexeme.token = [.string text, .eof] := by
  have hends : (Word.string .start text).Ends [] := Word.ends_string .start (by simp)
  obtain ⟨q, r, hscan⟩ := scanFrom_word hends .origin .initial
  rw [List.append_nil] at hscan
  have htext : (Word.string .start text).text = (Printer.quote text).toList := rfl
  rw [scan, ← htext, hscan, scanFrom]
  rfl

/-! ## Objects with a single entry -/

def Node.entry (span keySpan valueSpan : Span) (key : String) : Node :=
  .object span [(⟨key, keySpan⟩, .literal valueSpan (.int 1))]

section

variable {span keySpan valueSpan : Span} {key : String}

theorem Node.printable_entry : (entry span keySpan valueSpan key).Printable := by
  have hvalue : Printable (.literal valueSpan (.int 1)) := .literal (show (0 : Int64) ≤ 1 by decide) trivial
  exact .object ⟨wellFormed_of_pairs nofun nofun (List.forall_mem_singleton.2 nofun), rfl, nofun⟩
    (List.forall_mem_singleton.2 hvalue)

/-- Whatever differs from such an object in its places only is one with the same key. -/
theorem Node.exists_of_erase_entry {e : Node} (h : e.erase = (entry span keySpan valueSpan key).erase) :
    ∃ span' keySpan' valueSpan', e = entry span' keySpan' valueSpan' key := by
  cases e with
  | object span' entries =>
    rw [entry, erase, erase, eraseEntries_eq_map, eraseEntries_eq_map, Node.object.injEq] at h
    obtain ⟨⟨⟨name, keySpan'⟩, value⟩, rest, rfl, hentry, hrest⟩ := List.map_eq_cons_iff.1 h.2
    obtain rfl := List.map_eq_nil_iff.1 hrest
    obtain ⟨hname, hvalue⟩ := Prod.mk.inj hentry
    obtain rfl : name = key := congrArg Located.val hname
    cases value with
    | literal valueSpan' value =>
      rw [erase, erase, Node.literal.injEq] at hvalue
      obtain rfl := hvalue.2
      exact ⟨_, _, _, rfl⟩
    | _ => cases hvalue
  | _ => cases h

end

/-- What is printed for a string stands for the string and is scanned as that string alone; and what is printed for an
object with a single entry, in either layout or as a program, is read as an object with that entry, whatever the key
is. -/
theorem Printer.literals_read :
    (∀ text, Escape.unescape (Escape.escape text) = text) ∧
    (∀ text, (Token.scan ("\"" ++ Escape.escape text ++ "\"")).map Lexeme.token = [.string text, .eof]) ∧
    ∀ key span keySpan valueSpan,
      let node : Node := .object span [(⟨key, keySpan⟩, .literal valueSpan (.int 1))]
      let Reads (text : String) : Prop := ∃ span' keySpan' valueSpan',
        Program.parse text = .ok [.object span' [(⟨key, keySpan'⟩, .literal valueSpan' (.int 1))]]
      (∀ layout asked, Reads (node.print layout asked)) ∧ Reads (Program.text [node]) := by
  refine ⟨Escape.unescape_escape, Token.tokens_quote, fun key span keySpan valueSpan => ?_⟩
  intro node Reads
  have hprintable : node.Printable := Node.printable_entry
  constructor
  · intro layout asked
    obtain ⟨e, hparse, he⟩ := hprintable.parse_print rfl layout
    obtain ⟨span', keySpan', valueSpan', rfl⟩ := Node.exists_of_erase_entry he
    exact ⟨span', keySpan', valueSpan', hparse⟩
  · obtain ⟨program, hparse, he⟩ := @Program.parse_text_of_printable [node] (List.forall_mem_singleton.2 hprintable)
      (List.forall_mem_singleton.2 rfl) rfl
    rw [Program.erase, Program.erase, Node.eraseAll_eq_map, Node.eraseAll_eq_map] at he
    obtain ⟨e, rest, rfl, hentry, hrest⟩ := List.map_eq_cons_iff.1 he
    obtain rfl := List.map_eq_nil_iff.1 hrest
    obtain ⟨span', keySpan', valueSpan', rfl⟩ := Node.exists_of_erase_entry hentry
    exact ⟨span', keySpan', valueSpan', hparse⟩

end DispatchLang
