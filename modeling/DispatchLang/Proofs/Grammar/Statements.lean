import DispatchLang.Proofs.Grammar.ReadingForms

/-!
# Reading printed statements

Statements stand on lines of their own or are divided by semicolons, and a block may begin with the names
of parameters. The printer writes a semicolon where the next line would be taken for the rest of the
statement before it, and never anything that could be taken for parameters. It does not look at braces, so a line that
begins with one may be taken for the fields of the type or of the construction that ends the line before; statements that
*stay apart* are those of which this is not true.

## Main results

* `accepts_statements`: the statements of a block or a program, read one after another.
* `Node.Printable.readsAs`: the words of a printable tree read as the tree.
-/

namespace DispatchLang

open Grammar Reader Phrase

/-! ## Ends of statements -/

theorem Phrase.Opens.not_continuesLine {p : Phrase} (h : p.Opens) (hn : p.opensContinuation = false)
    (lead : Lead) : ∃ w ws, p lead = w :: ws ∧ w.lead = lead ∧ w.token.continuesLine = false := by
  obtain ⟨w, hw, hp⟩ := h
  obtain ⟨ws, hlead⟩ := hp lead
  obtain ⟨vs, htight⟩ := hp .tight
  refine ⟨_, ws, hlead, rfl, ?_⟩
  rw [opensContinuation, htight] at hn
  cases hw with
  | int | float | string => rfl
  | name =>
    simp only [Word.name, Token.ofWord]
    split <;> rfl
  | symbol opening =>
    simp only [Symbol.openers, List.mem_cons, List.not_mem_nil, or_false] at opening
    obtain rfl | rfl | rfl | rfl | rfl | rfl | rfl := opening
    all_goals first | rfl | (simp [Printer.opensContinuation, Word.symbol, Symbol.text, Lead.chars] at hn)

/-! ## Parameters -/

section

variable {ws : List Word} {n : Nat}

/-- Words that are not taken for parameters: a name at their beginning is followed neither by a comma nor by
a bar, nor by a colon. -/
def NoParams : List Word → Prop
  | [] => True
  | w :: ws => Reader.isName w.token = true → NoneOf [.comma, .bar, .colon] ws

theorem NoParams.symbol {lead : Lead} {s : Symbol} : NoParams (.symbol lead s :: ws) := nofun

theorem NoParams.encloseBelow {p : Phrase} {asked own : Nat} {lead : Lead}
    (h : NoParams (p lead ++ ws)) : NoParams (p.encloseBelow asked own lead ++ ws) := by
  unfold Phrase.encloseBelow
  split
  · exact NoParams.symbol
  · exact h

/-- Words that are not taken for parameters are not taken for fields either. -/
theorem NoParams.beginsFields {lead : Lead} (h : NoParams ws) : beginsFields (.symbol lead .openBrace :: ws) = false := by
  cases ws with
  | nil => rfl
  | cons w ws =>
    cases ws with
    | nil => rfl
    | cons v ws =>
      show (true && (isName w.token && isSymbol .colon v.token)) = false
      rw [Bool.true_and, Bool.and_eq_false_imp]
      exact fun hn => h hn .colon (by decide)

theorem refuses_closureParams (h : NoParams ws) : Refuses (closureParams (n + 1)) ws := by
  cases ws with
  | nil => exact Refuses.bind_first (Refuses.bind_first (Refuses.name rfl))
  | cons w ws =>
    cases ht : w.token with
    | ident text =>
      have hnone := h (by rw [ht]; rfl)
      have htype : Accepts (typeAfter .colon (n + 1)) ws ws fun _ => True := by
        refine (Accepts.accept_neg (hnone .colon (by decide))).bind fun b hb => ?_
        rw [hb]
        exact Accepts.pure trivial
      have hparam : Accepts (param (n + 1)) (w :: ws) ws fun _ => True :=
        (Accepts.name_of_token ht).bind fun _ _ => htype.bind fun _ _ => Accepts.pure trivial
      refine Refuses.bind hparam fun _ _ => Refuses.bind (Accepts.accept_neg (hnone .comma (by decide))) fun b hb => ?_
      rw [hb]
      exact Refuses.bind_first (Refuses.expect (hnone .bar (by decide)))
    | _ =>
      refine Refuses.bind_first (Refuses.bind_first (Refuses.name ?_))
      show Reader.isName w.token = false
      rw [ht]
      rfl

theorem Literal.noParams {value : Literal} (hs : value.Signed) (hr : value.Restored) {lead : Lead} :
    NoParams (value.words lead ++ ws) := by
  by_cases hu : value.Unsigned
  · obtain ⟨w, hw, hwords⟩ := words_eq hu hr
    rw [hwords]
    intro hn
    have hn : Reader.isName w.token = true := hn
    generalize w.token = token at hn hw
    cases token with
    | ident => cases hw
    | _ => cases hn
  · obtain ⟨w, -, hwords⟩ := words_eq_neg hs hu hr
    rw [hwords]
    exact NoParams.symbol

/-- A pattern is not taken for parameters unless what follows it makes it one. -/
theorem Node.PrintablePattern.noParams {e : Node} (h : e.PrintablePattern) {layout : Layout} {asked : Nat} {lead : Lead}
    (hw : NoneOf [.comma, .bar, .colon] ws) : NoParams (e.words layout asked lead ++ ws) := by
  cases h with
  | literal signed restored =>
    rw [words]
    exact Literal.noParams signed restored
  | ident =>
    rw [words]
    exact fun _ => hw
  | capture | refine =>
    rw [words]
    exact NoParams.symbol
  | construct =>
    rw [words_construct]
    exact fun _ => NoneOf.symbol (by decide)

/-- A tree is not taken for parameters unless what follows it makes it one. -/
theorem Node.Printable.noParams {e : Node} (h : e.Printable) (hp : e.endsInPair = false) {layout : Layout} {asked : Nat}
    {lead : Lead} (hw : NoneOf [.comma, .bar, .colon] ws) : NoParams (e.words layout asked lead ++ ws) := by
  induction h generalizing asked lead ws with
  | literal unsigned restored =>
    rw [words]
    exact Literal.noParams unsigned.signed restored
  | ident =>
    rw [words]
    exact fun _ => hw
  | @binary span op left right hl _ _ ih _ =>
    rw [words]
    refine NoParams.encloseBelow ?_
    rw [List.append_assoc]
    exact ih (Stands.left_endsInPair hl) (.symbol (by cases op <;> decide))
  | @assign span target value hl _ _ ih _ =>
    have htarget := hl.wellFormed.target rfl
    rw [words]
    refine NoParams.encloseBelow ?_
    rw [List.append_assoc]
    exact ih (by cases target <;> first | rfl | cases htarget) (.symbol (by decide))
  | field hl _ _ ih | send hl _ _ _ ih _ =>
    rw [words, List.append_assoc]
    exact ih (hl.endsInPair_eq_false List.mem_cons_self (fun hm => by cases hm)) (.symbol (by decide))
  | call =>
    rw [words]
    exact fun _ => .symbol (by decide)
  | construct =>
    rw [words_construct]
    exact fun _ => .symbol (by decide)
  | unary =>
    rw [words]
    exact NoParams.encloseBelow NoParams.symbol
  | capture | refine | array | object | quoted | block =>
    rw [words]
    exact NoParams.symbol
  | cases | function =>
    rw [words]
    exact fun hn => by cases hn
  | typeDecl =>
    rw [words]
    intro hn
    have hkeyword (b : Bool) : isName (Token.ofWord (if b then "abstract" else "type")) = false := by
      cases b <;> rfl
    exact absurd hn (ne_of_eq_of_ne (hkeyword _) Bool.false_ne_true)
  | pair => cases hp

end

/-! ## Lines that begin with a brace -/

namespace Node

theorem beginsIn_self {p : Node → Bool} {e : Node} {asked : Nat} (h : p e = true) : e.beginsIn p asked = true := by
  unfold beginsIn
  rw [h, Bool.true_or]

/-- A tree whose words begin with a brace begins with a closure. -/
theorem Printable.begins_block {e : Node} (h : e.Printable) (hp : e.endsInPair = false) {layout : Layout} {asked : Nat}
    {lead : Lead} {ws : List Word}
    (hb : isSymbol .openBrace (headToken (e.words layout asked lead ++ ws)) = true) :
    ∃ span params body vs, Printable (Node.block span params body) ∧
      (∀ p, p (Node.block span params body) = true → e.beginsIn p asked = true) ∧
      e.words layout asked lead ++ ws = (Node.block span params body).words layout 0 lead ++ vs := by
  -- Only closures begin with a brace; the forms whose first part is a tree pass the question on to it.
  have hname {text : String} {vs : List Word} (h : isSymbol .openBrace (headToken (.name lead text :: vs)) = true) :
      False := by
    have hno : NoneOf [.openBrace] (.name lead text :: vs) := NoneOf.name
    rw [hno .openBrace (by decide)] at h
    cases h
  induction h generalizing asked ws with
  | literal unsigned restored =>
    obtain ⟨w, hw, hwords⟩ := Literal.words_eq unsigned restored
    rw [words, hwords] at hb
    have hb : isSymbol .openBrace w.token = true := hb
    generalize w.token = token at hw hb
    cases token with
    | symbol => cases hw
    | _ => cases hb
  | ident | call | construct =>
    rw [words] at hb
    exact (hname hb).elim
  | cases | function | typeDecl =>
    rw [words] at hb
    exact (hname hb).elim
  | capture | refine | array | object | quoted =>
    rw [words] at hb
    cases hb
  | @binary span op left right hl _ _ ih _ =>
    rw [words, encloseBelow] at hb ⊢
    by_cases ha : Printer.precedence op < asked
    · rw [if_pos ha] at hb
      cases hb
    · rw [if_neg ha, List.append_assoc] at hb ⊢
      obtain ⟨span, params, body, vs, hprintable, hbegins, hwords⟩ := ih (Stands.left_endsInPair hl) hb
      refine ⟨span, params, body, vs, hprintable, fun p hp => ?_, hwords⟩
      rw [beginsIn]
      simp [Nat.not_lt.1 ha, hbegins p hp]
  | @assign span target value hl _ _ ih _ =>
    have htarget := hl.wellFormed.target rfl
    rw [words, encloseBelow] at hb
    split at hb
    · cases hb
    · rw [List.append_assoc] at hb
      cases target with
      | ident | construct =>
        rw [words] at hb
        exact (hname hb).elim
      | _ => cases htarget
  | field hl _ _ ih | send hl _ _ _ ih _ =>
    rw [words, List.append_assoc] at hb ⊢
    obtain ⟨span, params, body, vs, hprintable, hbegins, hwords⟩ :=
      ih (hl.endsInPair_eq_false List.mem_cons_self (fun hm => by cases hm)) hb
    refine ⟨span, params, body, vs, hprintable, fun p hp => ?_, hwords⟩
    rw [beginsIn, hbegins p hp, Bool.or_true]
  | block legible lexical printable =>
    exact ⟨_, _, _, ws, .block legible lexical printable, fun p hp => beginsIn_self hp, by rw [words, words]⟩
  | @unary span op =>
    rw [words, encloseBelow] at hb
    split at hb <;> cases op <;> cases hb
  | pair => cases hp

end Node

section

variable {ss : List Symbol} {later last : Lead} {ps : List Phrase} {stop ws : List Word}

/-- What stands after a statement begins with nothing but a semicolon or what can begin a tree. -/
theorem noneOf_tail (ho : ∀ p ∈ ps, p.Opens) (hss : ∀ s ∈ ss, s ∉ Symbol.openers ∧ s ≠ .semicolon)
    (hstop : NoneOf ss stop) : NoneOf ss (tail (semicolon later) later ps ++ stop) := by
  cases ps with
  | nil => exact hstop
  | cons p ps =>
    intro s hs
    rw [tail, semicolon]
    split
    · rw [List.nil_append, List.append_assoc]
      exact (ho p List.mem_cons_self).not_symbol _ _ (hss s hs).1
    · exact decide_eq_false fun he => (hss s hs).2 he.symm

variable {span : Span} {params : List Param} {body : List Node}

theorem noParams_statements (hl : Node.Legible (.block span params body)) (hb : ∀ e ∈ body, e.Printable) (layout : Layout) :
    NoParams (statements later (body.map (Node.words layout 0)) later ++ .symbol last .closeBrace :: ws) := by
  cases body with
  | nil => exact NoParams.symbol
  | cons e es =>
    obtain ⟨he, hes⟩ := List.forall_mem_cons.1 hb
    rw [statements, List.map_cons, joined, List.append_assoc]
    exact he.noParams (hl.endsInPair_eq_false List.mem_cons_self (fun hm => by cases hm))
      (noneOf_tail (List.forall_mem_map.2 fun e hm => (hes e hm).words_opens layout 0) (by decide) (.symbol (by decide)))

end

namespace Node

/-- A tree is taken for the fields of a construction only if it begins with a closure whose first parameter has a type. -/
theorem Printable.begins_typedBlock {e : Node} (h : e.Printable) (hp : e.endsInPair = false) {layout : Layout}
    {asked : Nat} {lead : Lead} {ws : List Word} (hb : beginsFields (e.words layout asked lead ++ ws) = true) :
    e.beginsIn isTypedBlock asked = true := by
  have hbrace : isSymbol .openBrace (headToken (e.words layout asked lead ++ ws)) = true := by
    by_contra hno
    rw [beginsFields_eq_false (Bool.not_eq_true _ ▸ hno)] at hb
    cases hb
  obtain ⟨span, params, body, vs, hprintable, hbegins, hwords⟩ := h.begins_block hp hbrace
  refine hbegins isTypedBlock ?_
  rw [hwords, words, phrases_eq_map] at hb
  cases hprintable with
  | block legible lexical printable =>
    cases params with
    | nil =>
      simp only [Param.opening, Param.list, List.isEmpty_nil, if_true, List.cons_append, List.append_assoc,
        List.nil_append] at hb
      rw [(noParams_statements legible printable _).beginsFields] at hb
      cases hb
    | cons p ps =>
      cases hannotation : p.annotation with
      | some type => simp [isTypedBlock, hannotation]
      | none =>
        simp only [Param.opening, Param.list, List.isEmpty_cons, Bool.false_eq_true, if_false, List.map_cons, commas, joined,
          Param.words, hannotation, List.cons_append, List.append_assoc, List.nil_append] at hb
        -- After the name of the parameter comes a comma or the bar.
        cases ps <;> simp [beginsFields, Word.symbol, isSymbol] at hb

end Node

/-! ## Statements -/

section

variable {layout : Layout} {later : Lead} {stop : List Word} {inBlock : Bool} {es : List Node}

theorem stands_statement {e : Node} (hpair : e.endsInPair = false) (hp : ∀ e ∈ es, e.Printable)
    (hpairs : ∀ e ∈ es, e.endsInPair = false) (happ : Node.stayApart (e :: es) = true)
    (hstop : e.Stands 0 .nested stop) :
    e.Stands 0 .nested (tail (semicolon later) later (es.map (Node.words layout 0)) ++ stop) := by
  cases es with
  | nil => exact hstop
  | cons next es =>
    have hnext := hp next List.mem_cons_self
    have hopens := hnext.words_opens layout 0
    rw [List.map_cons, tail, semicolon]
    split
    · next h =>
      simp only [Bool.and_eq_true, Bool.not_eq_true'] at h
      obtain ⟨v, vs, hv, hlead, htoken⟩ := hopens.not_continuesLine h.2 later
      simp only [Node.stayApart, Bool.and_eq_true, Node.staysApart, Bool.not_eq_true', Bool.and_eq_false_iff] at happ
      obtain ⟨⟨hdecl, hname⟩, -⟩ := happ
      rw [List.nil_append, List.append_assoc]
      generalize tail (semicolon later) later (es.map (Node.words layout 0)) ++ stop = ws
      have hline : ∀ w ∈ (next.words layout 0 later ++ ws).head?, w.lead.breaks = true ∧ w.token.continuesLine = false := by
        rw [hv]
        rintro w hw
        obtain rfl := Option.some.inj hw
        exact ⟨hlead ▸ h.1, htoken⟩
      have hfollows (power : Nat) : Follows false power (next.words layout 0 later ++ ws) :=
        ⟨fun w hw => .inl (hline w hw), fun w hw => .inl (hline w hw).1, fun s hs => hopens.not_symbol _ _ fun ho => by
          revert hs ho
          cases s <;> decide⟩
      refine .of_pairless hpair (hfollows _) (fun _ => hfollows _) (fun hd => ?_) (fun hi => ?_) fun _ => rfl
      -- Fields would need a brace on the next line, and then the statements do not stay apart.
      · by_contra hb
        obtain ⟨_, _, _, _, -, hbegins, -⟩ := hnext.begins_block (hpairs next List.mem_cons_self) (Bool.not_eq_false _ ▸ hb)
        rw [hd, hbegins Node.isBlock rfl] at hdecl
        simp at hdecl
      · by_contra hb
        rw [hi, hnext.begins_typedBlock (hpairs next List.mem_cons_self) (Bool.not_eq_false _ ▸ hb)] at hname
        simp at hname
    · exact .of_ender (by decide) (fun h => absurd h (by simp [hpair])) rfl

theorem accepts_statementEnd {ps : List Phrase} (ho : ∀ p ∈ ps, p.Opens)
    (hs : Accepts (statementEnd inBlock) stop stop fun _ => True) :
    Accepts (statementEnd inBlock) (tail (semicolon later) later ps ++ stop)
      (joined (semicolon later) later ps later ++ stop) fun _ => True := by
  cases ps with
  | nil => exact hs
  | cons p ps =>
    rw [tail, joined, semicolon, List.append_assoc]
    split
    · next h =>
      simp only [Bool.and_eq_true] at h
      obtain ⟨w, ws, hp, hl, hw⟩ := (ho p (List.mem_cons_self ..)).head later
      rw [List.nil_append, hp]
      refine Accepts.here.bind fun l hl' => ?_
      have hb : l.afterBreak = true := by rw [hl'.afterBreak, hl, h.1]
      rw [hl'.token, hb]
      have hno : ∀ s, s ∉ Symbol.openers → isSymbol s w.token = false := by
        intro s hs
        have hn := (ho p (List.mem_cons_self ..)).not_symbol later [] hs
        rwa [hp] at hn
      split
      · next ht => exact absurd (hno .semicolon (by decide)) (by rw [ht]; decide)
      · exact Accepts.pure trivial
      · next ht => exact absurd (hno .equals (by decide)) (by rw [ht]; decide)
      · split <;> exact Accepts.pure trivial
    · refine Accepts.here.bind fun l hl => ?_
      rw [hl.token]
      exact Accepts.take.bind fun _ _ => Accepts.pure trivial

theorem accepts_atEnd {p : Phrase} (h : p.Opens) (lead : Lead) (ws : List Word) :
    Accepts atEnd (p lead ++ ws) (p lead ++ ws) (· = false) := by
  obtain ⟨w, vs, hp, -, hw⟩ := h.head lead
  rw [hp]
  refine Accepts.here.bind fun l hl => Accepts.pure ?_
  rw [hl.token]
  cases hw with
  | int | float | string | symbol => rfl
  | @name lead text =>
    simp only [Word.name, Token.ofWord]
    cases Keyword.ofText? text <;> rfl

theorem accepts_statement {k : Nat} {lead : Lead} {e : Node} {ws ws' : List Word}
    (hp : (e.words layout 0).ReadsAs 0 e) (hs : e.Stands 0 .nested ws) (hf : Follows false 0 ws)
    (hk : (e.words layout 0 lead ++ ws).length < k)
    (hend : Accepts (statementEnd inBlock) ws ws' fun _ => True) :
    Accepts (expression k .nested 0 >>= fun statement => do
        statementEnd inBlock
        return some statement) (e.words layout 0 lead ++ ws) ws' fun o => ∃ e', o = some e' ∧ e'.erase = e.erase :=
  (hp.accepts lead (Nat.zero_le _) (Nat.zero_le _) hs hf hk).bind fun e' he =>
    hend.bind fun _ _ => Accepts.pure ⟨e', rfl, he⟩

/-- What is needed of statements to read them one after another. -/
structure Readable (layout : Layout) (es : List Node) : Prop where
  /-- They are printable. -/
  printable : ∀ e ∈ es, e.Printable
  /-- They are read where nothing is asked for. -/
  readsAs : ∀ e ∈ es, (e.words layout 0).ReadsAs 0 e
  /-- None of them ends in a pair. -/
  pairless : ∀ e ∈ es, e.endsInPair = false
  /-- They stay apart. -/
  apart : Node.stayApart es = true

theorem Readable.tail {e : Node} (h : Readable layout (e :: es)) : Readable layout es where
  printable := (List.forall_mem_cons.1 h.printable).2
  readsAs := (List.forall_mem_cons.1 h.readsAs).2
  pairless := (List.forall_mem_cons.1 h.pairless).2
  apart := by
    cases es with
    | nil => rfl
    | cons next es => exact (Bool.and_eq_true_iff.1 h.apart).2

theorem Readable.opens (h : Readable layout es) : ∀ p ∈ es.map (Node.words layout 0), p.Opens :=
  List.forall_mem_map.2 fun e hm => (h.printable e hm).words_opens layout 0

variable {item : Bool → Reader (Option Node)} {k : Nat}

/-- The statements of a block or a program. `item` reads one of them with its end, or finds that there is
none left. -/
theorem accepts_statements (inBlock : Bool) (hstop : ∀ first, Accepts (item first) stop stop (· = none))
    (hend : Accepts (statementEnd inBlock) stop stop fun _ => True)
    (hstands : ∀ e : Node, e.endsInPair = false → e.Stands 0 .nested stop)
    (hitem : ∀ first {lead} {e : Node} {ws ws'}, (e.words layout 0).Opens → (e.words layout 0).ReadsAs 0 e →
      e.Stands 0 .nested ws → Follows false 0 ws → (e.words layout 0 lead ++ ws).length < k →
      Accepts (statementEnd inBlock) ws ws' (fun _ => True) →
      Accepts (item first) (e.words layout 0 lead ++ ws) ws' fun o => ∃ e', o = some e' ∧ e'.erase = e.erase)
    (h : Readable layout es) {rounds : Nat} ( first : Bool) (lead : Lead)
    (hr : (joined (semicolon later) later (es.map (Node.words layout 0)) lead ++ stop).length < rounds)
    (hk : (joined (semicolon later) later (es.map (Node.words layout 0)) lead ++ stop).length < k) :
    Accepts (collect item rounds first) (joined (semicolon later) later (es.map (Node.words layout 0)) lead ++ stop) stop
      fun es' => es'.map Node.erase = es.map Node.erase := by
  obtain ⟨rounds, rfl⟩ : ∃ r, rounds = r + 1 := ⟨rounds - 1, by omega⟩
  -- Every statement has a word at least, so that as many rounds as words are enough.
  induction es generalizing rounds first lead with
  | nil => exact Accepts.collect_nil (hstop first) rfl
  | cons e es ih =>
    have ho := h.tail.opens
    have hopens := (h.printable e List.mem_cons_self).words_opens layout 0
    have hpair := h.pairless e List.mem_cons_self
    have hs : e.Stands 0 .nested (Phrase.tail (semicolon later) later (es.map (Node.words layout 0)) ++ stop) :=
      stands_statement hpair h.tail.printable h.tail.pairless h.apart (hstands e hpair)
    rw [List.map_cons, joined, List.append_assoc] at hr hk ⊢
    have hlen : (joined (semicolon later) later (es.map (Node.words layout 0)) later ++ stop).length ≤
        (Phrase.tail (semicolon later) later (es.map (Node.words layout 0)) ++ stop).length := by
      cases es with
      | nil => exact Nat.le_refl _
      | cons e es => simp [Phrase.tail, joined]
    have hpos := hopens.length_pos lead
    rw [List.length_append] at hr hk
    obtain ⟨rounds, rfl⟩ : ∃ r, rounds = r + 1 := ⟨rounds - 1, by omega⟩
    have hread := hitem first hopens (h.readsAs e List.mem_cons_self) hs
      (hs.follows.mono (Node.reach_le hpair)) (by rw [List.length_append]; exact hk) (accepts_statementEnd ho hend)
    refine Accepts.collect_cons hread fun e' he' => ?_
    refine (ih h.tail false later (by omega) rounds (by omega)).mono fun es' hes' => ?_
    rw [List.map_cons, List.map_cons, he', hes']

end

/-! ## Blocks -/

section

variable {asked : Nat} {span : Span} {layout : Layout} {later last : Lead} {ws : List Word} {n : Nat}

/-- The words between the brace that opens a block and its statements. -/
theorem accepts_opening {params : List Param} (hp : ∀ p ∈ params, p.Lexical) (hno : params = [] → NoParams ws)
    (hn : (Param.list params ++ ws).length < n) :
    Accepts (attempt (closureParams n)) (Param.list params ++ ws) ws
      fun o => (o.getD []).map Param.erase = params.map Param.erase := by
  cases params with
  | nil =>
    obtain ⟨n, rfl⟩ : ∃ m, n = m + 1 := ⟨n - 1, by omega⟩
    refine (Accepts.attempt_refused (refuses_closureParams (hno rfl))).mono fun o ho => ?_
    rw [ho]
    rfl
  | cons p ps =>
    rw [Param.list, List.isEmpty_cons, if_neg Bool.false_ne_true, List.append_assoc, List.singleton_append] at hn ⊢
    refine (Accepts.attempt (accepts_closureParams hp (List.cons_ne_nil _ _) (Nat.le_of_lt hn))).mono fun o ho => ?_
    obtain ⟨qs, rfl, hqs⟩ := ho
    exact hqs

theorem readsAs_block {params : List Param} {body : List Node} (hl : Node.Legible (.block span params body))
    (hp : ∀ p ∈ params, p.Lexical) (hb : ∀ e ∈ body, e.Printable)
    (hr : ∀ e ∈ body, (e.words layout 0).ReadsAs 0 e) :
    ReadsAs (fun lead => Param.opening params lead ++
      (statements later (body.map (Node.words layout 0)) later ++ [.symbol last .closeBrace])) asked
      (.block span params body) := by
  have hreadable : Readable layout body :=
    ⟨hb, hr, fun e hm => hl.endsInPair_eq_false hm nofun, hl.isLegible⟩
  refine ReadsAs.of_primary fun {lead ctx n ws} _ hn => ?_
  simp only [Param.opening, List.cons_append, List.append_assoc, List.nil_append, List.length_cons] at hn ⊢
  refine Accepts.here.bind fun l hl' => ?_
  rw [hl'.token]
  refine Accepts.expect.bind fun opening _ => ?_
  refine (accepts_opening hp (fun _ => noParams_statements hl hb layout) (Nat.lt_succ_of_lt hn)).bind fun o ho => ?_
  rw [List.length_append] at hn
  refine (accepts_statements true (k := n) ?_ ?_ ?_ ?_ hreadable true later ?_ ?_).bind fun es hes => ?_
  · intro first
    refine (Accepts.skipWhile rfl).bind fun _ _ => (Accepts.isAt _).bind fun b hb => ?_
    rw [hb, if_pos Accepts.isSymbol_headToken]
    exact Accepts.pure rfl
  · refine Accepts.here.bind fun l hl => ?_
    rw [hl.token]
    exact Accepts.pure trivial
  · exact fun e he => .of_ender (by decide) (fun h => absurd h (by simp [he])) rfl
  · intro first lead e ws ws' hopens hreads hs hf hk hend
    refine (Accepts.skipWhile (hopens.not_symbol _ _ (by decide))).bind fun _ _ => ?_
    refine (Accepts.isAt _).bind fun b hb => ?_
    rw [hb, hopens.not_symbol _ _ (by decide), if_neg Bool.false_ne_true]
    refine (accepts_atEnd hopens _ _).bind fun b hb => ?_
    rw [hb]
    exact accepts_statement hreads hs hf hk hend
  · exact Nat.lt_of_le_of_lt (Nat.le_add_left _ _) (Nat.lt_succ_of_lt hn)
  · exact Nat.lt_of_le_of_lt (Nat.le_add_left _ _) hn
  · refine Accepts.expect.bind fun closing _ => Accepts.pure ?_
    simp only [Node.erase, Node.eraseAll_eq_map, ho, hes]

/-! ## Matches -/

theorem Node.eraseArms_eq_map (arms : List (Node × Node)) : eraseArms arms = arms.map fun a => (a.1.erase, a.2.erase) := by
  induction arms with
  | nil => rw [eraseArms, List.map_nil]
  | cons a arms ih => rw [eraseArms, ih, List.map_cons]

/-- The arms of a match are not taken for the fields of a construction. -/
theorem beginsFields_arms {arms : List (Node × Node)} {later : Lead} (hp : ∀ arm ∈ arms, arm.1.PrintablePattern) :
    beginsFields (.symbol .space .openBrace :: (commas later (arms.map fun a =>
      Phrase.arm (a.1.words layout 0) (a.2.words layout 0)) later ++ .symbol last .closeBrace :: ws)) = false := by
  refine NoParams.beginsFields ?_
  cases arms with
  | nil => exact NoParams.symbol
  | cons a arms =>
    rw [List.map_cons, commas, joined, List.append_assoc, Phrase.arm, List.append_assoc]
    exact (hp a List.mem_cons_self).noParams (.symbol (by decide))

theorem accepts_arm {arm : Node × Node} {lead : Lead} {opening : Span} (hp : arm.1.PrintablePattern)
    (hb : (arm.2.words layout 0).ReadsAs 0 arm.2) (hpair : arm.2.endsInPair = false) (hw : Accepts.EndsItem .closeBrace ws)
    (hn : (Phrase.arm (arm.1.words layout 0) (arm.2.words layout 0) lead ++ ws).length < n) :
    Accepts (do
      if ← isAt .closeBrace then return none
      if ← atEnd then fail .unclosedMatch opening
      let pat ← pattern (n + 1)
      let _ ← expect .arrow
      let body ← expression n .nested 0
      let l ← here
      if isSymbol .comma l.token || isSymbol .closeBrace l.token || l.afterBreak then
        return some (pat, body)
      else failHere .expectedArmEnd) (Phrase.arm (arm.1.words layout 0) (arm.2.words layout 0) lead ++ ws) ws
      fun o => ∃ a, o = some a ∧ (a.1.erase, a.2.erase) = (arm.1.erase, arm.2.erase) := by
  have hopens := hp.words_opens layout 0
  rw [Phrase.arm, List.append_assoc, List.cons_append] at hn ⊢
  refine (Accepts.isAt _).bind fun b hb' => ?_
  rw [hb', hopens.not_symbol _ _ (by decide), if_neg Bool.false_ne_true]
  refine (accepts_atEnd hopens _ _).bind fun b hb' => ?_
  rw [hb']
  refine (hp.accepts_words (.symbol (by decide)) (by omega)).bind fun pat hpat => Accepts.expect.bind fun _ _ => ?_
  rw [List.length_append, List.length_cons] at hn
  refine (hb.accepts_alone .space (fun h => absurd h (by simp [hpair])) rfl hw (by decide) (by omega)).bind fun body hbody => ?_
  obtain ⟨l, s, vs, hs, rfl⟩ := hw
  refine Accepts.here.bind fun lexeme hlexeme => ?_
  have hend : (isSymbol .comma lexeme.token || isSymbol .closeBrace lexeme.token) = true := by
    rw [hlexeme.token]
    obtain rfl | rfl := hs <;> rfl
  rw [hend, Bool.true_or, if_pos rfl]
  exact Accepts.pure ⟨_, rfl, by rw [hpat, hbody]⟩

theorem readsAs_cases {scrutinee : Node} {arms : List (Node × Node)} {p : Phrase}
    (hl : Node.Legible (.cases span scrutinee arms)) (hs : p.ReadsAs 1 scrutinee)
    (hp : ∀ arm ∈ arms, arm.1.PrintablePattern)
    (hb : ∀ arm ∈ arms, (arm.2.words layout 0).ReadsAs 0 arm.2) :
    ReadsAs (fun lead => .name lead "match" :: (p .space ++ .symbol .space .openBrace ::
      (commas later (arms.map fun a => Phrase.arm (a.1.words layout 0) (a.2.words layout 0)) later ++
        [.symbol last .closeBrace]))) asked (.cases span scrutinee arms) := by
  have hbody : ∀ arm ∈ arms, arm.2.endsInPair = false := fun arm hm =>
    hl.endsInPair_eq_false (List.mem_cons_of_mem _ (List.mem_flatMap.2 ⟨arm, hm, by simp⟩)) nofun
  have hskip : ∀ arm ∈ arms, ∀ lead vs,
      (fun t => isSymbol .comma t || isSymbol .semicolon t)
        (headToken (Phrase.arm (arm.1.words layout 0) (arm.2.words layout 0) lead ++ vs)) = false := fun arm hm lead vs =>
    have ho := ((hp arm hm).words_opens layout 0).arm (q := arm.2.words layout 0)
    Bool.or_eq_false_iff.2 ⟨ho.not_symbol lead vs (by decide), ho.not_symbol lead vs (by decide)⟩
  refine ReadsAs.of_primary fun {lead ctx n ws} _ hn => ?_
  simp only [List.cons_append, List.append_assoc, List.nil_append, List.length_cons] at hn ⊢
  have hread : Accepts (expression n .scrutinee 0) _ _ (·.erase = scrutinee.erase) :=
    hs.accepts .space (Nat.zero_le _) (Nat.zero_le _) (.scrutinee hl (beginsFields_arms hp)) (.symbol nofun (by decide)) hn
  rw [List.length_append, List.length_cons] at hn
  refine Accepts.here.bind fun l hl' => ?_
  rw [show l.token = .keyword .match from hl'.token]
  refine (Accepts.expectWord rfl).bind fun first _ => hread.bind fun s hs => Accepts.expect.bind fun opening _ => ?_
  refine (Accepts.collect_items (f := fun a : Node × Node => (a.1.erase, a.2.erase))
    (e := fun a : Node × Node => (a.1.erase, a.2.erase)) (k := n - 1) ?_ ?_ ?_ ?_ later (by omega) (by omega)).bind
      fun as has => ?_
  · intro first
    refine (Accepts.skipWhile rfl).bind fun _ _ => (Accepts.isAt _).bind fun b hb => ?_
    rw [hb, if_pos Accepts.isSymbol_headToken]
    exact Accepts.pure rfl
  · intro arm hm lead vs hvs hlen
    refine (Accepts.skipWhile ?_).bind fun _ _ => accepts_arm (hp arm hm) (hb arm hm) (hbody arm hm) hvs (by omega)
    exact hskip arm hm lead vs
  · intro arm hm vs hvs hlen
    refine (Accepts.skipWhile_cons rfl (Accepts.skipWhile ?_)).bind fun _ _ =>
      accepts_arm (hp arm hm) (hb arm hm) (hbody arm hm) hvs (by omega)
    exact hskip arm hm later vs
  · exact fun arm hm lead => ((hp arm hm).words_opens layout 0).arm.length_pos lead
  · refine Accepts.expect.bind fun closing _ => Accepts.pure ?_
    simp only [Node.erase, Node.eraseArms_eq_map, hs, has]

end

/-! ## Trees -/

namespace Node.Printable

/-- The words of a printable tree, at a place that asks for a precedence, read as the tree. -/
theorem readsAs {e : Node} (h : e.Printable) (layout : Layout) (asked : Nat) :
    (e.words layout asked).ReadsAs asked e := by
  induction h generalizing layout asked with
  | literal unsigned restored =>
    rw [words]
    exact readsAs_literal unsigned restored
  | ident isName =>
    rw [words]
    exact readsAs_ident isName
  | binary legible _ _ ihl ihr =>
    rw [words]
    exact ReadsAs.encloseBelow rfl fun h => readsAs_binary legible (ihl _ _) (ihr _ _) h
  | unary legible _ ih =>
    rw [words]
    exact ReadsAs.encloseBelow rfl fun h => readsAs_unary legible (ih _ _) h
  | assign legible _ _ iht ihv =>
    rw [words]
    refine ReadsAs.encloseBelow rfl fun h => ?_
    obtain rfl := Nat.le_zero.1 h
    exact readsAs_assign legible (iht _ _) (ihv _ _)
  | field legible isName hs ih =>
    rw [words]
    exact readsAs_field legible hs (ih _ _) isName
  | call legible isCallee ha iha =>
    rw [words, phrases_eq_map]
    exact readsAs_call legible (fun a hm => ⟨(ha a hm).words_opens _ _, iha a hm _ _⟩) isCallee
  | send legible isName hr ha ih iha =>
    rw [words, phrases_eq_map]
    exact readsAs_send legible hr (ih _ _) (fun a hm => ⟨(ha a hm).words_opens _ _, iha a hm _ _⟩) isName
  | block legible hp hb ihb =>
    rw [words, phrases_eq_map]
    exact readsAs_block legible hp hb fun s hm => ihb s hm _ _
  | cases legible _ hp _ ihs ihb =>
    rw [words, armPhrases_eq_map]
    exact readsAs_cases legible (ihs _ _) hp fun arm hm => ihb arm hm _ _
  | construct legible isName nonempty names hf ihf =>
    exact readsAs_construct legible isName nonempty names fun f hm => ⟨(hf f hm).words_opens _ _, ihf f hm _ _⟩
  | typeDecl lexical =>
    rw [words]
    exact readsAs_typeDecl lexical
  | function legible lexical _ ih =>
    rw [words]
    exact readsAs_function legible lexical (ih _ _)
  | capture printable =>
    exact readsAs_capture printable fun lead => ⟨_, by rw [words]⟩
  | refine printable =>
    exact readsAs_capture printable fun lead => ⟨_, by rw [words]⟩
  | quoted legible _ ih =>
    rw [words]
    exact readsAs_quoted legible (ih _ _)
  | array legible he ihe =>
    rw [words, phrases_eq_map]
    exact readsAs_array legible fun e hm => ⟨(he e hm).words_opens _ _, ihe e hm _ _⟩
  | object legible _ ihe =>
    exact readsAs_object legible fun entry hm => ihe entry hm _ _
  | pair legible _ _ ihk ihv =>
    have hlegible := legible.isLegible
    simp only [isLegible, Bool.and_eq_true, Bool.not_eq_true'] at hlegible
    -- Only an assignment would be printed otherwise where the reader asks for an operand.
    rw [words, ← words_one hlegible.1.1, ← words_one hlegible.1.2]
    exact readsAs_pair legible (ihk _ _) (ihv _ _)

end Node.Printable

theorem Readable.of_printable {layout : Layout} {es : List Node} (printable : ∀ e ∈ es, e.Printable)
    (pairless : ∀ e ∈ es, e.endsInPair = false) (apart : Node.stayApart es = true) : Readable layout es :=
  ⟨printable, fun e hm => (printable e hm).readsAs layout 0, pairless, apart⟩

end DispatchLang
