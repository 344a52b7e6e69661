import DispatchLang.Proofs.Grammar.Printable
import DispatchLang.Proofs.Grammar.Seam

/-!
# What is read is made of words

The scanner makes a name of a word that is not reserved, and a number of digits alone, so that it has no sign. A reader
takes names and numbers from the tokens in front of it and nowhere else. All that a program is short of being printable
is therefore that it is legible: a tree that has been read is printable as soon as it is legible everywhere.

A pattern may be a negative number, for which the minus sign is taken away with the number. What a capture is limited to
is none, as a capture goes on only before a question mark, a name or a literal.

## Main definitions

* `Reader.Makes`: what a reader does with tokens that are made of words.

## Main results

* `Token.lexical_of_mem_scan`: the tokens of a text are made of words.
* `Program.printable_of_parse`: a program that has been read is printable if it is legible.
-/

namespace DispatchLang

/-! ## Tokens -/

/-- A token that carries what the scanner can have found: names are names, and numbers have no sign. -/
def Token.Lexical : Token → Prop
  | .ident text => Printer.isName text
  | .int value => 0 ≤ value
  | .float x => Number.Signless x
  | _ => True

namespace Token

theorem lexical_ofDigits (digits : List Char) : (ofDigits digits).Lexical := by
  rw [ofDigits]
  split
  · next h =>
    have hmax : Int64.maxValue.toInt = 9223372036854775807 := rfl
    rw [Lexical, Int64.le_iff_toInt_le, Int64.toInt_ofNat_of_lt (by omega)]
    exact Int.natCast_nonneg _
  · trivial

theorem lexical_numberPiece (c : Char) (cs : List Char) : ∀ token ∈ (numberPiece c cs).1, token.Lexical := by
  unfold numberPiece
  dsimp only
  split
  · split
    · rintro _ ⟨⟩
      exact lexical_ofDigits _
    · rintro _ ⟨⟩
      exact Decimal.signless_ofDigits _ _
  · rintro _ ⟨⟩
    exact lexical_ofDigits _

theorem lexical_stringPiece (cs : List Char) : ∀ token ∈ (stringPiece cs).1, token.Lexical := by
  unfold stringPiece
  split
  · split
    · rintro _ ⟨⟩
      trivial
    · exact nofun
  · intro token h
    obtain ⟨inside, -, rfl⟩ := Option.map_eq_some_iff.1 h
    trivial

theorem lexical_symbolPiece (c : Char) (cs : List Char) : ∀ token ∈ (symbolPiece c cs).1, token.Lexical := by
  unfold symbolPiece
  split
  · rintro _ ⟨⟩
    trivial
  · intro token h
    obtain ⟨s, -, rfl⟩ := Option.map_eq_some_iff.1 h
    trivial

/-- A word that is not reserved is a name. -/
theorem lexical_ofWord {c : Char} (hc : isWordStart c = true) (cs : List Char) :
    (ofWord (String.ofList (c :: cs.takeWhile isWordRest))).Lexical := by
  unfold ofWord
  split
  · trivial
  · next h =>
    have hrest : (c :: cs.takeWhile isWordRest).all isWordRest = true := by
      rw [List.all_cons, List.all_takeWhile, Bool.and_true, isWordRest, hc, Bool.true_or]
    rw [Lexical, Printer.isName, h, String.toList_ofList, hrest]
    simp [hc]

theorem lexical_piece {c : Char} {cs : List Char} : ∀ token ∈ (piece c cs).1, token.Lexical := by
  unfold piece
  split
  · exact nofun
  · split
    · exact lexical_stringPiece cs
    · split
      · exact lexical_numberPiece c cs
      · split
        · next hc =>
          rintro _ ⟨⟩
          exact lexical_ofWord hc cs
        · split
          · exact nofun
          · split
            · exact nofun
            · exact lexical_symbolPiece c cs

theorem lexical_of_mem_scanFrom (p : Place) (gap : Gap) (cs : List Char) : ∀ l ∈ scanFrom p gap cs, l.token.Lexical := by
  induction p, gap, cs using scanFrom.induct with
  | case1 p gap =>
    intro l hl
    rw [scanFrom] at hl
    rw [List.mem_singleton.1 hl]
    trivial
  | case2 p gap c cs n q token hpiece ih =>
    rw [scanFrom, hpiece]
    exact List.forall_mem_cons.2 ⟨lexical_piece token (by rw [hpiece]; rfl), ih⟩
  | case3 p gap c cs n q hpiece ih =>
    rw [scanFrom, hpiece]
    exact ih

/-- The tokens of a text are made of words. -/
theorem lexical_of_mem_scan (source : String) : ∀ l ∈ scan source, l.token.Lexical :=
  lexical_of_mem_scanFrom .origin .initial source.toList

end Token

/-! ## Readers -/

/-- All tokens from a cursor on are made of words. -/
def Cursor.Lexical (c : Cursor) : Prop := ∀ l ∈ c.here :: c.ahead, l.token.Lexical

namespace Cursor.Lexical

variable {c : Cursor} (h : c.Lexical)
include h

theorem here : c.here.token.Lexical := h _ List.mem_cons_self

theorem next : c.next.Lexical := by
  obtain ⟨last, l, ls⟩ := c
  cases ls with
  | nil => exact h
  | cons m ms => exact fun k hk => h k (List.mem_cons_of_mem _ hk)

theorem skipWhile (p : Token → Bool) : (Cursor.skipWhile p c.last c.here c.ahead).Lexical := by
  obtain ⟨last, l, ls⟩ := c
  induction ls generalizing last l with
  | nil => exact h
  | cons m ms ih =>
    dsimp only
    rw [Cursor.skipWhile]
    split
    · exact ih _ _ fun k hk => h k (List.mem_cons_of_mem _ hk)
    · exact h

end Cursor.Lexical

namespace Reader

variable {α β : Type} {c : Cursor} {r : Reader α} {f : α → Reader β} {P : α → Prop} {Q : β → Prop}

/-- Before tokens that are made of words a reader answers nothing but what has a property, and it stops before such
tokens. -/
def Makes (c : Cursor) (r : Reader α) (P : α → Prop) : Prop := c.Lexical → Yields c r fun a c' => P a ∧ c'.Lexical

namespace Makes

theorem pure {a : α} (h : P a) : Makes c (Pure.pure a) P := fun hc => .pure ⟨h, hc⟩

theorem bind (hr : Makes c r P) (hf : ∀ a c', P a → Makes c' (f a) Q) : Makes c (r >>= f) Q := fun hc =>
  (hr hc).bind fun a c' h => hf a c' h.1 h.2

theorem mono {P' : α → Prop} (hr : Makes c r P) (hP : ∀ a, P a → P' a) : Makes c r P' := fun hc =>
  (hr hc).mono fun a _ h => ⟨hP a h.1, h.2⟩

/-- What else is known of the answer may be added. -/
theorem and {P' : α → Prop} (hr : Makes c r P) (hP : Yields c r fun a _ => P' a) : Makes c r fun a => P a ∧ P' a := fun hc a c' h =>
  ⟨⟨(hr hc a c' h).1, hP a c' h⟩, (hr hc a c' h).2⟩

theorem fail (cause : SyntaxCause) (span : Span) : Makes c (Reader.fail cause span : Reader α) P := fun _ => .fail _ _

theorem failHere (cause : Token → SyntaxCause) : Makes c (Reader.failHere cause : Reader α) P := fun _ => .failHere _

theorem outOfRounds : Makes c (do Reader.fail .outOfRounds (← Reader.here).span : Reader α) P := fun _ => .look (.fail _ _)

theorem look {f : Lexeme → Reader β} (h : c.here.token.Lexical → Makes c (f c.here) Q) : Makes c (here >>= f) Q := fun hc =>
  .look (h hc.here hc)

theorem get {f : Cursor → Reader β} (h : Makes c (f c) Q) : Makes c (MonadState.get >>= f) Q := fun hc => .get (h hc)

theorem take_bind {f : Lexeme → Reader β} (h : Makes c.next (f c.here) Q) : Makes c (take >>= f) Q := fun hc => h hc.next

theorem skipWhile (p : Token → Bool) : Makes c (Reader.skipWhile p) fun _ => True := by
  rintro hc _ _ ⟨⟩
  exact ⟨trivial, hc.skipWhile p⟩

theorem isAt_bind {s : Symbol} {f : Bool → Reader β} (h : Makes c (f (isSymbol s c.here.token)) Q) :
    Makes c (Reader.isAt s >>= f) Q := h

theorem isAt (s : Symbol) : Makes c (Reader.isAt s) fun _ => True := look fun _ => pure trivial

theorem atEnd : Makes c Reader.atEnd fun _ => True := look fun _ => pure trivial

theorem accept (s : Symbol) : Makes c (Reader.accept s) fun _ => True := by
  refine (isAt s).bind fun b c' _ => ?_
  split
  · exact take_bind (pure trivial)
  · exact pure trivial

theorem expect (s : Symbol) : Makes c (Reader.expect s) fun _ => True := by
  refine (isAt s).bind fun b c' _ => ?_
  split
  · exact take_bind (pure trivial)
  · exact failHere _

theorem expectWord (k : Keyword) : Makes c (Reader.expectWord k) fun _ => True := by
  refine look fun _ => ?_
  split
  · exact take_bind (pure trivial)
  · exact failHere _

theorem name : Makes c Reader.name fun head => Printer.isName head.val := by
  refine look fun h => ?_
  split
  · next ht =>
    rw [ht] at h
    exact take_bind (pure h)
  · exact failHere _

theorem attempt (hr : Makes c r P) : Makes c (Reader.attempt r) fun found => ∀ a ∈ found, P a := by
  intro hc found c' h
  rw [Reader.attempt] at h
  split at h
  · next a c'' hrun =>
    cases h
    exact ⟨fun _ ha => Option.some.inj ha ▸ (hr hc a _ hrun).1, (hr hc a _ hrun).2⟩
  · cases h
    exact ⟨nofun, hc⟩

theorem collect {item : Bool → Reader (Option α)} (h : ∀ first c, Makes c (item first) fun found => ∀ a ∈ found, P a)
    (n : Nat) (first : Bool) : Makes c (Reader.collect item n first) fun as => ∀ a ∈ as, P a := by
  induction n generalizing c first with
  | zero => exact outOfRounds
  | succ n ih =>
    refine (h first c).bind fun found c' hfound => ?_
    cases found with
    | none => exact pure (List.forall_mem_nil _)
    | some a => exact (ih false).bind fun as c'' has => pure (List.forall_mem_cons.2 ⟨hfound a rfl, has⟩)

section

variable {item : Reader α} (h : ∀ c, Makes c item P) (close : Symbol)
include h

theorem some_item : Makes c (do return some (← item)) fun found => ∀ a ∈ found, P a :=
  (h c).bind fun _ _ ha => pure fun _ hb => Option.some.inj hb ▸ ha

theorem separated ( trailing : Bool) (rounds : Nat) :
    Makes c (Reader.separated close trailing item rounds) fun as => ∀ a ∈ as, P a := by
  refine collect (fun first c => (isAt close).bind fun closed c _ => ?_) rounds true
  split
  · exact pure nofun
  · split
    · refine (expect .comma).bind fun _ c _ => ?_
      cases trailing with
      | false => exact some_item h
      | true =>
        refine (isAt close).bind fun closed c _ => ?_
        split
        · exact pure nofun
        · exact some_item h
    · exact some_item h

theorem lines (rounds : Nat) : Makes c (Reader.lines close item rounds) fun as => ∀ a ∈ as, P a := by
  refine collect (fun first c => (skipWhile _).bind fun _ c _ => (isAt close).bind fun closed c _ => ?_) rounds true
  split
  · exact pure nofun
  · refine (h _).bind fun a c ha => look fun _ => ?_
    split
    · exact pure fun b hb => Option.some.inj hb ▸ ha
    · exact failHere _

end

end Makes

end Reader

/-! ## Declarations -/

namespace Grammar

open Reader

variable {c : Cursor}

theorem makes_typeExpr (n : Nat) : Makes c (typeExpr n) TypeExpr.Lexical := by
  induction n generalizing c with
  | zero => exact .outOfRounds
  | succ n ih =>
    refine Makes.name.bind fun head c hhead => .look fun _ => .look fun _ => ?_
    split
    · refine .take_bind ((Makes.separated (fun c => ih) _ _ _).bind fun args c hargs => ?_)
      exact (Makes.expect _).bind fun _ c _ => .pure (.applied hhead hargs)
    · exact .pure (.named hhead)

theorem makes_typeAfter (s : Symbol) (rounds : Nat) : Makes c (typeAfter s rounds) fun type => ∀ t ∈ type, t.Lexical := by
  refine (Makes.accept s).bind fun b c _ => ?_
  split
  · exact .some_item fun c => makes_typeExpr rounds
  · exact .pure nofun

theorem makes_param (rounds : Nat) : Makes c (param rounds) Param.Lexical :=
  Makes.name.bind fun _ _ hname => (makes_typeAfter _ _).bind fun _ _ htype => .pure ⟨hname, htype⟩

theorem makes_typeParam (rounds : Nat) : Makes c (typeParam rounds) TypeParam.Lexical :=
  Makes.name.bind fun _ _ hname => (makes_typeAfter _ _).bind fun _ _ htype => .pure ⟨hname, htype⟩

theorem makes_typeParams (rounds : Nat) : Makes c (typeParams rounds) fun params => ∀ p ∈ params, p.Lexical := by
  refine (Makes.accept _).bind fun b c _ => ?_
  split
  · refine (Makes.separated (fun c => makes_typeParam rounds) _ _ _).bind fun params c hparams => ?_
    exact (Makes.expect _).bind fun _ c _ => .pure hparams
  · exact .pure (List.forall_mem_nil _)

theorem makes_closureParams (n : Nat) : Makes c (closureParams n) fun params => ∀ p ∈ params, p.Lexical := by
  induction n generalizing c with
  | zero => exact .outOfRounds
  | succ n ih =>
    refine (makes_param _).bind fun p c hp => (Makes.accept _).bind fun b c _ => ?_
    split
    · exact ih.bind fun ps c hps => .pure (List.forall_mem_cons.2 ⟨hp, hps⟩)
    · exact (Makes.expect _).bind fun _ c _ => .pure (List.forall_mem_singleton.2 hp)

theorem makes_functionParams (rounds : Nat) : Makes c (functionParams rounds) fun params => ∀ p ∈ params, p.Lexical := by
  refine .look fun _ => ?_
  split
  · refine .take_bind ((Makes.separated (fun c => makes_param rounds) _ _ _).bind fun params c hparams => ?_)
    exact (Makes.expect _).bind fun _ c _ => .pure hparams
  · exact (makes_param rounds).bind fun p c hp => .pure (List.forall_mem_singleton.2 hp)
  · exact .pure (List.forall_mem_nil _)
  · exact .failHere _

theorem makes_functionHead (rounds : Nat) : Makes c (functionHead rounds) fun found => found.2.Lexical := by
  refine (Makes.expectWord _).bind fun _ c _ => Makes.name.bind fun _ c hname => ?_
  refine (makes_typeParams rounds).bind fun _ c htypes => (makes_functionParams rounds).bind fun _ c hparams => ?_
  exact (Makes.expect _).bind fun _ c _ => .pure ⟨hname, htypes, hparams⟩

theorem makes_fieldDecl (rounds : Nat) : Makes c (fieldDecl rounds) FieldDecl.Lexical := by
  refine .look fun _ => ?_
  split
  · refine Makes.name.bind fun _ c hname => (Makes.accept _).bind fun b c _ => ?_
    split
    · exact (makes_typeExpr rounds).bind fun _ c htype => .pure ⟨hname, htype⟩
    · exact .failHere _
  · exact .failHere _

theorem makes_variantDecl (rounds : Nat) : Makes c (variantDecl rounds) VariantDecl.Lexical := by
  refine Makes.name.bind fun _ c hname => .look fun _ => .look fun _ => ?_
  split
  · refine .take_bind ((Makes.lines (fun c => makes_fieldDecl rounds) _ _).bind fun fields c hfields => ?_)
    exact (Makes.expect _).bind fun _ c _ => .pure ⟨hname, hfields⟩
  · exact .pure ⟨hname, nofun⟩

theorem makes_variantDecls (n : Nat) : Makes c (variantDecls n) fun found => found ≠ [] ∧ ∀ v ∈ found, v.Lexical := by
  induction n generalizing c with
  | zero => exact .outOfRounds
  | succ n ih =>
    refine (makes_variantDecl _).bind fun v c hv => (Makes.accept _).bind fun b c _ => ?_
    split
    · exact ih.bind fun vs c hvs => .pure ⟨List.cons_ne_nil _ _, List.forall_mem_cons.2 ⟨hv, hvs.2⟩⟩
    · exact .pure ⟨List.cons_ne_nil _ _, List.forall_mem_singleton.2 hv⟩

theorem makes_typeBody (rounds : Nat) : Makes c (typeBody rounds) fun body => body.Lexical ∧ body ≠ .abstract := by
  refine (Makes.accept _).bind fun b c _ => ?_
  split
  · refine (Makes.lines (fun c => makes_fieldDecl rounds) _ _).bind fun fields c hfields => ?_
    exact (Makes.expect _).bind fun _ c _ => .pure ⟨hfields, nofun⟩
  · refine (Makes.accept _).bind fun b c _ => ?_
    split
    · exact (makes_variantDecls rounds).bind fun alternatives c h => .pure ⟨h, nofun⟩
    · exact .pure ⟨trivial, nofun⟩

end Grammar

/-! ## Patterns -/

namespace Node

/-- A tree that is printable as soon as it is legible everywhere. If it is a pair this is also true of its value, which
may become that of an entry. -/
structure Lexical (e : Node) : Prop where
  printable : e.Everywhere Legible → e.Printable
  value : ∀ {span : Span} {key value : Node}, e = .pair span key value → value.Everywhere Legible → value.Printable

/-- A tree that is a printable pattern as soon as it is legible everywhere. -/
def LexicalPattern (e : Node) : Prop := e.Everywhere Legible → e.PrintablePattern

/-- A node that is no negative number. -/
def IsUnsigned (e : Node) : Prop := ∀ {span : Span} {value : Literal}, e = .literal span value → value.Unsigned

end Node

namespace Grammar

open Reader

variable {c : Cursor}

theorem makes_constructFields {item : Reader Node} {p : Node → Prop} (h : ∀ c, Makes c item p) (rounds : Nat) :
    Makes c (constructFields item rounds) fun found => ∀ field ∈ found.1, Printer.isName field.1.val ∧ p field.2 := by
  refine (Makes.expect _).bind fun _ c _ => ?_
  have hfield (c : Cursor) : Makes c (do
      let head ← name
      let _ ← expect .colon
      return (head, ← item)) fun field => Printer.isName field.1.val ∧ p field.2 :=
    Makes.name.bind fun _ c hname => (Makes.expect _).bind fun _ c _ => (h c).bind fun _ c hnode => .pure ⟨hname, hnode⟩
  exact (Makes.lines hfield .closeBrace rounds).bind fun fields c hfields => (Makes.expect _).bind fun _ c _ => .pure hfields

theorem lines_ne_nil {α : Type} {close : Symbol} {item : Reader α} {rounds : Nat} (hcomma : isSymbol .comma c.here.token = false)
    (hclose : isSymbol close c.here.token = false) : Yields c (lines close item rounds) fun found _ => found ≠ [] := by
  cases rounds with
  | zero => exact .look (.fail _ _)
  | succ n =>
    -- The first round finds an item, as neither a comma nor the end of the lines comes first.
    refine Yields.bind (P := fun found _ => found ≠ none) (Yields.bind (P := fun _ c' => c' = c) ?_ ?_) fun found c' hfound => ?_
    · rintro _ _ ⟨⟩
      exact c.skip_eq hcomma
    · rintro _ c' rfl
      have hopen : Yields c' (isAt close) fun closed _ => closed = false := by
        rintro _ _ ⟨⟩
        exact hclose
      refine hopen.bind fun closed c' hclosed => ?_
      rw [hclosed, if_neg Bool.false_ne_true]
      refine .skip fun a c' => .look ?_
      split
      · exact .pure nofun
      · exact .failHere _
    · cases found with
      | none => exact absurd rfl hfound
      | some a => exact .skip fun as c' => .pure (List.cons_ne_nil a as)

/-- Where fields begin there is one at least. -/
theorem fieldsAhead_yields (item : Reader Node) (rounds : Nat) :
    Yields c fieldsAhead fun ahead c' =>
      c' = c ∧ (ahead = true → Yields c (constructFields item rounds) fun found _ => found.1 ≠ []) := by
  rintro _ _ ⟨⟩
  refine ⟨rfl, fun hahead => ?_⟩
  rw [Bool.and_eq_true] at hahead
  obtain ⟨hbrace, hahead⟩ := hahead
  obtain ⟨last, l, _ | ⟨m, _ | ⟨k, ls⟩⟩⟩ := c
  · cases hahead
  · cases hahead
  · rw [Bool.and_eq_true] at hahead
    have hname (s : Symbol) : isSymbol s m.token = false := by
      cases ht : m.token with
      | symbol =>
        rw [ht] at hahead
        cases hahead.1
      | _ => rfl
    have hopening : Yields ⟨last, l, m :: k :: ls⟩ (expect .openBrace) fun _ c' => c'.here = m := by
      intro span c' hrun
      rw [Seam.Agrees.expect_eq, if_pos hbrace] at hrun
      cases hrun
      rfl
    refine hopening.bind fun _ c' hc' => (lines_ne_nil ?_ ?_).bind fun fields _ hfields =>
      Yields.skip fun _ _ => Yields.pure ?_
    · rw [hc']
      exact hname _
    · rw [hc']
      exact hname _
    · exact hfields

theorem makes_construct {item : Reader Node} {p P : Node → Prop} {rounds : Nat} {head : Located String}
    (h : ∀ c, Makes c item p)
    (hconstruct : ∀ span fields, fields ≠ [] → (∀ field ∈ fields, Printer.isName field.1.val ∧ p field.2) →
      P (.construct span head fields))
    (hident : P (.ident head.span head.val)) :
    Makes c (do
      if ← fieldsAhead then
        let (fields, close) ← constructFields item rounds
        return .construct (head.span.cover close) head fields
      else return .ident head.span head.val) P := by
  intro hc
  refine (fieldsAhead_yields item rounds).bind ?_
  rintro ahead c' ⟨rfl, hne⟩
  cases ahead with
  | false => exact .pure ⟨hident, hc⟩
  | true =>
    exact ((makes_constructFields h rounds).and (hne rfl)).bind (fun found c' hfound =>
      .pure (hconstruct _ _ hfound.2 hfound.1)) hc

/-- What a reader of patterns makes: patterns, and no negative numbers unless there is a minus sign. -/
def MakesPattern (pattern : Reader Node) : Prop :=
  ∀ c, Makes c pattern fun e => e.LexicalPattern ∧ (c.here.token ≠ .symbol .minus → e.IsUnsigned)

theorem makes_captureWith {pattern : Reader Node} (h : MakesPattern pattern) :
    Makes c (captureWith pattern) fun e => (e.LexicalPattern ∧ e.IsUnsigned) ∧ e.Lexical := by
  have hlimit {bound : Option String} (hbound : ∀ text ∈ bound, Printer.isName text) (span : Span) (c : Cursor) : Makes c (do
      let l ← here
      if !l.afterBreak && beginsRefinement l.token then
        let inner ← pattern
        return Node.refine (span.cover inner.span) bound inner
      else return Node.capture span bound) fun e => (e.LexicalPattern ∧ e.IsUnsigned) ∧ e.Lexical := by
    refine .look fun _ => ?_
    split
    · next hbegins =>
      have hminus : c.here.token ≠ .symbol .minus := by
        intro ht
        rw [ht] at hbegins
        simp [beginsRefinement, isName, literal?] at hbegins
      refine (h c).bind fun inner c' hinner => .pure ?_
      have hpattern : (Node.refine (span.cover inner.span) bound inner).LexicalPattern := fun hl =>
        .refine hbound (hinner.2 hminus) (hinner.1 (hl.child List.mem_cons_self))
      exact ⟨⟨hpattern, nofun⟩, fun hl => .refine (hpattern hl), nofun⟩
    · exact .pure ⟨⟨fun _ => .capture hbound, nofun⟩, fun _ => .capture (.capture hbound), nofun⟩
  refine (Makes.expect _).bind fun first c _ => .look fun _ => ?_
  dsimp only
  split
  · exact Makes.name.bind fun head c hhead => hlimit (fun text ht => Option.some.inj ht ▸ hhead) _ c
  · exact hlimit (fun _ hmem => absurd hmem (Option.not_mem_none _)) _ c

theorem unsigned_of_literal? {token : Token} {value : Literal} (h : token.Lexical) (hvalue : literal? token = some value) :
    value.Unsigned := by
  unfold literal? at hvalue
  split at hvalue <;> cases hvalue <;> exact h

theorem signed_of_negative? {token : Token} {value : Literal} (h : token.Lexical) (hvalue : negative? token = some value) :
    value.Signed := by
  unfold negative? at hvalue
  split at hvalue
  · cases hvalue
    exact .inr (by rwa [Int64.neg_neg])
  · cases hvalue
    trivial
  · cases hvalue

theorem makes_pattern (n : Nat) : MakesPattern (pattern n) := by
  induction n with
  | zero => exact fun _ => .outOfRounds
  | succ n ih =>
    intro c
    refine .look fun htoken => ?_
    split
    · exact (makes_captureWith ih).mono fun e h => ⟨h.1.1, fun _ => h.1.2⟩
    · refine Makes.name.bind fun head c hhead => makes_construct (fun c => (ih c).mono fun _ h => h.1) (fun span fields hne hfields => ?_) ?_
      · refine ⟨fun hl => .construct hhead hne (fun field hm => (hfields field hm).1) fun field hm => ?_, nofun⟩
        exact (hfields field hm).2 (hl.child (List.mem_map_of_mem hm))
      · exact ⟨fun _ => .ident hhead, nofun⟩
    · next hminus =>
      refine .take_bind (.look fun hnumber => ?_)
      split
      · next value hvalue =>
        refine .take_bind (.pure ⟨fun hl => .literal (signed_of_negative? hnumber hvalue) (hl.1.restored rfl), fun h => ?_⟩)
        exact absurd hminus h
      · exact .failHere _
    · split
      · next value hvalue =>
        have hunsigned := unsigned_of_literal? htoken hvalue
        refine .take_bind (.pure ⟨fun hl => .literal (Literal.Unsigned.signed hunsigned) (hl.1.restored rfl), fun _ => ?_⟩)
        rintro _ _ ⟨⟩
        exact hunsigned
      · exact .failHere _

/-! ## Expressions -/

theorem makes_statementEnd (inBlock : Bool) : Makes c (statementEnd inBlock) fun _ => True := by
  refine .look fun _ => ?_
  split
  · exact .take_bind (.pure trivial)
  · exact .pure trivial
  · exact .fail _ _
  · split
    · exact .pure trivial
    · split
      · exact .pure trivial
      · exact .failHere _

section

variable {expr : ExpressionReader} {ctx : Context} {least : Nat}
  (hexpr : ∀ ctx least c, Makes c (expr ctx least) Node.Lexical) (rounds : Nat)

section

include hexpr

theorem makes_arguments : Makes c (arguments expr rounds) fun found => ∀ arg ∈ found.1, arg.Lexical :=
  (Makes.expect _).bind fun _ _ _ => (Makes.separated (hexpr .nested 0) _ _ _).bind fun _ _ hargs =>
    (Makes.expect _).bind fun _ _ _ => .pure hargs

/-- What may follow a name. The reserved word `type` stands only before arguments. -/
theorem makes_afterName {head : Located String}
    (hhead : Printer.isName head.val ∨ head.val = "type" ∧ isSymbol .openParen c.here.token = true) :
    Makes c (afterName expr rounds ctx head) Node.Lexical := by
  refine .isAt_bind ?_
  split
  · refine (makes_arguments hexpr rounds).bind fun (args, close) c hargs => .pure ⟨fun hl => ?_, nofun⟩
    exact .call hl.1 (hhead.imp_right And.left) fun arg hm => (hargs arg hm).printable (hl.child hm)
  · next hparen =>
    have hhead : Printer.isName head.val := hhead.resolve_right fun h => hparen h.2
    cases ctx.constructs with
    | false => exact .pure ⟨fun _ => .ident hhead, nofun⟩
    | true =>
      refine makes_construct (hexpr .nested 0) (fun span fields hne hfields => ?_) ⟨fun _ => .ident hhead, nofun⟩
      refine ⟨fun hl => .construct hl.1 hhead hne (fun field hm => (hfields field hm).1) fun field hm => ?_, nofun⟩
      exact (hfields field hm).2.printable (hl.child (List.mem_map_of_mem hm))

end

/-- The values of an object that has been read are printable if the object is legible. -/
theorem entries_lexical {elements : List Node} {fields : List (Located String × Node)}
    (h : ∀ element ∈ elements, element.Lexical) (he : entries elements = .ok fields) :
    ∀ field ∈ fields, field.2.Everywhere Node.Legible → field.2.Printable := by
  induction elements generalizing fields with
  | nil =>
    cases he
    exact List.forall_mem_nil _
  | cons element elements ih =>
    obtain ⟨helement, hrest⟩ := List.forall_mem_cons.1 h
    have hentry {key : Located String} {value : Node} (hv : value.Everywhere Node.Legible → value.Printable)
        (he : (do return (key, value) :: (← entries elements)) = Except.ok fields) :
        ∀ field ∈ fields, field.2.Everywhere Node.Legible → field.2.Printable := by
      cases hr : entries elements with
      | error e =>
        rw [hr] at he
        cases he
      | ok rest =>
        rw [hr] at he
        cases he
        exact List.forall_mem_cons.2 ⟨hv, ih hrest hr⟩
    cases element with
    | pair span key value =>
      cases key with
      | ident _ _ => exact hentry (helement.value rfl) he
      | literal _ literal =>
        cases literal with
        | string _ => exact hentry (helement.value rfl) he
        | _ => cases he
      | _ => cases he
    | _ => exact ih hrest he

theorem ofElements_lexical {span : Span} {elements : List Node} {node : Node} (h : ∀ element ∈ elements, element.Lexical)
    (he : ofElements span elements = .ok node) : node.Lexical := by
  rw [ofElements] at he
  split at he
  · cases he
    exact ⟨fun hl => .array hl.1 fun element hm => (h element hm).printable (hl.child hm), fun he => by cases he⟩
  · split at he
    · cases hentries : entries elements with
      | error e =>
        rw [hentries] at he
        cases he
      | ok fields =>
        rw [hentries] at he
        cases he
        have hfields := entries_lexical h hentries
        exact ⟨fun hl => .object hl.1 fun field hm => hfields field hm (hl.child (List.mem_map_of_mem hm)),
          fun he => by cases he⟩
    · cases he

/-- Whatever joins two expressions, what comes of it is made of words. -/
theorem join_lexical {left right : Node} (hleft : left.Lexical) (hright : right.Lexical) (connective : Connective) :
    (join left connective right).Lexical := by
  have hparts {e : Node} (hc : e.children = [left, right]) (hl : e.Everywhere Node.Legible) :
      left.Printable ∧ right.Printable :=
    ⟨hleft.printable (hl.child (by simp [hc])), hright.printable (hl.child (by simp [hc]))⟩
  cases connective with
  | assign => exact ⟨fun hl => .assign hl.1 (hparts rfl hl).1 (hparts rfl hl).2, nofun⟩
  | binary op => exact ⟨fun hl => .binary hl.1 (hparts rfl hl).1 (hparts rfl hl).2, nofun⟩
  | pair =>
    refine ⟨fun hl => .pair hl.1 (hparts rfl hl).1 (hparts rfl hl).2, ?_⟩
    rintro _ _ _ ⟨⟩
    exact hright.printable

include hexpr

theorem makes_list : Makes c (list expr rounds) Node.Lexical := by
  refine (Makes.expect _).bind fun opening c _ => .get ?_
  split
  · exact .take_bind (.take_bind (.pure ⟨fun hl => .object hl.1 nofun, nofun⟩))
  · refine (Makes.separated (hexpr .element 0) _ _ _).bind fun elements c helements => ?_
    refine (Makes.expect _).bind fun closing c _ hc node c' hnode => ?_
    cases hof : ofElements (opening.cover closing) elements with
    | error e =>
      rw [hof] at hnode
      cases hnode
    | ok node =>
      rw [hof] at hnode
      cases hnode
      exact ⟨ofElements_lexical helements hof, hc⟩

theorem makes_block : Makes c (block expr rounds) Node.Lexical := by
  refine (Makes.expect _).bind fun opening c _ => (Makes.attempt (makes_closureParams rounds)).bind fun params c hparams => ?_
  have hround (first : Bool) (c : Cursor) : Makes c (do
      skipWhile (isSymbol .semicolon)
      if ← isAt .closeBrace then return none
      if ← atEnd then fail .unclosedBlock opening
      let statement ← expr .nested 0
      statementEnd true
      return some statement) fun found => ∀ node ∈ found, node.Lexical := by
    refine (Makes.skipWhile _).bind fun _ c _ => (Makes.isAt _).bind fun closed c _ => ?_
    split
    · exact .pure nofun
    · refine Makes.atEnd.bind fun stop c _ => ?_
      split
      · exact .fail _ _
      · exact (hexpr .nested 0 c).bind fun statement c hs => (makes_statementEnd true).bind fun _ c _ =>
          .pure fun node hnode => Option.some.inj hnode ▸ hs
  refine (Makes.collect hround rounds true).bind fun body c hbody => (Makes.expect _).bind fun closing c _ => .pure ?_
  refine ⟨fun hl => .block hl.1 ?_ fun statement hm => (hbody statement hm).printable (hl.child hm), nofun⟩
  cases params with
  | none => exact List.forall_mem_nil _
  | some params => exact hparams params rfl

theorem makes_cases : Makes c (cases expr rounds) Node.Lexical := by
  refine (Makes.expectWord _).bind fun first c _ => (hexpr .scrutinee 0 c).bind fun scrutinee c hs => ?_
  refine (Makes.expect _).bind fun opening c _ => ?_
  have hround (first : Bool) (c : Cursor) : Makes c (do
      skipWhile fun t => isSymbol .comma t || isSymbol .semicolon t
      if ← isAt .closeBrace then return none
      if ← atEnd then fail .unclosedMatch opening
      let pat ← pattern rounds
      let _ ← expect .arrow
      let body ← expr .nested 0
      let l ← here
      if isSymbol .comma l.token || isSymbol .closeBrace l.token || l.afterBreak then
        return some (pat, body)
      else failHere .expectedArmEnd) fun found => ∀ arm ∈ found, arm.1.LexicalPattern ∧ arm.2.Lexical := by
    refine (Makes.skipWhile _).bind fun _ c _ => (Makes.isAt _).bind fun closed c _ => ?_
    split
    · exact .pure nofun
    · refine Makes.atEnd.bind fun stop c _ => ?_
      split
      · exact .fail _ _
      · refine (makes_pattern rounds c).bind fun pat c hpat => (Makes.expect _).bind fun _ c _ => ?_
        refine (hexpr .nested 0 c).bind fun body c hbody => .look fun _ => ?_
        split
        · exact .pure fun arm harm => Option.some.inj harm ▸ ⟨hpat.1, hbody⟩
        · exact .failHere _
  refine (Makes.collect hround rounds true).bind fun arms c harms => (Makes.expect _).bind fun closing c _ => .pure ?_
  refine ⟨fun hl => .cases hl.1 (hs.printable (hl.child List.mem_cons_self)) (fun arm hm => ?_) fun arm hm => ?_, nofun⟩
  · exact (harms arm hm).1 (hl.child (List.mem_cons_of_mem _ (List.mem_flatMap.2 ⟨arm, hm, List.mem_cons_self⟩)))
  · exact (harms arm hm).2.printable
      (hl.child (List.mem_cons_of_mem _ (List.mem_flatMap.2 ⟨arm, hm, List.mem_cons_of_mem _ List.mem_cons_self⟩)))

theorem makes_function : Makes c (function expr rounds) Node.Lexical :=
  (makes_functionHead rounds).bind fun (_, _) c hhead => (hexpr .nested bodyPower c).bind fun _ _ hbody =>
    .pure ⟨fun hl => .function hl.1 hhead (hbody.printable (hl.child List.mem_cons_self)), nofun⟩

/-- What an expression begins with. -/
theorem makes_primary : Makes c (primary expr rounds ctx) Node.Lexical := by
  have hliteral {span : Span} {value : Literal} {c : Cursor} (hvalue : value.Unsigned) :
      Makes c (do
        let _ ← take
        return .literal span value) Node.Lexical :=
    .take_bind (.pure ⟨fun hl => .literal hvalue (hl.1.restored rfl), nofun⟩)
  have hunary {span : Lexeme} {op : UnaryOp} {c : Cursor} : Makes c (do
      let _ ← take
      let operand ← expr ctx operandPower
      return .unary (span.span.cover operand.span) op operand) Node.Lexical :=
    .take_bind ((hexpr ctx operandPower _).bind fun operand c h =>
      .pure ⟨fun hl => .unary hl.1 (h.printable (hl.child List.mem_cons_self)), nofun⟩)
  have hdecl {span : Span} {decl : TypeDecl} (h : decl.Lexical) : (Node.typeDecl span decl).Lexical :=
    ⟨fun _ => .typeDecl h, nofun⟩
  have htype {c : Cursor} : Makes c (typeDecl rounds) Node.Lexical := by
    refine (Makes.expectWord _).bind fun first c _ => Makes.name.bind fun head c hhead => ?_
    refine (makes_typeParams rounds).bind fun params c hparams => (makes_typeAfter _ _).bind fun parent c hparent => ?_
    refine (makes_typeBody rounds).bind fun body c hbody => .get (.pure (hdecl ⟨hhead, hparams, hparent, hbody.1, fun h => ?_⟩))
    exact absurd h hbody.2
  have habstract {c : Cursor} : Makes c (abstractDecl rounds) Node.Lexical := by
    have hrest {first : Span} {c : Cursor} : Makes c (do
        let head ← name
        let parent ← typeAfter .below rounds
        return .typeDecl (first.cover (← MonadState.get).last) ⟨head, [], parent, .abstract⟩) Node.Lexical :=
      Makes.name.bind fun head c hhead => (makes_typeAfter _ _).bind fun parent c hparent =>
        .get (.pure (hdecl ⟨hhead, nofun, hparent, trivial, fun _ => rfl⟩))
    refine (Makes.expectWord _).bind fun first c _ => .look fun _ => ?_
    dsimp only
    split
    · exact .take_bind hrest
    · exact hrest
  refine .look fun htoken => ?_
  split
  · next ht =>
    rw [ht] at htoken
    exact hliteral htoken
  · next ht =>
    rw [ht] at htoken
    exact hliteral htoken
  · exact hliteral trivial
  · exact .fail _ _
  · exact Makes.name.bind fun head c hhead => makes_afterName hexpr rounds (.inl hhead)
  · exact .fail _ _
  · exact hliteral trivial
  · exact hliteral trivial
  · exact makes_function hexpr rounds
  · refine .get ?_
    -- The word `type` is the name of a function where arguments follow.
    split
    · next hparen => exact .take_bind (makes_afterName hexpr rounds (.inr ⟨rfl, Cursor.next_here hparen⟩))
    · exact htype
  · exact habstract
  · exact makes_cases hexpr rounds
  · exact .fail _ _
  · exact .take_bind ((hexpr .nested 0 _).bind fun inner c h => (Makes.expect _).bind fun _ c _ => .pure h)
  · exact makes_list hexpr rounds
  · exact makes_block hexpr rounds
  · exact hunary
  · exact hunary
  · refine .take_bind ((hexpr ctx operandPower _).bind fun body c h => .pure ⟨fun hl => ?_, nofun⟩)
    exact .quoted hl.1 (h.printable (hl.child List.mem_cons_self))
  · exact (makes_captureWith (makes_pattern rounds)).mono fun e h => h.2
  · exact .fail _ _
  · exact .fail _ _

theorem makes_extend {left : Node} (hleft : left.Lexical) :
    Makes c (extend expr rounds ctx least left) fun longer => ∀ node ∈ longer, node.Lexical := by
  refine .look fun _ => ?_
  dsimp only
  split
  · exact .pure nofun
  · split
    · refine .take_bind (Makes.name.bind fun member c hmember => (Makes.isAt _).bind fun b c _ => ?_)
      split
      · refine (makes_arguments hexpr rounds).bind fun (args, close) c hargs => .pure ?_
        rintro _ ⟨⟩
        exact ⟨fun hl => .send hl.1 hmember (hleft.printable (hl.child List.mem_cons_self)) fun arg hm =>
          (hargs arg hm).printable (hl.child (List.mem_cons_of_mem _ hm)), nofun⟩
      · refine .pure ?_
        rintro _ ⟨⟩
        exact ⟨fun hl => .field hl.1 hmember (hleft.printable (hl.child List.mem_cons_self)), nofun⟩
    -- An index in brackets is a call of the method `at`.
    · refine .take_bind ((hexpr .nested 0 _).bind fun index c hindex => (Makes.expect _).bind fun close c _ => .pure ?_)
      rintro _ ⟨⟩
      refine ⟨fun hl => .send hl.1 (show Printer.isName "at" by decide) (hleft.printable (hl.child List.mem_cons_self)) ?_, nofun⟩
      exact List.forall_mem_singleton.2 (hindex.printable (hl.child (List.mem_cons_of_mem _ List.mem_cons_self)))
    · split
      · exact .pure nofun
      · next connective hs =>
        split
        · exact .pure nofun
        · have hjoin {c : Cursor} : Makes c (do
              let right ← expr ctx connective.powers.2
              return some (join left connective right)) fun longer => ∀ node ∈ longer, node.Lexical :=
            (hexpr ctx _ c).bind fun right c hright => .pure fun node hnode =>
              Option.some.inj hnode ▸ join_lexical hleft hright connective
          refine .take_bind ?_
          split
          · rw [if_pos rfl]
            split
            · exact .bind (P := fun _ => False) (.fail _ _) fun _ _ h => h.elim
            · exact hjoin
          · rw [if_neg Bool.false_ne_true]
            exact hjoin
    · exact .pure nofun

theorem makes_climb (n : Nat) {left : Node} (hleft : left.Lexical) :
    Makes c (climb expr rounds ctx least n left) Node.Lexical := by
  induction n generalizing c left with
  | zero => exact .outOfRounds
  | succ n ih =>
    refine (makes_extend hexpr rounds hleft).bind fun longer c' h => ?_
    cases longer with
    | none => exact .pure hleft
    | some node => exact ih (h node rfl)

end

/-! ## Programs -/

theorem makes_expression (n : Nat) (ctx : Context) (least : Nat) (c : Cursor) :
    Makes c (expression n ctx least) Node.Lexical := by
  induction n generalizing ctx least c with
  | zero => exact .outOfRounds
  | succ n ih => exact (makes_primary ih (n + 1)).bind fun left c' hleft => makes_climb ih (n + 1) (n + 1) hleft

theorem makes_program (rounds : Nat) :
    Makes c (program rounds) fun statements => ∀ statement ∈ statements, statement.Lexical := by
  refine Makes.collect (fun first c => (Makes.skipWhile _).bind fun _ c _ => Makes.atEnd.bind fun stop c _ => ?_) rounds true
  split
  · exact .pure nofun
  · exact (makes_expression rounds .nested 0 c).bind fun statement c hs => (makes_statementEnd false).bind fun _ c _ =>
      .pure fun node hnode => Option.some.inj hnode ▸ hs

end Grammar

namespace Program

variable {source : String} {program : Program}

/-- Each statement of a program that has been read is printable if it is legible everywhere. -/
theorem lexical_of_parse (h : Program.parse source = .ok program) : ∀ statement ∈ program, statement.Lexical := by
  rw [Program.parse, Grammar.parse] at h
  cases hrun : Grammar.program ((Token.scan source).length + 1) (.start (Token.scan source)) with
  | error e =>
    rw [hrun] at h
    cases h
  | ok result =>
    rw [hrun] at h
    cases h
    have hstart : (Cursor.start (Token.scan source)).Lexical := by
      have hscan := Token.lexical_of_mem_scan source
      cases hs : Token.scan source with
      | nil => exact List.forall_mem_singleton.2 trivial
      | cons l ls =>
        rw [hs] at hscan
        exact hscan
    exact (Grammar.makes_program _ hstart result.1 result.2 hrun).1

theorem printable_of_parse (h : Program.parse source = .ok program) (hlegible : program.isLegible = true)
    (hfloats : ∀ span x, Node.literal span (.float x) ∈ program.nodes →
      Decimal.readFloat? (Printer.floatLiteral x) = some x) :
    ∀ statement ∈ program, statement.Printable := by
  rw [isLegible, Bool.and_eq_true, List.all_eq_true] at hlegible
  have heverywhere : ∀ node ∈ program.nodes, node.Legible := fun node hm =>
    { wellFormed := (parse_wellFormed h).1 node hm
      isLegible := hlegible.1 node hm
      restored := by
        rintro span value rfl
        cases value with
        | float x => exact ⟨hlegible.1 _ hm, hfloats span x hm⟩
        | _ => trivial }
  exact fun statement hs => (lexical_of_parse h statement hs).printable (Node.forall_nodes_iff.1 heverywhere statement hs)

end Program

end DispatchLang
