import DispatchLang.Proofs.Grammar.Following

/-!
# The grammar by position

The grammar is gone through call by call: each one follows the reader of the same name, if both are given more rounds
than there are words left. The induction is on the rounds. A call that reads others has taken at least one word before
it does, so with one round less there are still more rounds than words left.

The flags are what a reader is told of its context. Only a call that switches them leads to a reader that is told
something else.

## Main results

* `Text.follows_expression`: expressions follow their readers.
* `Text.follows_program`: so do programs, which are over at the end of the text and nowhere before.
-/

namespace DispatchLang

open Machine (Flags State)
open Reader (isSymbol isKeyword isName)

namespace Grammar

theorem cause_entries {elements : List Node} {e : SyntaxError} (h : entries elements = .error e) :
    e.cause ≠ .outOfRounds := by
  have hmap {x : Except SyntaxError (List (Located String × Node))} {entry : Located String × Node}
      (h : (x >>= fun rest => Except.ok (entry :: rest)) = .error e) : x = .error e := by
    cases x with
    | error _ => exact h
    | ok _ => cases h
  induction elements using entries.induct with
  | case1 => cases h
  | case2 _ _ key value elements ih => exact ih (hmap h)
  | case3 _ _ key value elements ih => exact ih (hmap h)
  | case4 _ key value elements hident hstring =>
    rw [entries] at h
    · cases h
      exact SyntaxCause.noConfusion
    · exact hident
    · exact hstring
  | case5 element elements hident hstring hpair ih =>
    rw [entries] at h
    · exact ih h
    · exact hident
    · exact hstring
    · exact hpair

/-- A list whose elements do not fit together is refused because of them. -/
theorem cause_ofElements {span : Span} {elements : List Node} {e : SyntaxError}
    (h : ofElements span elements = .error e) : e.cause ≠ .outOfRounds := by
  unfold ofElements at h
  split at h
  · cases h
  · split at h
    · cases hentries : entries elements with
      | error e' =>
        rw [hentries] at h
        cases h
        exact cause_entries hentries
      | ok list =>
        rw [hentries] at h
        cases h
    · cases h
      exact SyntaxCause.noConfusion

end Grammar

namespace Text

variable {text : Text} {α β : Type} {s : State} {c : Cursor} {n m : Nat}

namespace Follows

/-! ## Lists -/

theorem separated {close : Symbol} { trailing : Bool} {item : Machine α} {item' : Reader α}
    (hitem : ∀ t c, s.position ≤ t.position → text.Follows t c item item' (Beyond t.position))
    (hn : text.words.length < s.position + n) (hm : text.words.length < s.position + m) :
    text.Follows s c (Machine.separated close trailing item n) (Reader.separated close trailing item' m)
      (From s.position) := by
  have hsome {t : State} {c : Cursor} (ht : s.position ≤ t.position) {i : Nat} (hi : i ≤ t.position) :
      text.Follows t c (do return some (← item)) (do return some (← item')) (Round Anywhere i) :=
    (hitem t c ht).map fun a j hj => Nat.lt_of_le_of_lt hi hj
  refine rounds (fun first t c ht => ?_) hn hm
  refine isAt_bind (fun _ => pure ⟨le_rfl, trivial⟩) fun _ => ?_
  dsimp only [Bool.false_eq_true, if_false]
  cases first with
  | true => exact hsome ht le_rfl
  | false =>
    refine (expect .comma).bind fun _ t' c' _ ht' => ?_
    have ht' := Nat.le_of_lt ht'
    cases trailing with
    | false => exact hsome (Nat.le_trans ht ht') ht'
    | true => exact isAt_bind (fun _ => pure ⟨ht', trivial⟩) fun _ => hsome (Nat.le_trans ht ht') ht'

theorem lines {close : Symbol} {item : Machine α} {item' : Reader α}
    (hitem : ∀ t c, s.position ≤ t.position → text.Follows t c item item' (Beyond t.position))
    (hn : text.words.length < s.position + n) (hm : text.words.length < s.position + m) :
    text.Follows s c (Machine.lines close item n) (Reader.lines close item' m) (From s.position) := by
  refine rounds (fun first t c ht => ?_) hn hm
  refine (skipWhile rfl (by omega)).bind fun _ t' c' _ ht' => ?_
  refine isAt_bind (fun _ => pure ⟨ht', trivial⟩) fun _ => ?_
  refine (hitem t' c' (Nat.le_trans ht ht')).bind fun a t'' c'' _ ht'' => ?_
  exact lineEnd_bind (t := fun token => isSymbol .comma token || isSymbol close token) nofun
      (pure (Nat.lt_of_le_of_lt ht' ht''))

end Follows

open Text.Follows

/-! ## Types and parameters -/

theorem follows_typeExpr (hn : text.words.length < s.position + n) (hm : text.words.length < s.position + m) :
    text.Follows s c (Machine.typeExpr n) (Grammar.typeExpr m) (Beyond s.position) := by
  refine of_stands fun hc => ?_
  have hle := hc.le
  clear hc
  induction n generalizing m s c with
  | zero => omega
  | succ n ih =>
    obtain ⟨m, rfl⟩ : ∃ k, m = k + 1 := ⟨m - 1, by omega⟩
    rw [Machine.typeExpr, Grammar.typeExpr]
    refine (name).bind fun head t c' _ (ht : s.position < t.position) => onLine_bind (fun hne => ?_) (pure ht)
    refine take_bind hne ?_
    have hargs (t' : State) (c : Cursor) (ht' : t.position + 1 ≤ t'.position) :
        text.Follows t' c (Machine.typeExpr n) (Grammar.typeExpr m) (Beyond t'.position) :=
      of_stands fun hc => ih (by omega) (by omega) hc.le
    refine (separated hargs (by dsimp only; omega) (by dsimp only; omega)).bind fun args t' c' _ ht' => ?_
    refine (expect .closeBracket).map fun close i hi => ?_
    exact Nat.lt_trans (Nat.lt_trans ht ht') hi

theorem follows_typeAfter {symbol : Symbol} (hn : text.words.length < s.position + n)
    (hm : text.words.length < s.position + m) :
    text.Follows s c (Machine.typeAfter symbol n) (Grammar.typeAfter symbol m) (From s.position) := by
  refine (accept symbol).bind fun b t c' _ ht => ?_
  split
  · refine (follows_typeExpr (by omega) (by omega)).map fun type i hi => ?_
    exact Nat.le_trans ht.1 (Nat.le_of_lt hi)
  · exact pure ht.1

theorem follows_param (hn : text.words.length < s.position + n) (hm : text.words.length < s.position + m) :
    text.Follows s c (Machine.param n) (Grammar.param m) (Beyond s.position) :=
  (name).bind fun head t c' _ (ht : s.position < t.position) =>
    (follows_typeAfter (by omega) (by omega)).map fun type i hi => Nat.lt_of_lt_of_le ht hi

theorem follows_typeParam (hn : text.words.length < s.position + n) (hm : text.words.length < s.position + m) :
    text.Follows s c (Machine.typeParam n) (Grammar.typeParam m) (Beyond s.position) :=
  (name).bind fun head t c' _ (ht : s.position < t.position) =>
    (follows_typeAfter (by omega) (by omega)).map fun type i hi => Nat.lt_of_lt_of_le ht hi

theorem follows_typeParams (hn : text.words.length < s.position + n) (hm : text.words.length < s.position + m) :
    text.Follows s c (Machine.typeParams n) (Grammar.typeParams m) (From s.position) := by
  refine (accept .openBracket).bind fun b t c' _ ht => ?_
  split
  · refine (separated (fun t' c ht' => follows_typeParam (by omega) (by omega)) (by omega) (by omega)).bind
      fun params t' c' _ ht' => ?_
    refine (expect .closeBracket).bind fun close t'' _ _ ht'' => pure ?_
    exact Nat.le_trans (Nat.le_trans ht.1 ht') (Nat.le_of_lt ht'')
  · exact pure ht.1

theorem follows_closureParams (hn : text.words.length < s.position + n) (hm : text.words.length < s.position + m) :
    text.Follows s c (Machine.closureParams n) (Grammar.closureParams m) (Beyond s.position) := by
  refine of_stands fun hc => ?_
  have hle := hc.le
  clear hc
  induction n generalizing m s c with
  | zero => omega
  | succ n ih =>
    obtain ⟨m, rfl⟩ : ∃ k, m = k + 1 := ⟨m - 1, by omega⟩
    refine (follows_param hn hm).bind fun p t c' _ (ht : s.position < t.position) => ?_
    refine (accept .comma).bind fun b t' c' _ ht' => ?_
    have hlt : s.position < t'.position := Nat.lt_of_lt_of_le ht ht'.1
    split
    · refine Follows.map (of_stands fun hc => ih (by omega) (by omega) hc.le) fun ps i hi => ?_
      exact Nat.lt_trans hlt hi
    · refine (expect .bar).bind fun bar t'' _ _ ht'' => pure ?_
      exact Nat.lt_trans hlt ht''

theorem follows_functionParams (hn : text.words.length < s.position + n) (hm : text.words.length < s.position + m) :
    text.Follows s c (Machine.functionParams n) (Grammar.functionParams m) (From s.position) := by
  have hcause (token : Token) : SyntaxCause.expectedParams token ≠ .outOfRounds := nofun
  refine here_bind ?_
  obtain ⟨last, ⟨token, span, afterBreak, touches⟩, ahead⟩ := c
  cases token with
  | symbol symbol =>
    cases symbol with
    | openParen =>
      refine take_bind Token.noConfusion ?_
      refine (separated (fun t c (ht : s.position + 1 ≤ t.position) => follows_param (by omega) (by omega))
        (by dsimp only; omega) (by dsimp only; omega)).bind fun params t c' _ ht => ?_
      refine (expect .closeParen).bind fun close t' _ _ ht' => pure ?_
      exact Nat.le_of_lt (Nat.lt_trans (Nat.lt_of_succ_le ht) ht')
    | assign => exact pure le_rfl
    | _ => exact failHere hcause
  | ident _ => exact (follows_param hn hm).map fun p i hi => Nat.le_of_lt hi
  | _ => exact failHere hcause

theorem follows_functionHead (hn : text.words.length < s.position + n) (hm : text.words.length < s.position + m) :
    text.Follows s c (Machine.functionHead n) (Grammar.functionHead m) (Beyond s.position) := by
  refine (expectWord .fn).bind fun first t₁ _ _ (h₁ : s.position < t₁.position) => ?_
  refine (name).bind fun head t₂ _ _ (h₂ : t₁.position < t₂.position) => ?_
  refine (follows_typeParams (by omega) (by omega)).bind fun types t₃ _ _ (h₃ : t₂.position ≤ t₃.position) => ?_
  refine (follows_functionParams (by omega) (by omega)).bind fun params t₄ _ _ (h₄ : t₃.position ≤ t₄.position) => ?_
  refine (expect .assign).bind fun assign t₅ _ _ (h₅ : t₄.position < t₅.position) => pure ?_
  show s.position < t₅.position
  omega

/-! ## Type declarations -/

theorem follows_fieldDecl (hn : text.words.length < s.position + n) (hm : text.words.length < s.position + m) :
    text.Follows s c (Machine.fieldDecl n) (Grammar.fieldDecl m) (Beyond s.position) := by
  refine here_bind ?_
  split
  · refine (name).bind fun head t _ _ (ht : s.position < t.position) => ?_
    refine (accept .colon).bind fun b t' _ _ ht' => ?_
    have hlt : s.position < t'.position := Nat.lt_of_lt_of_le ht ht'.1
    split
    · exact (follows_typeExpr (by omega) (by omega)).map fun type i hi => Nat.lt_trans hlt hi
    · exact failHere nofun
  · exact failHere nofun

theorem follows_variantDecl (hn : text.words.length < s.position + n) (hm : text.words.length < s.position + m) :
    text.Follows s c (Machine.variantDecl n) (Grammar.variantDecl m) (Beyond s.position) := by
  refine (name).bind fun head t c' _ (ht : s.position < t.position) => onLine_bind (fun hne => ?_) (pure ht)
  refine take_bind hne ?_
  refine (lines (fun t' c (ht' : t.position + 1 ≤ t'.position) => follows_fieldDecl (by omega) (by omega))
    (by dsimp only; omega) (by dsimp only; omega)).bind fun fields t' _ _ ht' => ?_
  refine (expect .closeParen).bind fun close t'' _ _ ht'' => pure ?_
  exact Nat.lt_trans (Nat.lt_trans ht ht') ht''

theorem follows_variantDecls (hn : text.words.length < s.position + n) (hm : text.words.length < s.position + m) :
    text.Follows s c (Machine.variantDecls n) (Grammar.variantDecls m) (Beyond s.position) := by
  refine of_stands fun hc => ?_
  have hle := hc.le
  clear hc
  induction n generalizing m s c with
  | zero => omega
  | succ n ih =>
    obtain ⟨m, rfl⟩ : ∃ k, m = k + 1 := ⟨m - 1, by omega⟩
    refine (follows_variantDecl hn hm).bind fun v t c' _ (ht : s.position < t.position) => ?_
    refine (accept .bar).bind fun b t' c' _ ht' => ?_
    have hlt : s.position < t'.position := Nat.lt_of_lt_of_le ht ht'.1
    split
    · refine Follows.map (of_stands fun hc => ih (by omega) (by omega) hc.le) fun vs i hi => ?_
      exact Nat.lt_trans hlt hi
    · exact pure hlt

theorem follows_fieldDecls {close : Symbol} (hn : text.words.length < s.position + n)
    (hm : text.words.length < s.position + m) :
    text.Follows s c (Machine.lines close (Machine.fieldDecl n) n) (Reader.lines close (Grammar.fieldDecl m) m)
      (From s.position) :=
  lines (fun t c ht => follows_fieldDecl (by omega) (by omega)) hn hm

theorem follows_typeBody (hn : text.words.length < s.position + n) (hm : text.words.length < s.position + m) :
    text.Follows s c (Machine.typeBody n) (Grammar.typeBody m) (From s.position) := by
  refine (accept .openBrace).bind fun b t c' _ ht => ?_
  split
  · refine (follows_fieldDecls (by omega) (by omega)).bind fun fields t' _ _ ht' => ?_
    refine (expect .closeBrace).bind fun close t'' _ _ ht'' => pure ?_
    exact Nat.le_trans (Nat.le_trans ht.1 ht') (Nat.le_of_lt ht'')
  · refine (accept .equals).bind fun b t' c' _ ht' => ?_
    have hle : s.position ≤ t'.position := Nat.le_trans ht.1 ht'.1
    split
    · exact (follows_variantDecls (by omega) (by omega)).map fun vs i hi => Nat.le_trans hle (Nat.le_of_lt hi)
    · exact pure hle

/-- What is read with the span of the lexeme taken last. -/
theorem Follows.last_map {f : Span → α} {Q : α → Nat → Prop} (hQ : ∀ a, Q a s.position) :
    text.Follows s c (do return f (← Machine.last)) (do return f (← get).last) Q := by
  intro hc
  show text.Outcome s Q (.ok (f c.last, c)) (some (.ok (f (Machine.spanBefore text.lexemes s.position)), s))
  rw [hc.last]
  exact .accepted hc rfl (hQ _)

theorem follows_typeDecl (hn : text.words.length < s.position + n) (hm : text.words.length < s.position + m) :
    text.Follows s c (Machine.typeDecl n) (Grammar.typeDecl m) (Beyond s.position) := by
  refine (expectWord .type).bind fun first t₁ _ _ (h₁ : s.position < t₁.position) => ?_
  refine (name).bind fun head t₂ _ _ (h₂ : t₁.position < t₂.position) => ?_
  refine (follows_typeParams (by omega) (by omega)).bind fun params t₃ _ _ (h₃ : t₂.position ≤ t₃.position) => ?_
  refine (follows_typeAfter (by omega) (by omega)).bind fun parent t₄ _ _ (h₄ : t₃.position ≤ t₄.position) => ?_
  refine (follows_typeBody (by omega) (by omega)).bind fun body t₅ _ _ (h₅ : t₄.position ≤ t₅.position) => ?_
  refine last_map fun _ => ?_
  show s.position < t₅.position
  omega

theorem follows_abstractDecl (hn : text.words.length < s.position + n) (hm : text.words.length < s.position + m) :
    text.Follows s c (Machine.abstractDecl n) (Grammar.abstractDecl m) (Beyond s.position) := by
  refine (expectWord .abstract).bind fun first t₁ c₁ _ (h₁ : s.position < t₁.position) => here_bind ?_
  have hrest {t : State} {c : Cursor} (ht : s.position < t.position) : text.Follows t c
      (do
        let head ← Machine.name
        let parent ← Machine.typeAfter .below n
        return Node.typeDecl (first.cover (← Machine.last)) ⟨head, [], parent, .abstract⟩)
      (do
        let head ← Reader.name
        let parent ← Grammar.typeAfter .below m
        return Node.typeDecl (first.cover (← get).last) ⟨head, [], parent, .abstract⟩) (Beyond s.position) := by
    refine (name).bind fun head t₂ _ _ (h₂ : t.position < t₂.position) => ?_
    refine (follows_typeAfter (by omega) (by omega)).bind fun parent t₃ _ _ (h₃ : t₂.position ≤ t₃.position) => ?_
    refine last_map fun _ => ?_
    show s.position < t₃.position
    omega
  split
  · next h => exact take_bind (Reader.Reads.ne_eof_of_isKeyword h) (hrest (Nat.lt_succ_of_lt h₁))
  · exact hrest h₁

/-! ## Patterns -/

/-- What is shown two lexemes ahead tells whether fields are next; past the end there are none. -/
theorem Follows.fieldsAhead_bind {f : Bool → Machine β} {g : Bool → Reader β} {R : β → Nat → Prop}
    (h : ∀ b, text.Follows s c (f b) (g b) R) :
    text.Follows s c (Machine.fieldsAhead >>= f) (Grammar.fieldsAhead >>= g) R := by
  have hahead : Grammar.fieldsAhead c = .ok (isSymbol .openBrace ((c.here :: c.ahead).getD 0 Cursor.nothing).token &&
      (isName ((c.here :: c.ahead).getD 1 Cursor.nothing).token &&
        isSymbol .colon ((c.here :: c.ahead).getD 2 Cursor.nothing).token), c) := by
    rcases c with ⟨last, here, _ | ⟨l, _ | ⟨k, ls⟩⟩⟩
    · rfl
    · exact congrArg (fun b => Except.ok (isSymbol .openBrace here.token && b, _)) (Bool.and_false _).symm
    · rfl
  intro hc
  show text.Outcome s R (Grammar.fieldsAhead c >>= fun x => g x.1 x.2) (f (isSymbol .openBrace (text.lexemes.getD (s.position + 0) Cursor.nothing).token &&
    (isName (text.lexemes.getD (s.position + 1) Cursor.nothing).token &&
      isSymbol .colon (text.lexemes.getD (s.position + 2) Cursor.nothing).token)) text.lexemes s)
  rw [hc.getD, hc.getD, hc.getD, hahead]
  exact h _ hc

theorem follows_constructFields {item : Machine Node} {item' : Reader Node}
    (hitem : ∀ t c, s.position < t.position → text.Follows t c item item' (Beyond t.position))
    (hn : text.words.length < s.position + n) (hm : text.words.length < s.position + m) :
    text.Follows s c (Machine.constructFields item n) (Grammar.constructFields item' m) (Beyond s.position) := by
  refine (expect .openBrace).bind fun opening t _ _ (ht : s.position < t.position) => ?_
  refine (lines (fun t₁ c₁ ht₁ => ?_) (by omega) (by omega)).bind fun fields t' _ _
    (ht' : t.position ≤ t'.position) => ?_
  · refine (name).bind fun head t₂ _ _ (h₂ : t₁.position < t₂.position) => ?_
    refine (expect .colon).bind fun colon t₃ _ _ (h₃ : t₂.position < t₃.position) => ?_
    refine (hitem t₃ _ (by omega)).map fun value i hi => ?_
    exact Nat.lt_trans (Nat.lt_trans h₂ h₃) hi
  · exact (expect .closeBrace).map fun close i hi => Nat.lt_trans (Nat.lt_of_lt_of_le ht ht') hi

theorem follows_captureWith {item : Machine Node} {item' : Reader Node}
    (hitem : ∀ t c, s.position < t.position → text.Follows t c item item' (Beyond t.position)) :
    text.Follows s c (Machine.captureWith item) (Grammar.captureWith item') (Beyond s.position) := by
  refine (expect .question).bind fun first t c₁ _ (ht : s.position < t.position) => here_bind ?_
  have hrest (x : Option String × Span) {t : State} {c : Cursor} (ht : s.position < t.position) : text.Follows t c
      (do
        let l ← Machine.here
        if !l.afterBreak && Grammar.beginsRefinement l.token then
          let inner ← item
          return Node.refine (x.2.cover inner.span) x.1 inner
        else return Node.capture x.2 x.1)
      (do
        let l ← Reader.here
        if !l.afterBreak && Grammar.beginsRefinement l.token then
          let inner ← item'
          return Node.refine (x.2.cover inner.span) x.1 inner
        else return Node.capture x.2 x.1) (Beyond s.position) := by
    refine here_bind ?_
    split
    · exact (hitem t c ht).map fun inner i hi => Nat.lt_trans ht hi
    · exact pure ht
  dsimp only
  split
  · refine (name).bind fun head t' c' _ ht' => ?_
    exact hrest (some head.val, first.cover head.span) (Nat.lt_trans ht ht')
  · exact hrest (none, first) ht

theorem follows_pattern (hn : text.words.length < s.position + n) (hm : text.words.length < s.position + m) :
    text.Follows s c (Machine.pattern n) (Grammar.pattern m) (Beyond s.position) := by
  refine of_stands fun hc => ?_
  have hle := hc.le
  clear hc
  induction n generalizing m s c with
  | zero => omega
  | succ n ih =>
    obtain ⟨m, rfl⟩ : ∃ k, m = k + 1 := ⟨m - 1, by omega⟩
    have hinner (t : State) (c : Cursor) (ht : s.position < t.position) :
        text.Follows t c (Machine.pattern n) (Grammar.pattern m) (Beyond t.position) :=
      of_stands fun hc => ih (by omega) (by omega) hc.le
    have hcause (token : Token) : SyntaxCause.expectedPattern token ≠ .outOfRounds := nofun
    have hliteral (value : Literal) (span : Span) {t : State} {c : Cursor} (ht : s.position < t.position) :
        text.Follows t c (Pure.pure (Node.literal span value)) (Pure.pure (Node.literal span value)) (Beyond s.position) :=
      pure ht
    rw [Machine.pattern, Grammar.pattern]
    refine here_bind ?_
    obtain ⟨last, ⟨token, span, afterBreak, touches⟩, ahead⟩ := c
    cases token with
    | symbol symbol =>
      cases symbol with
      | question => exact follows_captureWith hinner
      | minus =>
        refine take_bind Token.noConfusion (here_bind ?_)
        generalize Cursor.next _ = c
        obtain ⟨last, ⟨token, span', afterBreak, touches⟩, ahead⟩ := c
        cases token with
        | int _ =>
          exact take_bind Token.noConfusion (hliteral _ _ (Nat.lt_succ_of_lt (Nat.lt_succ_self s.position)))
        | float _ =>
          exact take_bind Token.noConfusion (hliteral _ _ (Nat.lt_succ_of_lt (Nat.lt_succ_self s.position)))
        | _ => exact failHere nofun
      | _ => exact failHere hcause
    | ident _ =>
      refine (name).bind fun head t c' _ (ht : s.position < t.position) => fieldsAhead_bind fun b => ?_
      split
      · refine (follows_constructFields (fun t' c ht' => hinner t' c (Nat.lt_trans ht ht')) (by omega)
          (by omega)).map fun fields i hi => Nat.lt_trans ht hi
      · exact pure ht
    | keyword word =>
      cases word with
      | true => exact take_bind Token.noConfusion (hliteral _ _ (Nat.lt_succ_self s.position))
      | false => exact take_bind Token.noConfusion (hliteral _ _ (Nat.lt_succ_self s.position))
      | _ => exact failHere hcause
    | int _ => exact take_bind Token.noConfusion (hliteral _ _ (Nat.lt_succ_self s.position))
    | float _ => exact take_bind Token.noConfusion (hliteral _ _ (Nat.lt_succ_self s.position))
    | string _ => exact take_bind Token.noConfusion (hliteral _ _ (Nat.lt_succ_self s.position))
    | _ => exact failHere hcause

theorem follows_capture (hn : text.words.length < s.position + n) (hm : text.words.length < s.position + m) :
    text.Follows s c (Machine.capture n) (Grammar.capture m) (Beyond s.position) :=
  follows_captureWith fun t c ht => follows_pattern (by omega) (by omega)

/-! ## Statements and compound forms -/

theorem follows_statementEnd (inBlock : Bool) :
    text.Follows s c (Machine.statementEnd inBlock) (Grammar.statementEnd inBlock) (From s.position) := by
  refine here_bind ?_
  have hother (token : Token) : text.Follows s c
      (if inBlock && isSymbol .closeBrace token then Pure.pure ()
        else if c.here.afterBreak then Pure.pure () else Machine.failHere .trailing)
      (if inBlock && isSymbol .closeBrace token then Pure.pure ()
        else if c.here.afterBreak then Pure.pure () else Reader.failHere .trailing) (From s.position) := by
    split
    · exact pure le_rfl
    · split
      · exact pure le_rfl
      · exact failHere nofun
  obtain ⟨last, ⟨token, span, afterBreak, touches⟩, ahead⟩ := c
  cases token with
  | symbol symbol =>
    cases symbol with
    | semicolon => exact take_bind Token.noConfusion (pure (Nat.le_succ s.position))
    | equals => exact fail nofun
    | _ => exact hother _
  | eof => exact pure le_rfl
  | _ => exact hother _

def Expressions (text : Text) (i : Nat) (expr : Nat → Machine Node) (expr' : Grammar.ExpressionReader) : Prop :=
  ∀ least t c, i < t.position →
    text.Follows t c (expr least) (expr' t.flags.context least) (Beyond t.position)

section

variable {expr : Nat → Machine Node} {expr' : Grammar.ExpressionReader} {i : Nat}

theorem Expressions.after {j : Nat} (he : text.Expressions i expr expr') (hij : i ≤ j) :
    text.Expressions j expr expr' := fun least t c ht => he least t c (Nat.lt_of_le_of_lt hij ht)

theorem Expressions.within (he : text.Expressions i expr expr') (flags : Flags) {least : Nat}
    (hs : i < s.position) :
    text.Follows s c (Machine.within flags (expr least)) (expr' flags.context least) (Beyond s.position) :=
  .within (he least ⟨s.position, flags⟩ c hs)

theorem Expressions.nested (he : text.Expressions i expr expr') {least : Nat} (hs : i < s.position) :
    text.Follows s c (Machine.nested (expr least)) (expr' .nested least) (Beyond s.position) :=
  he.within ⟨false, false⟩ hs

variable (he : text.Expressions s.position expr expr') (hn : text.words.length < s.position + n)
  (hm : text.words.length < s.position + m)
include he hn hm

theorem follows_arguments :
    text.Follows s c (Machine.arguments expr n) (Grammar.arguments expr' m) (Beyond s.position) := by
  refine (expect .openParen).bind fun opening t _ _ (ht : s.position < t.position) => ?_
  refine (separated (fun t' c ht' => he.nested (by omega)) (by omega) (by omega)).bind fun args t' _ _
    (ht' : t.position ≤ t'.position) => ?_
  exact (expect .closeParen).map fun close i hi => Nat.lt_trans (Nat.lt_of_lt_of_le ht ht') hi

/-- The flag that forbids fields after a name is what the reader is told. -/
theorem follows_afterName (head : Located String) :
    text.Follows s c (Machine.afterName expr n head) (Grammar.afterName expr' m s.flags.context head)
      (From s.position) := by
  refine isAt_bind (fun _ => ?_) fun _ => ?_
  · exact (follows_arguments he hn hm).map fun args i hi => Nat.le_of_lt hi
  · refine flags_bind (fieldsAhead_bind fun b => ?_)
    show text.Follows s c (if (!s.flags.restricted && b) = true then _ else _)
      (if (!s.flags.restricted && b) = true then _ else _) _
    split
    · exact (follows_constructFields (fun t c ht => he.nested ht) hn hm).map fun fields i hi => Nat.le_of_lt hi
    · exact pure le_rfl

theorem follows_list : text.Follows s c (Machine.list expr n) (Grammar.list expr' m) (Beyond s.position) := by
  refine (expect .openBracket).bind fun opening t c₁ _ (ht : s.position < t.position) => ?_
  refine peek_bind 0 (peek_bind 1 (get_bind ?_))
  rw [List.getD_cons_zero, isSymbol_getD_one]
  split
  · next h =>
    -- an object without entries
    obtain ⟨hcolon, hclose⟩ := Bool.and_eq_true_iff.1 h
    refine take_bind (Reader.Reads.ne_eof_of_isSymbol hcolon) (take_bind ?_ (pure ?_))
    · obtain ⟨last, here, ahead⟩ := c₁
      cases ahead with
      | nil => cases hclose
      | cons l ls => exact Reader.Reads.ne_eof_of_isSymbol hclose
    · exact Nat.lt_succ_of_lt (Nat.lt_succ_of_lt ht)
  · refine (separated (fun t' c ht' => he.within ⟨true, false⟩ (by omega)) (by omega) (by omega)).bind
      fun elements t' _ _ (ht' : t.position ≤ t'.position) => ?_
    refine (expect .closeBracket).bind fun closing t'' _ _ (ht'' : t'.position < t''.position) =>
      check (fun _ => ?_) fun _ => Grammar.cause_ofElements
    exact Nat.lt_of_le_of_lt (Nat.le_trans (Nat.le_of_lt ht) ht') ht''

/-- The parameters of a closure are tried, and the position is set back where there are none. -/
theorem follows_block : text.Follows s c (Machine.block expr n) (Grammar.block expr' m) (Beyond s.position) := by
  refine (expect .openBrace).bind fun opening t _ _ (ht : s.position < t.position) => ?_
  refine ((follows_closureParams (by omega) (by omega)).attempt fun _ i hi => Nat.le_of_lt hi).bind
    fun params t₁ _ _ h₁ => ?_
  have h₁ := h₁.1
  refine (rounds (fun first t₂ c₂ ht₂ => ?_) (by omega) (by omega)).bind fun body t₃ _ _
    (h₃ : t₁.position ≤ t₃.position) => ?_
  · refine (skipWhile rfl (by omega)).bind fun _ t₃ c₃ _ (h₃ : t₂.position ≤ t₃.position) => ?_
    refine isAt_bind (fun _ => pure ⟨h₃, trivial⟩) fun _ => ?_
    refine atEnd_bind (fun _ => fail nofun) fun _ => ?_
    refine (he.nested (by omega)).bind fun statement t₄ _ _ (h₄ : t₃.position < t₄.position) => ?_
    refine (follows_statementEnd true).map fun _ i (hi : t₄.position ≤ i) => ?_
    show t₂.position < i
    omega
  · exact (expect .closeBrace).map fun closing i hi => Nat.lt_trans (by omega) hi

theorem follows_cases : text.Follows s c (Machine.cases expr n) (Grammar.cases expr' m) (Beyond s.position) := by
  refine (expectWord .match).bind fun first t _ _ (ht : s.position < t.position) => ?_
  refine (he.within ⟨false, true⟩ ht).bind fun scrutinee t₁ _ _ (h₁ : t.position < t₁.position) => ?_
  refine (expect .openBrace).bind fun opening t₂ _ _ (h₂ : t₁.position < t₂.position) => ?_
  refine (rounds (fun first t₃ c₃ h₃ => ?_) (by omega) (by omega)).bind fun arms t₃ _ _
    (h₃ : t₂.position ≤ t₃.position) => ?_
  · refine (skipWhile rfl (by omega)).bind fun _ t₄ c₄ _ (h₄ : t₃.position ≤ t₄.position) => ?_
    refine isAt_bind (fun _ => pure ⟨h₄, trivial⟩) fun _ => ?_
    refine atEnd_bind (fun _ => fail nofun) fun _ => ?_
    refine (follows_pattern (by omega) (by omega)).bind fun pattern t₅ _ _ (h₅ : t₄.position < t₅.position) => ?_
    refine (expect .arrow).bind fun arrow t₆ _ _ (h₆ : t₅.position < t₆.position) => ?_
    refine (he.nested (by omega)).bind fun body t₇ _ _ (h₇ : t₆.position < t₇.position) => ?_
    have hlt : t₃.position < t₇.position := by omega
    exact lineEnd_bind (t := fun token => isSymbol .comma token || isSymbol .closeBrace token) nofun
      (pure hlt)
  · exact (expect .closeBrace).map fun closing i hi => Nat.lt_trans (by omega) hi

theorem follows_function :
    text.Follows s c (Machine.function expr n) (Grammar.function expr' m) (Beyond s.position) := by
  refine (follows_functionHead hn hm).bind fun head t _ _ (ht : s.position < t.position) => ?_
  exact (he.nested ht).map fun body i hi => Nat.lt_trans ht hi

/-! ## Expressions -/

theorem follows_primary :
    text.Follows s c (Machine.primary expr n) (Grammar.primary expr' m s.flags.context) (Beyond s.position) := by
  refine here_bind ?_
  have hliteral (value : Literal) (span : Span) {c : Cursor} : text.Follows ⟨s.position + 1, s.flags⟩ c
      (Pure.pure (Node.literal span value)) (Pure.pure (Node.literal span value)) (Beyond s.position) :=
    pure (Nat.lt_succ_self s.position)
  have hafter (head : Located String) {t : State} {c : Cursor} (hflags : t.flags = s.flags)
      (ht : s.position < t.position) : text.Follows t c (Machine.afterName expr n head)
      (Grammar.afterName expr' m s.flags.context head) (Beyond s.position) := by
    rw [← hflags]
    refine (follows_afterName (he.after (Nat.le_of_lt ht)) (by omega) (by omega) head).mono fun _ i hi => ?_
    exact Nat.lt_of_lt_of_le ht hi
  have hoperand (f : Node → Node) {c : Cursor} : text.Follows ⟨s.position + 1, s.flags⟩ c
      (do return f (← expr Grammar.operandPower)) (do return f (← expr' s.flags.context Grammar.operandPower))
      (Beyond s.position) :=
    (he Grammar.operandPower ⟨s.position + 1, s.flags⟩ c (Nat.lt_succ_self _)).map fun _ i hi =>
      Nat.lt_of_succ_lt hi
  obtain ⟨last, ⟨token, span, afterBreak, touches⟩, ahead⟩ := c
  cases token with
  | int _ => exact take_bind Token.noConfusion (hliteral _ _)
  | float _ => exact take_bind Token.noConfusion (hliteral _ _)
  | string _ => exact take_bind Token.noConfusion (hliteral _ _)
  | hugeInt _ => exact fail nofun
  | ident _ => exact (name).bind fun head t _ hflags ht => hafter head hflags ht
  | eof => exact fail nofun
  | keyword word =>
    cases word with
    | true => exact take_bind Token.noConfusion (hliteral _ _)
    | false => exact take_bind Token.noConfusion (hliteral _ _)
    | fn => exact follows_function he hn hm
    | type =>
      refine peek_bind 1 (get_bind ?_)
      rw [isSymbol_getD_one]
      split
      · exact take_bind Token.noConfusion (hafter _ rfl (Nat.lt_succ_self _))
      · exact follows_typeDecl hn hm
    | abstract => exact follows_abstractDecl hn hm
    | «match» => exact follows_cases he hn hm
    | _ => exact fail nofun
  | symbol symbol =>
    cases symbol with
    | openParen =>
      refine take_bind Token.noConfusion ?_
      refine (he.nested (Nat.lt_succ_self s.position)).bind fun inner t _ _ (ht : s.position + 1 < t.position) => ?_
      refine (expect .closeParen).map fun close i (hi : t.position < i) => ?_
      show s.position < i
      omega
    | openBracket => exact follows_list he hn hm
    | openBrace => exact follows_block he hn hm
    | minus => exact take_bind Token.noConfusion (hoperand _)
    | bang => exact take_bind Token.noConfusion (hoperand _)
    | hash => exact take_bind Token.noConfusion (hoperand _)
    | question => exact follows_capture hn hm
    | equals => exact fail nofun
    | _ => exact fail nofun

/-- One more operator or member takes something. -/
theorem follows_extend (least : Nat) (left : Node) :
    text.Follows s c (Machine.extend expr n least left) (Grammar.extend expr' m s.flags.context least left)
      (Round Anywhere s.position) := by
  refine here_bind ?_
  have hnone {c : Cursor} :
      text.Follows s c (Pure.pure none) (Pure.pure (none : Option Node)) (Round Anywhere s.position) :=
    pure ⟨le_rfl, trivial⟩
  have hround {node : Node} {i : Nat} (hi : s.position < i) : Round Anywhere s.position (some node) i := hi
  have hright (connective : Grammar.Connective) {c : Cursor} : text.Follows ⟨s.position + 1, s.flags⟩ c
      (do return some (Grammar.join left connective (← expr connective.powers.2)))
      (do return some (Grammar.join left connective (← expr' s.flags.context connective.powers.2)))
      (Round Anywhere s.position) :=
    (he _ ⟨s.position + 1, s.flags⟩ c (Nat.lt_succ_self _)).map fun _ i hi => hround (Nat.lt_of_succ_lt hi)
  have htakes (connective : Grammar.Connective) {c : Cursor} (hne : c.here.token ≠ .eof) : text.Follows s c
      (if connective.powers.1 < least then Pure.pure none else Machine.take >>= fun _ => do
        return some (Grammar.join left connective (← expr connective.powers.2)))
      (if connective.powers.1 < least then Pure.pure none else Reader.take >>= fun _ => do
        return some (Grammar.join left connective (← expr' s.flags.context connective.powers.2)))
      (Round Anywhere s.position) := by
    split
    · exact hnone
    · exact take_bind hne (hright connective)
  split
  · exact hnone
  · obtain ⟨last, ⟨token, span, afterBreak, touches⟩, ahead⟩ := c
    cases token with
    | symbol symbol =>
      cases symbol with
      | dot =>
        refine take_bind Token.noConfusion ?_
        refine (name).bind fun member t _ _ (ht : s.position + 1 < t.position) => ?_
        have ht := Nat.lt_of_succ_lt ht
        refine isAt_bind (fun _ => ?_) fun _ => pure (hround ht)
        refine (follows_arguments (he.after (Nat.le_of_lt ht)) (by omega) (by omega)).map fun args i hi => ?_
        exact hround (Nat.lt_trans ht hi)
      | openBracket =>
        refine take_bind Token.noConfusion ?_
        refine (he.nested (Nat.lt_succ_self s.position)).bind fun index t _ _ (ht : s.position + 1 < t.position) => ?_
        exact (expect .closeBracket).map fun close i hi => hround (Nat.lt_trans (Nat.lt_of_succ_lt ht) hi)
      | assign | colon =>
        refine flags_bind ?_
        dsimp only [Flags.context]
        cases Grammar.Connective.ofSymbol? s.flags.pairs _ with
        | none => exact hnone
        | some connective =>
          dsimp only
          split
          · exact hnone
          · refine take_bind Token.noConfusion ?_
            cases connective with
            | assign =>
              dsimp only
              split
              · split
                · exact fail nofun
                · exact hright .assign
              · exact hright .assign
            | _ => exact hright _
      | plus | minus | star | slash | percent | caret | equal | unequal | less | greater | atMost | atLeast
      | and | or =>
        refine flags_bind (htakes (.binary _) ?_)
        exact Token.noConfusion
      | _ => exact flags_bind hnone
    | _ => exact hnone

end

theorem follows_climb {expr : Nat → Machine Node} {expr' : Grammar.ExpressionReader} {k l : Nat}
    (he : text.Expressions s.position expr expr') (hn : text.words.length < s.position + n)
    (hm : text.words.length < s.position + m) (hk : text.words.length < s.position + k)
    (hl : text.words.length < s.position + l) (least : Nat) (left : Node) :
    text.Follows s c (Machine.climb expr n least k left) (Grammar.climb expr' m s.flags.context least l left)
      (From s.position) := by
  refine of_stands fun hc => ?_
  have hle := hc.le
  clear hc
  induction k generalizing l s c left with
  | zero => omega
  | succ k ih =>
    obtain ⟨l, rfl⟩ : ∃ j, l = j + 1 := ⟨l - 1, by omega⟩
    refine (follows_extend he hn hm least left).bind fun o t c' hflags ho => ?_
    cases o with
    | none => exact pure ho.1
    | some longer =>
      have ht : s.position < t.position := ho
      refine of_stands fun hc => ?_
      rw [← hflags]
      refine (ih (he.after (Nat.le_of_lt ht)) (by omega) (by omega) (by omega) (by omega) longer hc.le).mono
        fun _ i hi => ?_
      exact Nat.le_trans (Nat.le_of_lt ht) hi

/-- Expressions follow their readers, if both have more rounds than there are words left. -/
theorem follows_expression (hn : text.words.length < s.position + n) (hm : text.words.length < s.position + m)
    (least : Nat) :
    text.Follows s c (Machine.expression n least) (Grammar.expression m s.flags.context least)
      (Beyond s.position) := by
  refine of_stands fun hc => ?_
  have hle := hc.le
  clear hc
  induction n generalizing m s c least with
  | zero => omega
  | succ n ih =>
    obtain ⟨m, rfl⟩ : ∃ k, m = k + 1 := ⟨m - 1, by omega⟩
    have he : text.Expressions s.position (Machine.expression n) (Grammar.expression m) :=
      fun least t c ht => of_stands fun hc => ih (by omega) (by omega) least hc.le
    refine (follows_primary he hn hm).bind fun left t c' hflags (ht : s.position < t.position) => ?_
    rw [← hflags]
    refine (follows_climb (he.after (Nat.le_of_lt ht)) (by omega) (by omega) (by omega) (by omega) least
      left).mono fun _ i hi => ?_
    exact Nat.lt_of_lt_of_le ht hi

theorem expressions (hn : text.words.length < s.position + n) (hm : text.words.length < s.position + m) :
    text.Expressions s.position (Machine.expression n) (Grammar.expression m) :=
  fun least _ _ ht => follows_expression (by omega) (by omega) least

theorem follows_program (hn : text.words.length < s.position + n) (hm : text.words.length < s.position + m) :
    text.Follows s c (Machine.program n) (Grammar.program m)
      fun _ i => s.position ≤ i ∧ i = text.words.length := by
  refine collect (fun first t₁ c₁ h₁ => ?_) hn hm true
  refine (skipWhile rfl (by omega)).bind fun _ t₂ c₂ _ (h₂ : t₁.position ≤ t₂.position) => of_stands fun hc => ?_
  refine atEnd_bind (fun heof => pure ⟨h₂, hc.eof_iff.1 heof⟩) fun _ => ?_
  have he : text.Follows t₂ c₂ (Machine.nested (Machine.expression n 0)) (Grammar.expression m .nested 0)
      (Beyond t₂.position) :=
    .within (follows_expression (s := ⟨t₂.position, ⟨false, false⟩⟩) (by dsimp only; omega) (by dsimp only; omega) 0)
  refine he.bind fun statement t₃ _ _ (h₃ : t₂.position < t₃.position) => ?_
  refine (follows_statementEnd false).map fun _ i (hi : t₃.position ≤ i) => ?_
  show t₁.position < i
  omega

end Text

end DispatchLang
