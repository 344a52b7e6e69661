import DispatchLang.Proofs.Grammar.NextLine
import DispatchLang.Proofs.Grammar.Tails
import DispatchLang.Proofs.Grammar.WellFormed

/-!
# Readers that follow other readers

Two different readers look at lexemes that are alike up to a point where no pattern goes on. The second one *copies* the
first if it accepts wherever the first does, stops at the same point, and answers something like it. Nothing is said of
what the second one does where the first refuses.

What comes after the thing that was read is carried along, because a reader that reads as far as it can only stops where
the other one does if that does not go on for it. In a list this is known once the list has been read to its end: after
a field there is a comma, the closing brace, or the name of the next field.

## Main definitions

* `Cursor.Alongside`: cursors before lexemes that are alike up to the end of a pattern.
* `Reader.Copies`: whether a reader copies another one, with one rule for each step a reader is made of.

## Main results

* `Reader.Copies.lines`: the fields in braces are copied if each of them is copied up to its end.
-/

namespace DispatchLang

open Reader

/-! ## Cursors -/

theorem Token.isSymbol_of_followsPattern {t : Token} (h : t.followsPattern = true) {s : Symbol}
    (hs : s ∉ [Symbol.arrow, Symbol.assign]) : isSymbol s t = false := by
  unfold followsPattern at h
  split at h
  · exact decide_eq_false fun heq => hs (by simp [← heq])
  · exact decide_eq_false fun heq => hs (by simp [← heq])
  · rfl
  · cases h

theorem Token.eq_of_isSymbol {t : Token} {s : Symbol} (h : isSymbol s t = true) : t = .symbol s := by
  cases t with
  | symbol u => exact congrArg _ (of_decide_eq_true h)
  | _ => cases h

theorem Token.isName_of_followsPattern {t : Token} (h : t.followsPattern = true) : isName t = false := by
  unfold followsPattern at h
  split at h <;> first | rfl | cases h

theorem Lexeme.beginFields_of_first {l : Lexeme} {ls : List Lexeme} (h : isSymbol .openBrace l.token = false) :
    beginFields (l :: ls) = false := by
  match ls with
  | [] | [_] => rfl
  | _ :: _ :: _ => simp [beginFields, h]

namespace Cursor

/-- Passing over some lexemes and then over more of them. -/
theorem skip_skip (c : Cursor) {p q : Token → Bool} (h : ∀ t, q t = true → p t = true) : (c.skip q).skip p = c.skip p := by
  obtain ⟨last, here, ahead⟩ := c
  induction ahead generalizing last here with
  | nil => rfl
  | cons l ls ih =>
    cases hq : q here.token with
    | false => rw [skip_eq (p := q) _ hq]
    | true =>
      rw [← skip_next (p := q) ⟨last, here, l :: ls⟩ hq, ← skip_next (p := p) ⟨last, here, l :: ls⟩ (h _ hq)]
      exact ih ..

/-- Cursors before lexemes that are alike up to where no pattern goes on. -/
def Alongside (c d : Cursor) : Prop := Lexeme.Alongside (c.here :: c.ahead) (d.here :: d.ahead)

variable {c d : Cursor}

namespace Alongside

theorem cases_here (h : c.Alongside d) :
    (c.here.token.followsPattern = true ∧ d.here.token.followsPattern = true) ∨
      c.here.Like d.here ∧ Lexeme.Alongside c.ahead d.ahead := by
  obtain ⟨last, here, ahead⟩ := c
  obtain ⟨last', here', ahead'⟩ := d
  cases h with
  | edge stop stop' => exact .inl ⟨stop, stop'⟩
  | word like rest => exact .inr ⟨like, rest⟩

theorem like (h : c.Alongside d) (hc : c.here.token.followsPattern = false) : c.here.Like d.here := by
  rcases h.cases_here with ⟨hstop, -⟩ | ⟨hlike, -⟩
  · rw [hc] at hstop
    cases hstop
  · exact hlike

/-- A test that fails for whatever may follow a pattern has the same outcome for both. -/
theorem test_eq (h : c.Alongside d) {p : Token → Bool} (hp : ∀ t : Token, t.followsPattern = true → p t = false) :
    p c.here.token = p d.here.token := by
  rcases h.cases_here with ⟨hc, hd⟩ | ⟨hlike, -⟩
  · rw [hp _ hc, hp _ hd]
  · rw [hlike.token]

theorem next (h : c.Alongside d) (hc : c.here.token.followsPattern = false) : c.next.Alongside d.next := by
  obtain ⟨last, here, ahead⟩ := c
  obtain ⟨last', here', ahead'⟩ := d
  cases h with
  | edge stop stop' =>
    rw [show here.token.followsPattern = false from hc] at stop
    cases stop
  | word like rest =>
    cases rest with
    | edge stop stop' => exact .edge stop stop'
    | word like' rest' => exact .word like' rest'

/-- Passing over what stands in patterns takes both to the same point. -/
theorem skip (h : c.Alongside d) {p : Token → Bool} (hp : ∀ t : Token, t.followsPattern = true → p t = false) :
    (c.skip p).Alongside (d.skip p) := by
  obtain ⟨last, here, ahead⟩ := c
  induction ahead generalizing last here d with
  | nil =>
    rcases h.cases_here with ⟨hc, hd⟩ | ⟨-, hrest⟩
    · rwa [skip_eq _ (hp _ hc), skip_eq _ (hp _ hd)]
    · cases hrest
  | cons l ls ih =>
    cases hpass : p here.token with
    | false => rwa [skip_eq _ hpass, skip_eq _ (h.test_eq hp ▸ hpass)]
    | true =>
      have hword : here.token.followsPattern = false := by
        refine eq_false_of_ne_true fun hstop => ?_
        rw [hp _ hstop] at hpass
        cases hpass
      rw [← skip_next ⟨last, here, l :: ls⟩ hpass, ← skip_next d (h.test_eq hp ▸ hpass)]
      exact ih _ _ (h.next hword)

/-- Both stand before the fields of a construction, or neither. -/
theorem beginFields_eq (h : c.Alongside d) :
    Lexeme.beginFields (c.here :: c.ahead) = Lexeme.beginFields (d.here :: d.ahead) := by
  have hsymbol {l : Lexeme} (hl : l.token.followsPattern = true) : isSymbol .openBrace l.token = false :=
    Token.isSymbol_of_followsPattern hl (by decide)
  cases h with
  | edge stop stop' => rw [Lexeme.beginFields_of_first (hsymbol stop), Lexeme.beginFields_of_first (hsymbol stop')]
  | word like rest =>
    generalize c.ahead = ls at rest
    generalize d.ahead = ls' at rest
    cases rest with
    | @edge m m' ms ms' stop stop' =>
      have hfields {l m : Lexeme} {ms : List Lexeme} (hm : m.token.followsPattern = true) :
          Lexeme.beginFields (l :: m :: ms) = false := by
        cases ms with
        | nil => rfl
        | cons n ns => simp [Lexeme.beginFields, Token.isName_of_followsPattern hm]
      rw [hfields stop, hfields stop']
    | word like' rest =>
      cases rest with
      | edge stop stop' =>
        simp only [Lexeme.beginFields, Token.isSymbol_of_followsPattern stop (s := .colon) (by decide),
          Token.isSymbol_of_followsPattern stop' (s := .colon) (by decide), Bool.and_false]
      | word like'' _ => simp only [Lexeme.beginFields, like.token, like'.token, like''.token]

end Alongside

end Cursor

/-! ## Readers -/

theorem Grammar.fieldsAhead_bind_eq {α : Type} (g : Bool → Reader α) (c : Cursor) :
    (fieldsAhead >>= g) c = g (Lexeme.beginFields (c.here :: c.ahead)) c := by
  show (fieldsAhead c >>= fun x => g x.1 x.2) = _
  rw [fieldsAhead_eq]
  rfl

namespace Reader

variable {α β : Type} {c d : Cursor} {E E' : Token → Prop}

/-- Whether a reader follows another one from cursors at the same point: where the first accepts and stops before a token
that satisfies `E`, the second accepts something like it and stops at the same point. -/
def Copies (E : Token → Prop) (c d : Cursor) (r r' : Reader α) (S : α → α → Prop) : Prop :=
  c.Alongside d → ∀ a c₁, r c = .ok (a, c₁) → E c₁.here.token →
    ∃ b d₁, r' d = .ok (b, d₁) ∧ c₁.Alongside d₁ ∧ S a b

def Anything (_ : Token) : Prop := True

namespace Copies

variable {r r' : Reader α} {f f' : α → Reader β} {S S' : α → α → Prop} {Q : β → β → Prop}

theorem pure {a b : α} (h : S a b) : Copies E c d (Pure.pure a) (Pure.pure b) S := by
  rintro hcd _ _ ⟨⟩ _
  exact ⟨b, d, rfl, hcd, h⟩

theorem refused (h : ∃ e, r c = .error e) : Copies E c d r r' S := by
  obtain ⟨e, he⟩ := h
  intro _ a c₁ ha
  rw [he] at ha
  cases ha

theorem mono (h : Copies E c d r r' S) (hE : ∀ t, E' t → E t) (hS : ∀ a b, S a b → S' a b) :
    Copies E' c d r r' S' := by
  intro hcd a c₁ ha hend
  obtain ⟨b, d₁, hb, hcd₁, hab⟩ := h hcd a c₁ ha (hE _ hend)
  exact ⟨b, d₁, hb, hcd₁, hS a b hab⟩

theorem congr {r'' : Reader α} (h : Copies E c d r r' S) (hr : r'' d = r' d) : Copies E c d r r'' S := by
  intro hcd a c₁ ha hend
  rw [hr]
  exact h hcd a c₁ ha hend

theorem of_alongside (h : c.Alongside d → Copies E c d r r' S) : Copies E c d r r' S := fun hcd => h hcd hcd

/-- Readers after others. What is known of the end of the first part follows from what is read after it. -/
theorem bind_ends (hr : Copies E' c d r r' S)
    (hends : ∀ a c₁ b c₂, r c = .ok (a, c₁) → f a c₁ = .ok (b, c₂) → E c₂.here.token → E' c₁.here.token)
    (hf : ∀ a b c₁ d₁, S a b → Copies E c₁ d₁ (f a) (f' b) Q) : Copies E c d (r >>= f) (r' >>= f') Q := by
  intro hcd b c₂ hb hend
  have hbind : (r c >>= fun x => f x.1 x.2) = .ok (b, c₂) := hb
  cases hr₁ : r c with
  | error e => rw [hr₁] at hbind; cases hbind
  | ok x =>
    obtain ⟨a, c₁⟩ := x
    rw [hr₁] at hbind
    obtain ⟨a', d₁, ha', hcd₁, haa'⟩ := hr hcd a c₁ hr₁ (hends a c₁ b c₂ hr₁ hbind hend)
    obtain ⟨b', d₂, hb', h⟩ := hf a a' c₁ d₁ haa' hcd₁ b c₂ hbind hend
    refine ⟨b', d₂, ?_, h⟩
    show (r' d >>= fun x => f' x.1 x.2) = _
    rw [ha']
    exact hb'

theorem bind (hr : Copies Anything c d r r' S) (hf : ∀ a b c₁ d₁, S a b → Copies E c₁ d₁ (f a) (f' b) Q) :
    Copies E c d (r >>= f) (r' >>= f') Q := hr.bind_ends (fun _ _ _ _ _ _ _ => trivial) hf

/-- What an answer is made of. -/
theorem map {f f' : α → β} (h : Copies E c d r r' S) (hS : ∀ a b, S a b → Q (f a) (f' b)) :
    Copies E c d (do return f (← r)) (do return f' (← r')) Q :=
  h.bind_ends (fun _ _ _ _ _ hb hend => by cases hb; exact hend) fun a b _ _ hab => pure (hS a b hab)

/-! ### Steps -/

/-- What is read after looking at the lexeme under the cursor. -/
theorem here_bind {g g' : Lexeme → Reader β} (h : Copies E c d (g c.here) (g' d.here) Q) :
    Copies E c d (Reader.here >>= g) (Reader.here >>= g') Q := h

/-- What is read after taking a word. -/
theorem take_bind {g g' : Lexeme → Reader β} (hc : c.here.token.followsPattern = false)
    (h : Copies E c.next d.next (g c.here) (g' d.here) Q) :
    Copies E c d (Reader.take >>= g) (Reader.take >>= g') Q := fun hcd => h (hcd.next hc)

/-- A required symbol that stands in patterns. -/
theorem expect {s : Symbol} (hs : s ∉ [Symbol.arrow, Symbol.assign]) :
    Copies E c d (Reader.expect s) (Reader.expect s) fun _ _ => True := by
  refine of_alongside fun hcd => ?_
  have htest := hcd.test_eq fun t ht => Token.isSymbol_of_followsPattern ht hs
  show Copies E c d (if isSymbol s c.here.token = true then _ else _) (if isSymbol s d.here.token = true then _ else _) _
  rw [← htest]
  split
  · next hyes =>
    refine take_bind (eq_false_of_ne_true fun hstop => ?_) (pure trivial)
    rw [Token.isSymbol_of_followsPattern hstop hs] at hyes
    cases hyes
  · exact refused ⟨_, rfl⟩

theorem name : Copies E c d Reader.name Reader.name fun x y => x.val = y.val := by
  refine of_alongside fun hcd => ?_
  cases ht : c.here.token with
  | ident text =>
    have hword : c.here.token.followsPattern = false := by rw [ht]; rfl
    have ht' : d.here.token = .ident text := by rw [← (hcd.like hword).token, ht]
    intro _ a c₁ ha _
    rw [Seam.Agrees.name_eq, ht] at ha
    cases ha
    exact ⟨⟨text, d.here.span⟩, d.next, by rw [Seam.Agrees.name_eq, ht'], hcd.next hword, rfl⟩
  | _ =>
    refine refused ⟨⟨.expectedName c.here.token, c.here.span⟩, ?_⟩
    rw [Seam.Agrees.name_eq, ht]

/-- What is read after asking for a symbol that stands in patterns. -/
theorem isAt_bind {s : Symbol} (hs : s ∉ [Symbol.arrow, Symbol.assign]) {g g' : Bool → Reader β}
    (h : ∀ b, isSymbol s c.here.token = b → Copies E c d (g b) (g' b) Q) :
    Copies E c d (Reader.isAt s >>= g) (Reader.isAt s >>= g') Q := by
  refine of_alongside fun hcd => ?_
  show Copies E c d (g (isSymbol s c.here.token)) (g' (isSymbol s d.here.token)) Q
  rw [← hcd.test_eq fun t ht => Token.isSymbol_of_followsPattern ht hs]
  exact h _ rfl

/-- What is read after passing over what stands in patterns. -/
theorem skipWhile_bind {p : Token → Bool} (hp : ∀ t : Token, t.followsPattern = true → p t = false)
    {g g' : Unit → Reader β} (h : Copies E (c.skip p) (d.skip p) (g ()) (g' ()) Q) :
    Copies E c d (Reader.skipWhile p >>= g) (Reader.skipWhile p >>= g') Q := fun hcd => h (hcd.skip hp)

theorem fieldsAhead_bind {g g' : Bool → Reader β} (h : ∀ b, Copies E c d (g b) (g' b) Q) :
    Copies E c d (Grammar.fieldsAhead >>= g) (Grammar.fieldsAhead >>= g') Q := by
  intro hcd
  rw [Grammar.fieldsAhead_bind_eq, Grammar.fieldsAhead_bind_eq, ← hcd.beginFields_eq]
  exact h _ hcd

end Copies

/-! ### Lists -/

/-- Whether a token may come after the value of a field: a comma, the closing brace, or the name of the next field. -/
def EndsField (t : Token) : Prop := isSymbol .comma t = true ∨ isSymbol .closeBrace t = true ∨ isName t = true

theorem EndsField.followsPattern {t : Token} (h : EndsField t) : t.followsPattern = false := by
  refine eq_false_of_ne_true fun hstop => ?_
  rw [EndsField, Token.isSymbol_of_followsPattern hstop (by decide),
    Token.isSymbol_of_followsPattern hstop (by decide), Token.isName_of_followsPattern hstop] at h
  simp at h

/-- One round of the fields in braces. -/
def lineItem (item : Reader α) : Reader (Option α) := do
  skipWhile (isSymbol .comma)
  if ← isAt .closeBrace then return none
  let a ← item
  let l ← here
  if isSymbol .comma l.token || isSymbol .closeBrace l.token || l.afterBreak then return some a
  else failHere (.expectedCommaOr .closeBrace)

theorem lines_eq (item : Reader α) (n : Nat) :
    lines .closeBrace item n = collect (fun _ => lineItem item) n true := rfl

/-- A round begins with a comma, with the closing brace, or with a name, and there is none where the brace is. -/
theorem lineItem_yields {item : Reader α} (hitem : ∀ c, Yields c item fun _ _ => isName c.here.token = true) :
    Yields c (lineItem item) fun o c₁ => EndsField c.here.token ∧ (o = none → EndsField c₁.here.token) := by
  have hrest (c : Cursor) : Yields c (do
      if ← isAt .closeBrace then return none
      let a ← item
      let l ← here
      if isSymbol .comma l.token || isSymbol .closeBrace l.token || l.afterBreak then return some a
      else failHere (.expectedCommaOr .closeBrace)) fun o c₁ =>
        (isSymbol .closeBrace c.here.token = true ∨ isName c.here.token = true) ∧ (o = none → EndsField c₁.here.token) := by
    show Yields c (if isSymbol .closeBrace c.here.token = true then _ else _) _
    split
    · next hclose => exact .pure ⟨.inl hclose, fun _ => .inr (.inl hclose)⟩
    · refine (hitem c).bind fun a c₁ hname => .look ?_
      split
      · exact .pure ⟨.inr hname, nofun⟩
      · exact .failHere _
  intro o c₁ h
  obtain ⟨hfirst, hnone⟩ := hrest (c.skip (isSymbol .comma)) o c₁ h
  refine ⟨?_, hnone⟩
  cases hcomma : isSymbol .comma c.here.token with
  | true => exact .inl hcomma
  | false => exact .inr (c.skip_eq hcomma ▸ hfirst)

/-- Where fields are read there is a comma, the closing brace, or a name. -/
theorem endsField_of_collect {item : Reader α} (hitem : ∀ c, Yields c item fun _ _ => isName c.here.token = true)
    (n : Nat) (first : Bool) :
    Yields c (collect (fun _ => lineItem item) n first) fun _ _ => EndsField c.here.token := by
  cases n with
  | zero => exact .look (.fail _ _)
  | succ n =>
    refine (lineItem_yields hitem).bind fun o c₁ ho => ?_
    cases o with
    | none => exact .pure ho.1
    | some a => exact .skip fun as c₂ => .pure ho.1

namespace Copies

variable {item item' : Reader α} {S : α → α → Prop}

/-- One round is followed if the thing in it is followed up to the end of a field. -/
theorem lineItem (h : ∀ c d, Copies EndsField c d item item' S) :
    Copies EndsField c d (lineItem item) (lineItem item') (Option.Rel S) := by
  refine skipWhile_bind (fun t ht => Token.isSymbol_of_followsPattern ht (by decide)) ?_
  refine isAt_bind (by decide) fun b _ => ?_
  cases b with
  | true => exact pure .none
  | false =>
    refine (h _ _).bind_ends (fun a c₁ o c₂ _ ho hend => ?_) fun a b c₁ d₁ hab hcd o c₂ ho hend => ?_
    all_goals
      replace ho : (if isSymbol .comma c₁.here.token || isSymbol .closeBrace c₁.here.token || c₁.here.afterBreak then
        Pure.pure (some a) else failHere (.expectedCommaOr .closeBrace) : Reader (Option α)) c₁ = .ok (o, c₂) := ho
      split at ho <;> cases ho
    · exact hend
    · next hline =>
      have hlike := hcd.like hend.followsPattern
      rw [hlike.token, hlike.afterBreak] at hline
      refine ⟨some b, d₁, ?_, hcd, .some hab⟩
      show (if isSymbol .comma d₁.here.token || isSymbol .closeBrace d₁.here.token || d₁.here.afterBreak then
        Pure.pure (some b) else failHere (.expectedCommaOr .closeBrace) : Reader (Option α)) d₁ = _
      rw [if_pos hline]
      rfl

/-- The fields in braces are followed if each of them is followed up to its end. -/
theorem lines (h : ∀ c d, Copies EndsField c d item item' S)
    (hitem : ∀ c, Yields c item fun _ _ => isName c.here.token = true) {n m : Nat} (hnm : n ≤ m) :
    Copies E c d (lines .closeBrace item n) (lines .closeBrace item' m) (List.Forall₂ S) := by
  rw [lines_eq, lines_eq]
  generalize true = first
  induction n generalizing m c d first with
  | zero => exact .refused ⟨_, rfl⟩
  | succ n ih =>
    obtain ⟨m, rfl⟩ : ∃ k, m = k + 1 := ⟨m - 1, by omega⟩
    refine (lineItem h).bind_ends (fun o c₁ as c₂ ho has _ => ?_) fun o o' c₁ d₁ hrel => ?_
    · -- where a round ends is known from the rounds after it
      cases o with
      | none => exact (lineItem_yields hitem none c₁ ho).2 rfl
      | some a =>
        have hrest : Yields c₁ (do return a :: (← collect (fun _ => Reader.lineItem item) n false)) fun _ _ =>
            EndsField c₁.here.token := (endsField_of_collect hitem n false).bind fun as c₂ h => .pure h
        exact hrest as c₂ has
    · cases hrel with
      | none => exact pure .nil
      | some hab => exact (ih (by omega) false).map fun as bs habs => .cons hab habs

end Copies

end Reader

end DispatchLang
