import DispatchLang.Proofs.Grammar.Joining
import DispatchLang.Proofs.Grammar.Placement

/-!
# Reading a text and its continuation side by side

A text is read twice, alone and with another text on the next line. Up to the *seam*, where the first text
ends, both runs see the same lexemes; at the seam the first run sees the end of the text and the second one
sees the first word of the other text. A reader that accepts in the first run accepts in the second one, with
the same answer, if it makes nothing more of that word than of the end.

Most symbols cannot stand there, because no statement begins with them or because they would continue the line;
and a reader that takes what can stand there takes the end for an error. There is one exception: a brace is taken by
a name that may begin a construction and by a type declaration without a body, whatever line it stands on. An
answer that ends with one of these is *open*, and of open answers nothing is said. An answer can only be open
where the first text ends, so that hardly any reader can go on behind it.

The statement has two more uses. It holds for readers that may nest more deeply in the second run, and with
nothing but the end of a text at the seam it says how what is read depends on the places of the lexemes. For this
the lexemes of the two runs are the same up to a `Placing`, and so are the answers.

## Main definitions

* `Seam`: what the two runs see where the first text ends.
* `Seam.Beside`: cursors that stand at the same point of the two runs.
* `Seam.Agrees`: readers that answer alike.
-/

namespace DispatchLang

open Reader

/-! ## The end of a tree -/

namespace Node

/-- The part that a tree ends with, if no bracket follows it. -/
def ending : Node → Node
  | .binary _ _ _ right => ending right
  | .unary _ _ operand => ending operand
  | .assign _ _ value => ending value
  | .pair _ _ value => ending value
  | .function _ _ body => ending body
  | .refine _ _ pattern => ending pattern
  | .quoted _ body => ending body
  | node => node

/-- Whether the grammar lets a brace follow a node, on whatever line it stands: it follows a type declaration that
has no body yet, and also a name, if it begins fields. -/
def takesBrace (fields : Bool) : Node → Bool
  | .ident _ _ => fields
  | .typeDecl _ ⟨_, _, _, .concrete⟩ => true
  | _ => false

end Node

def Lexeme.beginBrace (ls : List Lexeme) : Bool := ls.head?.any (isSymbol .openBrace ·.token)

/-- Whether lexemes begin with a brace, a name and a colon. -/
def Lexeme.beginFields : List Lexeme → Bool
  | l :: m :: n :: _ => isSymbol .openBrace l.token && isName m.token && isSymbol .colon n.token
  | _ => false

/-- The offset at which the last word of a text ends. -/
def Lexeme.reach (ls : List Lexeme) : Nat := (ls.dropLast.getLast?.map (·.span.stop)).getD 0

/-- The cursor after all lexemes that pass a test. -/
def Cursor.skip (p : Token → Bool) (c : Cursor) : Cursor := Cursor.skipWhile p c.last c.here c.ahead

theorem Cursor.skip_eq (c : Cursor) {p : Token → Bool} (h : p c.here.token = false) : c.skip p = c := by
  obtain ⟨last, here, ahead⟩ := c
  cases ahead with
  | nil => rfl
  | cons l ls => rw [skip, skipWhile, show p here.token = false from h, if_neg Bool.false_ne_true]

/-- Taking a lexeme that would be passed over changes nothing. -/
theorem Cursor.skip_next (c : Cursor) {p : Token → Bool} (h : p c.here.token = true) : c.next.skip p = c.skip p := by
  obtain ⟨last, here, ahead⟩ := c
  cases ahead with
  | nil => rfl
  | cons l ls => rw [skip, skip, skipWhile, show p here.token = true from h, if_pos rfl]; rfl

/-! ## Seams -/

/-- The symbols that can begin a statement without continuing the line before it. The semicolon does not begin one
but may stand there. -/
def Symbol.starters : List Symbol := [.openBrace, .bang, .hash, .question, .semicolon]

/-- A text whose end is replaced by other lexemes, and how places of the two are compared. -/
structure Seam extends Placing where
  /-- The lexemes of the text. -/
  text : List Lexeme
  /-- The end of the text. -/
  stop : Lexeme
  /-- What stands at the place of the end. -/
  here : Lexeme
  /-- What stands after it. -/
  ahead : List Lexeme
  /-- The end is the end. -/
  stops : stop.token = .eof
  /-- A line that has ended for the text has ended. -/
  afterBreak : stop.afterBreak = true → here.afterBreak = true
  /-- What stands at the place of the end is on another line. -/
  onLine : here.token ≠ .eof → here.afterBreak = true ∧ here.touches = false
  /-- It begins a statement and does not continue a line. -/
  begins : ∀ s, here.token = .symbol s → s ∈ Symbol.starters
  /-- If it is a name, then no label. -/
  label : isName here.token = true → ahead.head?.any (isSymbol .colon ·.token) = false

namespace Seam

variable (σ : Seam)

/-- Lexemes that are alike up to the seam. -/
inductive Texts : List Lexeme → List Lexeme → Prop where
  /-- The seam. -/
  | seam : Texts [σ.stop] (σ.here :: σ.ahead)
  /-- A word before it. -/
  | word {l l' : Lexeme} {ls ls' : List Lexeme} (token : l.token ≠ .eof) (like : σ.Twins l l')
    (rest : Texts ls ls') : Texts (l :: ls) (l' :: ls')

/-- Cursors at the same point of the two runs. -/
structure Beside (c d : Cursor) : Prop where
  /-- From there on the lexemes are alike up to the seam. -/
  texts : σ.Texts (c.here :: c.ahead) (d.here :: d.ahead)
  /-- The lexeme taken last is the one before the cursor. -/
  last : c.here :: c.ahead = σ.text ∨
    ∃ l, l :: c.here :: c.ahead <:+ σ.text ∧ l.span = c.last
  /-- The lexemes taken last stand at the same place. -/
  place : σ.Same c.last d.last

variable {σ} {c d : Cursor}

theorem Texts.of_forall₂ {ws ws' : List Lexeme} (hw : ∀ l ∈ ws, l.token ≠ .eof)
    (h : List.Forall₂ σ.Twins ws ws') : σ.Texts (ws ++ [σ.stop]) (ws' ++ σ.here :: σ.ahead) := by
  induction h with
  | nil => exact .seam
  | cons hl _ ih =>
    obtain ⟨hne, hw⟩ := List.forall_mem_cons.1 hw
    exact .word hne hl (ih hw)

theorem isSymbol_here {s : Symbol} (h : s ∉ Symbol.starters) : isSymbol s σ.here.token = false := by
  cases ht : σ.here.token with
  | symbol t =>
    refine decide_eq_false ?_
    rintro rfl
    exact h (σ.begins _ ht)
  | _ => rfl

theorem continuesLine_here : σ.here.token.continuesLine = false := by
  cases ht : σ.here.token with
  | symbol s =>
    have hs := σ.begins s ht
    revert hs
    cases s <;> decide
  | _ => rfl

namespace Beside

/-- Either both cursors are at the seam, or both are at the same word. -/
theorem cases_here (h : σ.Beside c d) :
    (c.here = σ.stop ∧ c.ahead = [] ∧ d.here = σ.here ∧ d.ahead = σ.ahead) ∨
      c.here.token ≠ .eof ∧ σ.Twins c.here d.here ∧ σ.Texts c.ahead d.ahead := by
  obtain ⟨last, here, ahead⟩ := c
  obtain ⟨last', here', ahead'⟩ := d
  cases h.texts with
  | seam => exact .inl ⟨rfl, rfl, rfl, rfl⟩
  | word token like rest => exact .inr ⟨token, like, rest⟩

theorem like (h : σ.Beside c d) (ht : c.here.token ≠ .eof) : σ.Twins c.here d.here := by
  rcases h.cases_here with ⟨hc, -⟩ | ⟨-, hl, -⟩
  · exact absurd (hc ▸ σ.stops) ht
  · exact hl

theorem seam (h : σ.Beside c d) (ht : c.here.token = .eof) :
    c.here = σ.stop ∧ c.ahead = [] ∧ d.here = σ.here ∧ d.ahead = σ.ahead := by
  rcases h.cases_here with hc | ⟨hne, -⟩
  · exact hc
  · exact absurd ht hne

/-- A symbol that begins no statement is at both cursors or at none. -/
theorem isSymbol_eq (h : σ.Beside c d) {s : Symbol} (hs : s ∉ Symbol.starters) :
    isSymbol s c.here.token = isSymbol s d.here.token := by
  rcases h.cases_here with ⟨hc, -, hd, -⟩ | ⟨-, hl, -⟩
  · rw [hc, hd, σ.stops, isSymbol_here hs]
    rfl
  · rw [hl.token]

theorem next (h : σ.Beside c d) (ht : c.here.token ≠ .eof) : σ.Beside c.next d.next := by
  obtain ⟨last, here, ahead⟩ := c
  obtain ⟨last', here', ahead'⟩ := d
  obtain ⟨htexts, hlast, -⟩ := h
  cases htexts with
  | seam => exact absurd σ.stops ht
  | word token like rest =>
    have hsuffix : here :: ahead <:+ σ.text := by
      rcases hlast with h | ⟨l, h, -⟩
      · exact h ▸ List.suffix_rfl
      · exact (List.suffix_cons l _).trans h
    cases rest with
    | seam => exact ⟨.seam, .inr ⟨here, hsuffix, rfl⟩, like.place⟩
    | word token' like' rest => exact ⟨.word token' like' rest, .inr ⟨here, hsuffix, rfl⟩, like.place⟩

/-- The same for the lexeme after a word. -/
theorem nextIs_eq (h : σ.Beside c d) (ht : c.here.token ≠ .eof) {s : Symbol} (hs : s ∉ Symbol.starters) :
    c.ahead.head?.any (isSymbol s ·.token) = d.ahead.head?.any (isSymbol s ·.token) := by
  rcases h.cases_here with ⟨hc, -⟩ | ⟨-, -, hrest⟩
  · exact absurd (hc ▸ σ.stops) ht
  · generalize c.ahead = ls at hrest
    generalize d.ahead = ls' at hrest
    cases hrest with
    | seam =>
      rw [List.head?_cons, List.head?_cons, Option.any_some, Option.any_some, σ.stops, isSymbol_here hs]
      rfl
    | word _ hl _ => rw [List.head?_cons, List.head?_cons, Option.any_some, Option.any_some, hl.token]

/-- The word that is taken is the one taken last. -/
theorem last_next (h : σ.Beside c d) (ht : c.here.token ≠ .eof) : c.next.last = c.here.span := by
  rcases h.cases_here with ⟨hc, -⟩ | ⟨-, -, hrest⟩
  · exact absurd (hc ▸ σ.stops) ht
  · unfold Cursor.next
    cases hc : c.ahead with
    | nil => rw [hc] at hrest; cases hrest
    | cons l ls => rfl

/-- Passing over words takes the two cursors to the same point. If it takes the first one to the seam, then it takes the
second one to where it would come from there. -/
theorem skip (h : σ.Beside c d) (p : Token → Bool) :
    (c.skip p).here.token ≠ .eof ∧ σ.Beside (c.skip p) (d.skip p) ∨
      (c.skip p).here.token = .eof ∧
        ∃ d' : Cursor, d'.here = σ.here ∧ d'.ahead = σ.ahead ∧ d.skip p = d'.skip p := by
  obtain ⟨last, here, ahead⟩ := c
  induction ahead generalizing last here d with
  | nil =>
    rcases h.cases_here with ⟨hc, -, hd, hd'⟩ | ⟨-, -, hrest⟩
    · exact .inr ⟨hc ▸ σ.stops, d, hd, hd', rfl⟩
    · cases hrest
  | cons l ls ih =>
    rcases h.cases_here with ⟨-, hc, -⟩ | ⟨hne, hl, hrest⟩
    · cases hc
    · have hnext := h.next hne
      obtain ⟨last', here', ahead'⟩ := d
      cases ahead' with
      | nil => cases hrest
      | cons l' ls' =>
        dsimp only [Cursor.skip, Cursor.skipWhile]
        rw [← show here.token = here'.token from hl.token]
        split
        · exact ih here.span l hnext
        · exact .inl ⟨hne, h⟩

theorem reach_le (h : σ.Beside c d) (hc : c.here.token = .eof) : Lexeme.reach σ.text ≤ c.last.stop := by
  obtain ⟨hstop, hahead, -, -⟩ := h.seam hc
  rcases h.last with htext | ⟨l, ⟨ls, htext⟩, hlast⟩
  · rw [← htext, hahead]
    exact Nat.zero_le _
  · rw [hahead] at htext
    rw [← htext, ← hlast, Lexeme.reach, show ls ++ [l, c.here] = ls ++ [l] ++ [c.here] by simp,
      List.dropLast_concat, List.getLast?_concat]
    exact le_rfl

end Beside

end Seam

/-! ## One round of a list -/

def Token.isEnd : Token → Bool
  | .eof => true
  | _ => false

theorem Token.isEnd_eq_false {token : Token} (h : token ≠ .eof) : token.isEnd = false := by
  rw [isEnd]
  exact h

variable {α β : Type}

/-- What the first round of a list comes to. -/
theorem Reader.collect_succ (item : Bool → Reader (Option α)) (n : Nat) ( first : Bool) (c : Cursor) :
    Reader.collect item (n + 1) first c = match item first c with
      | .error e => .error e
      | .ok (none, c₁) => .ok ([], c₁)
      | .ok (some a, c₁) => (Reader.collect item n false c₁).map fun x => (a :: x.1, x.2) := by
  rw [Reader.collect]
  change (item first c >>= _) = _
  rcases item first c with e | ⟨_ | a, c₁⟩
  · rfl
  · rfl
  · show (Reader.collect item n false c₁ >>= fun x => Except.ok (a :: x.1, x.2)) =
      (Reader.collect item n false c₁).map fun x => (a :: x.1, x.2)
    rcases Reader.collect item n false c₁ with e | x <;> rfl

/-! ## Readers at the end -/

def Reader.RefusesEnd (r : Reader α) : Prop := ∀ c : Cursor, c.here.token = .eof → ∃ e, r c = .error e

namespace Reader.RefusesEnd

variable {r : Reader α} {f : α → Reader β}

theorem bind (h : RefusesEnd r) : RefusesEnd (r >>= f) := by
  intro c hc
  obtain ⟨e, he⟩ := h c hc
  refine ⟨e, ?_⟩
  show (r c >>= fun x => f x.1 x.2) = _
  rw [he]
  rfl

theorem fail {cause : SyntaxCause} {span : Span} : RefusesEnd (Reader.fail cause span : Reader α) :=
  fun _ _ => ⟨_, rfl⟩

theorem failHere {cause : Token → SyntaxCause} : RefusesEnd (Reader.failHere cause : Reader α) :=
  fun _ _ => ⟨_, rfl⟩

theorem here_bind {g : Lexeme → Reader α} (h : ∀ l, l.token = .eof → RefusesEnd (g l)) :
    RefusesEnd (Reader.here >>= g) := fun c hc => h c.here hc c hc

theorem isAt_bind {s : Symbol} {g : Bool → Reader α} (h : RefusesEnd (g false)) :
    RefusesEnd (Reader.isAt s >>= g) := by
  intro c hc
  show ∃ e, g (isSymbol s c.here.token) c = .error e
  rw [hc]
  exact h c hc

theorem atEnd_bind {g : Bool → Reader α} (h : RefusesEnd (g true)) : RefusesEnd (Reader.atEnd >>= g) := by
  intro c hc
  show ∃ e, g c.here.token.isEnd c = .error e
  rw [hc]
  exact h c hc

theorem skipWhile_bind {skip : Token → Bool} (hskip : skip .eof = false) {g : Unit → Reader α}
    (h : RefusesEnd (g ())) : RefusesEnd (Reader.skipWhile skip >>= g) := by
  intro c hc
  show ∃ e, g () (c.skip skip) = .error e
  rw [c.skip_eq (by rw [hc, hskip])]
  exact h c hc

theorem expect (s : Symbol) : RefusesEnd (Reader.expect s) := by
  refine isAt_bind ?_
  rw [if_neg Bool.false_ne_true]
  exact failHere

theorem name : RefusesEnd Reader.name := by
  refine here_bind fun l hl => ?_
  rw [hl]
  exact failHere

end Reader.RefusesEnd

/-! ## Readers that agree -/

namespace Seam

variable {σ : Seam} {c d : Cursor}

/-- Whether two readers agree at two cursors: where the first accepts, either its answer is open, and it has come to the
end, or the second accepts with a like answer and stops beside the first. -/
def Agrees (σ : Seam) (c d : Cursor) (r r' : Reader α) (S : α → α → Prop)
    (B : Cursor → α → Prop) : Prop :=
  σ.Beside c d → ∀ a c₁, r c = .ok (a, c₁) →
    (∃ b d₁, r' d = .ok (b, d₁) ∧ σ.Beside c₁ d₁ ∧ S a b) ∨ c₁.here.token = .eof ∧ B c₁ a

/-- Whether a node that was read up to the seam takes the brace that stands there in the second run. -/
def Open (σ : Seam) (_ : Cursor) (node : Node) : Prop :=
  Lexeme.beginBrace (σ.here :: σ.ahead) = true ∧
    node.ending.takesBrace (Lexeme.beginFields (σ.here :: σ.ahead)) = true ∧
    Lexeme.reach σ.text ≤ node.ending.span.stop

/-- Nothing is open. -/
def Never (_ : Cursor) (_ : α) : Prop := False

namespace Agrees

variable {r r' : Reader α} {f f' : α → Reader β} {S : α → α → Prop} {Q : β → β → Prop}
  {B : Cursor → α → Prop} {B' : Cursor → β → Prop}

theorem pure {a b : α} (h : S a b) : σ.Agrees c d (Pure.pure a) (Pure.pure b) S B := by
  intro hcd a' c₁ ha
  cases ha
  exact .inl ⟨b, d, rfl, hcd, h⟩

/-- A reader whose answer is open. -/
theorem of_open (h : ∀ a c₁, r c = .ok (a, c₁) → c₁.here.token = .eof ∧ B c₁ a) :
    σ.Agrees c d r r' S B := fun _ a c₁ ha => .inr (h a c₁ ha)

theorem mono {S' : α → α → Prop} {B₁ : Cursor → α → Prop} (h : σ.Agrees c d r r' S B)
    (hS : ∀ a b, S a b → S' a b) (hB : ∀ c₁ a, B c₁ a → B₁ c₁ a) : σ.Agrees c d r r' S' B₁ := by
  intro hcd a c₁ ha
  rcases h hcd a c₁ ha with ⟨b, d₁, hb, hcd₁, hab⟩ | ⟨hc₁, hopen⟩
  · exact .inl ⟨b, d₁, hb, hcd₁, hS a b hab⟩
  · exact .inr ⟨hc₁, hB _ _ hopen⟩

/-- A reader whose answers are not open. -/
theorem closed (h : σ.Agrees c d r r' S Never) : σ.Agrees c d r r' S B :=
  h.mono (fun _ _ h => h) fun _ _ h => h.elim

theorem refused (h : ∃ e, r c = .error e) : σ.Agrees c d r r' S B := by
  obtain ⟨e, he⟩ := h
  intro _ a c₁ ha
  rw [he] at ha
  cases ha

theorem refused_of_eof (hc : c.here.token = .eof) (h : RefusesEnd r) : σ.Agrees c d r r' S B :=
  refused (h c hc)

theorem fail {cause : SyntaxCause} {span : Span} :
    σ.Agrees c d (Reader.fail cause span : Reader α) r' S B := refused ⟨_, rfl⟩

theorem failHere {cause : Token → SyntaxCause} :
    σ.Agrees c d (Reader.failHere cause : Reader α) r' S B := refused ⟨_, rfl⟩

theorem of_beside (h : σ.Beside c d → σ.Agrees c d r r' S B) : σ.Agrees c d r r' S B :=
  fun hcd => h hcd hcd

/-- Two readers after two others. After an open answer the end is all that there is to read. -/
theorem bind_open (hr : σ.Agrees c d r r' S B)
    (hf : ∀ a b c₁ d₁, S a b → σ.Agrees c₁ d₁ (f a) (f' b) Q B')
    (hB : ∀ a c₁, c₁.here.token = .eof → B c₁ a → ∀ b c₂, f a c₁ = .ok (b, c₂) →
      c₂.here.token = .eof ∧ B' c₂ b) :
    σ.Agrees c d (r >>= f) (r' >>= f') Q B' := by
  intro hcd b c₂ hb
  have hbind : (r c >>= fun x => f x.1 x.2) = .ok (b, c₂) := hb
  cases hr₁ : r c with
  | error e => rw [hr₁] at hbind; cases hbind
  | ok x =>
    obtain ⟨a, c₁⟩ := x
    rw [hr₁] at hbind
    rcases hr hcd a c₁ hr₁ with ⟨a', d₁, ha', hcd₁, hS⟩ | ⟨hc₁, hopen⟩
    · rcases hf a a' c₁ d₁ hS hcd₁ b c₂ hbind with ⟨b', d₂, hb', h⟩ | h
      · refine .inl ⟨b', d₂, ?_, h⟩
        show (r' d >>= fun x => f' x.1 x.2) = _
        rw [ha']
        exact hb'
      · exact .inr h
    · exact .inr (hB a c₁ hc₁ hopen b c₂ hbind)

theorem bind (hr : σ.Agrees c d r r' S Never)
    (hf : ∀ a b c₁ d₁, S a b → σ.Agrees c₁ d₁ (f a) (f' b) Q B') :
    σ.Agrees c d (r >>= f) (r' >>= f') Q B' :=
  hr.bind_open hf fun _ _ _ h => h.elim

/-- Two readers after two others that are open only where the first of the two refuses. -/
theorem bind_end (hr : σ.Agrees c d r r' S B)
    (hf : ∀ a b c₁ d₁, S a b → σ.Agrees c₁ d₁ (f a) (f' b) Q B') (hend : ∀ a, RefusesEnd (f a)) :
    σ.Agrees c d (r >>= f) (r' >>= f') Q B' := by
  refine hr.bind_open hf fun a c₁ hc₁ _ b c₂ hb => ?_
  obtain ⟨e, he⟩ := hend a c₁ hc₁
  rw [he] at hb
  cases hb

theorem moved {s s' : Reader α} {c' d' : Cursor} (h : σ.Agrees c' d' s s' S B) (hc : r c = s c')
    (hd : r' d = s' d') (hcd : σ.Beside c' d') : σ.Agrees c d r r' S B := by
  intro _ a c₁ ha
  rw [hc] at ha
  rw [hd]
  exact h hcd a c₁ ha

/-! ### Steps -/

theorem get_bind {g g' : Cursor → Reader β} (h : σ.Agrees c d (g c) (g' d) Q B') :
    σ.Agrees c d (MonadState.get >>= g) (MonadState.get >>= g') Q B' := h

/-- What is read after looking at the lexeme under the cursor. -/
theorem here_bind {g g' : Lexeme → Reader β}
    (hend : c.here = σ.stop → d.here = σ.here → σ.Agrees c d (g c.here) (g' d.here) Q B')
    (hword : c.here.token ≠ .eof → σ.Twins c.here d.here → σ.Agrees c d (g c.here) (g' d.here) Q B') :
    σ.Agrees c d (Reader.here >>= g) (Reader.here >>= g') Q B' := by
  refine of_beside fun hcd => ?_
  rcases hcd.cases_here with ⟨hc, -, hd, -⟩ | ⟨hne, hl, -⟩
  · exact hend hc hd
  · exact hword hne hl

/-- What is read after taking a word. -/
theorem take_bind {g g' : Lexeme → Reader β} (ht : c.here.token ≠ .eof)
    (h : σ.Twins c.here d.here → σ.Agrees c.next d.next (g c.here) (g' d.here) Q B') :
    σ.Agrees c d (Reader.take >>= g) (Reader.take >>= g') Q B' :=
  of_beside fun hcd _ => h (hcd.like ht) (hcd.next ht)

/-- What is read after asking for a symbol that begins no statement. -/
theorem isAt_bind {s : Symbol} {g g' : Bool → Reader β} (hs : s ∉ Symbol.starters)
    (hyes : c.here.token ≠ .eof → isSymbol s c.here.token = true → σ.Agrees c d (g true) (g' true) Q B')
    (hno : isSymbol s c.here.token = false → σ.Agrees c d (g false) (g' false) Q B') :
    σ.Agrees c d (Reader.isAt s >>= g) (Reader.isAt s >>= g') Q B' := by
  refine of_beside fun hcd => ?_
  show σ.Agrees c d (g (isSymbol s c.here.token)) (g' (isSymbol s d.here.token)) Q B'
  rw [← hcd.isSymbol_eq hs]
  cases h : isSymbol s c.here.token with
  | true =>
    refine hyes (fun he => ?_) h
    rw [he] at h
    cases h
  | false => exact hno h

/-- What is read after asking for the end before the seam. -/
theorem atEnd_bind {g g' : Bool → Reader β} (hne : c.here.token ≠ .eof)
    (h : σ.Agrees c d (g false) (g' false) Q B') :
    σ.Agrees c d (Reader.atEnd >>= g) (Reader.atEnd >>= g') Q B' := by
  refine of_beside fun hcd => ?_
  show σ.Agrees c d (g c.here.token.isEnd) (g' d.here.token.isEnd) Q B'
  rw [Token.isEnd_eq_false hne, Token.isEnd_eq_false ((hcd.like hne).token ▸ hne)]
  exact h

/-- The lexeme under the cursor is taken if its token passes a test that the end does not pass, and is refused
otherwise. -/
theorem require {p : Token → Bool} {cause : Token → SyntaxCause} (hp : p .eof = false) {g : Lexeme → α}
    (h : σ.Twins c.here d.here → S (g c.here) (g d.here)) :
    σ.Agrees c d (do if p (← Reader.here).token then return g (← Reader.take) else Reader.failHere cause)
      (do if p (← Reader.here).token then return g (← Reader.take) else Reader.failHere cause) S Never := by
  refine here_bind (fun hend _ => ?_) fun hne hl => ?_
  · rw [hend, σ.stops, hp]
    exact failHere
  · rw [← hl.token]
    split
    · exact take_bind hne fun hl => pure (h hl)
    · exact failHere

/-- A required symbol. -/
theorem expect (s : Symbol) :
    σ.Agrees c d (Reader.expect s) (Reader.expect s) σ.Same Never :=
  require (g := Lexeme.span) (p := isSymbol s) rfl fun hl => hl.place

/-- A required reserved word. -/
theorem expectWord (k : Keyword) :
    σ.Agrees c d (Reader.expectWord k) (Reader.expectWord k) σ.Same Never :=
  require (g := Lexeme.span) (p := isKeyword k) rfl fun hl => hl.place

theorem name_eq (c : Cursor) : Reader.name c = match c.here.token with
    | .ident text => .ok (⟨text, c.here.span⟩, c.next)
    | token => .error ⟨.expectedName token, c.here.span⟩ := by
  obtain ⟨last, ⟨token, span, afterBreak, touches⟩, ahead⟩ := c
  cases token <;> rfl

/-- A required name. It is the word taken last. -/
theorem name_bind {g g' : Located String → Reader β}
    (h : ∀ x y : Located String, σ.UpTo Located.moved x y → c.next.last = x.span →
      σ.Agrees c.next d.next (g x) (g' y) Q B') :
    σ.Agrees c d (Reader.name >>= g) (Reader.name >>= g') Q B' := by
  refine of_beside fun hcd => ?_
  cases ht : c.here.token with
  | ident text =>
    have hne : c.here.token ≠ .eof := by rw [ht]; exact Token.noConfusion
    have ht' : d.here.token = .ident text := by rw [← (hcd.like hne).token, ht]
    have hc : (Reader.name >>= g) c = g ⟨text, c.here.span⟩ c.next := by
      show (Reader.name c >>= fun x => g x.1 x.2) = _
      rw [name_eq, ht]
      rfl
    have hd : (Reader.name >>= g') d = g' ⟨text, d.here.span⟩ d.next := by
      show (Reader.name d >>= fun x => g' x.1 x.2) = _
      rw [name_eq, ht']
      rfl
    intro _ a c₁ ha
    rw [hc] at ha
    rw [hd]
    have hplace : σ.UpTo Located.moved ⟨text, c.here.span⟩ ⟨text, d.here.span⟩ :=
      congrArg (Located.mk text) (hcd.like hne).place
    exact h ⟨text, c.here.span⟩ ⟨text, d.here.span⟩ hplace (hcd.last_next hne) (hcd.next hne) a c₁ ha
  | _ =>
    refine refused ⟨⟨.expectedName c.here.token, c.here.span⟩, ?_⟩
    show (Reader.name c >>= fun x => g x.1 x.2) = _
    rw [name_eq, ht]
    rfl

theorem accept_eq (s : Symbol) (c : Cursor) : Reader.accept s c =
    if isSymbol s c.here.token then .ok (true, c.next) else .ok (false, c) := by
  show (if isSymbol s c.here.token = true then _ else _ : Reader Bool) c = _
  split <;> rfl

theorem expect_eq (s : Symbol) (c : Cursor) : Reader.expect s c =
    if isSymbol s c.here.token then .ok (c.here.span, c.next)
    else .error ⟨.expected (.symbol s) c.here.token, c.here.span⟩ := by
  show (if isSymbol s c.here.token = true then _ else _ : Reader Span) c = _
  split <;> rfl

/-- A symbol that may be missing, where it is missing in both runs or in none. -/
theorem accept_of_eq {s : Symbol} (hs : isSymbol s c.here.token = isSymbol s d.here.token) :
    σ.Agrees c d (Reader.accept s) (Reader.accept s) Eq Never := by
  show σ.Agrees c d (if isSymbol s c.here.token = true then _ else _)
    (if isSymbol s d.here.token = true then _ else _) _ _
  rw [← hs]
  split
  · next h => exact take_bind (Reads.ne_eof_of_isSymbol h) fun _ => pure rfl
  · exact pure rfl

/-- A symbol that begins no statement and may be missing. -/
theorem accept {s : Symbol} (hs : s ∉ Symbol.starters) :
    σ.Agrees c d (Reader.accept s) (Reader.accept s) Eq Never :=
  of_beside fun hcd => accept_of_eq (hcd.isSymbol_eq hs)

theorem lineEnd_bind {p : Token → Bool} (hp : p .eof = false) {cause : Token → SyntaxCause}
    {x x' : Reader α} (h : σ.Agrees c d x x' S B) :
    σ.Agrees c d (do
      let l ← Reader.here
      if p l.token || l.afterBreak then x else Reader.failHere cause) (do
      let l ← Reader.here
      if p l.token || l.afterBreak then x' else Reader.failHere cause) S B := by
  refine here_bind (fun hc hd => ?_) fun _ hl => ?_
  · rw [hc, hd, σ.stops, hp, Bool.false_or]
    by_cases hb : σ.stop.afterBreak = true
    · rw [if_pos hb, if_pos (by rw [σ.afterBreak hb, Bool.or_true])]
      exact h
    · rw [if_neg hb]
      exact failHere
  · rw [← hl.token, ← hl.afterBreak]
    split
    · exact h
    · exact failHere

theorem onLine_bind {s : Symbol} (hs : s ∉ Symbol.starters) {x x' y y' : Reader α}
    (hyes : c.here.token ≠ .eof → σ.Agrees c d x x' S B) (hno : σ.Agrees c d y y' S B) :
    σ.Agrees c d
      (do if isSymbol s (← Reader.here).token && !(← Reader.here).afterBreak then x else y)
      (do if isSymbol s (← Reader.here).token && !(← Reader.here).afterBreak then x' else y') S B := by
  refine here_bind (fun hc hd => ?_) fun hne hl => ?_
  · refine here_bind (fun _ _ => ?_) fun hne _ => absurd (hc ▸ σ.stops) hne
    rw [hc, hd, σ.stops, isSymbol_here hs, Bool.false_and]
    exact hno
  · refine here_bind (fun hc _ => absurd (hc ▸ σ.stops) hne) fun _ _ => ?_
    rw [← hl.token, ← hl.afterBreak]
    split
    · exact hyes hne
    · exact hno

/-- What an answer is made of. -/
theorem map {f f' : α → β} (h : σ.Agrees c d r r' S B) (hS : ∀ a b, S a b → Q (f a) (f' b))
    (hB : ∀ c₁ a, B c₁ a → B' c₁ (f a)) :
    σ.Agrees c d (do return f (← r)) (do return f' (← r')) Q B' := by
  refine h.bind_open (fun a b c₁ d₁ hab => pure (hS a b hab)) fun a c₁ hc₁ hopen b c₂ hb => ?_
  cases hb
  exact ⟨hc₁, hB c₁ a hopen⟩

theorem check {x x' : Except SyntaxError α} (h : ∀ a, x = .ok a → ∃ b, x' = .ok b ∧ S a b) :
    σ.Agrees c d (liftM x) (liftM x') S Never := by
  intro hcd a c₁ ha
  cases hx : x with
  | error e => rw [hx] at ha; cases ha
  | ok a' =>
    rw [hx] at ha
    cases ha
    obtain ⟨b, hb, hab⟩ := h a hx
    exact .inl ⟨b, d, by rw [hb]; rfl, hcd, hab⟩

/-- What is read after passing over some words. Where all words are passed over, the first run must refuse. -/
theorem skipWhile_bind {skip : Token → Bool} {g g' : Unit → Reader β}
    (hend : RefusesEnd (g ()))
    (h : ∀ c₁ d₁, c₁.here.token ≠ .eof → σ.Agrees c₁ d₁ (g ()) (g' ()) Q B') :
    σ.Agrees c d (Reader.skipWhile skip >>= g) (Reader.skipWhile skip >>= g') Q B' := by
  intro hcd a c₂ ha
  have ha : g () (c.skip skip) = .ok (a, c₂) := ha
  rcases hcd.skip skip with ⟨hne, hskip⟩ | ⟨heof, -⟩
  · exact h _ _ hne hskip a c₂ ha
  · obtain ⟨e, he⟩ := hend _ heof
    rw [he] at ha
    cases ha

/-! ### Lists -/

/-- Whether there is an answer. What comes last in a list may be open, since the list has to go on. -/
def Given (_ : Cursor) (o : Option α) : Prop := o.isSome

theorem endLine {p : Token → Bool} (hp : p .eof = false) {cause : Token → SyntaxCause} {f f' : α → β}
    (h : σ.Agrees c d r r' S B) (hS : ∀ a b, S a b → Q (f a) (f' b)) :
    σ.Agrees c d (do
      let a ← r
      let l ← Reader.here
      if p l.token || l.afterBreak then return some (f a) else Reader.failHere cause) (do
      let a ← r'
      let l ← Reader.here
      if p l.token || l.afterBreak then return some (f' a) else Reader.failHere cause)
      (Option.Rel Q) Given := by
  refine h.bind_open (fun a b c₁ d₁ hab => lineEnd_bind hp (pure (.some (hS a b hab))))
    fun a c₁ hc₁ hopen o c₂ ho => ?_
  have ho : (if p c₁.here.token || c₁.here.afterBreak then Pure.pure (some (f a))
      else Reader.failHere cause : Reader (Option β)) c₁ = .ok (o, c₂) := ho
  split at ho
  · cases ho
    exact ⟨hc₁, rfl⟩
  · cases ho

variable {n m : Nat}

/-- Things one after another. At the end there must not be another thing, so that no thing but the last may be open. -/
theorem collect {item item' : Bool → Reader (Option α)}
    (h : ∀ first c d, σ.Agrees c d (item first) (item' first) (Option.Rel S) Given)
    (hend : RefusesEnd (item false)) (hnm : n ≤ m) ( first : Bool) :
    σ.Agrees c d (Reader.collect item n first) (Reader.collect item' m first) (List.Forall₂ S) Never := by
  induction n generalizing m c d first with
  | zero => exact refused ⟨_, rfl⟩
  | succ n ih =>
    obtain ⟨m, rfl⟩ : ∃ k, m = k + 1 := ⟨m - 1, by omega⟩
    have hnm : n ≤ m := by omega
    refine (h first c d).bind_open (fun o o' c₁ d₁ ho => ?_) fun o c₁ hc₁ hopen b c₂ hb => ?_
    · cases ho with
      | none => exact pure .nil
      | some hab => exact (ih hnm false).bind fun as bs c₂ d₂ hs => pure (.cons hab hs)
    · obtain ⟨a, rfl⟩ := Option.isSome_iff_exists.1 hopen
      -- no round comes after the open thing
      cases n with
      | zero => cases hb
      | succ n =>
        obtain ⟨e, he⟩ := hend c₁ hc₁
        have hb : (Reader.collect item (n + 1) false c₁ >>= fun x => Except.ok (a :: x.1, x.2)) =
            .ok (b, c₂) := hb
        rw [collect_succ, he] at hb
        cases hb

/-- Things with commas between them. -/
theorem separated {close : Symbol} (hclose : close ∉ Symbol.starters) { trailing : Bool}
    {item item' : Reader α} (h : ∀ c d, σ.Agrees c d item item' S B) (hnm : n ≤ m) :
    σ.Agrees c d (Reader.separated close trailing item n) (Reader.separated close trailing item' m)
      (List.Forall₂ S) Never := by
  have hitem (c d : Cursor) : σ.Agrees c d (do return some (← item)) (do return some (← item'))
      (Option.Rel S) Given := by
    refine (h c d).bind_open (fun a b c₁ d₁ hab => pure (.some hab)) fun a c₁ hc₁ hopen o c₂ ho => ?_
    cases ho
    exact ⟨hc₁, rfl⟩
  refine collect (fun first c d => ?_) ?_ hnm true
  · refine isAt_bind hclose (fun _ _ => pure .none) fun _ => ?_
    dsimp only [Bool.false_eq_true, if_false]
    cases first with
    | true => exact hitem c d
    | false =>
      refine (expect .comma).bind fun _ _ c₁ d₁ _ => ?_
      cases trailing with
      | false => exact hitem c₁ d₁
      | true => exact isAt_bind hclose (fun _ _ => pure .none) fun _ => hitem c₁ d₁
  · refine .isAt_bind ?_
    exact (RefusesEnd.expect .comma).bind

/-- Things on lines of their own. -/
theorem lines {close : Symbol} (hclose : close ∉ Symbol.starters) {item item' : Reader α}
    (h : ∀ c d, σ.Agrees c d item item' S B) (hend : RefusesEnd item) (hnm : n ≤ m) :
    σ.Agrees c d (Reader.lines close item n) (Reader.lines close item' m) (List.Forall₂ S) Never := by
  refine collect (fun first c d => ?_) (.skipWhile_bind rfl (.isAt_bind hend.bind)) hnm true
  refine skipWhile_bind (.isAt_bind hend.bind) fun c₁ d₁ _ => ?_
  refine isAt_bind hclose (fun _ _ => pure .none) fun _ => ?_
  exact endLine (p := fun t => isSymbol .comma t || isSymbol close t) rfl (h c₁ d₁) fun _ _ h => h

end Agrees

end Seam

end DispatchLang
