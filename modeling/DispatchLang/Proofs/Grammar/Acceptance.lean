import DispatchLang.Grammar.Expression
import DispatchLang.Proofs.Grammar.Scanning

/-!
# What readers accept

`Reader.Accepts r ws ws' P` says that the reader `r`, on a cursor before the words `ws`, accepts, stops
before the words `ws'`, and answers something that satisfies `P`. There is one rule for each step a reader is
made of; a reader that is put together of such steps is followed by putting the rules together.

## Main results

* `Accepts.bind`: readers one after another.
* `Accepts.collect_items`, and from it `Accepts.separated` and `Accepts.lines`: things with commas between them.
-/

namespace DispatchLang

/-! ## Cursors before words -/

/-- Whether a cursor stands before the given words and the end of the text. -/
def Cursor.On (c : Cursor) (ws : List Word) : Prop := Lexeme.Are (c.here :: c.ahead) ws

/-- The token of the first word, or the end of the text. -/
def headToken : List Word → Token
  | [] => .eof
  | w :: _ => w.token

namespace Cursor.On

variable {c : Cursor} {w : Word} {ws : List Word}

theorem token (h : c.On ws) : c.here.token = headToken ws := by
  obtain ⟨last, l, ls⟩ := c
  cases h with
  | eof token => exact token
  | word here ahead => exact here.token

theorem here (h : c.On (w :: ws)) : c.here.Is w := by
  obtain ⟨last, l, ls⟩ := c
  cases h with
  | word here ahead => exact here

theorem ahead (h : c.On (w :: ws)) : Lexeme.Are c.ahead ws := by
  obtain ⟨last, l, ls⟩ := c
  cases h with
  | word here ahead => exact ahead

theorem next (h : c.On (w :: ws)) : c.next.On ws := by
  have ha := h.ahead
  unfold Cursor.next
  cases hc : c.ahead with
  | nil => rw [hc] at ha; cases ha
  | cons l ls => rw [hc] at ha; exact ha

end Cursor.On

/-- The first of the lexemes is the first of the words. -/
theorem Lexeme.Are.head_token {ls : List Lexeme} {ws : List Word} (h : Lexeme.Are ls ws) :
    ∃ l ls', ls = l :: ls' ∧ l.token = headToken ws := by
  cases h with
  | eof token => exact ⟨_, _, rfl, token⟩
  | word here ahead => exact ⟨_, _, rfl, here.token⟩

/-- No word but the openers begins a phrase that begins like a tree. -/
theorem Phrase.Opens.not_symbol {p : Phrase} (h : p.Opens) {s : Symbol} (lead : Lead) (ws : List Word)
    (hs : s ∉ Symbol.openers) : Reader.isSymbol s (headToken (p lead ++ ws)) = false := by
  obtain ⟨w, vs, hp, -, hw⟩ := h.head lead
  rw [hp]
  show Reader.isSymbol s w.token = false
  cases hw with
  | int | float | string => rfl
  | name =>
    simp only [Word.name, Token.ofWord]
    split <;> rfl
  | symbol opening => exact decide_eq_false fun he => hs (he ▸ opening)

/-! ## Acceptance -/

namespace Reader

variable {α β : Type}

/-- Whether a reader accepts the words `ws` down to `ws'` and answers something that satisfies `P`. -/
def Accepts (r : Reader α) (ws ws' : List Word) (P : α → Prop) : Prop :=
  ∀ c : Cursor, c.On ws → ∃ a c', r c = .ok (a, c') ∧ c'.On ws' ∧ P a

def Refuses (r : Reader α) (ws : List Word) : Prop :=
  ∀ c : Cursor, c.On ws → ∃ e, r c = .error e

namespace Accepts

variable {r : Reader α} {f : α → Reader β} {ws ws₁ ws' : List Word} {w : Word} {P : α → Prop}
  {Q : β → Prop}

theorem pure {a : α} (h : P a) : Accepts (Pure.pure a) ws ws P := fun c hc => ⟨a, c, rfl, hc, h⟩

theorem bind (hr : Accepts r ws ws₁ P) (hf : ∀ a, P a → Accepts (f a) ws₁ ws' Q) :
    Accepts (r >>= f) ws ws' Q := by
  intro c hc
  obtain ⟨a, c₁, hra, hc₁, ha⟩ := hr c hc
  obtain ⟨b, c', hb, hc', hq⟩ := hf a ha c₁ hc₁
  refine ⟨b, c', ?_, hc', hq⟩
  show (r c >>= fun p => f p.1 p.2) = _
  rw [hra]
  exact hb

theorem mono {P' : α → Prop} (hr : Accepts r ws ws' P) (h : ∀ a, P a → P' a) :
    Accepts r ws ws' P' := by
  intro c hc
  obtain ⟨a, c', hra, hc', ha⟩ := hr c hc
  exact ⟨a, c', hra, hc', h a ha⟩

theorem get : Accepts (MonadState.get : Reader Cursor) ws ws (·.On ws) :=
  fun c hc => ⟨c, c, rfl, hc, hc⟩

theorem here : Accepts Reader.here (w :: ws) (w :: ws) (·.Is w) :=
  fun c hc => ⟨c.here, c, rfl, hc, hc.here⟩

theorem here_token : Accepts Reader.here ws ws (·.token = headToken ws) :=
  fun c hc => ⟨c.here, c, rfl, hc, hc.token⟩

theorem take : Accepts Reader.take (w :: ws) ws (·.Is w) :=
  fun c hc => ⟨c.here, c.next, rfl, hc.next, hc.here⟩

theorem isAt (s : Symbol) : Accepts (Reader.isAt s) ws ws (· = isSymbol s (headToken ws)) :=
  here_token.bind fun l hl => pure (by rw [hl])

theorem isSymbol_headToken {lead : Lead} {s : Symbol} :
    isSymbol s (headToken (.symbol lead s :: ws)) = true := decide_eq_true rfl

theorem expect {lead : Lead} {s : Symbol} :
    Accepts (Reader.expect s) (.symbol lead s :: ws) ws fun _ => True := by
  refine (isAt s).bind fun b hb => ?_
  rw [hb, if_pos isSymbol_headToken]
  exact take.bind fun l _ => pure trivial

theorem accept_pos {lead : Lead} {s : Symbol} :
    Accepts (Reader.accept s) (.symbol lead s :: ws) ws (· = true) := by
  refine (isAt s).bind fun b hb => ?_
  rw [hb, if_pos isSymbol_headToken]
  exact take.bind fun l _ => pure rfl

theorem accept_neg {s : Symbol} (h : isSymbol s (headToken ws) = false) :
    Accepts (Reader.accept s) ws ws (· = false) := by
  refine (isAt s).bind fun b hb => ?_
  rw [hb, h]
  exact pure rfl

theorem expectWord {k : Keyword} (h : w.token = .keyword k) : Accepts (Reader.expectWord k) (w :: ws) ws fun _ => True := by
  refine here.bind fun l hl => ?_
  rw [hl.token, h, isKeyword, decide_eq_true rfl, if_pos rfl]
  exact take.bind fun _ _ => pure trivial

theorem name_of_token {text : String} (h : w.token = .ident text) :
    Accepts Reader.name (w :: ws) ws (·.val = text) := by
  refine here.bind fun l hl => ?_
  rw [hl.token, h]
  exact take.bind fun _ _ => pure rfl

theorem name {lead : Lead} {text : String} (h : Printer.isName text) :
    Accepts Reader.name (.name lead text :: ws) ws (·.val = text) :=
  name_of_token (Token.ofWord_of_isName h)

theorem skipWhile {p : Token → Bool} (h : p (headToken ws) = false) :
    Accepts (Reader.skipWhile p) ws ws fun _ => True := by
  intro c hc
  refine ⟨(), c, ?_, hc, trivial⟩
  have hp : p c.here.token = false := by rw [hc.token, h]
  have hs : Cursor.skipWhile p c.last c.here c.ahead = c := by
    obtain ⟨last, l, ls⟩ := c
    cases ls with
    | nil => rfl
    | cons m ms => rw [Cursor.skipWhile, if_neg (by simp [hp])]
  show Except.ok ((), Cursor.skipWhile p c.last c.here c.ahead) = _
  rw [hs]

theorem skipWhile_cons {p : Token → Bool} {Q : Unit → Prop} (hp : p w.token = true)
    (h : Accepts (Reader.skipWhile p) ws ws' Q) : Accepts (Reader.skipWhile p) (w :: ws) ws' Q := by
  intro c hc
  have hnext : Reader.skipWhile p c = Reader.skipWhile p c.next := by
    obtain ⟨l, ls, hls, -⟩ := hc.ahead.head_token
    obtain ⟨last, l', ls'⟩ := c
    obtain rfl := hls
    show Except.ok ((), Cursor.skipWhile p last l' (l :: ls)) = _
    rw [Cursor.skipWhile, hc.here.token, hp]
    rfl
  rw [hnext]
  exact h _ hc.next

theorem attempt (h : Accepts r ws ws' P) :
    Accepts (Reader.attempt r) ws ws' fun o => ∃ a, o = some a ∧ P a := by
  intro c hc
  obtain ⟨a, c', hra, hc', ha⟩ := h c hc
  refine ⟨some a, c', ?_, hc', a, rfl, ha⟩
  rw [Reader.attempt, hra]

theorem attempt_refused (h : Refuses r ws) : Accepts (Reader.attempt r) ws ws (· = none) := by
  intro c hc
  obtain ⟨e, he⟩ := h c hc
  refine ⟨none, c, ?_, hc, rfl⟩
  rw [Reader.attempt, he]

/-! ### Lists -/

section

variable {item : Bool → Reader (Option α)} {n : Nat} { first : Bool} {R : List α → Prop}

theorem collect_nil (hi : Accepts (item first) ws ws' (· = none)) (h : R []) :
    Accepts (collect item (n + 1) first) ws ws' R := by
  refine hi.bind fun o ho => ?_
  rw [ho]
  exact pure h

theorem collect_cons (hi : Accepts (item first) ws ws₁ fun o => ∃ a, o = some a ∧ P a)
    (h : ∀ a, P a → Accepts (collect item n false) ws₁ ws' fun as => R (a :: as)) :
    Accepts (collect item (n + 1) first) ws ws' R := by
  refine hi.bind fun o ho => ?_
  obtain ⟨a, rfl, ha⟩ := ho
  exact (h a ha).bind fun as has => pure has

end

/-! ### Things with commas between them -/

def EndsItem (close : Symbol) (ws : List Word) : Prop :=
  ∃ lead s ws', (s = .comma ∨ s = close) ∧ ws = .symbol lead s :: ws'

theorem endsItem_tail (close : Symbol) (later last : Lead) (ps : List Phrase) (ws : List Word) :
    EndsItem close (Phrase.tail Phrase.comma later ps ++ .symbol last close :: ws) := by
  cases ps with
  | nil => exact ⟨_, _, _, .inr rfl, rfl⟩
  | cons p ps => exact ⟨_, _, _, .inl rfl, rfl⟩

section

variable {ι γ : Type} {close : Symbol} {later last : Lead} {g : ι → Phrase} {f : ι → γ} {e : α → γ} {xs : List ι}
  {k rounds : Nat} {collected : Bool → Reader (Option α)}

theorem collect_later
    (hstop : Accepts (collected false) (.symbol last close :: ws) (.symbol last close :: ws) (· = none))
    (hlater : ∀ x ∈ xs, ∀ vs, EndsItem close vs → (g x later ++ vs).length ≤ k →
      Accepts (collected false) (.symbol .tight .comma :: (g x later ++ vs)) vs fun o => ∃ a, o = some a ∧ e a = f x)
    (hk : (Phrase.tail Phrase.comma later (xs.map g) ++ .symbol last close :: ws).length ≤ k)
    (hr : (Phrase.tail Phrase.comma later (xs.map g) ++ .symbol last close :: ws).length < rounds) :
    Accepts (collect collected rounds false) (Phrase.tail Phrase.comma later (xs.map g) ++ .symbol last close :: ws)
      (.symbol last close :: ws) fun as => as.map e = xs.map f := by
  obtain ⟨rounds, rfl⟩ : ∃ r, rounds = r + 1 := ⟨rounds - 1, by omega⟩
  induction xs generalizing rounds with
  | nil => exact collect_nil hstop rfl
  | cons x xs ih =>
    obtain ⟨hx, hxs⟩ := List.forall_mem_cons.1 hlater
    rw [List.map_cons, Phrase.tail_comma_cons, List.cons_append, List.append_assoc] at hk hr ⊢
    rw [List.length_cons] at hk hr
    refine collect_cons (hx _ (endsItem_tail close later last _ ws) (by omega)) fun a ha => ?_
    rw [List.length_append] at hk hr
    obtain ⟨rounds, rfl⟩ : ∃ r, rounds = r + 1 := ⟨rounds - 1, by omega⟩
    refine (ih hxs (by omega) rounds (by omega)).mono fun as has => ?_
    rw [List.map_cons, List.map_cons, ha, has]

theorem collect_items (hstop : ∀ first, Accepts (collected first) (.symbol last close :: ws) (.symbol last close :: ws)
      (· = none))
    (hfirst : ∀ x ∈ xs, ∀ lead vs, EndsItem close vs → (g x lead ++ vs).length ≤ k →
      Accepts (collected true) (g x lead ++ vs) vs fun o => ∃ a, o = some a ∧ e a = f x)
    (hlater : ∀ x ∈ xs, ∀ vs, EndsItem close vs → (g x later ++ vs).length ≤ k →
      Accepts (collected false) (.symbol .tight .comma :: (g x later ++ vs)) vs fun o => ∃ a, o = some a ∧ e a = f x)
    (hpos : ∀ x ∈ xs, ∀ lead, 0 < (g x lead).length) (lead : Lead)
    (hk : (Phrase.commas later (xs.map g) lead ++ .symbol last close :: ws).length ≤ k) (hr : k < rounds) :
    Accepts (collect collected rounds true) (Phrase.commas later (xs.map g) lead ++ .symbol last close :: ws)
      (.symbol last close :: ws) fun as => as.map e = xs.map f := by
  obtain ⟨rounds, rfl⟩ : ∃ r, rounds = r + 1 := ⟨rounds - 1, by omega⟩
  cases xs with
  | nil => exact collect_nil (hstop true) rfl
  | cons x xs =>
    have hx := hpos x List.mem_cons_self lead
    rw [List.map_cons, Phrase.commas, Phrase.joined, List.append_assoc] at hk ⊢
    refine collect_cons (hfirst x List.mem_cons_self lead _ (endsItem_tail close later last _ ws) hk) fun a ha => ?_
    rw [List.length_append] at hk
    refine (collect_later (hstop false) (List.forall_mem_cons.1 hlater).2 (by omega) (by omega)).mono fun as has => ?_
    rw [List.map_cons, List.map_cons, ha, has]

variable {item : Reader α} (hclose : close ≠ .comma ∧ close ∉ Symbol.openers)
  (ho : ∀ x ∈ xs, (g x).Opens)
  (hitem : ∀ x ∈ xs, ∀ lead vs, EndsItem close vs → (g x lead ++ vs).length ≤ k →
    Accepts item (g x lead ++ vs) vs fun a => e a = f x)
  (lead : Lead) (hk : (Phrase.commas later (xs.map g) lead ++ .symbol last close :: ws).length ≤ k) (hr : k < rounds)
include hclose ho hitem hk hr

/-- Things with commas between them, up to the symbol that ends the list. -/
theorem separated ( trailing : Bool) :
    Accepts (Reader.separated close trailing item rounds)
      (Phrase.commas later (xs.map g) lead ++ .symbol last close :: ws) (.symbol last close :: ws)
      fun as => as.map e = xs.map f := by
  refine collect_items (fun first => ?_) (fun x hx lead vs hvs hlen => ?_) (fun x hx vs hvs hlen => ?_)
    (fun x hx lead => (ho x hx).length_pos lead) lead hk hr
  · refine (isAt _).bind fun b hb => ?_
    rw [hb, if_pos isSymbol_headToken]
    exact pure rfl
  · refine (isAt _).bind fun b hb => ?_
    rw [hb, (ho x hx).not_symbol _ _ hclose.2]
    exact (hitem x hx lead vs hvs hlen).bind fun a ha => pure ⟨a, rfl, ha⟩
  · refine (isAt _).bind fun b hb => ?_
    rw [hb, show isSymbol close (headToken (.symbol .tight .comma :: (g x later ++ vs))) = false from
      decide_eq_false hclose.1.symm]
    refine expect.bind fun _ _ => (isAt _).bind fun b hb => ?_
    rw [hb, (ho x hx).not_symbol _ _ hclose.2, Bool.and_false]
    exact (hitem x hx later vs hvs hlen).bind fun a ha => pure ⟨a, rfl, ha⟩

/-- Things on lines of their own or with commas between them, up to the symbol that ends the list. -/
theorem lines :
    Accepts (Reader.lines close item rounds)
      (Phrase.commas later (xs.map g) lead ++ .symbol last close :: ws) (.symbol last close :: ws)
      fun as => as.map e = xs.map f := by
  have hcomma : isSymbol .comma (.symbol close) = false := decide_eq_false hclose.1
  have hround : ∀ x ∈ xs, ∀ lead vs, EndsItem close vs → (g x lead ++ vs).length ≤ k →
      Accepts (do
        if ← Reader.isAt close then return none
        let a ← item
        let l ← Reader.here
        if isSymbol .comma l.token || isSymbol close l.token || l.afterBreak then return some a
        else failHere (.expectedCommaOr close)) (g x lead ++ vs) vs fun o => ∃ a, o = some a ∧ e a = f x := by
    intro x hx lead vs hvs hlen
    refine (isAt _).bind fun b hb => ?_
    rw [hb, (ho x hx).not_symbol _ _ hclose.2]
    refine (hitem x hx lead vs hvs hlen).bind fun a ha => ?_
    obtain ⟨l, s, vs', hs, rfl⟩ := hvs
    refine here.bind fun lex hlex => ?_
    have hend : (isSymbol .comma lex.token || isSymbol close lex.token) = true := by
      rw [hlex.token]
      obtain rfl | rfl := hs <;> simp [Word.symbol, isSymbol]
    rw [hend, Bool.true_or, if_pos rfl]
    exact pure ⟨a, rfl, ha⟩
  refine collect_items (fun first => ?_) (fun x hx lead vs hvs hlen => ?_) (fun x hx vs hvs hlen => ?_)
    (fun x hx lead => (ho x hx).length_pos lead) lead hk hr
  · refine (skipWhile hcomma).bind fun _ _ => (isAt _).bind fun b hb => ?_
    rw [hb, if_pos isSymbol_headToken]
    exact pure rfl
  · exact (skipWhile ((ho x hx).not_symbol _ _ (by decide))).bind fun _ _ => hround x hx lead vs hvs hlen
  · refine (skipWhile_cons (w := .symbol .tight .comma) rfl (skipWhile ((ho x hx).not_symbol _ _ (by decide)))).bind fun _ _ => ?_
    exact hround x hx later vs hvs hlen

end

end Accepts

/-! ## Refusal -/

namespace Refuses

variable {r : Reader α} {f : α → Reader β} {ws ws' : List Word} {P : α → Prop}

theorem bind (hr : Accepts r ws ws' P) (hf : ∀ a, P a → Refuses (f a) ws') :
    Refuses (r >>= f) ws := by
  intro c hc
  obtain ⟨a, c', hra, hc', ha⟩ := hr c hc
  obtain ⟨e, he⟩ := hf a ha c' hc'
  refine ⟨e, ?_⟩
  show (r c >>= fun p => f p.1 p.2) = _
  rw [hra]
  exact he

theorem bind_first (hr : Refuses r ws) : Refuses (r >>= f) ws := by
  intro c hc
  obtain ⟨e, he⟩ := hr c hc
  refine ⟨e, ?_⟩
  show (r c >>= fun p => f p.1 p.2) = _
  rw [he]
  rfl

theorem expect {s : Symbol} (h : isSymbol s (headToken ws) = false) :
    Refuses (Reader.expect s) ws := by
  refine bind (Accepts.isAt s) fun b hb => ?_
  rw [hb, h]
  exact fun c _ => ⟨_, rfl⟩

theorem name (h : isName (headToken ws) = false) : Refuses Reader.name ws := by
  refine bind Accepts.here_token fun l hl => ?_
  rw [hl]
  split
  · next hn => rw [hn] at h; cases h
  · exact fun c _ => ⟨_, rfl⟩

end Refuses

end Reader

end DispatchLang
