import DispatchLang.Proofs.Grammar.Machine
import DispatchLang.Proofs.Grammar.Seam
import Mathlib.Data.List.GetD

/-!
# Machines that follow readers

A machine follows a reader from a state and a cursor that stand at the same lexeme if, run from there, the two come to
the same: both accept with the same answer and stand at the same lexeme again, or both refuse for the same
reason, which is not that the rounds ran out. In either case the flags of the machine are those from before, and it
has not gone past the end of the text.

What is known of the answer and of the position where a machine accepts is carried along as a postcondition, so
that the progress of a call is available to the calls after it: the rounds that are left are always more than the
words that are left.

## Main definitions

* `Text`: the lexemes of a text, of which the last one is the end and no other one is.
* `Text.Follows`: whether a machine follows a reader.

## Main results

* `Text.Follows.bind`: machines one after the other follow readers one after the other.
* `Text.Follows.collect`: a list is read to its end if no round but the last one stands still.
-/

namespace DispatchLang

open Machine (Flags State)
open Reader (isSymbol isKeyword isName)

/-- The lexemes of a text: words, and the end. -/
structure Text where
  /-- The words. -/
  words : List Lexeme
  /-- The end. -/
  stop : Lexeme
  /-- No word is the end. -/
  word : ∀ l ∈ words, l.token ≠ .eof
  /-- The end is the end. -/
  stops : stop.token = .eof

namespace Text

def lexemes (text : Text) : List Lexeme := text.words ++ [text.stop]

variable (text : Text)

theorem length_lexemes : text.lexemes.length = text.words.length + 1 := by
  rw [lexemes, List.length_append, List.length_singleton]

/-- Whether a cursor stands at a position of a text. -/
structure StandsAt (c : Cursor) (i : Nat) : Prop where
  /-- From there on the lexemes are the same. -/
  rest : text.lexemes.drop i = c.here :: c.ahead
  /-- The lexeme taken last is the one before. -/
  last : c.last = Machine.spanBefore text.lexemes i

variable {text} {α β : Type} {c : Cursor} {i : Nat} {s : State}

namespace StandsAt

theorem start : text.StandsAt (.start text.lexemes) 0 := by
  obtain ⟨words, stop, word, stops⟩ := text
  cases words <;> exact ⟨rfl, rfl⟩

/-- A cursor never stands past the end. -/
theorem le (h : text.StandsAt c i) : i ≤ text.words.length := by
  have hlength := congrArg List.length h.rest
  rw [List.length_drop, text.length_lexemes, List.length_cons] at hlength
  omega

theorem length_ahead (h : text.StandsAt c i) : i + c.ahead.length = text.words.length := by
  have hlength := congrArg List.length h.rest
  rw [List.length_drop, text.length_lexemes, List.length_cons] at hlength
  omega

theorem getD (h : text.StandsAt c i) (k : Nat) :
    text.lexemes.getD (i + k) Cursor.nothing = (c.here :: c.ahead).getD k Cursor.nothing := by
  rw [← h.rest, List.getD_eq_getElem?_getD, List.getD_eq_getElem?_getD, List.getElem?_drop]

/-- Only the last lexeme is the end. -/
theorem eof_iff (h : text.StandsAt c i) : c.here.token = .eof ↔ i = text.words.length := by
  have hget := h.getD 0
  rw [Nat.add_zero, List.getD_cons_zero, lexemes] at hget
  constructor
  · intro hc
    by_contra hi
    have hlt : i < text.words.length := lt_of_le_of_ne h.le hi
    rw [List.getD_append _ _ _ _ hlt, List.getD_eq_getElem _ _ hlt] at hget
    exact text.word _ (List.getElem_mem hlt) (hget ▸ hc)
  · rintro rfl
    rw [List.getD_append_right _ _ _ _ le_rfl, Nat.sub_self, List.getD_cons_zero] at hget
    rw [← hget]
    exact text.stops

theorem lt (h : text.StandsAt c i) (hne : c.here.token ≠ .eof) : i < text.words.length :=
  lt_of_le_of_ne h.le fun hi => hne (h.eof_iff.2 hi)

theorem next (h : text.StandsAt c i) (hne : c.here.token ≠ .eof) : text.StandsAt c.next (i + 1) := by
  have hlast : c.here = text.lexemes.getD i Cursor.nothing := (h.getD 0).symm
  have hahead := h.length_ahead
  have hlt := h.lt hne
  have hrest : text.lexemes.drop (i + 1) = c.ahead := by
    rw [← List.drop_drop, h.rest]
    rfl
  obtain ⟨last, here, ahead⟩ := c
  cases ahead with
  | nil =>
    rw [List.length_nil] at hahead
    omega
  | cons l ls => exact ⟨hrest, congrArg Lexeme.span hlast⟩

end StandsAt

/-- Past the end there is no symbol. -/
theorem isSymbol_getD_one (c : Cursor) (symbol : Symbol) :
    isSymbol symbol ((c.here :: c.ahead).getD 1 Cursor.nothing).token =
      c.ahead.head?.any (isSymbol symbol ·.token) := by
  cases c.ahead <;> rfl

/-! ## Outcomes -/

/-- Whether a reader and a machine that was run from the state `s` come to the same. -/
inductive Outcome (text : Text) (s : State) (Q : α → Nat → Prop) :
    Except SyntaxError (α × Cursor) → Option (Except SyntaxError α × State) → Prop
  /-- Both accept. -/
  | accepted {a : α} {c : Cursor} {t : State} (stands : text.StandsAt c t.position) (flags : t.flags = s.flags)
    (answer : Q a t.position) : Outcome text s Q (.ok (a, c)) (some (.ok a, t))
  /-- Both refuse, and not because the reader ran out of rounds. -/
  | refused {e : SyntaxError} {t : State} (inside : t.position ≤ text.words.length) (flags : t.flags = s.flags)
    (cause : e.cause ≠ .outOfRounds) : Outcome text s Q (.error e) (some (.error e, t))

/-- Only the flags matter of the state from which a machine was run. -/
theorem Outcome.of_flags {Q : α → Nat → Prop} {t : State} {x : Except SyntaxError (α × Cursor)}
    {y : Option (Except SyntaxError α × State)} (h : text.Outcome t Q x y) (hflags : t.flags = s.flags) :
    text.Outcome s Q x y := by
  cases h with
  | accepted stands flags answer => exact .accepted stands (flags.trans hflags) answer
  | refused inside flags cause => exact .refused inside (flags.trans hflags) cause

def Follows (text : Text) (s : State) (c : Cursor) (p : Machine α) (r : Reader α) (Q : α → Nat → Prop) : Prop :=
  text.StandsAt c s.position → text.Outcome s Q (r c) (p text.lexemes s)

/-- Whether a call has taken something. -/
def Beyond (i : Nat) (_ : α) (j : Nat) : Prop := i < j

/-- Whether a call has taken something or nothing. -/
def From (i : Nat) (_ : α) (j : Nat) : Prop := i ≤ j

/-- What is known of a round of a list: where it has an answer it has taken something, and where it has none the list
ends as lists of this kind do. -/
def Round (stop : Nat → Prop) (i : Nat) (o : Option α) (j : Nat) : Prop :=
  match o with
  | none => i ≤ j ∧ stop j
  | some _ => i < j

/-- How most lists end: anywhere. -/
def Anywhere (_ : Nat) : Prop := True

namespace Follows

variable {p : Machine α} {r : Reader α} {Q Q' : α → Nat → Prop} {f : α → Machine β} {g : α → Reader β}
  {R : β → Nat → Prop}

theorem pure {a : α} (h : Q a s.position) : text.Follows s c (Pure.pure a) (Pure.pure a) Q :=
  fun hc => .accepted hc rfl h

theorem fail {cause : SyntaxCause} {span : Span} (hcause : cause ≠ .outOfRounds) :
    text.Follows s c (Machine.fail cause span : Machine α) (Reader.fail cause span) Q :=
  fun hc => .refused hc.le rfl hcause

theorem of_stands (h : text.StandsAt c s.position → text.Follows s c p r Q) : text.Follows s c p r Q :=
  fun hc => h hc hc

theorem mono (h : text.Follows s c p r Q) (hQ : ∀ a i, Q a i → Q' a i) : text.Follows s c p r Q' := by
  intro hc
  have h := h hc
  generalize r c = x at h ⊢
  generalize p text.lexemes s = y at h ⊢
  cases h with
  | accepted stands flags answer => exact .accepted stands flags (hQ _ _ answer)
  | refused inside flags cause => exact .refused inside flags cause

/-- A machine after another one follows a reader after another one. -/
theorem bind (h : text.Follows s c p r Q)
    (hf : ∀ a t c', t.flags = s.flags → Q a t.position → text.Follows t c' (f a) (g a) R) :
    text.Follows s c (p >>= f) (r >>= g) R := by
  intro hc
  change text.Outcome s R (r c >>= fun x => g x.1 x.2) ((p >>= f) text.lexemes s)
  dsimp only [Bind.bind]
  have h := h hc
  generalize r c = x at h ⊢
  generalize p text.lexemes s = y at h ⊢
  cases h with
  | refused inside flags cause => exact .refused inside flags cause
  | @accepted a c' t stands flags answer => exact (hf a t c' flags answer stands).of_flags flags

/-- What an answer is made of. -/
theorem map {f : α → β} (h : text.Follows s c p r Q) (hQ : ∀ a i, Q a i → R (f a) i) :
    text.Follows s c (do return f (← p)) (do return f (← r)) R :=
  h.bind fun a t _ _ ha => pure (hQ a t.position ha)

/-! ### Steps -/

theorem here_bind {f : Lexeme → Machine β} {g : Lexeme → Reader β}
    (h : text.Follows s c (f c.here) (g c.here) R) :
    text.Follows s c (Machine.here >>= f) (Reader.here >>= g) R := by
  intro hc
  have hhere := hc.getD 0
  rw [List.getD_cons_zero] at hhere
  show text.Outcome s R (g c.here c) (f (text.lexemes.getD (s.position + 0) Cursor.nothing) text.lexemes s)
  rw [hhere]
  exact h hc

/-- The cursor is known where it is asked for. -/
theorem get_bind {g : Cursor → Reader α} (h : text.Follows s c p (g c) Q) : text.Follows s c p (get >>= g) Q := h

theorem flags_bind {f : Flags → Machine β} {r : Reader β} (h : text.Follows s c (f s.flags) r R) :
    text.Follows s c (Machine.flags >>= f) r R := h

/-- What is shown ahead is what the cursor has ahead, and past the end an end that is not there. -/
theorem peek_bind (k : Nat) {f : Lexeme → Machine β} {r : Reader β}
    (h : text.Follows s c (f ((c.here :: c.ahead).getD k Cursor.nothing)) r R) :
    text.Follows s c (Machine.peek k >>= f) r R := by
  intro hc
  show text.Outcome s R (r c) (f (text.lexemes.getD (s.position + k) Cursor.nothing) text.lexemes s)
  rw [hc.getD]
  exact h hc

theorem take_bind {f : Lexeme → Machine β} {g : Lexeme → Reader β} (hne : c.here.token ≠ .eof)
    (h : text.Follows ⟨s.position + 1, s.flags⟩ c.next (f c.here) (g c.here) R) :
    text.Follows s c (Machine.take >>= f) (Reader.take >>= g) R := by
  intro hc
  have hhere := hc.getD 0
  rw [List.getD_cons_zero, Nat.add_zero] at hhere
  show text.Outcome s R (g c.here c.next) (f (text.lexemes.getD s.position Cursor.nothing) text.lexemes
    (if s.position < text.lexemes.length then { s with position := s.position + 1 } else s))
  rw [hhere, if_pos (by rw [text.length_lexemes]; exact Nat.lt_succ_of_le hc.le)]
  exact (h (hc.next hne)).of_flags rfl

theorem failHere {cause : Token → SyntaxCause} (hcause : ∀ token, cause token ≠ .outOfRounds) :
    text.Follows s c (Machine.failHere cause : Machine α) (Reader.failHere cause) Q := here_bind (fail (hcause _))

theorem isAt_bind {symbol : Symbol} {f : Bool → Machine β} {g : Bool → Reader β}
    (hyes : isSymbol symbol c.here.token = true → text.Follows s c (f true) (g true) R)
    (hno : isSymbol symbol c.here.token = false → text.Follows s c (f false) (g false) R) :
    text.Follows s c (Machine.isAt symbol >>= f) (Reader.isAt symbol >>= g) R := by
  have h : text.Follows s c (f (isSymbol symbol c.here.token)) (g (isSymbol symbol c.here.token)) R := by
    cases hs : isSymbol symbol c.here.token with
    | true => exact hyes hs
    | false => exact hno hs
  exact here_bind (f := fun l => f (isSymbol symbol l.token)) (g := fun l => g (isSymbol symbol l.token)) h

theorem atEnd_bind {f : Bool → Machine β} {g : Bool → Reader β}
    (hyes : c.here.token = .eof → text.Follows s c (f true) (g true) R)
    (hno : c.here.token ≠ .eof → text.Follows s c (f false) (g false) R) :
    text.Follows s c (Machine.atEnd >>= f) (Reader.atEnd >>= g) R := by
  have h : text.Follows s c (f c.here.token.isEnd) (g c.here.token.isEnd) R := by
    by_cases h : c.here.token = .eof
    · rw [h]
      exact hyes h
    · rw [Token.isEnd_eq_false h]
      exact hno h
  exact here_bind (f := fun l => f l.token.isEnd) (g := fun l => g l.token.isEnd) h

/-- The next lexeme is taken if its token passes a test that the end does not pass, and is refused otherwise. -/
theorem require {t : Token → Bool} {cause : Token → SyntaxCause} (htest : t .eof = false)
    (hcause : ∀ token, cause token ≠ .outOfRounds) {f : Lexeme → α} :
    text.Follows s c (do if t (← Machine.here).token then return f (← Machine.take) else Machine.failHere cause)
      (do if t (← Reader.here).token then return f (← Reader.take) else Reader.failHere cause)
      (Beyond s.position) := by
  refine here_bind ?_
  split
  · next h =>
    refine take_bind (fun hc => ?_) (pure (Nat.lt_succ_self _))
    rw [hc, htest] at h
    cases h
  · exact failHere hcause

theorem expect (symbol : Symbol) :
    text.Follows s c (Machine.expect symbol) (Reader.expect symbol) (Beyond s.position) :=
  require (t := isSymbol symbol) (f := Lexeme.span) rfl fun _ => SyntaxCause.noConfusion

theorem expectWord (word : Keyword) :
    text.Follows s c (Machine.expectWord word) (Reader.expectWord word) (Beyond s.position) :=
  require (t := isKeyword word) (f := Lexeme.span) rfl fun _ => SyntaxCause.noConfusion

theorem name : text.Follows s c Machine.name Reader.name (Beyond s.position) := by
  refine here_bind ?_
  obtain ⟨last, ⟨token, span, afterBreak, touches⟩, ahead⟩ := c
  cases token with
  | ident _ => exact take_bind Token.noConfusion (pure (Nat.lt_succ_self s.position))
  | _ => exact failHere nofun

theorem accept (symbol : Symbol) : text.Follows s c (Machine.accept symbol) (Reader.accept symbol)
    fun b i => s.position ≤ i ∧ (b = true → s.position < i) := by
  refine isAt_bind (fun h => ?_) fun _ => pure ⟨le_rfl, nofun⟩
  exact take_bind (Reader.Reads.ne_eof_of_isSymbol h) (pure ⟨Nat.le_succ _, fun _ => Nat.lt_succ_self _⟩)

theorem onLine_bind {symbol : Symbol} {p q : Machine α} {r r' : Reader α}
    (hyes : c.here.token ≠ .eof → text.Follows s c p r Q) (hno : text.Follows s c q r' Q) :
    text.Follows s c
      (do if isSymbol symbol (← Machine.here).token && !(← Machine.here).afterBreak then p else q)
      (do if isSymbol symbol (← Reader.here).token && !(← Reader.here).afterBreak then r else r') Q := by
  refine here_bind (here_bind ?_)
  split
  · next h => exact hyes (Reader.Reads.ne_eof_of_isSymbol (Bool.and_eq_true_iff.1 h).1)
  · exact hno

theorem lineEnd_bind {t : Token → Bool} {cause : Token → SyntaxCause} (hcause : ∀ token, cause token ≠ .outOfRounds)
    (h : text.Follows s c p r Q) :
    text.Follows s c (do
      let l ← Machine.here
      if t l.token || l.afterBreak then p else Machine.failHere cause) (do
      let l ← Reader.here
      if t l.token || l.afterBreak then r else Reader.failHere cause) Q := by
  refine here_bind ?_
  split
  · exact h
  · exact failHere hcause

theorem check {x : Except SyntaxError α} (h : ∀ a, Q a s.position)
    (hx : ∀ e, x = .error e → e.cause ≠ .outOfRounds) : text.Follows s c (Machine.ofExcept x) (liftM x) Q := by
  intro hc
  cases x with
  | ok a => exact .accepted hc rfl (h a)
  | error e => exact .refused hc.le rfl (hx e rfl)

/-- What passes over words stops where the readers stop, if there are rounds enough. -/
theorem skipWhile {test : Token → Bool} (htest : test .eof = false) {n : Nat}
    (hn : text.words.length < s.position + n) :
    text.Follows s c (Machine.skipWhile test n) (Reader.skipWhile test) (From s.position) := by
  induction n generalizing s c with
  | zero => exact of_stands fun hc => absurd hc.le (by omega)
  | succ n ih =>
    intro hc
    have hhere := hc.getD 0
    rw [List.getD_cons_zero] at hhere
    show text.Outcome s _ (.ok ((), c.skip test)) ((if test (text.lexemes.getD (s.position + 0) _).token = true
      then Machine.take >>= fun _ => Machine.skipWhile test n else Pure.pure ()) text.lexemes s)
    rw [hhere]
    split
    · next h =>
      have hne : c.here.token ≠ .eof := by
        intro heof
        rw [heof, htest] at h
        cases h
      rw [← c.skip_next h]
      have hrest : text.Follows s c (Machine.take >>= fun _ => Machine.skipWhile test n)
          (Reader.take >>= fun _ => Reader.skipWhile test) (From s.position) := by
        refine take_bind hne ((ih (by dsimp only; omega)).mono fun _ i hi => ?_)
        exact Nat.le_of_succ_le hi
      exact hrest hc
    · next h =>
      rw [c.skip_eq (eq_false_of_ne_true h)]
      exact .accepted hc rfl le_rfl

/-- A call that is tried. Where it is refused the position is set back. -/
theorem attempt (h : text.Follows s c p r Q) (hQ : ∀ a i, Q a i → s.position ≤ i) :
    text.Follows s c (Machine.attempt p) (Reader.attempt r)
      fun o i => s.position ≤ i ∧ ∀ a ∈ o, Q a i := by
  intro hc
  have h := h hc
  unfold Machine.attempt Reader.attempt
  generalize r c = x at h ⊢
  generalize p text.lexemes s = y at h ⊢
  cases h with
  | accepted stands flags answer =>
    refine .accepted stands flags ⟨hQ _ _ answer, ?_⟩
    rintro a ⟨⟩
    exact answer
  | refused inside flags _ => exact .accepted hc flags ⟨le_rfl, nofun⟩

/-- A call with other flags. -/
theorem within {flags : Flags} (h : text.Follows ⟨s.position, flags⟩ c p r Q) :
    text.Follows s c (Machine.within flags p) r Q := by
  intro hc
  have h := h hc
  unfold Machine.within
  generalize r c = x at h ⊢
  generalize p text.lexemes { s with flags := flags } = y at h ⊢
  cases h with
  | accepted stands _ answer => exact .accepted stands rfl answer
  | refused inside _ cause => exact .refused inside rfl cause

/-! ### Lists -/

/-- Things one after another, where every round but the last one takes something. -/
theorem collect {item : Bool → Machine (Option α)} {item' : Bool → Reader (Option α)} {stop : Nat → Prop} {n m : Nat}
    (hitem : ∀ first t c, s.position ≤ t.position →
      text.Follows t c (item first) (item' first) (Round stop t.position))
    (hn : text.words.length < s.position + n) (hm : text.words.length < s.position + m) ( first : Bool) :
    text.Follows s c (Machine.collect item n first) (Reader.collect item' m first)
      fun _ i => s.position ≤ i ∧ stop i := by
  refine of_stands fun hc => ?_
  have hle := hc.le
  clear hc
  induction n generalizing m s c first with
  | zero => omega
  | succ n ih =>
    obtain ⟨m, rfl⟩ : ∃ k, m = k + 1 := ⟨m - 1, by omega⟩
    refine (hitem first s c le_rfl).bind fun o t c' _ ho => ?_
    cases o with
    | none => exact pure ho
    | some a =>
      have ht : s.position < t.position := ho
      have hrest : text.Follows t c' (Machine.collect item n false) (Reader.collect item' m false)
          fun _ i => t.position ≤ i ∧ stop i :=
        of_stands fun hc => ih (fun first t' c ht' => hitem first t' c (by omega)) (by omega) (by omega) false hc.le
      exact hrest.map fun as i hi => ⟨Nat.le_trans (Nat.le_of_lt ht) hi.1, hi.2⟩

/-- A list that may end anywhere. -/
theorem rounds {item : Bool → Machine (Option α)} {item' : Bool → Reader (Option α)} {n m : Nat}
    (hitem : ∀ first t c, s.position ≤ t.position →
      text.Follows t c (item first) (item' first) (Round Anywhere t.position))
    (hn : text.words.length < s.position + n) (hm : text.words.length < s.position + m) :
    text.Follows s c (Machine.collect item n true) (Reader.collect item' m true) (From s.position) :=
  (collect hitem hn hm true).mono fun _ _ h => h.1

end Follows

end Text

end DispatchLang
