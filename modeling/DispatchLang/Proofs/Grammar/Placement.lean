import DispatchLang.Grammar.Expression
import DispatchLang.Proofs.Grammar.Places
import DispatchLang.Proofs.Node.Parts
import DispatchLang.Typing.Checker

/-!
# Where nodes stand

Fix the lexemes of a text. A span is *real* if it goes from the beginning of a word to the end of a word, and a
node is *placed* if its span is real, its children are placed inside it, one after the other, and none of
them takes up all of it. Only the words count: a parenthesis around an expression belongs to no node, so a
node may begin after the place at which it began to be read, and end before the place at which the
reader stopped.

What a reader does to spans is therefore said with an interval of the text. `Reader.Reads L c r P` says of the
reader `r` on the cursor `c` that it stops on a later lexeme with an answer that satisfies `P`, or else refuses
because of something that stands in the text. The answers of readers of nodes *lie* between the cursor before and
the cursor after, and lists of them lie there in order.

## Main definitions

* `Node.Placed`: the spans of a node and of all nodes in it are real and nested.
* `Reader.Reads`: what a reader does to a cursor, with one rule for each step a reader is made of.
-/

namespace DispatchLang

/-! ## Real spans -/

theorem Span.stop_cover_of_le {s t : Span} (h : s.stop ≤ t.stop) : (s.cover t).stop = t.stop :=
  Nat.max_eq_left h

/-- A span from the beginning of a word to the end of a word. -/
structure Span.Real (L : List Lexeme) (span : Span) : Prop where
  /-- It begins with a word. -/
  first : ∃ l ∈ L, l.token ≠ .eof ∧ span.start = l.span.start ∧ span.line = l.span.line ∧
    span.column = l.span.column
  /-- It ends with a word. -/
  last : ∃ l ∈ L, l.token ≠ .eof ∧ span.stop = l.span.stop
  /-- It is not empty. -/
  wide : span.start < span.stop

/-- A span that an error may point to: a real one, or the one of a lexeme. -/
def Span.Shown (L : List Lexeme) (span : Span) : Prop := span.Real L ∨ ∃ l ∈ L, span = l.span

/-- A real span between two offsets. -/
structure Span.Lies (L : List Lexeme) (p q : Nat) (span : Span) : Prop where
  /-- It is real. -/
  real : span.Real L
  /-- It begins at the first offset or later. -/
  after : p ≤ span.start
  /-- It ends at the second offset or before. -/
  before : span.stop ≤ q

section Spans

variable {L : List Lexeme} {s t : Span} {p p' q q' m : Nat}

theorem Span.Real.cover (hs : s.Real L) (ht : t.Real L) : (s.cover t).Real L where
  first := hs.first
  last := by
    rcases Nat.le_total s.stop t.stop with h | h
    · rw [stop_cover_of_le h]
      exact ht.last
    · rw [show (s.cover t).stop = s.stop from Nat.max_eq_right h]
      exact hs.last
  wide := hs.wide.trans_le (stop_le_stop_cover s t)

theorem Span.Lies.mono (h : s.Lies L p q) (hp : p' ≤ p) (hq : q ≤ q') : s.Lies L p' q' :=
  ⟨h.real, hp.trans h.after, h.before.trans hq⟩

theorem Span.Lies.le (h : s.Lies L p q) : p ≤ q := h.after.trans (h.real.wide.le.trans h.before)

theorem Span.Lies.cover (hs : s.Lies L p m) (ht : t.Lies L m q) : (s.cover t).Lies L p q where
  real := hs.real.cover ht.real
  after := hs.after
  before := Nat.max_le.2 ⟨ht.before, hs.before.trans ht.le⟩

end Spans

/-! ## Placed nodes -/

/-- A node whose span is real, and which has its children inside it, one after the other. -/
inductive Node.Placed (L : List Lexeme) : Node → Prop where
  /-- All of this at once. -/
  | intro {node : Node} (real : node.span.Real L) (children : ∀ child ∈ node.children, Placed L child)
    (inside : ∀ child ∈ node.children, node.span.start ≤ child.span.start ∧
      child.span.stop ≤ node.span.stop ∧ child.span.key ≠ node.span.key)
    (ordered : node.children.Pairwise fun a b => a.span.stop ≤ b.span.start) : Placed L node

/-- A placed node between two offsets. -/
structure Node.Lies (L : List Lexeme) (p q : Nat) (node : Node) : Prop where
  /-- It is placed. -/
  placed : node.Placed L
  /-- It begins at the first offset or later. -/
  after : p ≤ node.span.start
  /-- It ends at the second offset or before. -/
  before : node.span.stop ≤ q

/-- Things that are found one after the other between two offsets, where `Q p q a` says that `a` is found
between `p` and `q`. -/
inductive Along {α : Type} (Q : Nat → Nat → α → Prop) : Nat → Nat → List α → Prop where
  /-- Nothing is found. -/
  | nil {p q : Nat} (h : p ≤ q) : Along Q p q []
  /-- One thing before the others. -/
  | cons {p m q : Nat} {a : α} {as : List α} (here : Q p m a) (rest : Along Q m q as) : Along Q p q (a :: as)

namespace Along

variable {α β : Type} {Q : Nat → Nat → α → Prop} {R : Nat → Nat → β → Prop} {p m q : Nat} {as bs : List α}

theorem append (ha : Along Q p m as) (hb : Along Q m q bs)
    (hQ : ∀ {p p' q a}, p ≤ p' → Q p' q a → Q p q a) : Along Q p q (as ++ bs) := by
  induction ha with
  | nil h =>
    cases hb with
    | nil h' => exact .nil (h.trans h')
    | cons here rest => exact .cons (hQ h here) rest
  | cons here _ ih => exact .cons here (ih hb)

theorem later (hQ : ∀ {p p' q a}, p ≤ p' → Q p' q a → Q p q a) (hp : p ≤ m) (h : Along Q m q as) :
    Along Q p q as := (Along.nil hp).append h hQ

theorem map {f : α → β} (h : Along Q p q as) (hf : ∀ p q a, Q p q a → R p q (f a)) :
    Along R p q (as.map f) := by
  induction h with
  | nil h => exact .nil h
  | cons here _ ih => exact .cons (hf _ _ _ here) ih

theorem flatMap {f : α → List β} (h : Along Q p q as) (hf : ∀ p q a, Q p q a → Along R p q (f a))
    (hR : ∀ {p p' q b}, p ≤ p' → R p' q b → R p q b) : Along R p q (as.flatMap f) := by
  induction h with
  | nil h => exact .nil h
  | cons here _ ih => exact (hf _ _ _ here).append ih hR

end Along

section Nodes

variable {L : List Lexeme} {node a b : Node} {nodes : List Node} {s t : Span} {p p' q q' k m : Nat}

namespace Node

theorem Placed.real (h : node.Placed L) : node.span.Real L := by
  cases h with
  | intro real children inside ordered => exact real

theorem Lies.mono (h : node.Lies L p q) (hp : p' ≤ p) (hq : q ≤ q') : node.Lies L p' q' :=
  ⟨h.placed, hp.trans h.after, h.before.trans hq⟩

theorem Lies.span (h : node.Lies L p q) : node.span.Lies L p q := ⟨h.placed.real, h.after, h.before⟩

theorem Lies.later (hp : p' ≤ p) (h : node.Lies L p q) : node.Lies L p' q := h.mono hp le_rfl

end Node

namespace Along

theorem le (h : Along (Node.Lies L) p q nodes) : p ≤ q := by
  induction h with
  | nil h => exact h
  | cons here _ ih => exact here.span.le.trans ih

theorem lies (h : Along (Node.Lies L) p q nodes) : ∀ node ∈ nodes, node.Lies L p q := by
  induction h with
  | nil h => exact fun _ hn => absurd hn List.not_mem_nil
  | cons here rest ih =>
    intro node hn
    rcases List.mem_cons.1 hn with rfl | hn
    · exact here.mono le_rfl rest.le
    · exact (ih node hn).mono here.span.le le_rfl

theorem ordered (h : Along (Node.Lies L) p q nodes) :
    nodes.Pairwise fun a b => a.span.stop ≤ b.span.start := by
  induction h with
  | nil h => exact .nil
  | cons here rest ih => exact .cons (fun b hb => here.before.trans (rest.lies b hb).after) ih

theorem singleton (h : a.Lies L p q) : Along (Node.Lies L) p q [a] := .cons h (.nil le_rfl)

end Along

namespace Node

theorem Placed.of_along (real : node.span.Real L) (h : Along (Lies L) p q node.children)
    (hp : node.span.start ≤ p) (hq : q ≤ node.span.stop)
    (strict : node.span.start < p ∨ q < node.span.stop) : node.Placed L := by
  refine .intro real (fun child hc => (h.lies child hc).placed) (fun child hc => ?_) h.ordered
  obtain ⟨-, after, before⟩ := h.lies child hc
  refine ⟨hp.trans after, before.trans hq, fun hkey => ?_⟩
  obtain ⟨hstart, hstop⟩ := Prod.mk.inj hkey
  omega

theorem Lies.leaf (h : node.span.Lies L p q) (hc : node.children = []) : node.Lies L p q :=
  ⟨.intro h.real (by simp [hc]) (by simp [hc]) (by simp [hc]), h.after, h.before⟩

/-- A form that begins with the word at `s`, ends with the word at `t` and has its children between the
two. -/
theorem Lies.enclosed (hs : s.Lies L p k) (h : Along (Lies L) k m node.children)
    (ht : t.Lies L m q) (hspan : node.span = s.cover t) : node.Lies L p q := by
  have hcover := hs.cover (ht.mono h.le le_rfl)
  have hws := hs.real.wide
  have hstart : node.span.start = s.start := by rw [hspan, Span.start_cover]
  have hstop : t.stop ≤ node.span.stop := hspan ▸ Span.stop_le_stop_cover' s t
  have hbefore := hs.before
  have hafter := ht.after.trans ht.real.wide.le
  rw [← hspan] at hcover
  exact ⟨.of_along hcover.real h (by omega) (by omega) (.inl (by omega)), hcover.after, hcover.before⟩

/-- A form that begins with the word at `s` and ends with its only child. -/
theorem Lies.prefixed (hs : s.Lies L p k) (h : a.Lies L k q) (hc : node.children = [a])
    (hspan : node.span = s.cover a.span) : node.Lies L p q := by
  have hcover := hs.cover h.span
  have hws := hs.real.wide
  have hstart : node.span.start = s.start := by rw [hspan, Span.start_cover]
  have hstop : a.span.stop ≤ node.span.stop := hspan ▸ Span.stop_le_stop_cover' s a.span
  have hbefore := hs.before
  rw [← hspan] at hcover
  refine ⟨.of_along hcover.real (p := k) (q := a.span.stop) ?_ (by omega) hstop (.inl (by omega)),
    hcover.after, hcover.before⟩
  rw [hc]
  exact .singleton ⟨h.placed, h.after, le_rfl⟩

/-- A form that begins with its first child and ends with the word at `t`, after all other children. -/
theorem Lies.closed (ha : a.Lies L p k) (h : Along (Lies L) k m nodes) (ht : t.Lies L m q)
    (hc : node.children = a :: nodes) (hspan : node.span = a.span.cover t) : node.Lies L p q := by
  have hcover := ha.span.cover (ht.mono h.le le_rfl)
  have hwt := ht.real.wide
  have hstart : node.span.start = a.span.start := by rw [hspan, Span.start_cover]
  have hstop : t.stop ≤ node.span.stop := hspan ▸ Span.stop_le_stop_cover' a.span t
  have hafter := ht.after
  rw [← hspan] at hcover
  refine ⟨.of_along hcover.real (p := a.span.start) (q := m) ?_ hstart.le (by omega) (.inr (by omega)),
    hcover.after, hcover.before⟩
  rw [hc]
  exact .cons ⟨ha.placed, le_rfl, ha.before⟩ h

/-- A form that begins with one child and ends with another one. Each of the two keeps the other one from
taking up all of it. -/
theorem Lies.joined (ha : a.Lies L p k) (hb : b.Lies L k q) (hc : node.children = [a, b])
    (hspan : node.span = a.span.cover b.span) : node.Lies L p q := by
  have hcover := ha.span.cover hb.span
  have hwa := ha.placed.real.wide
  have hwb := hb.placed.real.wide
  have hab : a.span.stop ≤ b.span.start := ha.before.trans hb.after
  have hstart : node.span.start = a.span.start := by rw [hspan, Span.start_cover]
  have hstop : node.span.stop = b.span.stop := by
    rw [hspan, Span.stop_cover_of_le (hab.trans hwb.le)]
  rw [← hspan] at hcover
  refine ⟨.intro hcover.real ?_ ?_ ?_, hcover.after, hcover.before⟩
  · rw [hc]
    simpa using ⟨ha.placed, hb.placed⟩
  · have hka : a.span.key ≠ node.span.key := fun h => by
      have := (Prod.mk.inj h).2
      omega
    have hkb : b.span.key ≠ node.span.key := fun h => by
      have := (Prod.mk.inj h).1
      omega
    rw [hc, List.forall_mem_cons, List.forall_mem_singleton]
    exact ⟨⟨hstart.le, by omega, hka⟩, by omega, hstop.ge, hkb⟩
  · rw [hc]
    simpa using hab

end Node

end Nodes

/-! ## Cursors -/

namespace Cursor

/-- The offset of the lexeme under a cursor. -/
def pos (c : Cursor) : Nat := c.here.span.start

/-- A cursor in the given lexemes. If it does not stand on the first of them, then the lexeme taken last is the
end of a real span before it. -/
structure Among (L : List Lexeme) (c : Cursor) : Prop where
  /-- What is under it and after it is among the lexemes. -/
  mem : ∀ l ∈ c.here :: c.ahead, l ∈ L
  /-- What is under it and after it stands in order. -/
  laid : Lexeme.Laid c.pos (c.here :: c.ahead)
  /-- What it has passed ends before it. -/
  passed : ∀ l ∈ L, l.span.start < c.pos → c.last.Lies L 0 c.pos

end Cursor

section Cursors

variable {L : List Lexeme} {c : Cursor}

theorem Lexeme.Laid.le_start {n : Nat} {l : Lexeme} {ls : List Lexeme} (h : Laid n ls) (hl : l ∈ ls) :
    n ≤ l.span.start := by
  induction h with
  | eof token after => exact List.mem_singleton.1 hl ▸ after
  | word token after wide ahead ih =>
    rcases List.mem_cons.1 hl with rfl | hl
    · exact after
    · exact after.trans (wide.le.trans (ih hl))

theorem Lexeme.Laid.from_start {n : Nat} {l : Lexeme} {ls : List Lexeme} (h : Laid n (l :: ls)) :
    Laid l.span.start (l :: ls) := by
  cases h with
  | eof token after => exact .eof token le_rfl
  | word token after wide ahead => exact .word token le_rfl wide ahead

theorem Lexeme.Laid.real {n : Nat} {l : Lexeme} {ls : List Lexeme} (h : Laid n (l :: ls)) (hl : l ∈ L)
    (ht : l.token ≠ .eof) : l.span.Real L := by
  cases h with
  | eof token after => exact absurd token ht
  | word token after wide ahead => exact ⟨⟨l, hl, ht, rfl, rfl, rfl⟩, ⟨l, hl, ht, rfl⟩, wide⟩

theorem Cursor.next_here {p : Lexeme → Bool} (h : c.ahead.head?.any p = true) : p c.next.here = true := by
  obtain ⟨last, here, ahead⟩ := c
  cases ahead with
  | nil => cases h
  | cons l ls => exact h

namespace Cursor.Among

theorem here_mem (h : c.Among L) : c.here ∈ L := h.mem _ List.mem_cons_self

theorem start {n : Nat} (hL : Lexeme.Laid n L) : (Cursor.start L).Among L := by
  cases L with
  | nil => cases hL
  | cons l ls =>
    -- nothing stands before the first lexeme
    exact ⟨fun _ hm => hm, hL.from_start, fun m hm hlt => absurd (hL.from_start.le_start hm) (Nat.not_le.2 hlt)⟩

theorem next (h : c.Among L) (ht : c.here.token ≠ .eof) :
    c.next.Among L ∧ c.here.span.Lies L c.pos c.next.pos := by
  obtain ⟨last, here, ahead⟩ := c
  have hreal := h.laid.real h.here_mem ht
  have hmem := h.mem
  cases h.laid with
  | eof token after => exact absurd token ht
  | word token after wide hahead =>
    cases ahead with
    | nil => cases hahead
    | cons l ls =>
      have hstop := hahead.le_start List.mem_cons_self
      refine ⟨⟨fun m hm => hmem m (List.mem_cons_of_mem _ hm), hahead.from_start, fun _ _ _ => ?_⟩,
        ⟨hreal, le_rfl, hstop⟩⟩
      exact ⟨hreal, Nat.zero_le _, hstop⟩

/-- Lexemes that are passed over are words as long as the end of the text is not among them. -/
theorem skipWhile {skip : Token → Bool} (hskip : skip .eof = false) (h : c.Among L) :
    (Cursor.skipWhile skip c.last c.here c.ahead).Among L ∧
      c.pos ≤ (Cursor.skipWhile skip c.last c.here c.ahead).pos := by
  obtain ⟨last, here, ahead⟩ := c
  induction ahead generalizing last here with
  | nil => exact ⟨h, le_rfl⟩
  | cons l ls ih =>
    unfold Cursor.skipWhile
    dsimp only
    split
    · next ht =>
      have hne : here.token ≠ .eof := fun he => by rw [he, hskip] at ht; cases ht
      obtain ⟨hnext, hlies⟩ := h.next hne
      obtain ⟨hamong, hle⟩ := ih here.span l hnext
      exact ⟨hamong, hlies.le.trans hle⟩
    · exact ⟨h, le_rfl⟩

/-- What was read from an earlier real span on to the lexeme taken last. -/
theorem cover_last {s : Span} {p q : Nat} (h : c.Among L) (hs : s.Lies L p q) (hq : q ≤ c.pos) :
    (s.cover c.last).Lies L p c.pos := by
  obtain ⟨l, hl, -, hstart, -⟩ := hs.real.first
  have hwide := hs.real.wide
  have hbefore := hs.before
  have hlast := h.passed l hl (by omega)
  exact ⟨hs.real.cover hlast.real, hs.after, Nat.max_le.2 ⟨hlast.before, hbefore.trans hq⟩⟩

end Cursor.Among

end Cursors

/-! ## What readers do -/

namespace Reader

variable {α β : Type}

/-- How reading from the offset `p` on may end: on a lexeme further on, with an answer that satisfies `P`, or with an
error that points to something in the text. -/
inductive Ends (L : List Lexeme) (p : Nat) (P : Cursor → α → Prop) :
    Except SyntaxError (α × Cursor) → Prop where
  /-- The reader accepts. -/
  | accepted {a : α} {c : Cursor} (among : c.Among L) (onward : p ≤ c.pos) (post : P c a) :
    Ends L p P (.ok (a, c))
  /-- The reader refuses. -/
  | refused {e : SyntaxError} (shown : e.span.Shown L) : Ends L p P (.error e)

/-- Whether a reader on the cursor `c` in the given lexemes ends well, the cursor it stops on and its answer
satisfying `P` if it accepts. -/
def Reads (L : List Lexeme) (c : Cursor) (r : Reader α) (P : Cursor → α → Prop) : Prop :=
  c.Among L → Ends L c.pos P (r c)

def Moves (L : List Lexeme) (r : Reader α) : Prop := ∀ c, Reads L c r fun _ _ => True

/-- Whether the nodes that a reader answers lie where it has read. -/
def ReadsNode (L : List Lexeme) (r : Reader Node) : Prop :=
  ∀ c, Reads L c r fun c' node => node.Lies L c.pos c'.pos

/-- Whether a check of what was read accepts with an answer that satisfies `P`, or else refuses because of
something that stands in the text. -/
def Checks (L : List Lexeme) (P : α → Prop) : Except SyntaxError α → Prop
  | .ok a => P a
  | .error e => e.span.Shown L

theorem Checks.mono {L : List Lexeme} {P Q : α → Prop} {r : Except SyntaxError α} (hr : Checks L P r)
    (h : ∀ a, P a → Q a) : Checks L Q r := by
  cases r with
  | error e => exact hr
  | ok a => exact h a hr

theorem Checks.bind {L : List Lexeme} {P : α → Prop} {Q : β → Prop} {r : Except SyntaxError α}
    {f : α → Except SyntaxError β} (hr : Checks L P r) (hf : ∀ a, P a → Checks L Q (f a)) :
    Checks L Q (r >>= f) := by
  cases r with
  | error e => exact hr
  | ok a => exact hf a hr

namespace Reads

variable {L : List Lexeme} {c : Cursor} {r : Reader α} {f : α → Reader β} {P : Cursor → α → Prop}
  {Q : Cursor → β → Prop}

theorem pure {a : α} (h : P c a) : Reads L c (Pure.pure a) P := fun hc => .accepted hc le_rfl h

theorem bind (hr : Reads L c r P) (hf : ∀ c' a, c.pos ≤ c'.pos → P c' a → Reads L c' (f a) Q) :
    Reads L c (r >>= f) Q := by
  intro hc
  show Ends L c.pos Q (r c >>= fun x => f x.1 x.2)
  have h := hr hc
  generalize r c = result at h
  cases h with
  | refused shown => exact .refused shown
  | @accepted a c₁ among onward post =>
    show Ends L c.pos Q (f a c₁)
    have h := hf _ _ onward post among
    generalize f a c₁ = result at h
    cases h with
    | refused shown => exact .refused shown
    | accepted among' onward' post' => exact .accepted among' (onward.trans onward') post'

theorem mono {P' : Cursor → α → Prop} (hr : Reads L c r P)
    (h : ∀ c' a, c'.Among L → c.pos ≤ c'.pos → P c' a → P' c' a) : Reads L c r P' := by
  intro hc
  have hr := hr hc
  generalize r c = result at hr ⊢
  cases hr with
  | refused shown => exact .refused shown
  | accepted among onward post => exact .accepted among onward (h _ _ among onward post)

theorem moves (hr : Reads L c r P) : Reads L c r fun _ _ => True :=
  hr.mono fun _ _ _ _ _ => trivial

theorem fail {cause : SyntaxCause} {span : Span} (h : span.Shown L) :
    Reads L c (Reader.fail cause span : Reader α) P := fun _ => .refused h

theorem failHere {cause : Token → SyntaxCause} : Reads L c (Reader.failHere cause : Reader α) P :=
  fun hc => .refused (.inr ⟨c.here, hc.here_mem, rfl⟩)

theorem get_bind {g : Cursor → Reader β} (h : c.Among L → Reads L c (g c) Q) :
    Reads L c (MonadState.get >>= g) Q := fun hc => h hc hc

theorem here_bind {g : Lexeme → Reader β} (h : c.here ∈ L → Reads L c (g c.here) Q) :
    Reads L c (Reader.here >>= g) Q := fun hc => h hc.here_mem hc

theorem isAt_bind {s : Symbol} {g : Bool → Reader β} (h : Reads L c (g (isSymbol s c.here.token)) Q) :
    Reads L c (Reader.isAt s >>= g) Q := h

theorem atEnd_bind {g : Bool → Reader β} (h : ∀ b, Reads L c (g b) Q) :
    Reads L c (Reader.atEnd >>= g) Q := h _

theorem outOfRounds : Reads L c (do Reader.fail .outOfRounds (← Reader.here).span : Reader α) P :=
  here_bind fun hl => fail (.inr ⟨c.here, hl, rfl⟩)

theorem check {r : Except SyntaxError α} (h : Checks L (P c) r) : Reads L c (liftM r) P := by
  intro hc
  cases r with
  | error e => exact .refused h
  | ok a => exact .accepted hc le_rfl h

theorem pure_bind {a : α} {g : α → Reader β} (h : Reads L c (g a) Q) :
    Reads L c (Pure.pure a >>= g) Q := h

/-- What is read after a word is taken. -/
theorem take_bind {g : Lexeme → Reader β} (ht : c.here.token ≠ .eof)
    (h : c.here.span.Lies L c.pos c.next.pos → Reads L c.next (g c.here) Q) :
    Reads L c (Reader.take >>= g) Q := by
  have htake : Reads L c Reader.take fun c' l =>
      (c' = c.next ∧ l = c.here) ∧ c.here.span.Lies L c.pos c.next.pos := fun hc =>
    have ⟨hnext, hlies⟩ := hc.next ht
    .accepted hnext hlies.le ⟨⟨rfl, rfl⟩, hlies⟩
  refine htake.bind fun c' l _ hl => ?_
  obtain ⟨⟨rfl, rfl⟩, hlies⟩ := hl
  exact h hlies

theorem skipWhile {skip : Token → Bool} (h : skip .eof = false) :
    Reads L c (Reader.skipWhile skip) fun _ _ => True := fun hc =>
  have ⟨hamong, hle⟩ := hc.skipWhile h
  .accepted hamong hle trivial

theorem attempt (hr : Reads L c r P) : Reads L c (Reader.attempt r) fun _ _ => True := by
  intro hc
  have h := hr hc
  unfold Reader.attempt
  generalize r c = result at h
  cases h with
  | refused shown => exact .accepted hc le_rfl trivial
  | accepted among onward post => exact .accepted among onward trivial

theorem ne_eof_of_isSymbol {s : Symbol} {t : Token} (h : isSymbol s t = true) : t ≠ .eof := by
  rintro rfl
  cases h

theorem ne_eof_of_isKeyword {k : Keyword} {t : Token} (h : isKeyword k t = true) : t ≠ .eof := by
  rintro rfl
  cases h

theorem expect (s : Symbol) :
    Reads L c (Reader.expect s) fun c' span => span.Lies L c.pos c'.pos := by
  refine isAt_bind ?_
  split
  · next h => exact take_bind (ne_eof_of_isSymbol h) fun hl => pure hl
  · exact failHere

theorem expectWord (k : Keyword) :
    Reads L c (Reader.expectWord k) fun c' span => span.Lies L c.pos c'.pos := by
  refine here_bind fun _ => ?_
  split
  · next h => exact take_bind (ne_eof_of_isKeyword h) fun hl => pure hl
  · exact failHere

theorem name : Reads L c Reader.name fun c' a => a.span.Lies L c.pos c'.pos := by
  refine here_bind fun _ => ?_
  split
  · next text h =>
    have hne : c.here.token ≠ .eof := by rw [h]; exact Token.noConfusion
    exact take_bind hne fun hl => pure hl
  · exact failHere

theorem accept (s : Symbol) : Reads L c (Reader.accept s) fun _ _ => True := by
  refine isAt_bind ?_
  split
  · next h => exact take_bind (ne_eof_of_isSymbol h) fun _ => pure trivial
  · exact pure trivial

/-! ### Lists -/

variable {R : Nat → Nat → α → Prop}

/-- Things that are each found between the cursors before and after them are found one after the other. -/
theorem collect {item : Bool → Reader (Option α)}
    (h : ∀ c first, Reads L c (item first) fun c' o => ∀ a ∈ o, R c.pos c'.pos a) (n : Nat) ( first : Bool) :
    Reads L c (Reader.collect item n first) fun c' as => Along R c.pos c'.pos as := by
  induction n generalizing c first with
  | zero => exact outOfRounds
  | succ n ih =>
    refine (h c first).bind fun c₁ o hle ho => ?_
    cases o with
    | none => exact pure (.nil hle)
    | some a => exact ih false |>.bind fun c₂ as _ has => pure (.cons (ho a rfl) has)

theorem separated {close : Symbol} { trailing : Bool} {item : Reader α} {n : Nat}
    (h : ∀ c, Reads L c item fun c' a => R c.pos c'.pos a)
    (hR : ∀ {p p' q a}, p ≤ p' → R p' q a → R p q a) :
    Reads L c (Reader.separated close trailing item n) fun c' as => Along R c.pos c'.pos as := by
  refine collect (fun c first => ?_) n true
  have hnone {c' : Cursor} : Reads L c' (Pure.pure none : Reader (Option α)) fun c' o =>
      ∀ a ∈ o, R c.pos c'.pos a := pure nofun
  have hitem {c' : Cursor} (hle : c.pos ≤ c'.pos) :
      Reads L c' (do return some (← item)) fun c' o => ∀ a ∈ o, R c.pos c'.pos a :=
    (h c').bind fun c'' a _ ha => pure fun b hb => Option.some.inj hb ▸ hR hle ha
  refine isAt_bind ?_
  split
  · exact hnone
  dsimp only
  split
  · refine (expect .comma).bind fun c₁ _ hle _ => isAt_bind ?_
    split
    · exact hnone
    · exact hitem hle
  · exact hitem le_rfl

theorem lines {close : Symbol} {item : Reader α} {n : Nat}
    (h : ∀ c, Reads L c item fun c' a => R c.pos c'.pos a)
    (hR : ∀ {p p' q a}, p ≤ p' → R p' q a → R p q a) :
    Reads L c (Reader.lines close item n) fun c' as => Along R c.pos c'.pos as := by
  refine collect (fun c first => ?_) n true
  refine (skipWhile rfl).bind fun c₁ _ hle _ => isAt_bind ?_
  split
  · exact pure nofun
  · refine (h c₁).bind fun c₂ a _ ha => here_bind fun _ => ?_
    split
    · exact pure fun b hb => Option.some.inj hb ▸ hR hle ha
    · exact failHere

end Reads

/-! ### Readers that answer no nodes -/

namespace Moves

variable {L : List Lexeme} {r : Reader α} {f : α → Reader β}

theorem reads (h : Moves L r) (c : Cursor) : Reads L c r fun _ _ => True := h c

theorem pure (a : α) : Moves L (Pure.pure a) := fun _ => .pure trivial

theorem bind (hr : Moves L r) (hf : ∀ a, Moves L (f a)) : Moves L (r >>= f) :=
  fun c => (hr c).bind fun c' a _ _ => hf a c'

theorem name : Moves L Reader.name := fun _ => Reads.name.moves

theorem expect (s : Symbol) : Moves L (Reader.expect s) := fun _ => (Reads.expect s).moves

theorem accept (s : Symbol) : Moves L (Reader.accept s) := fun _ => Reads.accept s

theorem failHere {cause : Token → SyntaxCause} : Moves L (Reader.failHere cause : Reader α) :=
  fun _ => .failHere

theorem outOfRounds : Moves L (do Reader.fail .outOfRounds (← Reader.here).span : Reader α) :=
  fun _ => .outOfRounds

theorem separated {close : Symbol} { trailing : Bool} {n : Nat} (h : Moves L r) :
    Moves L (Reader.separated close trailing r n) := fun _ =>
  (Reads.separated (R := fun _ _ _ => True) h fun _ _ => trivial).moves

theorem lines {close : Symbol} {n : Nat} (h : Moves L r) : Moves L (Reader.lines close r n) :=
  fun _ => (Reads.lines (R := fun _ _ _ => True) h fun _ _ => trivial).moves

end Moves

end Reader

end DispatchLang
