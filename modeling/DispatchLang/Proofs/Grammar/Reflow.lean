import DispatchLang.Proofs.Grammar.Seam
import DispatchLang.Proofs.Grammar.WellFormed

/-!
# Reading a text with more line breaks side by side

A text is read twice, as it is and with some of its words on lines of their own. These words are symbols that continue
the line before, so that no list, no statement and no operator takes them in another way; wherever a line break may
stand instead of a comma, the first run would have refused the symbol without a break. Hence the two runs go through
the same steps, and a reader that accepts in the first run accepts in the second one with the same answer.

Two brackets are different, although they continue lines: the one that opens the arguments of a type and the one that
opens the fields of an alternative are taken only on the line of the word before them. Whether a bracket is one of
these is not known from the words around it, but from what was read. So the answer is asked: it holds all types that
are written and all alternatives, and each of them knows where its bracket would stand (`Node.openings`). A reader may
disagree in the second run if its answer has an *opening* whose bracket is broken off. Openings are never lost, because
everything that is read is a part of the answer.

## Main definitions

* `Program.openings`: the brackets of types and alternatives.
* `Reflow`: which brackets are broken off.
* `Reflow.Beside`: cursors that stand at the same point of the two runs.
* `Reflow.Agrees`: readers that answer alike, with one rule for each step a reader is made of.
-/

namespace DispatchLang

open Reader

/-! ## Openings -/

/-- A bracket that belongs to the word before it: the arguments of a type, or the fields of an alternative. -/
structure Opening where
  /-- The bracket. -/
  bracket : Symbol
  /-- The offset at which the word begins. -/
  head : Nat
deriving DecidableEq

mutual

/-- The brackets of the arguments of a written type, and of the types in them. -/
def TypeExpr.openings : TypeExpr → List Opening
  | .named _ _ => []
  | .applied span _ args => ⟨.openBracket, span.start⟩ :: openingsAll args

/-- The brackets in several written types. -/
def TypeExpr.openingsAll : List TypeExpr → List Opening
  | [] => []
  | type :: types => openings type ++ openingsAll types

end

theorem TypeExpr.openingsAll_eq (types : List TypeExpr) : openingsAll types = types.flatMap openings := by
  induction types with
  | nil => rfl
  | cons type types ih => rw [openingsAll, ih, List.flatMap_cons]

/-- The brackets in a type that may be missing. -/
def TypeExpr.openings? (type : Option TypeExpr) : List Opening := type.toList.flatMap openings

def FieldDecl.openings (field : FieldDecl) : List Opening := field.type.openings

/-- The bracket of the fields of an alternative, and those in its fields. The bracket may be missing. -/
def VariantDecl.openings (alternative : VariantDecl) : List Opening :=
  ⟨.openParen, alternative.name.span.start⟩ :: alternative.fields.flatMap FieldDecl.openings

/-- The brackets in what a declaration says about the instances. -/
def TypeBody.openings : TypeBody → List Opening
  | .abstract | .concrete => []
  | .struct fields => fields.flatMap FieldDecl.openings
  | .variants alternatives => alternatives.flatMap VariantDecl.openings

def TypeParam.openings (p : TypeParam) : List Opening := TypeExpr.openings? p.constraint

def Param.openings (p : Param) : List Opening := TypeExpr.openings? p.annotation

def TypeDecl.openings (decl : TypeDecl) : List Opening :=
  decl.typeParams.flatMap TypeParam.openings ++ TypeExpr.openings? decl.parent ++ decl.body.openings

def FunctionHead.openings (head : FunctionHead) : List Opening :=
  head.typeParams.flatMap TypeParam.openings ++ head.params.flatMap Param.openings

namespace Node

/-- The brackets of a node that are in none of its children. -/
def ownOpenings : Node → List Opening
  | .typeDecl _ decl => decl.openings
  | .function _ head _ => head.openings
  | .block _ params _ => params.flatMap Param.openings
  | _ => []

/-- The brackets of a node and of all nodes inside it. -/
def openings (node : Node) : List Opening := (node :: node.inside).flatMap ownOpenings

variable {node child : Node} {o : Opening}

theorem mem_openings_of_own (h : o ∈ node.ownOpenings) : o ∈ node.openings :=
  List.mem_flatMap.2 ⟨node, List.mem_cons_self, h⟩

theorem mem_openings_of_child (hc : child ∈ node.children) (h : o ∈ child.openings) : o ∈ node.openings := by
  obtain ⟨n, hn, ho⟩ := List.mem_flatMap.1 h
  refine List.mem_flatMap.2 ⟨n, List.mem_cons_of_mem _ ?_, ho⟩
  rw [inside_eq, mem_insideAll]
  exact ⟨child, hc, List.mem_cons.1 hn⟩

end Node

/-- The brackets of the types and alternatives of a program. -/
def Program.openings (program : Program) : List Opening := program.nodes.flatMap Node.ownOpenings

theorem Program.mem_openings {program : Program} {statement : Node} {o : Opening} (hs : statement ∈ program)
    (h : o ∈ statement.openings) : o ∈ program.openings := by
  obtain ⟨n, hn, ho⟩ := List.mem_flatMap.1 h
  refine List.mem_flatMap.2 ⟨n, Node.mem_insideAll.2 ⟨statement, hs, List.mem_cons.1 hn⟩, ho⟩

/-! ## Reflowed texts -/

/-- A text that is read again with more line breaks: which brackets are broken off the word before them, and how places
of the two texts are compared. -/
structure Reflow extends Placing where
  /-- Whether a bracket is on the line of the word before it at first, and then on another one. -/
  Broken : Opening → Prop

namespace Reflow

variable (ρ : Reflow)

/-- Two lexemes of which the second one may stand on another line than the word before it, if it continues the line. -/
structure Eased (l l' : Lexeme) : Prop where
  /-- They are the same token. -/
  token : l.token = l'.token
  /-- They stand at the same place. -/
  place : ρ.Same l.span l'.span
  /-- No line break is taken away. -/
  broken : l.afterBreak = true → l'.afterBreak = true
  /-- What does not continue a line is set off alike. -/
  fixed : l.token.continuesLine = false → l.afterBreak = l'.afterBreak ∧ l.touches = l'.touches

/-- Lexemes of which some of the second ones are on lines of their own. -/
inductive Texts : List Lexeme → List Lexeme → Prop where
  /-- The last lexeme. -/
  | last {l l' : Lexeme} (like : ρ.Eased l l') : Texts [l] [l']
  /-- A lexeme before another one, which may be broken off. -/
  | word {l m l' m' : Lexeme} {ls ls' : List Lexeme} (like : ρ.Eased l l')
    (next : ∀ s, isSymbol s m.token = true → m.afterBreak = false → m'.afterBreak = true → ρ.Broken ⟨s, l.span.start⟩)
    (rest : Texts (m :: ls) (m' :: ls')) : Texts (l :: m :: ls) (l' :: m' :: ls')

/-- Cursors at the same point of the two runs. -/
structure Beside (c d : Cursor) : Prop where
  /-- From there on the lexemes are alike. -/
  texts : ρ.Texts (c.here :: c.ahead) (d.here :: d.ahead)
  /-- The lexemes taken last stand at the same place. -/
  place : ρ.Same c.last d.last

variable {ρ} {c d : Cursor}

theorem Texts.like {l l' : Lexeme} {ls ls' : List Lexeme} (h : ρ.Texts (l :: ls) (l' :: ls')) : ρ.Eased l l' := by
  cases h with
  | last like => exact like
  | word like => exact like

namespace Beside

theorem like (h : ρ.Beside c d) : ρ.Eased c.here d.here := h.texts.like

theorem next (h : ρ.Beside c d) : ρ.Beside c.next d.next := by
  obtain ⟨last, here, ahead⟩ := c
  obtain ⟨last', here', ahead'⟩ := d
  cases h.texts with
  | last like => exact h
  | word like next rest => exact ⟨rest, like.place⟩

/-- What the lexeme after the one under the cursor is. -/
theorem head?_ahead (h : ρ.Beside c d) {p : Token → Bool} :
    c.ahead.head?.any (p ·.token) = d.ahead.head?.any (p ·.token) := by
  obtain ⟨last, here, ahead⟩ := c
  obtain ⟨last', here', ahead'⟩ := d
  cases h.texts with
  | last like => rfl
  | word like next rest =>
    rw [List.head?_cons, List.head?_cons, Option.any_some, Option.any_some, rest.like.token]

/-- A bracket after the lexeme that is taken may be broken off. -/
theorem broken_next (h : ρ.Beside c d) {s : Symbol} (hs : isSymbol s c.next.here.token = true)
    (hb : c.next.here.afterBreak = false) (hb' : d.next.here.afterBreak = true)
    (ht : isSymbol s c.here.token = false) : ρ.Broken ⟨s, c.here.span.start⟩ := by
  obtain ⟨last, here, ahead⟩ := c
  obtain ⟨last', here', ahead'⟩ := d
  cases h.texts with
  | last like => exact absurd hs (Bool.eq_false_iff.1 ht)
  | word like next rest => exact next s hs hb hb'

theorem skip (h : ρ.Beside c d) (p : Token → Bool) : ρ.Beside (c.skip p) (d.skip p) := by
  obtain ⟨last, here, ahead⟩ := c
  induction ahead generalizing last here d with
  | nil =>
    obtain ⟨last', here', ahead'⟩ := d
    cases h.texts with
    | last like => exact h
  | cons l ls ih =>
    have hnext := h.next
    obtain ⟨last', here', ahead'⟩ := d
    cases ahead' with
    | nil => cases h.texts
    | cons l' ls' =>
      dsimp only [Cursor.skip, Cursor.skipWhile]
      rw [← show here.token = here'.token from h.like.token]
      split
      · exact ih here.span l hnext
      · exact h

end Beside

/-! ## Readers that agree -/

variable {α β : Type}

/-- Whether two readers agree at two cursors: where the first accepts, either the second accepts with a like answer and
stops beside the first, or the answer has a bracket that is broken off. -/
def Agrees (ρ : Reflow) (c d : Cursor) (r r' : Reader α) (S : α → α → Prop) (O : α → Prop) : Prop :=
  ρ.Beside c d → ∀ a c₁, r c = .ok (a, c₁) → (∃ b d₁, r' d = .ok (b, d₁) ∧ ρ.Beside c₁ d₁ ∧ S a b) ∨ O a

/-- Whether some bracket is broken off. -/
def Opens (ρ : Reflow) (openings : List Opening) : Prop := ∃ o ∈ openings, ρ.Broken o

theorem Opens.mono {os os' : List Opening} (h : ρ.Opens os) (hos : ∀ o ∈ os, o ∈ os') : ρ.Opens os' := by
  obtain ⟨o, ho, hb⟩ := h
  exact ⟨o, hos o ho, hb⟩

theorem Opens.left {os os' : List Opening} (h : ρ.Opens os) : ρ.Opens (os ++ os') :=
  h.mono fun _ => List.mem_append_left _

theorem Opens.right {os os' : List Opening} (h : ρ.Opens os') : ρ.Opens (os ++ os') :=
  h.mono fun _ => List.mem_append_right _

theorem Opens.flatMap {as : List α} {f : α → List Opening} (h : ∃ a ∈ as, ρ.Opens (f a)) : ρ.Opens (as.flatMap f) := by
  obtain ⟨a, ha, h⟩ := h
  exact h.mono fun o ho => List.mem_flatMap.2 ⟨a, ha, ho⟩

theorem Opens.child {node child : Node} (h : ρ.Opens child.openings) (hc : child ∈ node.children) :
    ρ.Opens node.openings :=
  h.mono fun _ => Node.mem_openings_of_child hc

theorem Opens.own {node : Node} (h : ρ.Opens node.ownOpenings) : ρ.Opens node.openings :=
  h.mono fun _ => Node.mem_openings_of_own

/-- There is no opening in what was read. -/
def Never (_ : α) : Prop := False

namespace Agrees

variable {r r' : Reader α} {f f' : α → Reader β} {S : α → α → Prop} {Q : β → β → Prop} {O : α → Prop} {O' : β → Prop}

theorem pure {a b : α} (h : S a b) : ρ.Agrees c d (Pure.pure a) (Pure.pure b) S O := by
  intro hcd a' c₁ ha
  cases ha
  exact .inl ⟨b, d, rfl, hcd, h⟩

theorem mono {S' : α → α → Prop} {O₁ : α → Prop} (h : ρ.Agrees c d r r' S O) (hS : ∀ a b, S a b → S' a b)
    (hO : ∀ a, O a → O₁ a) : ρ.Agrees c d r r' S' O₁ := by
  intro hcd a c₁ ha
  rcases h hcd a c₁ ha with ⟨b, d₁, hb, hcd₁, hab⟩ | hopen
  · exact .inl ⟨b, d₁, hb, hcd₁, hS a b hab⟩
  · exact .inr (hO a hopen)

theorem closed (h : ρ.Agrees c d r r' S Never) : ρ.Agrees c d r r' S O := h.mono (fun _ _ h => h) fun _ h => h.elim

theorem refused (h : ∃ e, r c = .error e) : ρ.Agrees c d r r' S O := by
  obtain ⟨e, he⟩ := h
  intro _ a c₁ ha
  rw [he] at ha
  cases ha

theorem fail {cause : SyntaxCause} {span : Span} : ρ.Agrees c d (Reader.fail cause span : Reader α) r' S O :=
  refused ⟨_, rfl⟩

theorem failHere {cause : Token → SyntaxCause} : ρ.Agrees c d (Reader.failHere cause : Reader α) r' S O :=
  refused ⟨_, rfl⟩

theorem of_beside (h : ρ.Beside c d → ρ.Agrees c d r r' S O) : ρ.Agrees c d r r' S O := fun hcd => h hcd hcd

/-- A reader whose answer has an opening. -/
theorem of_open (h : Yields c r fun a _ => O a) : ρ.Agrees c d r r' S O := fun _ a c₁ ha => .inr (h a c₁ ha)

/-- Two readers after two others, where the openings of what is read first are openings of the whole. -/
theorem bind_open (hr : ρ.Agrees c d r r' S O)
    (hf : ∀ a b c₁ d₁, S a b → ρ.Agrees c₁ d₁ (f a) (f' b) Q O')
    (hO : ∀ a c₁, O a → Yields c₁ (f a) fun b _ => O' b) : ρ.Agrees c d (r >>= f) (r' >>= f') Q O' := by
  intro hcd b c₂ hb
  have hbind : (r c >>= fun x => f x.1 x.2) = .ok (b, c₂) := hb
  cases hr₁ : r c with
  | error e => rw [hr₁] at hbind; cases hbind
  | ok x =>
    obtain ⟨a, c₁⟩ := x
    rw [hr₁] at hbind
    rcases hr hcd a c₁ hr₁ with ⟨a', d₁, ha', hcd₁, hS⟩ | hopen
    · rcases hf a a' c₁ d₁ hS hcd₁ b c₂ hbind with ⟨b', d₂, hb', h⟩ | h
      · refine .inl ⟨b', d₂, ?_, h⟩
        show (r' d >>= fun x => f' x.1 x.2) = _
        rw [ha']
        exact hb'
      · exact .inr h
    · exact .inr (hO a c₁ hopen b c₂ hbind)

theorem bind (hr : ρ.Agrees c d r r' S Never) (hf : ∀ a b c₁ d₁, S a b → ρ.Agrees c₁ d₁ (f a) (f' b) Q O') :
    ρ.Agrees c d (r >>= f) (r' >>= f') Q O' := hr.bind_open hf fun _ _ h => h.elim

theorem moved {s s' : Reader α} {c' d' : Cursor} (h : ρ.Agrees c' d' s s' S O) (hc : r c = s c')
    (hd : r' d = s' d') (hcd : ρ.Beside c' d') : ρ.Agrees c d r r' S O := by
  intro _ a c₁ ha
  rw [hc] at ha
  rw [hd]
  exact h hcd a c₁ ha

/-! ### Steps -/

theorem get_bind {g g' : Cursor → Reader β} (h : ρ.Beside c d → ρ.Agrees c d (g c) (g' d) Q O') :
    ρ.Agrees c d (MonadState.get >>= g) (MonadState.get >>= g') Q O' := of_beside h

theorem here_bind {g g' : Lexeme → Reader β} (h : ρ.Eased c.here d.here → ρ.Agrees c d (g c.here) (g' d.here) Q O') :
    ρ.Agrees c d (Reader.here >>= g) (Reader.here >>= g') Q O' := of_beside fun hcd => h hcd.like

theorem take_bind {g g' : Lexeme → Reader β}
    (h : ρ.Eased c.here d.here → ρ.Agrees c.next d.next (g c.here) (g' d.here) Q O') :
    ρ.Agrees c d (Reader.take >>= g) (Reader.take >>= g') Q O' := of_beside fun hcd _ => h hcd.like hcd.next

theorem isAt_bind {s : Symbol} {g g' : Bool → Reader β}
    (h : ρ.Agrees c d (g (isSymbol s c.here.token)) (g' (isSymbol s c.here.token)) Q O') :
    ρ.Agrees c d (Reader.isAt s >>= g) (Reader.isAt s >>= g') Q O' := by
  refine of_beside fun hcd => ?_
  show ρ.Agrees c d (g (isSymbol s c.here.token)) (g' (isSymbol s d.here.token)) Q O'
  rw [← hcd.like.token]
  exact h

theorem atEnd_bind {g g' : Bool → Reader β} (h : ρ.Agrees c d (g c.here.token.isEnd) (g' c.here.token.isEnd) Q O') :
    ρ.Agrees c d (Reader.atEnd >>= g) (Reader.atEnd >>= g') Q O' := by
  refine of_beside fun hcd => ?_
  show ρ.Agrees c d (g c.here.token.isEnd) (g' d.here.token.isEnd) Q O'
  rw [← hcd.like.token]
  exact h

/-- The lexeme under the cursor is taken if its token passes a test, and is refused otherwise. -/
theorem require {p : Token → Bool} {cause : Token → SyntaxCause} :
    ρ.Agrees c d (do if p (← Reader.here).token then return (← Reader.take).span else Reader.failHere cause)
      (do if p (← Reader.here).token then return (← Reader.take).span else Reader.failHere cause) ρ.Same Never := by
  refine here_bind fun hl => ?_
  rw [← hl.token]
  split
  · exact take_bind fun hl => pure hl.place
  · exact failHere

theorem expect (s : Symbol) : ρ.Agrees c d (Reader.expect s) (Reader.expect s) ρ.Same Never := require (p := isSymbol s)

theorem expectWord (k : Keyword) : ρ.Agrees c d (Reader.expectWord k) (Reader.expectWord k) ρ.Same Never :=
  require (p := isKeyword k)

/-- A required name. What comes next may be a bracket that is broken off. -/
theorem name_bind {g g' : Located String → Reader β}
    (h : ∀ x y : Located String, ρ.UpTo Located.moved x y →
      (∀ s, isSymbol s c.next.here.token = true → c.next.here.afterBreak = false → d.next.here.afterBreak = true →
        ρ.Broken ⟨s, x.span.start⟩) → ρ.Agrees c.next d.next (g x) (g' y) Q O') :
    ρ.Agrees c d (Reader.name >>= g) (Reader.name >>= g') Q O' := by
  refine of_beside fun hcd => ?_
  cases ht : c.here.token with
  | ident text =>
    have ht' : d.here.token = .ident text := by rw [← hcd.like.token, ht]
    have hc : (Reader.name >>= g) c = g ⟨text, c.here.span⟩ c.next := by
      show (Reader.name c >>= fun x => g x.1 x.2) = _
      rw [Seam.Agrees.name_eq, ht]
      rfl
    have hd : (Reader.name >>= g') d = g' ⟨text, d.here.span⟩ d.next := by
      show (Reader.name d >>= fun x => g' x.1 x.2) = _
      rw [Seam.Agrees.name_eq, ht']
      rfl
    have hplace : ρ.UpTo Located.moved ⟨text, c.here.span⟩ ⟨text, d.here.span⟩ :=
      congrArg (Located.mk text) hcd.like.place
    refine (h ⟨text, c.here.span⟩ ⟨text, d.here.span⟩ hplace fun s hs hb hb' => ?_).moved hc hd hcd.next
    exact hcd.broken_next hs hb hb' (by rw [ht]; rfl)
  | _ =>
    refine refused ⟨⟨.expectedName c.here.token, c.here.span⟩, ?_⟩
    show (Reader.name c >>= fun x => g x.1 x.2) = _
    rw [Seam.Agrees.name_eq, ht]
    rfl

/-- A symbol that may be missing. -/
theorem accept (s : Symbol) : ρ.Agrees c d (Reader.accept s) (Reader.accept s) Eq Never := by
  refine isAt_bind ?_
  split
  · exact take_bind fun _ => pure rfl
  · exact pure rfl

theorem accept_bind {s : Symbol} {g g' : Bool → Reader β} (h : ∀ b c₁ d₁, ρ.Agrees c₁ d₁ (g b) (g' b) Q O') :
    ρ.Agrees c d (Reader.accept s >>= g) (Reader.accept s >>= g') Q O' := by
  refine (accept s).bind fun b b' c₁ d₁ hb => ?_
  subst hb
  exact h b c₁ d₁

theorem lineEnd_bind {p : Token → Bool} {cause : Token → SyntaxCause} {x x' : Reader α}
    (h : ρ.Agrees c d x x' S O) :
    ρ.Agrees c d (do
      let l ← Reader.here
      if p l.token || l.afterBreak then x else Reader.failHere cause) (do
      let l ← Reader.here
      if p l.token || l.afterBreak then x' else Reader.failHere cause) S O := by
  refine here_bind fun hl => ?_
  by_cases hend : (p c.here.token || c.here.afterBreak) = true
  · have hend' : (p d.here.token || d.here.afterBreak) = true := by
      rw [Bool.or_eq_true] at hend ⊢
      exact hend.imp (fun hp => hl.token ▸ hp) hl.broken
    rw [if_pos hend, if_pos hend']
    exact h
  · rw [if_neg hend]
    exact failHere

/-- What is read after looking for a bracket on the same line. If the bracket is broken off, then what is read has an
opening. -/
theorem onLine_bind {s : Symbol} {x x' y y' : Reader α} (hyes : ρ.Agrees c d x x' S O)
    (hno : ρ.Agrees c d y y' S O) (hopen : isSymbol s c.here.token = true → c.here.afterBreak = false →
      d.here.afterBreak = true → Yields c x fun a _ => O a) :
    ρ.Agrees c d
      (do if isSymbol s (← Reader.here).token && !(← Reader.here).afterBreak then x else y)
      (do if isSymbol s (← Reader.here).token && !(← Reader.here).afterBreak then x' else y') S O := by
  refine here_bind fun hl => here_bind fun _ => ?_
  rw [← hl.token]
  cases hs : isSymbol s c.here.token with
  | false => exact hno
  | true =>
    cases hb : c.here.afterBreak with
    | true =>
      rw [hl.broken hb]
      exact hno
    | false =>
      cases hb' : d.here.afterBreak with
      | false => exact hyes
      | true => exact of_open (hopen hs hb hb')

theorem check {x x' : Except SyntaxError α} (h : ∀ a, x = .ok a → ∃ b, x' = .ok b ∧ S a b) :
    ρ.Agrees c d (liftM x) (liftM x') S O := by
  intro hcd a c₁ ha
  cases hx : x with
  | error e => rw [hx] at ha; cases ha
  | ok a' =>
    rw [hx] at ha
    cases ha
    obtain ⟨b, hb, hab⟩ := h a hx
    exact .inl ⟨b, d, by rw [hb]; rfl, hcd, hab⟩

/-- What an answer is made of. -/
theorem map {g g' : α → β} (h : ρ.Agrees c d r r' S O) (hS : ∀ a b, S a b → Q (g a) (g' b))
    (hO : ∀ a, O a → O' (g a)) : ρ.Agrees c d (do return g (← r)) (do return g' (← r')) Q O' :=
  h.bind_open (fun a b _ _ hab => pure (hS a b hab)) fun a _ hopen => Yields.pure (hO a hopen)

theorem skipWhile_bind {skip : Token → Bool} {g g' : Unit → Reader β}
    (h : ∀ c₁ d₁, ρ.Agrees c₁ d₁ (g ()) (g' ()) Q O') :
    ρ.Agrees c d (Reader.skipWhile skip >>= g) (Reader.skipWhile skip >>= g') Q O' :=
  fun hcd => h _ _ (hcd.skip skip)

/-! ### Lists -/

/-- Whether something in a list has an opening. -/
def Some (O : α → Prop) (as : List α) : Prop := ∃ a ∈ as, O a

/-- Whether the answer that is given has an opening. -/
def Given (O : α → Prop) (o : Option α) : Prop := ∃ a ∈ o, O a

variable {n : Nat}

/-- Things one after another. -/
theorem collect {item item' : Bool → Reader (Option α)}
    (h : ∀ first c d, ρ.Agrees c d (item first) (item' first) (Option.Rel S) (Given O)) ( first : Bool) :
    ρ.Agrees c d (Reader.collect item n first) (Reader.collect item' n first) (List.Forall₂ S) (Some O) := by
  induction n generalizing c d first with
  | zero => exact refused ⟨_, rfl⟩
  | succ n ih =>
    refine (h first c d).bind_open (fun o o' c₁ d₁ ho => ?_) fun o c₁ hopen => ?_
    · cases ho with
      | none => exact pure .nil
      | some hab =>
        refine (ih false).bind_open (fun as bs c₂ d₂ hs => pure (.cons hab hs)) fun as c₂ hopen => Yields.pure ?_
        obtain ⟨a, ha, ho⟩ := hopen
        exact ⟨a, List.mem_cons_of_mem _ ha, ho⟩
    · obtain ⟨a, ha, ho⟩ := hopen
      obtain rfl : o = some a := ha
      exact Yields.skip fun as c₂ => Yields.pure ⟨a, List.mem_cons_self, ho⟩

/-- One thing. -/
theorem some_item (h : ρ.Agrees c d r r' S O) :
    ρ.Agrees c d (do return some (← r)) (do return some (← r')) (Option.Rel S) (Given O) :=
  h.map (fun _ _ hab => .some hab) fun a ho => ⟨a, rfl, ho⟩

/-- Things with commas between them. -/
theorem separated {close : Symbol} { trailing : Bool} {item item' : Reader α}
    (h : ∀ c d, ρ.Agrees c d item item' S O) :
    ρ.Agrees c d (Reader.separated close trailing item n) (Reader.separated close trailing item' n)
      (List.Forall₂ S) (Some O) := by
  refine collect (fun first c d => isAt_bind ?_) true
  split
  · exact pure .none
  · cases first with
    | true => exact some_item (h c d)
    | false =>
      refine (expect .comma).bind fun _ _ c₁ d₁ _ => ?_
      cases trailing with
      | false => exact some_item (h c₁ d₁)
      | true =>
        refine isAt_bind ?_
        split
        · exact pure .none
        · exact some_item (h c₁ d₁)

theorem endLine {p : Token → Bool} {cause : Token → SyntaxCause} {g g' : α → β}
    (h : ρ.Agrees c d r r' S O) (hS : ∀ a b, S a b → Q (g a) (g' b)) (hO : ∀ a, O a → O' (g a)) :
    ρ.Agrees c d (do
      let a ← r
      let l ← Reader.here
      if p l.token || l.afterBreak then return some (g a) else Reader.failHere cause) (do
      let a ← r'
      let l ← Reader.here
      if p l.token || l.afterBreak then return some (g' a) else Reader.failHere cause)
      (Option.Rel Q) (Given O') := by
  refine h.bind_open (fun a b c₁ d₁ hab => lineEnd_bind (pure (.some (hS a b hab)))) fun a c₁ ho => Yields.look ?_
  split
  · exact Yields.pure ⟨g a, rfl, hO a ho⟩
  · exact Yields.failHere _

/-- Things on lines of their own. -/
theorem lines {close : Symbol} {item item' : Reader α} (h : ∀ c d, ρ.Agrees c d item item' S O) :
    ρ.Agrees c d (Reader.lines close item n) (Reader.lines close item' n) (List.Forall₂ S) (Some O) := by
  refine collect (fun first c d => skipWhile_bind fun c₁ d₁ => isAt_bind ?_) true
  split
  · exact pure .none
  · exact endLine (p := fun t => isSymbol .comma t || isSymbol close t) (h c₁ d₁) (fun _ _ h => h) fun _ h => h

end Agrees

end Reflow

end DispatchLang
