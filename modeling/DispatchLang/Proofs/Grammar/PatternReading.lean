import DispatchLang.Proofs.Grammar.Copying

/-!
# Patterns that are read as expressions

An arm of a match begins with a pattern, and so does a destructuring assignment. But the arm is read by the reader of
patterns, and the left side of the assignment by that of expressions, which does not know yet that it will be assigned
to. The two come to the same tree, with one exception: a negative number is a literal to the first and a sign before a
literal to the second.

The reader of expressions goes on as far as it can. In the fields of a construction it stops where a pattern ends, as
nothing that may follow a field continues an expression. After the whole pattern comes an arrow in the one text and an
assignment in the other, and there only what an expression begins with is compared.

## Main definitions

* `Node.signed`: whether there is a sign among the values of the fields of a construction.

## Main results

* `Grammar.copies_primary`: a pattern is the beginning of an expression.
* `Program.same_of_texts`: what is assigned to is the pattern of the arm.
-/

namespace DispatchLang

open Reader

/-! ## Signs -/

namespace Node

mutual

/-- Whether a node is a minus sign before something, or a construction with such a value in it. -/
def signed : Node → Bool
  | .unary _ .neg _ => true
  | .construct _ _ fields => fieldsSigned fields
  | _ => false

def fieldsSigned : List (Located String × Node) → Bool
  | [] => false
  | (_, value) :: fields => signed value || fieldsSigned fields

end

mutual

theorem signed_erase : (node : Node) → node.erase.signed = node.signed
  | .construct _ _ fields => fieldsSigned_erase fields
  | .unary _ .neg _ | .unary _ .not _ => rfl
  | .literal .. | .ident .. | .binary .. | .assign .. | .field .. | .call .. | .send ..
  | .block .. | .cases .. | .typeDecl .. | .function .. | .capture .. | .refine .. | .quoted ..
  | .array .. | .object .. | .pair .. => rfl

theorem fieldsSigned_erase : (fields : List (Located String × Node)) →
    fieldsSigned (eraseEntries fields) = fieldsSigned fields
  | [] => rfl
  | (_, value) :: fields => congrArg₂ (· || ·) (signed_erase value) (fieldsSigned_erase fields)

end

/-- Whether two nodes are the same tree. -/
def Same (a b : Node) : Prop := a.erase = b.erase

/-- Whether an expression is the same tree as a pattern, unless it is signed. -/
def Mirrors (pattern node : Node) : Prop := node.signed = false → pattern.Same node

end Node

/-! ## Patterns -/

namespace Grammar

variable {c d : Cursor} {E : Token → Prop} {n m k : Nat}

theorem copies_constructFields {item item' : Reader Node} {S : Node → Node → Prop}
    (h : ∀ c d, Copies EndsField c d item item' S) (hnm : n ≤ m) :
    Copies E c d (constructFields item n) (constructFields item' m)
      fun x y => List.Forall₂ (fun a b => a.1.val = b.1.val ∧ S a.2 b.2) x.1 y.1 := by
  refine (Copies.expect (by decide)).bind fun _ _ c₁ d₁ _ => ?_
  refine (Copies.lines (S := fun a b => a.1.val = b.1.val ∧ S a.2 b.2) (fun c d => ?_) (fun c => ?_) hnm).bind
    fun as bs c₂ d₂ hs => ?_
  · refine Copies.name.bind fun x y c₃ d₃ hxy => (Copies.expect (by decide)).bind fun _ _ c₄ d₄ _ => ?_
    exact (h c₄ d₄).map fun a b hab => ⟨hxy, hab⟩
  · -- a field begins with its name
    have hname : Yields c name fun _ _ => isName c.here.token = true := by
      intro x c₁ hx
      rw [Seam.Agrees.name_eq] at hx
      cases ht : c.here.token with
      | ident text => rfl
      | _ =>
        rw [ht] at hx
        cases hx
    exact hname.bind fun x c₁ h => .skip fun _ c₂ => .skip fun _ c₃ => .pure h
  · exact (Copies.expect (by decide)).bind fun _ _ _ _ _ => .pure hs

theorem beginsRefinement_of_followsPattern {t : Token} (h : t.followsPattern = true) : beginsRefinement t = false := by
  unfold Token.followsPattern at h
  split at h <;> first | rfl | cases h

theorem followsPattern_of_negative {t : Token} {value : Literal} (h : negative? t = some value) :
    t.followsPattern = false := by
  unfold negative? at h
  split at h <;> first | rfl | cases h

theorem literal_of_negative {t : Token} {value : Literal} (h : negative? t = some value) :
    ∃ literal, literal? t = some literal := by
  unfold negative? at h
  split at h <;> first | exact ⟨_, rfl⟩ | cases h

theorem followsPattern_of_literal {t : Token} {value : Literal} (h : literal? t = some value) :
    t.followsPattern = false := by
  unfold literal? at h
  split at h <;> first | rfl | cases h

theorem pattern_of_followsPattern (h : c.here.token.followsPattern = true) : ∃ e, pattern (n + 1) c = .error e := by
  obtain ⟨last, ⟨token, span, afterBreak, touches⟩, ahead⟩ := c
  replace h : token.followsPattern = true := h
  unfold Token.followsPattern at h
  split at h <;> first | exact ⟨_, rfl⟩ | cases h

theorem same_construct {s t : Span} {x y : Located String} (hxy : x.val = y.val)
    {fields fields' : List (Located String × Node)}
    (h : List.Forall₂ (fun a b => a.1.val = b.1.val ∧ a.2.Same b.2) fields fields') :
    (Node.construct s x fields).Same (.construct t y fields') := by
  have hfields : Node.eraseEntries fields = Node.eraseEntries fields' := by
    induction h with
    | nil => rfl
    | cons hab _ ih => exact congrArg₂ List.cons (Prod.ext (congrArg (Located.mk · _) hab.1) hab.2) ih
  simp only [Node.Same, Node.erase, Located.erase, hxy, hfields]

/-- A capture, which may be limited to a pattern. -/
theorem copies_captureWith {item item' : Reader Node} (h : ∀ c d, Copies E c d item item' Node.Same) :
    Copies E c d (captureWith item) (captureWith item') Node.Same := by
  have hrest {c d : Cursor} {bound : Option String} {s t : Span} : Copies E c d
      (do
        let l ← here
        if !l.afterBreak && beginsRefinement l.token then
          let inner ← item
          return .refine (s.cover inner.span) bound inner
        else return .capture s bound)
      (do
        let l ← here
        if !l.afterBreak && beginsRefinement l.token then
          let inner ← item'
          return .refine (t.cover inner.span) bound inner
        else return .capture t bound) Node.Same := by
    refine .of_alongside fun hcd => .here_bind ?_
    have heq : (!c.here.afterBreak && beginsRefinement c.here.token) =
        (!d.here.afterBreak && beginsRefinement d.here.token) := by
      rcases hcd.cases_here with ⟨hc, hd⟩ | ⟨hlike, -⟩
      · rw [beginsRefinement_of_followsPattern hc, beginsRefinement_of_followsPattern hd, Bool.and_false, Bool.and_false]
      · rw [hlike.token, hlike.afterBreak]
    rw [heq]
    split
    · refine (h c d).map fun a b hab => ?_
      exact congrArg (Node.refine .nowhere bound) hab
    · exact .pure rfl
  refine (Copies.expect (by decide)).bind fun s t c₁ d₁ _ => .of_alongside fun hcd => .here_bind ?_
  have heq : (isName c₁.here.token && c₁.here.touches) = (isName d₁.here.token && d₁.here.touches) := by
    rcases hcd.cases_here with ⟨hc, hd⟩ | ⟨hlike, -⟩
    · rw [Token.isName_of_followsPattern hc, Token.isName_of_followsPattern hd, Bool.false_and, Bool.false_and]
    · rw [hlike.token, hlike.touches]
  rw [heq]
  dsimp only
  split
  · refine Copies.name.bind fun x y _ _ hxy => ?_
    rw [hxy]
    exact hrest
  · exact hrest

/-- Patterns, wherever they stand and however much they may nest. -/
theorem copies_pattern (hnm : n ≤ m) : Copies E c d (pattern n) (pattern m) Node.Same := by
  induction n generalizing m c d E with
  | zero => exact .refused ⟨_, rfl⟩
  | succ n ih =>
    obtain ⟨m, rfl⟩ : ∃ k, m = k + 1 := ⟨m - 1, by omega⟩
    refine .of_alongside fun hcd => ?_
    rcases hcd.cases_here with ⟨hc, -⟩ | ⟨hlike, -⟩
    · exact .refused (pattern_of_followsPattern hc)
    rw [pattern, pattern]
    refine .here_bind ?_
    rw [← hlike.token]
    split
    · exact copies_captureWith fun c d => ih (by omega)
    · refine Copies.name.bind fun x y c₁ d₁ hxy => .fieldsAhead_bind fun b => ?_
      split
      · refine (copies_constructFields (fun c d => ih (by omega)) hnm).map fun a b hab => ?_
        exact same_construct hxy hab
      · exact .pure (congrArg (Node.ident .nowhere) hxy)
    · next hminus =>
      refine .take_bind (by rw [hminus]; rfl) (.of_alongside fun hcd₁ => .here_bind ?_)
      cases hvalue : negative? c.next.here.token with
      | none => exact .refused ⟨_, rfl⟩
      | some value =>
        have hword := followsPattern_of_negative hvalue
        rw [← (hcd₁.like hword).token, hvalue]
        exact .take_bind hword (.pure rfl)
    · cases hvalue : literal? c.here.token with
      | none => exact .refused ⟨_, rfl⟩
      | some value => exact .take_bind (followsPattern_of_literal hvalue) (.pure rfl)

/-! ## Expressions -/

theorem climb_ends {expr : ExpressionReader} {ctx : Context} {least : Nat} {left : Node}
    (h : c.Ends ctx.pairs least) : climb expr n ctx least (m + 1) left c = .ok (left, c) := by
  have hextend : extend expr n ctx least left c = .ok (none, c) := by
    obtain ⟨last, ⟨token, span, afterBreak, touches⟩, ahead⟩ := c
    rw [extend]
    show (if (afterBreak && !token.continuesLine) = true then _ else _ : Reader (Option Node)) _ = _
    by_cases hbreak : (afterBreak && !token.continuesLine) = true
    · rw [if_pos hbreak]
      rfl
    · rw [if_neg hbreak]
      replace h := h.resolve_left hbreak
      cases token with
      | symbol s =>
        -- no member access, and no operator that binds tightly enough
        have hconnective {connective : Connective} (hs : Connective.ofSymbol? ctx.pairs s = some connective) :
            connective.powers.1 < least := by
          cases s <;> first | exact h connective hs | exact h.elim
        cases hs : Connective.ofSymbol? ctx.pairs s with
        | none => cases s <;> first | rfl | exact h.elim | (simp only [hs]; rfl)
        | some connective =>
          cases s <;> first | exact h.elim | (simp only [hs, hconnective hs, if_true]; rfl)
      | _ => rfl
  show (extend expr n ctx least left c >>= _) = _
  rw [hextend]
  rfl

/-- Nothing that may come after a field continues an expression. -/
theorem ends_of_endsField {pairs : Bool} {least : Nat} (h : EndsField c.here.token) : c.Ends pairs least := by
  rcases h with hcomma | hclose | hname
  · exact Cursor.ends_of_symbol (Token.eq_of_isSymbol hcomma) (by decide) (by decide) nofun
  · exact Cursor.ends_of_symbol (Token.eq_of_isSymbol hclose) (by decide) (by decide) nofun
  · refine .inr ?_
    cases ht : c.here.token with
    | ident _ => trivial
    | _ =>
      rw [ht] at hname
      cases hname

/-- Nothing that may come after a pattern continues an operand. -/
theorem ends_of_followsPattern {pairs : Bool} (h : c.here.token.followsPattern = true) : c.Ends pairs operandPower := by
  unfold Token.followsPattern at h
  split at h
  · next ht => exact Cursor.ends_of_symbol ht (by decide) (by decide) nofun
  · next ht =>
    refine Cursor.ends_of_symbol ht (by decide) (by decide) fun connective hs => ?_
    cases hs
    decide
  · next ht =>
    refine .inr ?_
    rw [ht]
    trivial
  · cases h

/-- Whether a token comes after the value of a field or after the pattern of an arm. -/
def EndsPattern (t : Token) : Prop := EndsField t ∨ t = .symbol .arrow

theorem ends_of_endsPattern (pairs : Bool) (hcd : c.Alongside d) (h : EndsPattern c.here.token) :
    d.Ends pairs operandPower := by
  rcases h with hfield | harrow
  · exact ends_of_endsField ((hcd.like hfield.followsPattern).token ▸ hfield)
  · rcases hcd.cases_here with ⟨-, hd⟩ | ⟨hlike, -⟩
    · exact ends_of_followsPattern hd
    · refine ends_of_followsPattern ?_
      rw [← hlike.token, harrow]
      rfl

theorem expression_literal {ctx : Context} {least : Nat} {value : Literal} (h : literal? c.here.token = some value)
    (hends : c.next.Ends ctx.pairs least) :
    expression (n + 1) ctx least c = .ok (.literal c.here.span value, c.next) := by
  have hprimary : primary (expression n) (n + 1) ctx c = .ok (.literal c.here.span value, c.next) := by
    obtain ⟨last, ⟨token, span, afterBreak, touches⟩, ahead⟩ := c
    replace h : literal? token = some value := h
    unfold literal? at h
    split at h <;> cases h <;> rfl
  show (primary (expression n) (n + 1) ctx c >>= fun x => climb (expression n) (n + 1) ctx least (n + 1) x.1 x.2) = _
  rw [hprimary]
  exact climb_ends hends

theorem mirrors_construct {s t : Span} {x y : Located String} (hxy : x.val = y.val)
    {fields fields' : List (Located String × Node)}
    (h : List.Forall₂ (fun a b => a.1.val = b.1.val ∧ a.2.Mirrors b.2) fields fields') :
    (Node.construct s x fields).Mirrors (.construct t y fields') := by
  intro hsigned
  refine same_construct hxy ?_
  replace hsigned : Node.fieldsSigned fields' = false := hsigned
  induction h with
  | nil => exact .nil
  | cons hab _ ih =>
    rw [Node.fieldsSigned, Bool.or_eq_false_iff] at hsigned
    exact .cons ⟨hab.1, hab.2 hsigned.1⟩ (ih hsigned.2)

theorem copies_afterName {item : Reader Node} {expr : ExpressionReader} {ctx : Context} (hctx : ctx.constructs = true)
    (h : ∀ c d, Copies EndsField c d item (expr .nested 0) Node.Mirrors) (hnm : n ≤ m) {x y : Located String}
    (hxy : x.val = y.val) : Copies EndsPattern c d
      (do
        if ← fieldsAhead then
          let (fields, close) ← constructFields item n
          return .construct (x.span.cover close) x fields
        else return .ident x.span x.val)
      (afterName expr m ctx y) Node.Mirrors := by
  refine .of_alongside fun hcd => ?_
  have hparen := hcd.test_eq fun t ht => Token.isSymbol_of_followsPattern (s := .openParen) ht (by decide)
  cases hd : isSymbol .openParen d.here.token with
  | true =>
    -- arguments come after no pattern
    have hc := Token.eq_of_isSymbol (hparen.trans hd)
    have hfields : Lexeme.beginFields (c.here :: c.ahead) = false :=
      Lexeme.beginFields_of_first (by rw [hc]; rfl)
    intro _ a c₁ ha hend
    rw [fieldsAhead_bind_eq, hfields] at ha
    cases ha
    rw [hc] at hend
    simp [EndsPattern, EndsField, isSymbol, isName] at hend
  | false =>
    have hafter : afterName expr m ctx y d = (do
        if ← fieldsAhead then
          let (fields, close) ← constructFields (expr .nested 0) m
          return .construct (y.span.cover close) y fields
        else return .ident y.span y.val : Reader Node) d := by
      show (if isSymbol .openParen d.here.token = true then _ else _ : Reader Node) d = _
      rw [hd, hctx]
      rfl
    refine Copies.congr (.fieldsAhead_bind fun b => ?_) hafter
    split
    · exact (copies_constructFields h hnm).map fun a b hab => mirrors_construct hxy hab
    · exact .pure fun _ => congrArg (Node.ident .nowhere) hxy

def negated (sign : Span) (number : Lexeme) : Reader Node :=
  match negative? number.token with
  | some value => do
    let _ ← take
    return .literal (sign.cover number.span) value
  | none => failHere .expectedPatternNumber

/-- A pattern is the beginning of an expression, and the same tree but for signs. -/
theorem copies_primary (hnk : n ≤ k) (ctx : Context) (hctx : ctx.constructs = true) :
    Copies EndsPattern c d (pattern n) (primary (expression k) (k + 1) ctx) Node.Mirrors := by
  induction n generalizing k c d ctx with
  | zero => exact .refused ⟨_, rfl⟩
  | succ n ih =>
    obtain ⟨k, rfl⟩ : ∃ i, k = i + 1 := ⟨k - 1, by omega⟩
    refine .of_alongside fun hcd => ?_
    rcases hcd.cases_here with ⟨hc, -⟩ | ⟨hlike, -⟩
    · exact .refused (pattern_of_followsPattern hc)
    -- a field is read as an expression, which ends where the field does
    have hfield (c d : Cursor) : Copies EndsField c d (pattern n) (expression (k + 1) .nested 0) Node.Mirrors := by
      intro hcd a c₁ ha hend
      obtain ⟨b, d₁, hb, hcd₁, hab⟩ := ih (k := k) (by omega) .nested rfl hcd a c₁ ha (.inl hend)
      refine ⟨b, d₁, ?_, hcd₁, hab⟩
      show (primary (expression k) (k + 1) .nested d >>= fun x =>
        climb (expression k) (k + 1) .nested 0 (k + 1) x.1 x.2) = _
      rw [hb]
      exact climb_ends (ends_of_endsField ((hcd₁.like hend.followsPattern).token ▸ hend))
    have hliteral {value : Literal} (hvalue : literal? c.here.token = some value) : Copies EndsPattern c d
        (do
          let _ ← take
          return .literal c.here.span value)
        (do
          let _ ← take
          return .literal d.here.span value) Node.Mirrors :=
      .take_bind (followsPattern_of_literal hvalue) (.pure fun _ => rfl)
    rw [pattern, primary]
    refine .here_bind ?_
    rw [← hlike.token]
    cases ht : c.here.token with
    | int value => exact hliteral (ht ▸ rfl)
    | float value => exact hliteral (ht ▸ rfl)
    | string value => exact hliteral (ht ▸ rfl)
    | hugeInt digits => exact .refused ⟨_, rfl⟩
    | eof => exact .refused ⟨_, rfl⟩
    | keyword word =>
      cases word with
      | true => exact hliteral (ht ▸ rfl)
      | false => exact hliteral (ht ▸ rfl)
      | _ => exact .refused ⟨_, rfl⟩
    | ident text =>
      exact Copies.name.bind fun x y c₁ d₁ hxy => copies_afterName hctx hfield (by omega) hxy
    | symbol s =>
      cases s with
      | question =>
        exact (copies_captureWith fun c d => copies_pattern (by omega)).mono (fun _ h => h) fun a b hab _ => hab
      | minus =>
        refine .take_bind (by rw [ht]; rfl) fun hcd₁ a c₁ ha hend => ?_
        -- the number is a literal of its own to the reader of expressions
        replace ha : negated c.here.span c.next.here c.next = .ok (a, c₁) := ha
        rw [negated] at ha
        cases hvalue : negative? c.next.here.token with
        | none =>
          rw [hvalue] at ha
          cases ha
        | some value =>
          rw [hvalue] at ha
          cases ha
          have hword := followsPattern_of_negative hvalue
          obtain ⟨literal, hliteral⟩ := literal_of_negative hvalue
          have hoperand := expression_literal (n := k) (c := d.next) ((hcd₁.like hword).token ▸ hliteral)
            (ends_of_endsPattern ctx.pairs (hcd₁.next hword) hend)
          refine ⟨.unary (d.here.span.cover d.next.here.span) .neg (.literal d.next.here.span literal), d.next.next, ?_,
            hcd₁.next hword, fun hsigned => Bool.noConfusion hsigned⟩
          show (expression (k + 1) ctx operandPower d.next >>= _) = _
          rw [hoperand]
          rfl
      | _ => exact .refused ⟨_, rfl⟩

/-! ## Statements -/

/-- What an expression may be extended to: no match and nothing that can be assigned to; and if it is an assignment, then
to what was extended. -/
structure Longer (left node : Node) : Prop where
  target : node.isTarget = false
  cases : ∀ span scrutinee arms, node ≠ .cases span scrutinee arms
  assign : ∀ span target value, node = .assign span target value → target = left ∧ left.isTarget = true

theorem longer_join {left right : Node} {connective : Connective} (h : connective = .assign → left.isTarget = true) :
    Longer left (join left connective right) := by
  cases connective with
  | assign =>
    refine ⟨rfl, nofun, ?_⟩
    rintro _ _ _ ⟨⟩
    exact ⟨rfl, h rfl⟩
  | _ => exact ⟨rfl, nofun, nofun⟩

theorem extend_yields_longer {expr : ExpressionReader} {ctx : Context} {least : Nat} {left : Node} :
    Yields c (extend expr n ctx least left) fun longer _ => ∀ node ∈ longer, Longer left node := by
  have hlonger {node : Node} {c : Cursor} (h : Longer left node) :
      Yields c (Pure.pure (some node)) fun longer _ => ∀ node ∈ longer, Longer left node := by
    refine .pure ?_
    rintro _ ⟨⟩
    exact h
  have hjoin {connective : Connective} {c : Cursor} (h : connective = .assign → left.isTarget = true) : Yields c (do
      let right ← expr ctx connective.powers.2
      return some (join left connective right)) fun longer _ => ∀ node ∈ longer, Longer left node :=
    .skip fun right c => hlonger (longer_join h)
  refine .look ?_
  dsimp only
  split
  · exact .pure nofun
  · split
    · refine .skip fun _ c => .skip fun member c => .skip fun isCall c => ?_
      split
      · exact .skip fun args c => hlonger ⟨rfl, nofun, nofun⟩
      · exact hlonger ⟨rfl, nofun, nofun⟩
    · exact .skip fun _ c => .skip fun index c => .skip fun close c => hlonger ⟨rfl, nofun, nofun⟩
    · split
      · exact .pure nofun
      · next connective hs =>
        split
        · exact .pure nofun
        · refine .skip fun _ c => ?_
          split
          · rw [if_pos rfl]
            split
            · exact .bind (P := fun _ _ => False) (.fail _ _) fun _ _ h => h.elim
            · next htarget =>
              rw [Bool.not_eq_true', Bool.not_eq_false] at htarget
              exact hjoin fun _ => htarget
          · next hne =>
            rw [if_neg Bool.false_ne_true]
            exact hjoin fun heq => (hne heq).elim
    · exact .pure nofun

/-- An expression that is read from `left` on is `left` itself, or no match and, if it is an assignment, one to `left`. -/
theorem climb_yields_longer {expr : ExpressionReader} {ctx : Context} {least : Nat} {left : Node} :
    Yields c (climb expr n ctx least m left) fun node _ => node = left ∨
      (∀ span scrutinee arms, node ≠ .cases span scrutinee arms) ∧
        ∀ span target value, node = .assign span target value → target = left ∧ left.isTarget = true := by
  induction m generalizing c left with
  | zero => exact .look (.fail _ _)
  | succ m ih =>
    refine extend_yields_longer.bind fun longer c₁ hlonger => ?_
    cases longer with
    | none => exact .pure (.inl rfl)
    | some longer =>
      obtain ⟨htarget, hcases, hassign⟩ := hlonger longer rfl
      refine ih.mono fun node c₂ hnode => .inr ?_
      rcases hnode with rfl | ⟨hcases', hassign'⟩
      · exact ⟨hcases, hassign⟩
      · -- what was extended once cannot be assigned to
        refine ⟨hcases', fun span target value heq => ?_⟩
        rw [(hassign' span target value heq).2] at htarget
        cases htarget

def separatesArms (t : Token) : Bool := isSymbol .comma t || isSymbol .semicolon t

theorem expect_yields (s : Symbol) : Yields c (expect s) fun _ c₁ => c₁ = c.next ∧ c.here.token = .symbol s := by
  intro span c₁ h
  rw [Seam.Agrees.expect_eq] at h
  split at h
  · next hs =>
    cases h
    exact ⟨rfl, Token.eq_of_isSymbol hs⟩
  · cases h

theorem expectWord_yields (k : Keyword) : Yields c (expectWord k) fun _ c₁ => c₁ = c.next := by
  refine .look ?_
  split
  · rintro _ _ ⟨⟩
    rfl
  · exact .failHere _

theorem cases_yields_arm {expr : ExpressionReader} {ctx : Context}
    (hscrutinee : Yields c.next (expr .scrutinee 0) fun _ c₁ => c₁ = d) (hword : c.here.token = .keyword .match) :
    Yields c (primary expr n ctx) fun node _ => ∀ span scrutinee pat body,
      node = .cases span scrutinee [(pat, body)] → ∃ c₁,
        pattern n (d.next.skip separatesArms) = .ok (pat, c₁) ∧ c₁.here.token = .symbol .arrow := by
  have hcases : Yields c (cases expr n) fun node _ => ∀ span scrutinee pat body,
      node = .cases span scrutinee [(pat, body)] → ∃ c₁,
        pattern n (d.next.skip separatesArms) = .ok (pat, c₁) ∧ c₁.here.token = .symbol .arrow := by
    refine (expectWord_yields _).bind fun first c₁ hc₁ => ?_
    subst hc₁
    refine hscrutinee.bind fun scrutinee c₂ hc₂ => ?_
    subst hc₂
    refine (expect_yields _).bind fun opening c₃ hc₃ => ?_
    obtain rfl := hc₃.1
    have harm : Yields c₂.next (do
        skipWhile fun t => isSymbol .comma t || isSymbol .semicolon t
        if ← isAt .closeBrace then return none
        if ← atEnd then fail .unclosedMatch opening
        let pat ← pattern n
        let _ ← expect .arrow
        let body ← expr .nested 0
        let l ← here
        if isSymbol .comma l.token || isSymbol .closeBrace l.token || l.afterBreak then
          return some (pat, body)
        else failHere .expectedArmEnd) fun arm _ => ∀ pat body, arm = some (pat, body) → ∃ c₁,
          pattern n (c₂.next.skip separatesArms) = .ok (pat, c₁) ∧ c₁.here.token = .symbol .arrow := by
      show Yields (c₂.next.skip separatesArms) (if isSymbol .closeBrace _ = true then _ else _) _
      split
      · exact .pure nofun
      · show Yields (c₂.next.skip separatesArms) (if Token.isEnd _ = true then _ else _) _
        split
        · exact .bind (P := fun _ _ => False) (.fail _ _) fun _ _ h => h.elim
        · refine Yields.bind (P := fun pat c₃ => pattern n (c₂.next.skip separatesArms) = .ok (pat, c₃))
            (fun _ _ h => h) fun pat c₃ hpat => (expect_yields _).bind fun arrow c₄ harrow => .skip fun body c₅ => .look ?_
          split
          · refine .pure ?_
            rintro _ _ ⟨⟩
            exact ⟨c₃, hpat, harrow.2⟩
          · exact .failHere _
    cases n with
    | zero => exact .bind (P := fun _ _ => False) (.look (.fail _ _)) fun _ _ h => h.elim
    | succ n =>
      refine Yields.bind (P := fun arms _ => ∀ pat body, arms = [(pat, body)] → ∃ c₁,
        pattern (n + 1) (c₂.next.skip separatesArms) = .ok (pat, c₁) ∧ c₁.here.token = .symbol .arrow)
        (harm.bind fun arm c₃ harm => ?_) fun arms c₃ harms => .skip fun closing c₄ => .pure ?_
      · cases arm with
        | none => exact .pure nofun
        | some arm =>
          refine .skip fun arms c₄ => .pure ?_
          rintro _ _ ⟨⟩
          exact harm _ _ rfl
      · rintro _ _ pat body ⟨⟩
        exact harms pat body rfl
  obtain ⟨last, ⟨token, span, afterBreak, touches⟩, ahead⟩ := c
  obtain rfl : token = .keyword .match := hword
  exact hcases

/-- A name before a brace is the whole scrutinee of a match. -/
theorem scrutinee_yields {text : String} (hname : c.here.token = .ident text)
    (hbrace : c.next.here.token = .symbol .openBrace) :
    Yields c (expression n .scrutinee 0) fun _ c₁ => c₁ = c.next := by
  cases n with
  | zero => exact .look (.fail _ _)
  | succ n =>
    have hprimary : primary (expression n) (n + 1) .scrutinee c = .ok (.ident c.here.span text, c.next) := by
      have hafter : primary (expression n) (n + 1) .scrutinee c =
          (Reader.name c >>= fun x => afterName (expression n) (n + 1) .scrutinee x.1 x.2) := by
        obtain ⟨last, ⟨token, span, afterBreak, touches⟩, ahead⟩ := c
        obtain rfl : token = .ident text := hname
        rfl
      rw [hafter, Seam.Agrees.name_eq, hname]
      show (if isSymbol .openParen c.next.here.token = true then _ else _ : Reader Node) c.next = _
      rw [hbrace]
      rfl
    have hends : c.next.Ends Context.scrutinee.pairs 0 :=
      Cursor.ends_of_symbol hbrace (by decide) (by decide) nofun
    intro node c₁ h
    replace h : (primary (expression n) (n + 1) .scrutinee c >>= fun x =>
      climb (expression n) (n + 1) .scrutinee 0 (n + 1) x.1 x.2) = .ok (node, c₁) := h
    rw [hprimary] at h
    replace h : climb (expression n) (n + 1) .scrutinee 0 (n + 1) (.ident c.here.span text) c.next = .ok (node, c₁) := h
    rw [climb_ends hends] at h
    cases h
    rfl

/-- In a match that looks at a name the first arm is read from its pattern on. -/
theorem expression_yields_arm {ctx : Context} {least : Nat} {text : String} (hword : c.here.token = .keyword .match)
    (hname : c.next.here.token = .ident text) (hbrace : c.next.next.here.token = .symbol .openBrace) :
    Yields c (expression n ctx least) fun node _ => ∀ span scrutinee pat body,
      node = .cases span scrutinee [(pat, body)] → ∃ c₁,
        pattern n (c.next.next.next.skip separatesArms) = .ok (pat, c₁) ∧ c₁.here.token = .symbol .arrow := by
  cases n with
  | zero => exact .look (.fail _ _)
  | succ n =>
    refine (cases_yields_arm (scrutinee_yields hname hbrace) hword).bind fun left c₁ hleft => ?_
    refine climb_yields_longer.mono fun node c₂ hnode => ?_
    rcases hnode with rfl | ⟨hcases, -⟩
    · exact hleft
    · exact fun span scrutinee pat body heq => (hcases span scrutinee _ heq).elim

theorem programItem_yields : Yields c (programItem n) fun statement _ => ∀ node ∈ statement,
    ∃ c₁, expression n .nested 0 (c.skip (isSymbol .semicolon)) = .ok (node, c₁) := by
  show Yields (c.skip (isSymbol .semicolon)) (if Token.isEnd _ = true then _ else _) _
  split
  · exact .pure nofun
  · refine Yields.bind (P := fun node c₁ => expression n .nested 0 (c.skip (isSymbol .semicolon)) = .ok (node, c₁))
      (fun _ _ h => h) fun node c₁ hnode => .skip fun _ c₂ => .pure ?_
    rintro _ ⟨⟩
    exact ⟨c₁, hnode⟩

theorem statements_yields_first {first : Bool} : Yields c (collect (fun _ => programItem n) m first) fun statements _ =>
    ∀ node, statements = [node] → ∃ c₁, programItem n c = .ok (some node, c₁) := by
  cases m with
  | zero => exact .look (.fail _ _)
  | succ m =>
    refine Yields.bind (P := fun statement c₁ => programItem n c = .ok (statement, c₁)) (fun _ _ h => h)
      fun statement c₁ hstatement => ?_
    cases statement with
    | none => exact .pure nofun
    | some node =>
      refine .skip fun rest c₂ => .pure ?_
      rintro _ ⟨⟩
      exact ⟨c₁, hstatement⟩

theorem separatesArms_of_followsPattern {t : Token} (h : t.followsPattern = true) : separatesArms t = false := by
  rw [separatesArms, Token.isSymbol_of_followsPattern h (by decide), Token.isSymbol_of_followsPattern h (by decide)]
  rfl

theorem primary_of_separatesArms (expr : ExpressionReader) (n : Nat) (ctx : Context) (h : separatesArms c.here.token = true) :
    ∃ e, primary expr n ctx c = .error e := by
  obtain ⟨last, ⟨token, span, afterBreak, touches⟩, ahead⟩ := c
  rcases Bool.or_eq_true_iff.1 h with hs | hs
  all_goals
    obtain rfl := Token.eq_of_isSymbol hs
    exact ⟨_, rfl⟩

/-- What is assigned to is the pattern of the arm, if the two stand before lexemes that are alike. -/
theorem target_of_arm (hcd : c.Alongside d) (hnk : n ≤ k) {pat : Node} {c₁ : Cursor}
    (hpat : pattern n (c.skip separatesArms) = .ok (pat, c₁)) (harrow : c₁.here.token = .symbol .arrow) {span : Span}
    {target value : Node} {d₁ : Cursor}
    (hassign : expression (k + 1) .nested 0 (d.skip (isSymbol .semicolon)) = .ok (.assign span target value, d₁))
    (hsigned : target.signed = false) : pat.Same target := by
  have hskip : (c.skip (isSymbol .semicolon)).Alongside (d.skip (isSymbol .semicolon)) :=
    hcd.skip fun t ht => Token.isSymbol_of_followsPattern ht (by decide)
  generalize d.skip (isSymbol .semicolon) = d' at hskip hassign
  have hassign : (primary (expression k) (k + 1) .nested d' >>= fun x =>
    climb (expression k) (k + 1) .nested 0 (k + 1) x.1 x.2) = .ok (Node.assign span target value, d₁) := hassign
  rcases hprimary : primary (expression k) (k + 1) .nested d' with e | ⟨left, d₂⟩
  · rw [hprimary] at hassign
    cases hassign
  rw [hprimary] at hassign
  -- the statement begins after the semicolons, and so does the arm
  have hstart : c.skip separatesArms = c.skip (isSymbol .semicolon) := by
    rw [← c.skip_skip (q := isSymbol .semicolon) fun t ht => by rw [separatesArms, ht, Bool.or_true]]
    refine Cursor.skip_eq _ (eq_false_of_ne_true fun hseparates => ?_)
    rw [hskip.test_eq fun t ht => separatesArms_of_followsPattern ht] at hseparates
    obtain ⟨e, he⟩ := primary_of_separatesArms (expression k) (k + 1) .nested hseparates
    rw [hprimary] at he
    cases he
  rw [hstart] at hpat
  obtain ⟨left', d₂', hleft, -, hmirrors⟩ := copies_primary hnk .nested rfl hskip pat c₁ hpat (.inr harrow)
  rw [hprimary] at hleft
  cases hleft
  rcases climb_yields_longer _ _ hassign with rfl | ⟨-, htarget⟩
  · -- an assignment is no pattern
    have hpattern := pattern_yields n pat c₁ hpat
    have hsame : pat.erase = .assign .nowhere target.erase value.erase := hmirrors rfl
    cases pat with
    | assign _ _ _ => cases hpattern
    | _ => cases hsame
  · obtain ⟨rfl, -⟩ := htarget span target value rfl
    exact hmirrors hsigned

end Grammar

/-! ## Texts -/

namespace Program

/-- What `v` is assigned to by a text with `:= v` after it. -/
def target? (text : String) : Option Node :=
  match Program.parse (text ++ " := v") with
  | .ok [.assign _ target (.ident _ "v")] => some target
  | _ => none

/-- The pattern of the arm that a text with `=> v` after it is, in a match that looks at `v`. -/
def arm? (text : String) : Option Node :=
  match Program.parse ("match v \x7b " ++ text ++ " => v \x7d") with
  | .ok [.cases _ (.ident _ "v") [(pattern, .ident _ "v")]] => some pattern
  | _ => none

theorem exists_of_target? {text : String} {target : Node} (h : target? text = some target) :
    ∃ span place, Program.parse (text ++ " := v") = .ok [.assign span target (.ident place "v")] := by
  unfold target? at h
  split at h
  · next heq =>
    cases h
    exact ⟨_, _, heq⟩
  · cases h

theorem exists_of_arm? {text : String} {pattern : Node} (h : arm? text = some pattern) :
    ∃ span first last, Program.parse ("match v \x7b " ++ text ++ " => v \x7d") =
      .ok [.cases span (.ident first "v") [(pattern, .ident last "v")]] := by
  unfold arm? at h
  split at h
  · next heq =>
    cases h
    exact ⟨_, _, _, heq⟩
  · cases h

end Program

namespace Token

section Steps

variable {c : Char} {cs : List Char} {n : Nat} (p : Place) (gap : Gap)

theorem scanFrom_token {token : Token} (h : piece c cs = (some token, n)) :
    ∃ l q, l.token = token ∧ scanFrom p gap (c :: cs) = l :: scanFrom q .closed (cs.drop n) := by
  rw [scanFrom, h]
  exact ⟨_, _, rfl, rfl⟩

theorem scanFrom_pass (h : piece c cs = (none, n)) :
    ∃ q gap', scanFrom p gap (c :: cs) = scanFrom q gap' (cs.drop n) := by
  rw [scanFrom, h]
  exact ⟨_, _, rfl⟩

end Steps

theorem tail_assign : Tail [' ', ':', '=', ' ', 'v'] where
  begins := rfl
  plain := by simp
  stops p gap := by
    obtain ⟨q, gap', hspace⟩ := scanFrom_pass p gap (show piece ' ' [':', '=', ' ', 'v'] = (none, 0) from rfl)
    obtain ⟨l, r, hl, hassign⟩ := scanFrom_token q gap' (show piece ':' ['=', ' ', 'v'] = (some (.symbol .assign), 1) from rfl)
    exact ⟨l, _, hspace.trans hassign, by rw [hl]; rfl⟩

theorem tail_arrow : Tail [' ', '=', '>', ' ', 'v', ' ', '\x7d'] where
  begins := rfl
  plain := by simp
  stops p gap := by
    obtain ⟨q, gap', hspace⟩ := scanFrom_pass p gap
      (show piece ' ' ['=', '>', ' ', 'v', ' ', '\x7d'] = (none, 0) from rfl)
    obtain ⟨l, r, hl, harrow⟩ := scanFrom_token q gap'
      (show piece '=' ['>', ' ', 'v', ' ', '\x7d'] = (some (.symbol .arrow), 1) from rfl)
    exact ⟨l, _, hspace.trans harrow, by rw [hl]; rfl⟩

theorem scan_assign (text : String) :
    scan (text ++ " := v") = scanFrom .origin .initial (text.toList ++ [' ', ':', '=', ' ', 'v']) := by
  rw [scan, String.toList_append]
  rfl

/-- The words before the first arm of a match. -/
theorem scan_match (text : String) : ∃ first value opening : Lexeme, ∃ p gap,
    first.token = .keyword .match ∧ value.token = .ident "v" ∧ opening.token = .symbol .openBrace ∧
      scan ("match v \x7b " ++ text ++ " => v \x7d") =
        first :: value :: opening :: scanFrom p gap (text.toList ++ [' ', '=', '>', ' ', 'v', ' ', '\x7d']) := by
  generalize hcs : text.toList ++ [' ', '=', '>', ' ', 'v', ' ', '\x7d'] = cs
  have hlist : ("match v \x7b " ++ text ++ " => v \x7d").toList =
      'm' :: 'a' :: 't' :: 'c' :: 'h' :: ' ' :: 'v' :: ' ' :: '\x7b' :: ' ' :: cs := by
    rw [String.toList_append, String.toList_append, List.append_assoc, ← hcs]
    rfl
  obtain ⟨first, p₁, hfirst, h₁⟩ := scanFrom_token .origin .initial
    (show piece 'm' ('a' :: 't' :: 'c' :: 'h' :: ' ' :: 'v' :: ' ' :: '\x7b' :: ' ' :: cs) = (some (.keyword .match), 4)
      from rfl)
  obtain ⟨p₂, gap₂, h₂⟩ := scanFrom_pass p₁ .closed (show piece ' ' ('v' :: ' ' :: '\x7b' :: ' ' :: cs) = (none, 0) from rfl)
  obtain ⟨value, p₃, hvalue, h₃⟩ := scanFrom_token p₂ gap₂
    (show piece 'v' (' ' :: '\x7b' :: ' ' :: cs) = (some (.ident "v"), 0) from rfl)
  obtain ⟨p₄, gap₄, h₄⟩ := scanFrom_pass p₃ .closed (show piece ' ' ('\x7b' :: ' ' :: cs) = (none, 0) from rfl)
  obtain ⟨opening, p₅, hopening, h₅⟩ := scanFrom_token p₄ gap₄
    (show piece '\x7b' (' ' :: cs) = (some (.symbol .openBrace), 0) from rfl)
  obtain ⟨p₆, gap₆, h₆⟩ := scanFrom_pass p₅ .closed (show piece ' ' cs = (none, 0) from rfl)
  refine ⟨first, value, opening, p₆, gap₆, hfirst, hvalue, hopening, ?_⟩
  calc scan ("match v \x7b " ++ text ++ " => v \x7d")
      = scanFrom .origin .initial ('m' :: 'a' :: 't' :: 'c' :: 'h' :: ' ' :: 'v' :: ' ' :: '\x7b' :: ' ' :: cs) := by
        rw [scan, hlist]
    _ = first :: scanFrom p₂ gap₂ ('v' :: ' ' :: '\x7b' :: ' ' :: cs) := h₁.trans (congrArg _ h₂)
    _ = first :: value :: scanFrom p₄ gap₄ ('\x7b' :: ' ' :: cs) := congrArg _ (h₃.trans (congrArg _ h₄))
    _ = first :: value :: opening :: scanFrom p₆ gap₆ cs :=
        congrArg _ (congrArg _ (h₅.trans (congrArg _ h₆)))

end Token

namespace Program

open Grammar

/-- The only statement of a program, read with as many rounds as one likes, if there are enough. -/
theorem programItem_of_parse {source : String} {statement : Node} (h : Program.parse source = .ok [statement]) {m : Nat}
    (hm : (Token.scan source).length + 1 ≤ m) : ∃ node c, programItem m (.start (Token.scan source)) = .ok (some node, c) ∧
      statement.Same node := by
  obtain ⟨c, hrun⟩ := exists_of_parse h
  obtain ⟨words, stop, hscan, hstop, hwords⟩ := (Token.laid_scan source).exists_words
  have hlike (ls : List Lexeme) : List.Forall₂ Placing.nowhere.Twins ls ls :=
    List.forall₂_same.2 fun _ _ => ⟨⟨rfl, rfl, rfl⟩, rfl⟩
  have hplace (span : Span) : Placing.nowhere.Same span span := rfl
  have hstart : (Cursor.start (Token.scan source)).here :: (Cursor.start (Token.scan source)).ahead = words ++ [stop] := by
    rw [hscan]
    cases words <;> rfl
  obtain ⟨nodes, c₁, hnodes, hrel⟩ := statements_elsewhere hm hwords hstop hstart rfl (hplace _) (hlike _) hrun 0 true
  cases hrel with
  | @cons _ node _ _ hnode hnil =>
    cases hnil
    obtain ⟨c₂, hitem⟩ := statements_yields_first _ _ hnodes node rfl
    refine ⟨node, c₂, hitem, ?_⟩
    rw [Node.Same, ← Node.moved_nowhere, ← Node.moved_nowhere]
    exact hnode

/-- What a text assigns to is the pattern of the arm that it is, unless there is a minus sign in it. -/
theorem same_of_texts {text : String} {target pattern : Node} (ht : target? text = some target)
    (hp : arm? text = some pattern) (hsigned : target.signed = false) : pattern.Same target := by
  obtain ⟨span, place, hassign⟩ := exists_of_target? ht
  obtain ⟨span', first, last, hmatch⟩ := exists_of_arm? hp
  obtain ⟨c, hrun⟩ := exists_of_parse hmatch
  obtain ⟨word, value, opening, p, gap, hword, hvalue, hopening, hscan⟩ := Token.scan_match text
  have hlists := (Token.scanFrom_alongside Token.tail_arrow Token.tail_assign p .origin gap .initial text.toList).1
  generalize hn : (Token.scan ("match v \x7b " ++ text ++ " => v \x7d")).length + 1 = n at hrun
  obtain ⟨node, d₁, hnode, hsame⟩ := programItem_of_parse hassign
    (m := n + (Token.scan (text ++ " := v")).length + 1) (by omega)
  rw [hscan] at hrun
  rw [Token.scan_assign] at hnode
  generalize Token.scanFrom p gap _ = ls at hlists hrun
  generalize Token.scanFrom .origin .initial _ = ls' at hlists hnode
  -- the arm is read after the brace, and something of it stands there
  have harm {l : Lexeme} {rest : List Lexeme} (hls : ls = l :: rest) : ∃ c₁,
      Grammar.pattern n ((⟨opening.span, l, rest⟩ : Cursor).skip separatesArms) = .ok (pattern, c₁) ∧
        c₁.here.token = .symbol .arrow := by
    subst hls
    obtain ⟨c₁, hitem⟩ := statements_yields_first _ _ hrun _ rfl
    obtain ⟨c₂, hexpr⟩ := programItem_yields _ _ hitem _ rfl
    rw [Cursor.skip_eq _ (by rw [Cursor.start, hword]; rfl)] at hexpr
    exact expression_yields_arm (c := .start (word :: value :: opening :: l :: rest)) hword hvalue hopening _ _ hexpr
      _ _ _ _ rfl
  have hbegins {l : Lexeme} {rest : List Lexeme} (hls : ls = l :: rest) : l.token.followsPattern = false := by
    refine eq_false_of_ne_true fun hstop => ?_
    obtain ⟨c₁, hpat, -⟩ := harm hls
    rw [Cursor.skip_eq _ (separatesArms_of_followsPattern hstop), ← hn] at hpat
    obtain ⟨e, he⟩ := pattern_of_followsPattern (c := ⟨opening.span, l, rest⟩) hstop
    rw [he] at hpat
    cases hpat
  cases hlists with
  | @edge l l' rest rest' stop stop' =>
    rw [hbegins rfl] at stop
    cases stop
  | @word l l' rest rest' htoken hrest =>
    obtain ⟨c₁, hpat, harrow⟩ := harm rfl
    obtain ⟨x, xs, rfl⟩ : ∃ x xs, rest' = x :: xs := by
      cases hrest <;> exact ⟨_, _, rfl⟩
    have hne : l'.token ≠ .eof := by
      intro heof
      have := hbegins rfl
      rw [htoken, heof] at this
      cases this
    -- the first word of the assignment is read as if it were set off like that of the arm
    rw [Cursor.start, programItem_setOff .nowhere .nowhere l'.span l'.token hne l'.afterBreak l'.touches
      l.afterBreak l.touches] at hnode
    obtain ⟨d₂, hexpr⟩ := programItem_yields _ _ hnode _ rfl
    cases node with
    | assign s t v =>
      have htarget : target.Same t := by
        simp only [Node.Same, Node.erase, Node.assign.injEq] at hsame
        exact hsame.2.1
      have hcd : (⟨opening.span, l, rest⟩ : Cursor).Alongside
          ⟨.nowhere, ⟨l'.token, l'.span, l.afterBreak, l.touches⟩, x :: xs⟩ := .word ⟨htoken, rfl, rfl⟩ hrest
      have ht : t.signed = false := by
        rw [← Node.signed_erase, ← show target.erase = t.erase from htarget, Node.signed_erase, hsigned]
      exact (target_of_arm hcd (by omega) hpat harrow hexpr ht).trans htarget.symm
    | _ => cases hsame

end Program

end DispatchLang
