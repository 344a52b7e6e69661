import DispatchLang.Proofs.Grammar.Placement

/-!
# The spans of a parsed program

Every node of a program that was read from a text is placed in it, and every error points into it. The
grammar is gone through reader by reader: types, parameters and declarations hold no nodes and only move
the cursor on, patterns and expressions answer nodes that lie where they were read. An operator is added to a
node that was read earlier, so `extend` and `climb` are given the offset at which that one began to be
read.

Nodes are told apart by their *paths*, the numbers of the children to go to from the statements on. Nested spans
make for different keys: of two nodes with different paths either one is part of the other, and takes up
less, or there is a node that has them in two of its children, which stand apart.

## Main results

* `Grammar.readsNode_expression`: the nodes of an expression are placed.
* `Program.spans_of_parse`: the spans of a program, and of an error, are pieces of the text and nested.
-/

namespace DispatchLang

/-! ## Readers of declarations -/

namespace Grammar

open Reader

section Declarations

variable {L : List Lexeme}

theorem moves_typeExpr (n : Nat) : Moves L (typeExpr n) := by
  induction n with
  | zero => exact .outOfRounds
  | succ n ih =>
    intro c
    rw [typeExpr]
    refine Reads.name.bind fun c₁ head _ _ => .here_bind fun _ => ?_
    refine Reads.here_bind fun _ => ?_
    split
    · next h =>
      rw [Bool.and_eq_true] at h
      refine Reads.take_bind (Reads.ne_eof_of_isSymbol h.1) fun _ => Moves.reads ?_ _
      exact (Moves.separated ih).bind fun _ => (Moves.expect _).bind fun _ => .pure _
    · exact .pure trivial

theorem moves_typeAfter (s : Symbol) (rounds : Nat) : Moves L (typeAfter s rounds) := by
  refine (Moves.accept s).bind fun b => ?_
  split
  · exact (moves_typeExpr rounds).bind fun _ => .pure _
  · exact .pure _

theorem moves_param (rounds : Nat) : Moves L (param rounds) :=
  Moves.name.bind fun _ => (moves_typeAfter _ _).bind fun _ => .pure _

theorem moves_typeParam (rounds : Nat) : Moves L (typeParam rounds) :=
  Moves.name.bind fun _ => (moves_typeAfter _ _).bind fun _ => .pure _

theorem moves_typeParams (rounds : Nat) : Moves L (typeParams rounds) := by
  refine (Moves.accept _).bind fun b => ?_
  split
  · exact (Moves.separated (moves_typeParam rounds)).bind fun _ => (Moves.expect _).bind fun _ => .pure _
  · exact .pure _

theorem moves_closureParams (n : Nat) : Moves L (closureParams n) := by
  induction n with
  | zero => exact .outOfRounds
  | succ n ih =>
    refine (moves_param _).bind fun p => (Moves.accept _).bind fun b => ?_
    split
    · exact ih.bind fun _ => .pure _
    · exact (Moves.expect _).bind fun _ => .pure _

theorem moves_functionParams (rounds : Nat) : Moves L (functionParams rounds) := by
  intro c
  refine Reads.here_bind fun _ => ?_
  split
  · next h =>
    have hne : c.here.token ≠ .eof := by rw [h]; exact Token.noConfusion
    refine Reads.take_bind hne fun _ => Moves.reads ?_ _
    exact (Moves.separated (moves_param rounds)).bind fun _ => (Moves.expect _).bind fun _ => .pure _
  · exact (moves_param rounds).bind (fun _ => .pure _) c
  · exact .pure trivial
  · exact .failHere

/-- The first word of a function declaration lies before the body. -/
theorem reads_functionHead (rounds : Nat) (c : Cursor) :
    Reads L c (functionHead rounds) fun c' x => x.1.Lies L c.pos c'.pos := by
  refine (Reads.expectWord _).bind fun c₁ first _ hfirst => ?_
  refine Reads.name.bind fun c₂ head h₁₂ _ => ?_
  refine (moves_typeParams rounds c₂).bind fun c₃ types h₂₃ _ => ?_
  refine (moves_functionParams rounds c₃).bind fun c₄ params h₃₄ _ => ?_
  refine (Reads.expect _).bind fun c₅ _ h₄₅ _ => .pure ?_
  exact hfirst.mono le_rfl (h₁₂.trans (h₂₃.trans (h₃₄.trans h₄₅)))

theorem moves_fieldDecl (rounds : Nat) : Moves L (fieldDecl rounds) := by
  intro c
  refine Reads.here_bind fun _ => ?_
  split
  · refine Moves.reads (Moves.name.bind fun _ => (Moves.accept _).bind fun b => ?_) c
    split
    · exact (moves_typeExpr rounds).bind fun _ => .pure _
    · exact .failHere
  · exact .failHere

theorem moves_variantDecl (rounds : Nat) : Moves L (variantDecl rounds) := by
  intro c
  refine Reads.name.bind fun c₁ head _ _ => .here_bind fun _ => .here_bind fun _ => ?_
  split
  · next h =>
    rw [Bool.and_eq_true] at h
    refine Reads.take_bind (Reads.ne_eof_of_isSymbol h.1) fun _ => Moves.reads ?_ _
    exact (Moves.lines (moves_fieldDecl rounds)).bind fun _ => (Moves.expect _).bind fun _ => .pure _
  · exact .pure trivial

theorem moves_variantDecls (n : Nat) : Moves L (variantDecls n) := by
  induction n with
  | zero => exact .outOfRounds
  | succ n ih =>
    refine (moves_variantDecl _).bind fun v => (Moves.accept _).bind fun b => ?_
    split
    · exact ih.bind fun _ => .pure _
    · exact .pure _

theorem moves_typeBody (rounds : Nat) : Moves L (typeBody rounds) := by
  refine (Moves.accept _).bind fun b => ?_
  split
  · exact (Moves.lines (moves_fieldDecl rounds)).bind fun _ => (Moves.expect _).bind fun _ => .pure _
  · refine (Moves.accept _).bind fun b => ?_
    split
    · exact (moves_variantDecls rounds).bind fun _ => .pure _
    · exact .pure _

/-- A declaration goes on to the lexeme taken last. -/
theorem readsNode_typeDecl (rounds : Nat) : ReadsNode L (typeDecl rounds) := by
  intro c
  refine (Reads.expectWord _).bind fun c₁ first _ hfirst => ?_
  refine Reads.name.bind fun c₂ head h₁₂ _ => ?_
  refine (moves_typeParams rounds c₂).bind fun c₃ params h₂₃ _ => ?_
  refine (moves_typeAfter _ rounds c₃).bind fun c₄ parent h₃₄ _ => ?_
  refine (moves_typeBody rounds c₄).bind fun c₅ body h₄₅ _ => .get_bind fun hc₅ => .pure ?_
  exact .leaf (hc₅.cover_last hfirst (h₁₂.trans (h₂₃.trans (h₃₄.trans h₄₅)))) rfl

theorem readsNode_abstractDecl (rounds : Nat) : ReadsNode L (abstractDecl rounds) := by
  intro c
  refine (Reads.expectWord _).bind fun c₁ first _ hfirst => .here_bind fun _ => ?_
  have hrest {c₂ : Cursor} (h : c₁.pos ≤ c₂.pos) : Reads L c₂ (do
      let head ← name
      let parent ← typeAfter .below rounds
      return .typeDecl (first.cover (← get).last) ⟨head, [], parent, .abstract⟩ : Reader Node) fun c' node =>
        node.Lies L c.pos c'.pos := by
    refine Reads.name.bind fun c₃ head h₂₃ _ => ?_
    refine (moves_typeAfter _ rounds c₃).bind fun c₄ parent h₃₄ _ => .get_bind fun hc₄ => .pure ?_
    exact .leaf (hc₄.cover_last hfirst (h.trans (h₂₃.trans h₃₄))) rfl
  dsimp only
  split
  · next h => exact Reads.take_bind (Reads.ne_eof_of_isKeyword h) fun hl => hrest hl.le
  · exact hrest le_rfl

end Declarations

/-! ## Patterns -/

section Patterns

variable {L : List Lexeme}

theorem fieldsAhead_bind {α : Type} {c : Cursor} {g : Bool → Reader α} {P : Cursor → α → Prop}
    (h : ∀ b, Reads L c (g b) P) : Reads L c (fieldsAhead >>= g) P := h _

/-- The values of fields are found one after the other, with the closing brace after them. -/
theorem reads_constructFields {item : Reader Node} (h : ReadsNode L item) (rounds : Nat) (c : Cursor) :
    Reads L c (constructFields item rounds) fun c' x => ∃ k m, c.pos ≤ k ∧
      Along (Node.Lies L) k m (x.1.map (·.2)) ∧ x.2.Lies L m c'.pos := by
  refine (Reads.expect _).bind fun c₁ _ h₁ _ => ?_
  refine (Reads.lines (R := fun p q x => x.2.Lies L p q) (fun c => ?_) Node.Lies.later).bind ?_
  · refine Reads.name.bind fun c₂ head h₂ _ => (Reads.expect _).bind fun c₃ _ h₃ _ => ?_
    exact (h c₃).bind fun c₄ node _ hnode => .pure (hnode.later (h₂.trans h₃))
  · refine fun c₂ fields _ hfields => (Reads.expect _).bind fun c₃ close _ hclose => .pure ?_
    exact ⟨_, _, h₁, hfields.map fun _ _ _ h => h, hclose⟩

/-- A construction lies between what came before its name and its closing brace. -/
theorem reads_construct {item : Reader Node} (h : ReadsNode L item) (rounds : Nat) {c : Cursor} {p : Nat}
    {head : Located String} (hhead : head.span.Lies L p c.pos) :
    Reads L c (do
      let (fields, close) ← constructFields item rounds
      return .construct (head.span.cover close) head fields : Reader Node) fun c' node =>
        node.Lies L p c'.pos := by
  refine (reads_constructFields h rounds c).bind fun c' x _ hx => .pure ?_
  obtain ⟨k, m, hk, hfields, hclose⟩ := hx
  exact .enclosed (hhead.mono le_rfl hk) hfields hclose rfl

theorem readsNode_captureWith {pat : Reader Node} (h : ReadsNode L pat) :
    ReadsNode L (captureWith pat) := by
  intro c
  refine (Reads.expect _).bind fun c₁ first _ hfirst => .here_bind fun _ => ?_
  have hrest {c₂ : Cursor} {bound : Option String} {span : Span} (hspan : span.Lies L c.pos c₂.pos) :
      Reads L c₂ (do
        let l ← here
        if !l.afterBreak && beginsRefinement l.token then
          let inner ← pat
          return .refine (span.cover inner.span) bound inner
        else return .capture span bound : Reader Node) fun c' node => node.Lies L c.pos c'.pos := by
    refine .here_bind fun _ => ?_
    split
    · exact (h c₂).bind fun c₃ inner _ hinner => .pure (.prefixed hspan hinner rfl rfl)
    · exact .pure (.leaf hspan rfl)
  dsimp only
  split
  · exact Reads.name.bind fun c₂ head _ hhead => .pure_bind (hrest (hfirst.cover hhead))
  · exact .pure_bind (hrest hfirst)

theorem ne_eof_of_negative? {t : Token} {value : Literal} (h : negative? t = some value) : t ≠ .eof := by
  rintro rfl
  cases h

theorem ne_eof_of_literal? {t : Token} {value : Literal} (h : literal? t = some value) : t ≠ .eof := by
  rintro rfl
  cases h

theorem reads_word {c : Cursor} {node : Node} (ht : c.here.token ≠ .eof) (hspan : node.span = c.here.span)
    (hc : node.children = []) :
    Reads L c (do let _ ← take; return node) fun c' node => node.Lies L c.pos c'.pos :=
  .take_bind ht fun hl => .pure (.leaf (hspan ▸ hl) hc)

theorem readsNode_pattern (n : Nat) : ReadsNode L (pattern n) := by
  induction n with
  | zero => exact fun _ => .outOfRounds
  | succ n ih =>
    intro c
    rw [pattern]
    refine Reads.here_bind fun _ => ?_
    split
    · exact readsNode_captureWith ih c
    · refine Reads.name.bind fun c₁ head _ hhead => fieldsAhead_bind fun b => ?_
      split
      · exact reads_construct ih (n + 1) hhead
      · exact .pure (.leaf hhead rfl)
    · next h =>
      have hne : c.here.token ≠ .eof := by rw [h]; exact Token.noConfusion
      refine Reads.take_bind hne fun hl => .here_bind fun _ => ?_
      split
      · next hvalue =>
        exact .take_bind (ne_eof_of_negative? hvalue) fun hnumber => .pure (.leaf (hl.cover hnumber) rfl)
      · exact .failHere
    · split
      · next hvalue => exact reads_word (ne_eof_of_literal? hvalue) rfl rfl
      · exact .failHere

end Patterns

/-! ## Expressions -/

section Expressions

variable {L : List Lexeme} {expr : ExpressionReader} {rounds : Nat}

theorem moves_statementEnd (inBlock : Bool) : Moves L (statementEnd inBlock) := by
  intro c
  refine Reads.here_bind fun hl => ?_
  split
  · next h =>
    have hne : c.here.token ≠ .eof := by rw [h]; exact Token.noConfusion
    exact .take_bind hne fun _ => .pure trivial
  · exact .pure trivial
  · exact .fail (.inr ⟨_, hl, rfl⟩)
  · split_ifs
    · exact .pure trivial
    · exact .pure trivial
    · exact .failHere

variable (he : ∀ ctx least, ReadsNode L (expr ctx least))
include he

theorem reads_arguments (c : Cursor) :
    Reads L c (arguments expr rounds) fun c' x => ∃ k m, c.pos ≤ k ∧
      Along (Node.Lies L) k m x.1 ∧ x.2.Lies L m c'.pos := by
  refine (Reads.expect _).bind fun c₁ _ h₁ _ => ?_
  refine (Reads.separated (he _ _) Node.Lies.later).bind fun c₂ args _ hargs => ?_
  exact (Reads.expect _).bind fun c₃ close _ hclose => .pure ⟨_, _, h₁, hargs, hclose⟩

theorem reads_afterName (ctx : Context) {c : Cursor} {p : Nat} {head : Located String}
    (hhead : head.span.Lies L p c.pos) :
    Reads L c (afterName expr rounds ctx head) fun c' node => node.Lies L p c'.pos := by
  refine .isAt_bind ?_
  split
  · refine (reads_arguments he c).bind fun c' x _ hx => .pure ?_
    obtain ⟨k, m, hk, hargs, hclose⟩ := hx
    exact .enclosed (hhead.mono le_rfl hk) hargs hclose rfl
  · refine fieldsAhead_bind fun b => ?_
    split
    · exact reads_construct (he _ _) rounds hhead
    · exact .pure (.leaf hhead rfl)

omit he in
theorem lies_of_pair {p q : Nat} {span : Span} {key value : Node}
    (h : (Node.pair span key value).Lies L p q) : key.span.Shown L ∧ value.Lies L p q := by
  obtain ⟨placed, after, before⟩ := h
  cases placed with
  | intro real children inside ordered =>
    have hvalue := List.mem_cons_of_mem key (List.mem_singleton_self value)
    obtain ⟨hstart, hstop, -⟩ := inside value hvalue
    exact ⟨.inl (children key List.mem_cons_self).real,
      children value hvalue, after.trans hstart, hstop.trans before⟩

omit he in
theorem checks_entries {p q : Nat} {elements : List Node} (h : Along (Node.Lies L) p q elements) :
    Checks L (fun fields => Along (Node.Lies L) p q (fields.map (·.2))) (entries elements) := by
  induction h with
  | nil h => exact .nil h
  | cons here rest ih =>
    unfold entries
    split
    · next hnil => cases hnil
    · next hcons =>
      obtain ⟨rfl, rfl⟩ := List.cons.inj hcons
      exact ih.bind fun _ hfields => .cons (lies_of_pair here).2 hfields
    · next hcons =>
      obtain ⟨rfl, rfl⟩ := List.cons.inj hcons
      exact ih.bind fun _ hfields => .cons (lies_of_pair here).2 hfields
    · next hcons =>
      obtain ⟨rfl, rfl⟩ := List.cons.inj hcons
      exact (lies_of_pair here).1
    · next hcons =>
      obtain ⟨rfl, rfl⟩ := List.cons.inj hcons
      exact ih.mono fun _ hfields => hfields.later Node.Lies.later here.span.le

omit he in
theorem checks_ofElements {p q k m : Nat} {opening closing : Span} {elements : List Node}
    (hopening : opening.Lies L p k) (h : Along (Node.Lies L) k m elements) (hclosing : closing.Lies L m q) :
    Checks L (Node.Lies L p q) (ofElements (opening.cover closing) elements) := by
  unfold ofElements
  split_ifs
  · exact Node.Lies.enclosed hopening h hclosing rfl
  · exact (checks_entries h).bind fun fields hfields => Node.Lies.enclosed hopening hfields hclosing rfl
  · exact .inl (hopening.cover (hclosing.mono h.le le_rfl)).real

theorem readsNode_list : ReadsNode L (list expr rounds) := by
  intro c
  refine (Reads.expect _).bind fun c₁ opening _ hopening => .get_bind fun hc₁ => ?_
  split
  · next h =>
    rw [Bool.and_eq_true] at h
    refine .take_bind (Reads.ne_eof_of_isSymbol h.1) fun hcolon => ?_
    refine .take_bind (Reads.ne_eof_of_isSymbol (Cursor.next_here h.2)) fun hclosing => .pure ?_
    exact .enclosed hopening (.nil hcolon.le) hclosing rfl
  · refine (Reads.separated (he _ _) Node.Lies.later).bind fun c₂ elements _ helements => ?_
    refine (Reads.expect _).bind fun c₃ closing _ hclosing => ?_
    exact .check (checks_ofElements hopening helements hclosing)

theorem readsNode_block : ReadsNode L (block expr rounds) := by
  intro c
  refine (Reads.expect _).bind fun c₁ opening _ hopening => ?_
  refine (Reads.attempt (moves_closureParams rounds c₁)).bind fun c₂ params h₁₂ _ => ?_
  refine (Reads.collect (R := Node.Lies L) (fun c first => ?_) rounds true).bind ?_
  · refine (Reads.skipWhile rfl).bind fun c' _ hle _ => .isAt_bind ?_
    split
    · exact .pure nofun
    refine .atEnd_bind fun b => ?_
    dsimp only
    have hrest {c' : Cursor} (hle : c.pos ≤ c'.pos) : Reads L c' (do
        let statement ← expr .nested 0
        statementEnd true
        return some statement : Reader (Option Node)) fun c'' o => ∀ node ∈ o, node.Lies L c.pos c''.pos := by
      refine (he _ _ c').bind fun c₃ statement _ hstatement => ?_
      refine (moves_statementEnd true c₃).bind fun c₄ _ h₃₄ _ => .pure fun node hnode => ?_
      exact Option.some.inj hnode ▸ hstatement.mono hle h₃₄
    split
    · exact (Reads.fail (P := fun _ _ => False) (.inl hopening.real)).bind fun _ _ _ h => h.elim
    · exact hrest hle
  · refine fun c₃ body _ hbody => (Reads.expect _).bind fun c₄ closing _ hclosing => .pure ?_
    exact .enclosed (hopening.mono le_rfl h₁₂) hbody hclosing rfl

theorem readsNode_cases : ReadsNode L (cases expr rounds) := by
  intro c
  refine (Reads.expectWord _).bind fun c₁ first _ hfirst => ?_
  refine (he _ _ c₁).bind fun c₂ scrutinee _ hscrutinee => ?_
  refine (Reads.expect _).bind fun c₃ opening h₂₃ hopening => ?_
  refine (Reads.collect (R := fun p q arm => ∃ m, arm.1.Lies L p m ∧ arm.2.Lies L m q)
    (fun c first => ?_) rounds true).bind ?_
  · refine (Reads.skipWhile rfl).bind fun c' _ hle _ => .isAt_bind ?_
    split
    · exact .pure nofun
    refine .atEnd_bind fun b => ?_
    dsimp only
    have hrest {c' : Cursor} (hle : c.pos ≤ c'.pos) : Reads L c' (do
        let pat ← pattern rounds
        let _ ← expect .arrow
        let body ← expr .nested 0
        let l ← here
        if isSymbol .comma l.token || isSymbol .closeBrace l.token || l.afterBreak then
          return some (pat, body)
        else failHere .expectedArmEnd : Reader (Option (Node × Node))) fun c'' o =>
          ∀ arm ∈ o, ∃ m, arm.1.Lies L c.pos m ∧ arm.2.Lies L m c''.pos := by
      refine (readsNode_pattern rounds c').bind fun c₄ pat _ hpat => ?_
      refine (Reads.expect _).bind fun c₅ _ h₄₅ _ => ?_
      refine (he _ _ c₅).bind fun c₆ body _ hbody => .here_bind fun _ => ?_
      split
      · refine .pure fun arm harm => ?_
        obtain rfl := Option.some.inj harm
        exact ⟨c₅.pos, hpat.mono hle h₄₅, hbody⟩
      · exact .failHere
    split
    · exact (Reads.fail (P := fun _ _ => False) (.inl hopening.real)).bind fun _ _ _ h => h.elim
    · exact hrest hle
  · refine fun c₄ arms _ harms => (Reads.expect _).bind fun c₅ closing _ hclosing => .pure ?_
    refine .enclosed (k := c₁.pos) (m := c₄.pos) hfirst (.cons hscrutinee ?_) hclosing rfl
    have hflat : Along (Node.Lies L) c₃.pos c₄.pos (arms.flatMap fun arm => [arm.1, arm.2]) :=
      harms.flatMap (fun p q arm ⟨m, hpat, hbody⟩ => .cons hpat (.singleton hbody)) Node.Lies.later
    exact hflat.later Node.Lies.later h₂₃

theorem readsNode_function : ReadsNode L (function expr rounds) := by
  intro c
  refine (reads_functionHead rounds c).bind fun c₁ x _ hfirst => ?_
  exact (he _ _ c₁).bind fun c₂ body _ hbody => .pure (.prefixed hfirst hbody rfl rfl)

theorem reads_prefixed {c : Cursor} {ctx : Context} {least : Nat} {f : Node → Node}
    (ht : c.here.token ≠ .eof) (hc : ∀ operand, (f operand).children = [operand])
    (hspan : ∀ operand, (f operand).span = c.here.span.cover operand.span) :
    Reads L c (do
      let _ ← take
      let operand ← expr ctx least
      return f operand) fun c' node => node.Lies L c.pos c'.pos :=
  .take_bind ht fun hl => (he _ _ _).bind fun _ operand _ hoperand =>
    .pure (.prefixed hl hoperand (hc operand) (hspan operand))

theorem readsNode_primary (ctx : Context) : ReadsNode L (primary expr rounds ctx) := by
  intro c
  unfold primary
  refine .here_bind fun hmem => ?_
  have hshown : c.here.span.Shown L := .inr ⟨c.here, hmem, rfl⟩
  have hne {t : Token} (h : c.here.token = t) (ht : t ≠ .eof) : c.here.token ≠ .eof := h ▸ ht
  split
  · next h => exact reads_word (hne h nofun) rfl rfl
  · next h => exact reads_word (hne h nofun) rfl rfl
  · next h => exact reads_word (hne h nofun) rfl rfl
  · exact .fail hshown
  · exact Reads.name.bind fun c₁ head _ hhead => reads_afterName he ctx hhead
  · exact .fail hshown
  · next h => exact reads_word (hne h nofun) rfl rfl
  · next h => exact reads_word (hne h nofun) rfl rfl
  · exact readsNode_function he c
  · next h =>
    refine .get_bind fun _ => ?_
    split
    · exact .take_bind (hne h nofun) fun hl => reads_afterName he ctx hl
    · exact readsNode_typeDecl rounds c
  · exact readsNode_abstractDecl rounds c
  · exact readsNode_cases he c
  · exact .fail hshown
  · next h =>
    -- parentheses belong to no node
    refine .take_bind (hne h nofun) fun hl => (he _ _ _).bind fun c₂ inner _ hinner => ?_
    refine (Reads.expect _).bind fun c₃ _ h₂₃ _ => .pure ?_
    exact hinner.mono hl.le h₂₃
  · exact readsNode_list he c
  · exact readsNode_block he c
  · next h => exact reads_prefixed he (hne h nofun) (fun _ => rfl) fun _ => rfl
  · next h => exact reads_prefixed he (hne h nofun) (fun _ => rfl) fun _ => rfl
  · next h => exact reads_prefixed he (hne h nofun) (fun _ => rfl) fun _ => rfl
  · exact readsNode_captureWith (readsNode_pattern rounds) c
  · exact .fail hshown
  · exact .fail hshown

omit he in
theorem lies_join {p m q : Nat} {left right : Node} (hleft : left.Lies L p m) (hright : right.Lies L m q)
    (connective : Connective) : (join left connective right).Lies L p q := by
  cases connective <;> exact hleft.joined hright rfl rfl

/-- A longer node begins where the shorter one begins. -/
theorem reads_extend (ctx : Context) (least : Nat) {c : Cursor} {p : Nat} {left : Node}
    (hleft : left.Lies L p c.pos) :
    Reads L c (extend expr rounds ctx least left) fun c' o => ∀ node ∈ o, node.Lies L p c'.pos := by
  unfold extend
  refine .here_bind fun _ => ?_
  have hne {t : Token} (h : c.here.token = t) (ht : t ≠ .eof) : c.here.token ≠ .eof := h ▸ ht
  have hnone {c' : Cursor} : Reads L c' (pure none : Reader (Option Node)) fun c' o =>
      ∀ node ∈ o, node.Lies L p c'.pos := .pure nofun
  have hsome {c' : Cursor} {node : Node} (h : node.Lies L p c'.pos) :
      Reads L c' (pure (some node)) fun c' o => ∀ node ∈ o, node.Lies L p c'.pos :=
    .pure fun _ hn => Option.some.inj hn ▸ h
  split
  · exact hnone
  split
  · next h =>
    refine .take_bind (hne h nofun) fun hdot => ?_
    refine Reads.name.bind fun c₁ member h₁ hmember => .isAt_bind ?_
    split
    · refine (reads_arguments he c₁).bind fun c₂ x _ hx => hsome ?_
      obtain ⟨k, m, hk, hargs, hclose⟩ := hx
      exact .closed (hleft.mono le_rfl (hdot.le.trans (h₁.trans hk))) hargs hclose rfl rfl
    · exact hsome (.closed (hleft.mono le_rfl hdot.le) (.nil le_rfl) hmember rfl rfl)
  · next h =>
    refine .take_bind (hne h nofun) fun hopening => (he _ _ _).bind fun c₁ index _ hindex => ?_
    refine (Reads.expect _).bind fun c₂ close _ hclose => hsome ?_
    exact .closed (hleft.mono le_rfl hopening.le) (.singleton hindex) hclose rfl rfl
  · next h =>
    split
    · exact hnone
    split
    · exact hnone
    refine .take_bind (hne h nofun) fun hop => ?_
    have hrest (connective : Connective) : Reads L c.next (do
        let right ← expr ctx connective.powers.2
        return some (join left connective right) : Reader (Option Node)) fun c' o =>
          ∀ node ∈ o, node.Lies L p c'.pos :=
      (he _ _ _).bind fun c₁ right _ hright =>
        hsome (lies_join (hleft.mono le_rfl hop.le) hright connective)
    dsimp only
    split_ifs
    · exact (Reads.fail (P := fun _ _ => False) (.inl hleft.placed.real)).bind fun _ _ _ h => h.elim
    · exact hrest _
    · exact hrest _
  · exact hnone

theorem reads_climb (ctx : Context) (least n : Nat) {c : Cursor} {p : Nat} {left : Node}
    (hleft : left.Lies L p c.pos) :
    Reads L c (climb expr rounds ctx least n left) fun c' node => node.Lies L p c'.pos := by
  induction n generalizing c left with
  | zero => exact .outOfRounds
  | succ n ih =>
    refine (reads_extend he ctx least hleft).bind fun c₁ o hle ho => ?_
    cases o with
    | none => exact .pure (hleft.mono le_rfl hle)
    | some longer => exact ih (ho longer rfl)

end Expressions

/-- The nodes of an expression are placed. -/
theorem readsNode_expression {L : List Lexeme} (n : Nat) (ctx : Context) (least : Nat) :
    ReadsNode L (expression n ctx least) := by
  induction n generalizing ctx least with
  | zero => exact fun _ => .outOfRounds
  | succ n ih =>
    exact fun c => (readsNode_primary ih ctx c).bind fun c₁ left _ hleft =>
      reads_climb ih ctx least (n + 1) hleft

/-- The statements of a program are placed, one after the other. -/
theorem reads_program {L : List Lexeme} (rounds : Nat) (c : Cursor) :
    Reads L c (program rounds) fun c' nodes => Along (Node.Lies L) c.pos c'.pos nodes := by
  refine .collect (fun c first => ?_) rounds true
  refine (Reads.skipWhile rfl).bind fun c₁ _ hle _ => .atEnd_bind fun b => ?_
  split
  · exact .pure nofun
  refine (readsNode_expression rounds _ _ c₁).bind fun c₂ statement _ hstatement => ?_
  refine (moves_statementEnd false c₂).bind fun c₃ _ h₂₃ _ => .pure fun node hnode => ?_
  exact Option.some.inj hnode ▸ hstatement.mono hle h₂₃

end Grammar

/-! ## Paths -/

/-- The node that a path leads to. Every number on the path is the number of a child. -/
def Node.at? : List Nat → Node → Option Node
  | [], node => some node
  | i :: path, node => node.children[i]?.bind (Node.at? path)

/-- The node of a program that a path leads to. The first number is the number of a statement. -/
def Program.at? (program : Program) : List Nat → Option Node
  | [] => none
  | i :: path => program[i]?.bind (Node.at? path)

section Paths

variable {L : List Lexeme} {node n m a b : Node} {nodes : List Node} {i j : Nat} {path path' : List Nat}

/-- A node that can be reached is placed, and it is inside the node it was reached from: it takes up less,
unless the two are the same. -/
theorem Node.Placed.at? (h : node.Placed L) (hn : Node.at? path node = some n) :
    n.Placed L ∧ node.span.start ≤ n.span.start ∧ n.span.stop ≤ node.span.stop ∧
      (n.span.key = node.span.key → path = []) := by
  induction path generalizing node with
  | nil =>
    obtain rfl := Option.some.inj hn
    exact ⟨h, le_rfl, le_rfl, fun _ => rfl⟩
  | cons i path ih =>
    obtain ⟨child, hi, hn⟩ := Option.bind_eq_some_iff.1 hn
    have hc := List.mem_of_getElem? hi
    cases h with
    | intro real children inside ordered =>
      obtain ⟨hchild, hstart, hstop, -⟩ := ih (children child hc) hn
      obtain ⟨hstart', hstop', hkey⟩ := inside child hc
      refine ⟨hchild, hstart'.trans hstart, hstop.trans hstop', fun h => absurd ?_ hkey⟩
      -- the child stands between the two
      obtain ⟨h₁, h₂⟩ := Prod.mk.inj h
      exact Prod.ext (by show child.span.start = node.span.start; omega)
        (by show child.span.stop = node.span.stop; omega)

/-- Nodes in two of several placed nodes that stand apart have different keys. -/
theorem Node.index_eq_of_key (hplaced : ∀ node ∈ nodes, node.Placed L)
    (hordered : nodes.Pairwise fun a b => a.span.stop ≤ b.span.start) (ha : nodes[i]? = some a)
    (hb : nodes[j]? = some b) (hn : Node.at? path a = some n) (hm : Node.at? path' b = some m)
    (hkey : n.span.key = m.span.key) : i = j := by
  obtain ⟨hnp, hna, hna', -⟩ := (hplaced a (List.mem_of_getElem? ha)).at? hn
  obtain ⟨hmp, hmb, hmb', -⟩ := (hplaced b (List.mem_of_getElem? hb)).at? hm
  have hwide := hnp.real.wide
  have hwide' := hmp.real.wide
  obtain ⟨hstart, hstop⟩ := Prod.mk.inj hkey
  obtain ⟨hi, rfl⟩ := List.getElem?_eq_some_iff.1 ha
  obtain ⟨hj, rfl⟩ := List.getElem?_eq_some_iff.1 hb
  rw [List.pairwise_iff_getElem] at hordered
  rcases Nat.lt_trichotomy i j with hij | hij | hij
  · have := hordered i j hi hj hij
    omega
  · exact hij
  · have := hordered j i hj hi hij
    omega

theorem Node.Placed.path_eq_of_key (h : node.Placed L) (hn : Node.at? path node = some n)
    (hm : Node.at? path' node = some m) (hkey : n.span.key = m.span.key) : path = path' := by
  induction path generalizing node path' with
  | nil =>
    obtain rfl := Option.some.inj hn
    exact ((h.at? hm).2.2.2 hkey.symm).symm
  | cons i path ih =>
    cases path' with
    | nil =>
      obtain rfl := Option.some.inj hm
      exact (h.at? hn).2.2.2 hkey
    | cons j path' =>
      obtain ⟨a, ha, hn⟩ := Option.bind_eq_some_iff.1 hn
      obtain ⟨b, hb, hm⟩ := Option.bind_eq_some_iff.1 hm
      cases h with
      | intro real children inside ordered =>
        obtain rfl := index_eq_of_key children ordered ha hb hn hm hkey
        obtain rfl := Option.some.inj (ha.symm.trans hb)
        rw [ih (children a (List.mem_of_getElem? ha)) hn hm]

end Paths

/-! ## Programs -/

section Marks

variable {source : String} {span : Span}

theorem Span.Marks.line_pos (h : span.Marks source) : 0 < span.line := by
  have hline := congrArg Prod.fst h.placed
  rw [← show _ = span.line from hline]
  simp [LineTable.position, LineTable.ofSource]

theorem Span.Real.marks (h : span.Real (Token.scan source)) : span.Marks source where
  forward := h.wide.le
  within := by
    obtain ⟨l, hl, -, hstop⟩ := h.last
    exact hstop ▸ (Token.marks_of_mem_scan hl).within
  placed := by
    obtain ⟨l, hl, -, hstart, hline, hcolumn⟩ := h.first
    rw [hstart, hline, hcolumn]
    exact (Token.marks_of_mem_scan hl).placed

theorem Span.Shown.marks (h : span.Shown (Token.scan source)) : span.Marks source := by
  rcases h with h | ⟨l, hl, rfl⟩
  · exact h.marks
  · exact Token.marks_of_mem_scan hl

end Marks

/-- What the spans of a program that was read from a text are like. -/
structure Program.Spanned (source : String) (program : Program) : Prop where
  /-- Every node takes up a piece of the text, and says at which line and column it begins. -/
  marks : ∀ path node, program.at? path = some node →
    node.span.start < node.span.stop ∧ node.span.Marks source
  /-- It begins with a word and ends with a word. -/
  words : ∀ path node, program.at? path = some node →
    (∃ l ∈ Token.scan source, l.token ≠ .eof ∧ l.span.start = node.span.start) ∧
      ∃ l ∈ Token.scan source, l.token ≠ .eof ∧ l.span.stop = node.span.stop
  /-- Its children are inside it, and none of them takes up all of it. -/
  inside : ∀ path node, program.at? path = some node → ∀ child ∈ node.children,
    node.span.start ≤ child.span.start ∧ child.span.stop ≤ node.span.stop ∧
      child.span.key ≠ node.span.key
  /-- Its children stand one after the other. -/
  ordered : ∀ path node, program.at? path = some node →
    node.children.Pairwise fun a b => a.span.stop ≤ b.span.start
  /-- The statements stand one after the other. -/
  statements : program.Pairwise fun a b => a.span.stop ≤ b.span.start
  /-- No two nodes have the same key. -/
  keys : ∀ path path' node node', program.at? path = some node → program.at? path' = some node' →
    node.span.key = node'.span.key → path = path'

theorem Program.spanned_of_along {source : String} {p q : Nat} {program : Program}
    (h : Along (Node.Lies (Token.scan source)) p q program) : program.Spanned source := by
  have hplaced {path : List Nat} {node : Node} (hn : program.at? path = some node) :
      node.Placed (Token.scan source) := by
    cases path with
    | nil => cases hn
    | cons i path =>
      obtain ⟨a, ha, hn⟩ := Option.bind_eq_some_iff.1 hn
      exact ((h.lies a (List.mem_of_getElem? ha)).placed.at? hn).1
  constructor
  case marks => exact fun path node hn => ⟨(hplaced hn).real.wide, (hplaced hn).real.marks⟩
  case words =>
    intro path node hn
    obtain ⟨l, hl, ht, hstart, -⟩ := (hplaced hn).real.first
    obtain ⟨l', hl', ht', hstop⟩ := (hplaced hn).real.last
    exact ⟨⟨l, hl, ht, hstart.symm⟩, l', hl', ht', hstop.symm⟩
  case inside =>
    intro path node hn
    cases hplaced hn with
    | intro real children inside ordered => exact inside
  case ordered =>
    intro path node hn
    cases hplaced hn with
    | intro real children inside ordered => exact ordered
  case statements => exact h.ordered
  case keys =>
    intro path path' n m hn hm hkey
    cases path with
    | nil => cases hn
    | cons i path =>
      cases path' with
      | nil => cases hm
      | cons j path' =>
        obtain ⟨a, ha, hn⟩ := Option.bind_eq_some_iff.1 hn
        obtain ⟨b, hb, hm⟩ := Option.bind_eq_some_iff.1 hm
        have hall : ∀ node ∈ program, node.Placed (Token.scan source) := fun node hn =>
          (h.lies node hn).placed
        obtain rfl := Node.index_eq_of_key hall h.ordered ha hb hn hm hkey
        obtain rfl := Option.some.inj (ha.symm.trans hb)
        rw [(hall a (List.mem_of_getElem? ha)).path_eq_of_key hn hm hkey]

/-- A text that is a program gives nodes with real and nested spans, no two of which have the same key. A text
that is none gives an error that points into the text. -/
theorem Program.spans_of_parse (source : String) :
    match Program.parse source with
    | .ok program => program.Spanned source
    | .error e => e.span.Marks source ∧ e.span.line ≠ 0 := by
  have h := Grammar.reads_program ((Token.scan source).length + 1) (.start (Token.scan source))
    (.start (Token.laid_scan source))
  rw [Program.parse, Grammar.parse]
  generalize Grammar.program ((Token.scan source).length + 1) (.start (Token.scan source)) = result at h
  cases h with
  | refused shown => exact ⟨shown.marks, shown.marks.line_pos.ne'⟩
  | accepted among onward post => exact spanned_of_along post

end DispatchLang
