import DispatchLang.Proofs.Grammar.RoundTrip
import DispatchLang.Proofs.Grammar.SeamForms
import DispatchLang.Proofs.Grammar.Spans

/-!
# Statements on the next line

A program that is put on the line after another one is read after it: the statements of the two together are the
statements of the first and then those of the second. The first program has to be closed, in the sense that no
quote of it opens a string that does not end, and the second one must not begin with a symbol that continues a line.

This is not quite enough. A brace is the only symbol that begins a statement and that is taken across a line break:
by a type declaration that has no body, and, where a name and a colon follow it, by a name. So the last
statement must not end with either of these if the next line begins so. Such a statement can be ended with a
semicolon.

The first text is read up to the seam; the second one is then read from the seam as it would be read alone,
because readers do not look at places and the first word of a statement is read in the same way however it is set
off from what is before it. Neither text runs out of rounds, since there are no more statements than words.

## Main results

* `Along.length_le`: nodes that stand one after the other are no more than the words they stand on.
* `Program.parse_nextLine`: programs on lines of their own are read one after the other.
* `Program.nextLine_taken`: a brace on the next line may be taken for a part of the line before.
-/

namespace DispatchLang

open Reader Seam

/-! ## Counting statements -/

/-- Whether a lexeme is a word that begins between two offsets. -/
def Lexeme.isWordWithin (p q : Nat) (l : Lexeme) : Bool :=
  !(l.token matches .eof) && decide (p ≤ l.span.start) && decide (l.span.start < q)

theorem Lexeme.isWordWithin_iff {p q : Nat} {l : Lexeme} :
    l.isWordWithin p q = true ↔ l.token ≠ .eof ∧ p ≤ l.span.start ∧ l.span.start < q := by
  unfold isWordWithin
  cases l.token <;> simp

/-- The words between two offsets and those after them. -/
theorem Lexeme.countP_isWordWithin {p m q : Nat} (hpm : p ≤ m) (hmq : m ≤ q) (ls : List Lexeme) :
    ls.countP (isWordWithin p m) + ls.countP (isWordWithin m q) ≤ ls.countP (isWordWithin p q) := by
  induction ls with
  | nil => exact Nat.zero_le _
  | cons l ls ih =>
    have hl : (if isWordWithin p m l = true then 1 else 0) + (if isWordWithin m q l = true then 1 else 0) ≤
        if isWordWithin p q l = true then 1 else 0 := by
      split_ifs with h₁ h₂ h₃ h₃ h₂ h₃
      all_goals first | omega | rw [isWordWithin_iff] at *
      · omega
      · omega
      · exact absurd ⟨h₁.1, by omega, by omega⟩ h₃
      · exact absurd ⟨h₂.1, by omega, by omega⟩ h₃
    simp only [List.countP_cons]
    omega

/-- Nodes that stand one after the other are no more than the words between where they begin and end. -/
theorem Along.length_le {L : List Lexeme} {p q : Nat} {nodes : List Node} (h : Along (Node.Lies L) p q nodes) :
    nodes.length ≤ L.countP (Lexeme.isWordWithin p q) := by
  induction h with
  | nil h => exact Nat.zero_le _
  | @cons p m q node nodes here rest ih =>
    obtain ⟨l, hl, htoken, hstart, -⟩ := here.placed.real.first
    have hwide := here.placed.real.wide
    have hafter := here.after
    have hbefore := here.before
    have hfirst : 0 < L.countP (Lexeme.isWordWithin p m) :=
      List.countP_pos_iff.2 ⟨l, hl, Lexeme.isWordWithin_iff.2 ⟨htoken, by omega, by omega⟩⟩
    have hsplit := Lexeme.countP_isWordWithin here.span.le rest.le L
    rw [List.length_cons]
    omega

/-- A program has no more statements than words. -/
theorem Program.length_le_of_run {source : String} {words : List Lexeme} {stop : Lexeme} {n : Nat}
    {program : Program} {c : Cursor} (hscan : Token.scan source = words ++ [stop]) (hstop : stop.token = .eof)
    (h : Grammar.program n (.start (Token.scan source)) = .ok (program, c)) : program.length ≤ words.length := by
  have hends := Grammar.reads_program n (.start (Token.scan source)) (.start (Token.laid_scan source))
  rw [h] at hends
  cases hends with
  | accepted among onward post =>
    refine post.length_le.trans ?_
    rw [hscan, List.countP_append, List.countP_singleton, if_neg (by simp [Lexeme.isWordWithin, hstop])]
    exact List.countP_le_length

namespace Grammar

/-! ## Statements up to the seam -/

variable {σ : Seam} {c d : Cursor} {n m : Nat}

def programItem (n : Nat) : Reader (Option Node) := do
  skipWhile (isSymbol .semicolon)
  if ← atEnd then return none
  let statement ← expression n .nested 0
  statementEnd false
  return some statement

theorem program_eq (n : Nat) : program n = collect (fun _ => programItem n) n true := rfl

/-- A round passes over semicolons and then reads a statement, if there is one. -/
theorem programItem_eq (n : Nat) (c : Cursor) : programItem n c =
    match (c.skip (isSymbol .semicolon)).here.token with
    | .eof => .ok (none, c.skip (isSymbol .semicolon))
    | _ => do
      let x ← expression n .nested 0 (c.skip (isSymbol .semicolon))
      let y ← statementEnd false x.2
      return (some x.1, y.2) := by
  show (do
    if ← atEnd then return none
    let statement ← expression n .nested 0
    statementEnd false
    return some statement : Reader (Option Node)) (c.skip (isSymbol .semicolon)) = _
  generalize c.skip (isSymbol .semicolon) = c'
  obtain ⟨last, ⟨token, span, afterBreak, touches⟩, ahead⟩ := c'
  cases token <;> rfl

theorem programItem_eof (n : Nat) {c : Cursor} (h : (c.skip (isSymbol .semicolon)).here.token = .eof) :
    programItem n c = .ok (none, c.skip (isSymbol .semicolon)) := by
  rw [programItem_eq, h]

/-- What is read in a round in which there is a statement. -/
theorem programItem_ok (n : Nat) {c c₁ c₂ : Cursor} {a : Node}
    (hne : (c.skip (isSymbol .semicolon)).here.token ≠ .eof)
    (ha : expression n .nested 0 (c.skip (isSymbol .semicolon)) = .ok (a, c₁))
    (hend : statementEnd false c₁ = .ok ((), c₂)) : programItem n c = .ok (some a, c₂) := by
  rw [programItem_eq]
  split
  · next h => exact absurd h hne
  · rw [ha]
    show (statementEnd false c₁ >>= fun y => Except.ok (some a, y.2)) = _
    rw [hend]
    rfl

theorem exists_of_programItem {n : Nat} {c c₂ : Cursor} {o : Option Node}
    (hne : (c.skip (isSymbol .semicolon)).here.token ≠ .eof) (h : programItem n c = .ok (o, c₂)) :
    ∃ a c₁, expression n .nested 0 (c.skip (isSymbol .semicolon)) = .ok (a, c₁) ∧
      statementEnd false c₁ = .ok ((), c₂) ∧ o = some a := by
  rw [programItem_eq] at h
  split at h
  · exact absurd ‹_› hne
  · rcases ha : expression n .nested 0 (c.skip (isSymbol .semicolon)) with e | ⟨a, c₁⟩
    · rw [ha] at h
      cases h
    · rw [ha] at h
      have h : (statementEnd false c₁ >>= fun y => Except.ok (some a, y.2)) = .ok (o, c₂) := h
      rcases hend : statementEnd false c₁ with e | ⟨u, c₃⟩
      · rw [hend] at h
        cases h
      · rw [hend] at h
        cases h
        exact ⟨a, c₁, rfl, hend, rfl⟩

/-- A list of statements whose first one is read. -/
theorem collect_programItem {n k : Nat} {first : Bool} {c c₂ : Cursor} {a : Node}
    (h : programItem n c = .ok (some a, c₂)) : collect (fun _ => programItem n) (k + 1) first c =
      (collect (fun _ => programItem n) k false c₂).map fun x => (a :: x.1, x.2) := by
  rw [collect_succ, h]

/-- Where the first rounds are alike, lists of statements are alike. -/
theorem collect_congr {n k : Nat} {a b : Bool} {c d : Cursor} (h : programItem n c = programItem n d) :
    collect (fun _ => programItem n) (k + 1) a c = collect (fun _ => programItem n) (k + 1) b d := by
  rw [collect_succ, collect_succ, h]

/-- A round depends on where it comes to after the semicolons. -/
theorem programItem_congr {n : Nat} {c d : Cursor} (h : c.skip (isSymbol .semicolon) = d.skip (isSymbol .semicolon)) :
    programItem n c = programItem n d := by
  rw [programItem_eq, programItem_eq, h]

/-- What stands on the next line ends a statement. A semicolon there may be taken as its end. -/
theorem statementEnd_seam {d : Cursor} (hd : d.here = σ.here) :
    ∃ d', statementEnd false d = .ok ((), d') ∧ d'.skip (isSymbol .semicolon) = d.skip (isSymbol .semicolon) := by
  by_cases hne : d.here.token = .eof
  · exact ⟨d, statementEnd_eof hne, rfl⟩
  have hbreak : d.here.afterBreak = true := by
    rw [hd] at hne ⊢
    exact (σ.onLine hne).1
  obtain ⟨last, ⟨token, span, afterBreak, touches⟩, ahead⟩ := d
  obtain rfl : afterBreak = true := hbreak
  cases token with
  | eof => exact absurd rfl hne
  | symbol s =>
    by_cases hs : s = .semicolon
    · subst hs
      exact ⟨_, rfl, Cursor.skip_next _ rfl⟩
    · have hstarter := σ.begins s (congrArg Lexeme.token hd).symm
      have hequals : s ≠ .equals := by
        rintro rfl
        exact absurd hstarter (by decide)
      refine ⟨_, ?_, rfl⟩
      cases s <;> first | rfl | contradiction
  | _ => exact ⟨_, rfl, rfl⟩

/-- The statements of a text, read in the second run: either the last one is open, or they are read up to the seam, and
what comes then is what is read from the seam on. -/
theorem statements_upTo_seam (hnm : n ≤ m) {k : Nat} {first : Bool} {ps : List Node} {c' : Cursor}
    (hcd : σ.Beside c d) (h : collect (fun _ => programItem n) k first c = .ok (ps, c')) :
    (∃ s ∈ ps.getLast?, σ.Open c s) ∨
      ∃ bs d', List.Forall₂ (σ.UpTo Node.moved) ps bs ∧ d'.here = σ.here ∧ d'.ahead = σ.ahead ∧
        ∀ i first', collect (fun _ => programItem m) (ps.length + (i + 1)) first' d =
          (collect (fun _ => programItem m) (i + 1) false d').map fun x => (bs ++ x.1, x.2) := by
  induction k generalizing first ps c d with
  | zero => cases h
  | succ k ih =>
    rw [collect_succ] at h
    rcases hcd.skip (isSymbol .semicolon) with ⟨hne, hskip⟩ | ⟨heof, d', hhere, hahead, hskip⟩
    · rcases hitem : programItem n c with e | ⟨o, c₂⟩
      · rw [hitem] at h
        cases h
      rw [hitem] at h
      obtain ⟨a, c₁, ha, hend, rfl⟩ := exists_of_programItem hne hitem
      have h : (collect (fun _ => programItem n) k false c₂).map (fun x => (a :: x.1, x.2)) = .ok (ps, c') := h
      rcases hrest : collect (fun _ => programItem n) k false c₂ with e | ⟨as, c₃⟩
      · rw [hrest] at h
        cases h
      rw [hrest] at h
      obtain ⟨rfl, rfl⟩ : a :: as = ps ∧ c₃ = c' := by
        cases h
        exact ⟨rfl, rfl⟩
      -- after a statement that ends at the seam there is no other one
      have hlast (hc₁ : c₁.here.token = .eof) : as = [] := by
        rw [statementEnd_eof hc₁] at hend
        cases hend
        cases k with
        | zero => cases hrest
        | succ k =>
          rw [collect_succ, programItem_eof n (by rw [Cursor.skip_eq _ (by rw [hc₁]; rfl), hc₁])] at hrest
          cases hrest
          rfl
      rcases agrees_expression hnm .nested 0 hskip a c₁ ha with ⟨b, d₁, hb, hcd₁, hab⟩ | ⟨hc₁, hopen⟩
      · have hne' : (d.skip (isSymbol .semicolon)).here.token ≠ .eof := by rwa [← (hskip.like hne).token]
        by_cases hc₁ : c₁.here.token = .eof
        · obtain rfl := hlast hc₁
          obtain ⟨-, -, hhere, hahead⟩ := hcd₁.seam hc₁
          obtain ⟨d₂, hd₂, hskip₂⟩ := statementEnd_seam hhere
          refine .inr ⟨[b], d₁, .cons hab .nil, hhere, hahead, fun i first' => ?_⟩
          rw [List.length_singleton, Nat.add_comm 1 (i + 1), collect_programItem (programItem_ok m hne' hb hd₂),
            collect_congr (programItem_congr hskip₂)]
          rfl
        · rcases agrees_statementEnd hc₁ hcd₁ () c₂ hend with ⟨u, d₂, hd₂, hcd₂, -⟩ | ⟨-, h⟩
          · rcases ih hcd₂ hrest with ⟨s, hs, hopen⟩ | ⟨bs, d', hbs, hhere, hahead, hrun⟩
            · refine .inl ⟨s, ?_, hopen⟩
              rw [Option.mem_def] at hs ⊢
              cases as with
              | nil => cases hs
              | cons a' as => rwa [List.getLast?_cons_cons]
            · refine .inr ⟨b :: bs, d', .cons hab hbs, hhere, hahead, fun i first' => ?_⟩
              rw [List.length_cons, Nat.add_right_comm, collect_programItem (programItem_ok m hne' hb hd₂), hrun]
              rcases collect (fun _ => programItem m) (i + 1) false d' with e | x <;> rfl
          · exact h.elim
      · obtain rfl := hlast hc₁
        exact .inl ⟨a, rfl, hopen⟩
    · rw [programItem_eof n heof] at h
      cases h
      refine .inr ⟨[], d', .nil, hhere, hahead, fun i first' => ?_⟩
      rw [List.length_nil, Nat.zero_add, collect_congr (programItem_congr hskip)]
      rcases collect (fun _ => programItem m) (i + 1) false d' with e | x <;> rfl

/-! ## Statements at another place -/

/-- What an expression begins with may stand after anything. -/
theorem primary_setOff (expr : ExpressionReader) (ctx : Context) (last last' span : Span) (token : Token)
    (a b a' b' : Bool) (l : Lexeme) (ls : List Lexeme) :
    primary expr n ctx ⟨last, ⟨token, span, a, b⟩, l :: ls⟩ =
      primary expr n ctx ⟨last', ⟨token, span, a', b'⟩, l :: ls⟩ := by
  cases token with
  | keyword word =>
    cases word with
    | type =>
      show (if isSymbol .openParen l.token = true then _ else _ : Reader Node) _ =
        (if isSymbol .openParen l.token = true then _ else _ : Reader Node) _
      split <;> rfl
    | _ => rfl
  | symbol s => cases s <;> rfl
  | _ => rfl

/-- A statement may begin after anything. -/
theorem programItem_setOff (last last' span : Span) (token : Token) (ht : token ≠ .eof)
    (a b a' b' : Bool) (l : Lexeme) (ls : List Lexeme) :
    programItem n ⟨last, ⟨token, span, a, b⟩, l :: ls⟩ =
      programItem n ⟨last', ⟨token, span, a', b'⟩, l :: ls⟩ := by
  rw [programItem_eq, programItem_eq]
  cases hs : isSymbol .semicolon token with
  | true =>
    rw [← Cursor.skip_next ⟨last, ⟨token, span, a, b⟩, l :: ls⟩ hs,
      ← Cursor.skip_next ⟨last', ⟨token, span, a', b'⟩, l :: ls⟩ hs]
    rfl
  | false =>
    rw [Cursor.skip_eq ⟨last, ⟨token, span, a, b⟩, l :: ls⟩ hs,
      Cursor.skip_eq ⟨last', ⟨token, span, a', b'⟩, l :: ls⟩ hs]
    have hexpr : expression n .nested 0 ⟨last, ⟨token, span, a, b⟩, l :: ls⟩ =
        expression n .nested 0 ⟨last', ⟨token, span, a', b'⟩, l :: ls⟩ := by
      cases n with
      | zero => rfl
      | succ n =>
        show (primary (expression n) (n + 1) .nested _ >>= _) = (primary (expression n) (n + 1) .nested _ >>= _)
        rw [primary_setOff]
    rw [hexpr]
    cases token <;> first | rfl | exact absurd rfl ht

theorem forall₂_concat {α β : Type} {R : α → β → Prop} {as : List α} {a : α} {bs : List β}
    (h : List.Forall₂ R (as ++ [a]) bs) : ∃ bs' b, bs = bs' ++ [b] ∧ List.Forall₂ R as bs' ∧ R a b := by
  induction as generalizing bs with
  | nil =>
    rw [List.nil_append] at h
    cases h with
    | @cons _ b _ _ hab hnil =>
      cases hnil
      exact ⟨[], b, rfl, .nil, hab⟩
  | cons a' as ih =>
    rw [List.cons_append] at h
    cases h with
    | @cons _ b _ bs hab hrest =>
      obtain ⟨bs', b', rfl, has, hb'⟩ := ih hrest
      exact ⟨b :: bs', b', rfl, .cons hab has, hb'⟩

def atEndSeam (π : Placing) (text : List Lexeme) {stop stop' : Lexeme} (hstop : stop.token = .eof)
    (hlike : stop.Like stop') : Seam where
  toPlacing := π
  text := text
  stop := stop
  here := stop'
  ahead := []
  stops := hstop
  afterBreak := fun h => hlike.afterBreak ▸ h
  onLine := fun h => absurd (hlike.token ▸ hstop) h
  begins := fun s h => by rw [← hlike.token, hstop] at h; cases h
  label := fun h => by rw [← hlike.token, hstop] at h; cases h

/-- The statements of a text are read wherever its lexemes stand, and whatever the first of them stands after. -/
theorem statements_elsewhere {π : Placing} (hnm : n ≤ m) {words : List Lexeme} {stop : Lexeme}
    (hwords : ∀ l ∈ words, l.token ≠ .eof) (hstop : stop.token = .eof)
    (hc : c.here :: c.ahead = words ++ [stop]) (htoken : c.here.token = d.here.token)
    (hplace : π.Same c.here.span d.here.span) (hlike : List.Forall₂ π.Twins c.ahead d.ahead)
    {k : Nat} {first : Bool} {qs : List Node} {c' : Cursor}
    (h : collect (fun _ => programItem n) k first c = .ok (qs, c')) (i : Nat) (first' : Bool) :
    ∃ rs d', collect (fun _ => programItem m) (qs.length + (i + 1)) first' d = .ok (rs, d') ∧
      List.Forall₂ (π.UpTo Node.moved) qs rs := by
  have hnone {n i : Nat} {first : Bool} {d : Cursor} (hd : d.here.token = .eof) :
      collect (fun _ => programItem n) (i + 1) first d = .ok ([], d) := by
    have hskip : d.skip (isSymbol .semicolon) = d := d.skip_eq (by rw [hd]; rfl)
    rw [collect_succ, programItem_eof n (by rw [hskip, hd]), hskip]
  obtain ⟨last, here, ahead⟩ := c
  obtain ⟨last', ⟨token', span', afterBreak', touches'⟩, ahead'⟩ := d
  cases words with
  | nil =>
    obtain ⟨rfl, rfl⟩ : here = stop ∧ ahead = [] := List.cons.inj hc
    cases k with
    | zero => cases h
    | succ k =>
      rw [hnone hstop] at h
      cases h
      exact ⟨[], _, hnone (htoken ▸ hstop), .nil⟩
  | cons w ws =>
    obtain ⟨rfl, rfl⟩ : here = w ∧ ahead = ws ++ [stop] := List.cons.inj hc
    obtain ⟨hne, hwords⟩ := List.forall_mem_cons.1 hwords
    obtain ⟨ws', stop', rfl, hws, hstop'⟩ := forall₂_concat hlike
    obtain rfl : here.token = token' := htoken
    -- the first word is set off as in the first run, and nothing stands before it in either run
    have hfirst {n : Nat} {last last' : Span} {l : Lexeme} {a b : Bool} {ls : List Lexeme} (hl : l.token ≠ .eof)
        (hls : ls ≠ []) : programItem n ⟨last, l, ls⟩ = programItem n ⟨last', ⟨l.token, l.span, a, b⟩, ls⟩ := by
      cases ls with
      | nil => exact absurd rfl hls
      | cons m ls => exact programItem_setOff _ _ _ _ hl ..
    have hc : programItem n ⟨last, here, ws ++ [stop]⟩ = programItem n ⟨here.span, here, ws ++ [stop]⟩ :=
      hfirst hne (by simp)
    have hd : programItem m ⟨last', ⟨here.token, span', afterBreak', touches'⟩, ws' ++ [stop']⟩ =
        programItem m ⟨span', ⟨here.token, span', here.afterBreak, here.touches⟩, ws' ++ [stop']⟩ :=
      hfirst (l := ⟨here.token, span', afterBreak', touches'⟩) hne (by simp)
    let σ := atEndSeam π (here :: (ws ++ [stop])) hstop hstop'.toLike
    have hcd : σ.Beside ⟨here.span, here, ws ++ [stop]⟩
        ⟨span', ⟨here.token, span', here.afterBreak, here.touches⟩, ws' ++ [stop']⟩ :=
      ⟨.word hne ⟨⟨rfl, rfl, rfl⟩, hplace⟩ (@Texts.of_forall₂ σ _ _ hwords hws), .inl rfl, hplace⟩
    cases k with
    | zero => cases h
    | succ k =>
      rw [collect_congr (b := first) hc] at h
      rcases statements_upTo_seam hnm hcd h with ⟨s, -, hopen⟩ | ⟨bs, d', hbs, hhere, -, hrun⟩
      · -- the end takes no brace
        have hbrace : Lexeme.beginBrace [stop'] = true := hopen.1
        rw [Lexeme.beginBrace, List.head?_cons, Option.any_some, ← hstop'.token, hstop] at hbrace
        cases hbrace
      · have hd' : d'.here.token = .eof := by rw [hhere]; exact hstop'.token ▸ hstop
        have hrun := hrun i first'
        rw [hnone hd', ← Nat.add_assoc, collect_congr hd.symm] at hrun
        exact ⟨bs ++ [], d', hrun, by rwa [List.append_nil]⟩

/-! ## What a program begins with -/

/-- A program begins with no symbol but those that begin statements and those that continue lines. -/
theorem first_of_statements {s : Symbol} {k : Nat} {last span : Span} {a b first : Bool} {ls : List Lexeme}
    {x : List Node × Cursor} (h : collect (fun _ => programItem n) k first
      ⟨last, ⟨.symbol s, span, a, b⟩, ls⟩ = .ok x) : s ∈ Symbol.starters ∨ s.continuesLine = true := by
  cases k with
  | zero => cases h
  | succ k =>
    rw [collect_succ, programItem_eq] at h
    cases hs : isSymbol .semicolon (.symbol s) with
    | true => exact .inl (of_decide_eq_true hs ▸ by decide)
    | false =>
      rw [Cursor.skip_eq _ hs] at h
      cases n with
      | zero => cases h
      | succ n => cases s <;> first | exact .inl (by decide) | exact .inr rfl | cases h

theorem label_of_statements {k : Nat} {c : Cursor} {x : List Node × Cursor}
    (h : collect (fun _ => programItem n) k true c = .ok x) (hname : isName c.here.token = true) :
    isSymbol .colon c.next.here.token = false := by
  by_contra hcolon
  rw [Bool.not_eq_false] at hcolon
  have htoken : c.next.here.token = .symbol .colon := by
    revert hcolon
    cases c.next.here.token with
    | symbol s => exact fun h => congrArg _ (of_decide_eq_true h)
    | _ => exact nofun
  have hlabel : afterLabel c.next.here.token = true := by rw [htoken]; rfl
  have hskip : c.skip (isSymbol .semicolon) = c := by
    refine c.skip_eq ?_
    cases ht : c.here.token with
    | ident text => rfl
    | _ => rw [ht] at hname; cases hname
  have hfirst : programItem n c =
      (do let statement ← expression n .nested 0; statementEnd false; return some statement) c := by
    rw [programItem_eq, hskip]
    cases ht : c.here.token with
    | ident text => rfl
    | _ => rw [ht] at hname; cases hname
  have hsecond : ∃ e, programItem n c.next = .error e := by
    obtain ⟨e, he⟩ := (proper_expression n).refuses c.next hlabel
    refine ⟨e, ?_⟩
    rw [programItem_eq, Cursor.skip_eq _ (by rw [htoken]; rfl), htoken]
    show (expression n .nested 0 c.next >>= _) = _
    rw [he]
    rfl
  obtain ⟨e, he⟩ := refuses_label (n := k) (proper_expression n) false (fun _ => programItem n) hname hlabel hfirst
    hsecond
  rw [he] at h
  cases h

end Grammar

/-! ## Programs on lines of their own -/

theorem Lexeme.Laid.exists_words {n : Nat} {ls : List Lexeme} (h : Laid n ls) :
    ∃ words stop, ls = words ++ [stop] ∧ stop.token = .eof ∧ ∀ l ∈ words, l.token ≠ .eof := by
  induction h with
  | @eof n l token after => exact ⟨[], l, rfl, token, nofun⟩
  | @word n l ls token after wide ahead ih =>
    obtain ⟨words, stop, rfl, hstop, hwords⟩ := ih
    exact ⟨l :: words, stop, rfl, hstop, List.forall_mem_cons.2 ⟨token, hwords⟩⟩

/-- Whether the last statement of a program takes the brace that the next line begins with: it reaches to the end of the
text, and ends with a type declaration that has no body, or with a name that finds fields. -/
def Program.takesBrace (program : Program) (text next : List Lexeme) : Bool :=
  program.getLast?.any fun s => Lexeme.beginBrace next && s.ending.takesBrace (Lexeme.beginFields next) &&
    decide (Lexeme.reach text ≤ s.ending.span.stop)

theorem Program.exists_of_parse {source : String} {program : Program} (h : Program.parse source = .ok program) :
    ∃ c, Grammar.program ((Token.scan source).length + 1) (.start (Token.scan source)) = .ok (program, c) := by
  have h : (Grammar.program ((Token.scan source).length + 1) (.start (Token.scan source)) >>= fun x =>
    Except.ok x.1) = .ok program := h
  rcases hrun : Grammar.program ((Token.scan source).length + 1) (.start (Token.scan source)) with e | ⟨ps, c⟩
  · rw [hrun] at h
    cases h
  · rw [hrun] at h
    cases h
    exact ⟨c, rfl⟩

theorem Program.parse_of_run {source : String} {program : Program} {c : Cursor}
    (h : Grammar.program ((Token.scan source).length + 1) (.start (Token.scan source)) = .ok (program, c)) :
    Program.parse source = .ok program := by
  show (Grammar.program ((Token.scan source).length + 1) (.start (Token.scan source)) >>= fun x =>
    Except.ok x.1) = _
  rw [h]
  rfl

/-- What the first words of a text look like where the text stands on a line after another one. -/
theorem beginFields_like {l l' : Lexeme} {ls ls' : List Lexeme} (htoken : l.token = l'.token)
    {π : Placing} (hlike : List.Forall₂ π.Twins ls ls') : Lexeme.beginFields (l :: ls) = Lexeme.beginFields (l' :: ls') := by
  cases hlike with
  | nil => rfl
  | cons hm hlike =>
    cases hlike with
    | nil => rfl
    | cons hn _ => simp only [Lexeme.beginFields, htoken, hm.token, hn.token]

/-- The seam of two texts of which the second one is a program and begins on the line after the first. -/
def Grammar.lineSeam (words : List Lexeme) (stop : Lexeme) {ls ls' : List Lexeme} {l l' : Lexeme}
    {k n : Nat} {x : List Node × Cursor} (hstop : stop.token = .eof) (hbreak : l'.afterBreak = true)
    (htouches : l'.touches = false)
    (htoken : l.token = l'.token) {π : Placing} (hlike : List.Forall₂ π.Twins ls ls') (hfirst : l.token.continuesLine = false)
    (h : collect (fun _ => programItem n) k true (.start (l :: ls)) = .ok x) : Seam where
  toPlacing := .fixed
  text := words ++ [stop]
  stop := stop
  here := l'
  ahead := ls'
  stops := hstop
  afterBreak := fun _ => hbreak
  onLine := fun _ => ⟨hbreak, htouches⟩
  begins := by
    rintro s hs
    obtain ⟨token, span, afterBreak, touches⟩ := l
    obtain rfl : token = .symbol s := htoken.trans hs
    refine (first_of_statements h).resolve_right fun hcontinues => ?_
    rw [show Token.continuesLine (.symbol s) = s.continuesLine from rfl] at hfirst
    rw [hfirst] at hcontinues
    cases hcontinues
  label := by
    intro hname
    cases hlike with
    | nil => rfl
    | cons hm _ =>
      have hcolon := label_of_statements h (show isName l.token = true from htoken ▸ hname)
      rwa [List.head?_cons, Option.any_some, ← hm.token]

/-- How the spans of a text are moved that stands on the line after another one. -/
def Span.below (text : String) : Span → Span := shift (String.utf8Len text.toList + 1) (text.toList.count '\n' + 1)

/-- A program on the line after another one is read as it is read alone, moved down, if no quote of the first one is
left open, the second one does not begin with a symbol that continues a line, and the first one does not take a
brace that the second one begins with. -/
theorem Program.parse_below {p q : String} {ps qs : Program} (hp : Program.parse p = .ok ps)
    (hq : Program.parse q = .ok qs) (hquotes : Token.QuotesEnclosed p.toList)
    (hfirst : ∀ l ∈ (Token.scan q).head?, l.token.continuesLine = false)
    (hbrace : ps.takesBrace (Token.scan p) (Token.scan q) = false) :
    Program.parse (p ++ "\n" ++ q) = .ok (ps ++ qs.moved (Span.below p)) := by
  obtain ⟨cp, hp⟩ := Program.exists_of_parse hp
  obtain ⟨cq, hq⟩ := Program.exists_of_parse hq
  obtain ⟨words, place, gap, hscanp, hjoined, hwords, hstarted, rfl⟩ :=
    Token.scanFrom_append .origin .initial p.toList q.toList hquotes
  rw [Place.advanceAll_line] at hjoined
  obtain ⟨l, ls, l', ls', hscanq, hrest, htoken, hplace, hlike, -, hoff⟩ :=
    Token.scanFrom_gap (String.utf8Len p.toList + 1) (p.toList.count '\n' + 1) .origin .initial (gap.pass ['\n'])
      q.toList
  obtain ⟨qwords, qstop, hqwords, hqstop, hqne⟩ := (Token.laid_scan q).exists_words
  obtain ⟨stop, hstop, hpscan⟩ : ∃ stop : Lexeme, stop.token = .eof ∧ Token.scan p = words ++ [stop] :=
    ⟨_, rfl, hscanp⟩
  have hqscan : Token.scan q = l :: ls := hscanq
  have hscan : Token.scan (p ++ "\n" ++ q) = words ++ l' :: ls' := by
    rw [← hrest, ← hjoined]
    show Token.scanFrom _ _ _ = _
    rw [String.toList_append, String.toList_append, List.append_assoc]
    rfl
  -- there are rounds enough for both
  have hqlen := Program.length_le_of_run hqwords hqstop hq
  have hplen := Program.length_le_of_run hpscan hstop hp
  have hlength : (Token.scan (p ++ "\n" ++ q)).length = words.length + (qwords.length + 1) := by
    rw [hscan, List.length_append, List.length_cons, ← hlike.length_eq, ← List.length_cons (a := l),
      ← hqscan, hqwords, List.length_append, List.length_singleton]
  generalize hN : (Token.scan (p ++ "\n" ++ q)).length = N at hlength
  have hqrun {d : Cursor} (hd : d.here = l') (hd' : d.ahead = ls') (i : Nat) (first : Bool) :
      ∃ d', collect (fun _ => Grammar.programItem (N + 1)) (qs.length + (i + 1)) first d =
        .ok (qs.moved (Span.below p), d') := by
    rw [hqscan] at hq hqwords
    have hle : (l :: ls).length + 1 ≤ N + 1 := by
      rw [hqwords, List.length_append, List.length_singleton]
      omega
    obtain ⟨rs, d', hrun, hrs⟩ := Grammar.statements_elsewhere hle hqne hqstop hqwords (hd ▸ htoken) (hd ▸ hplace)
      (hd' ▸ hlike) hq i first
    refine ⟨d', ?_⟩
    rw [Program.moved, Node.movedAll_eq_map, hrun, ← Node.movedAll_id rs, Node.movedAll_eq_map]
    exact congrArg (fun rs => Except.ok (rs, d')) (Placing.UpTo.map hrs).symm
  suffices h : ∃ c, Grammar.program (N + 1) (.start (Token.scan (p ++ "\n" ++ q))) =
      .ok (ps ++ qs.moved (Span.below p), c) by
    obtain ⟨c, hc⟩ := h
    exact Program.parse_of_run (hN ▸ hc)
  rw [hscan, Grammar.program_eq]
  cases words with
  | nil =>
    -- a text without words has no statements
    obtain rfl : ps = [] := List.length_eq_zero_iff.1 (Nat.le_zero.1 hplen)
    obtain ⟨d', hrun⟩ := hqrun (d := .start (l' :: ls')) rfl rfl (N - qs.length) true
    refine ⟨d', ?_⟩
    rwa [show qs.length + (N - qs.length + 1) = N + 1 by rw [List.length_nil] at hlength; omega] at hrun
  | cons w ws =>
    have hbreak : l'.afterBreak = true := hoff.broken hstarted (Bool.or_true _)
    have hne : l.token.continuesLine = false := hfirst l (by rw [hqscan]; rfl)
    rw [hqscan] at hq
    let σ := Grammar.lineSeam (w :: ws) stop hstop hbreak (hoff.wide rfl) htoken hlike hne hq
    have hcd : σ.Beside (.start (Token.scan p)) (.start (w :: ws ++ l' :: ls')) := by
      rw [hpscan]
      exact ⟨@Texts.of_forall₂ σ _ _ hwords (List.forall₂_same.2 fun _ _ => ⟨⟨rfl, rfl, rfl⟩, rfl⟩), .inl rfl, rfl⟩
    have hle : (Token.scan p).length + 1 ≤ N + 1 := by
      rw [hpscan, List.length_append, List.length_singleton]
      omega
    rcases Grammar.statements_upTo_seam hle hcd hp with ⟨s, hs, hopen⟩ | ⟨bs, d', hbs, hhere, hahead, hrun⟩
    · -- the brace would be taken
      obtain ⟨hbegin, htakes, hreach⟩ := hopen
      have hbegin' : Lexeme.beginBrace (l :: ls) = true := by
        rw [Lexeme.beginBrace, List.head?_cons, Option.any_some, htoken]
        exact hbegin
      rw [Program.takesBrace, Option.mem_def.1 hs, Option.any_some, hqscan, hbegin',
        beginFields_like htoken hlike, show Lexeme.beginFields (l' :: ls') = _ from rfl, hpscan,
        show s.ending.takesBrace (Lexeme.beginFields (l' :: ls')) = true from htakes,
        decide_eq_true (show Lexeme.reach (w :: ws ++ [_]) ≤ _ from hreach)] at hbrace
      cases hbrace
    · -- the words of the first text have not moved
      obtain rfl : ps = bs := by
        rw [← Node.movedAll_id ps, ← Node.movedAll_id bs, Node.movedAll_eq_map, Node.movedAll_eq_map]
        exact Placing.UpTo.map hbs
      obtain ⟨c, hqrun⟩ := hqrun hhere hahead (N - ps.length - qs.length) false
      have hrun := hrun (qs.length + (N - ps.length - qs.length)) true
      rw [Nat.add_assoc qs.length, hqrun] at hrun
      refine ⟨c, ?_⟩
      rwa [show ps.length + (qs.length + (N - ps.length - qs.length + 1)) = N + 1 by omega] at hrun

/-- Two programs of which the second one begins on the line after the first are read one after the other, if no
quote of the first one is left open, the second one does not begin with a symbol that continues a line, and the first
one does not take a brace that the second one begins with. -/
theorem Program.parse_nextLine {p q : String} {ps qs : Program} (hp : Program.parse p = .ok ps)
    (hq : Program.parse q = .ok qs) (hquotes : Token.QuotesEnclosed p.toList)
    (hfirst : ∀ l ∈ (Token.scan q).head?, l.token.continuesLine = false)
    (hbrace : ps.takesBrace (Token.scan p) (Token.scan q) = false) :
    ∃ r, Program.parse (p ++ "\n" ++ q) = .ok r ∧ r.erase = ps.erase ++ qs.erase := by
  refine ⟨_, Program.parse_below hp hq hquotes hfirst hbrace, ?_⟩
  rw [Program.erase_append, Program.erase_moved]

/-- A name and a block on the next line are two statements. The quotes of the first text are in a string and in a
comment. -/
theorem Program.parse_twoLines : ∃ ps qs r, Program.parse "f := \"a\" // say \"f\"\nf" = .ok ps ∧
    Program.parse "\x7b y | y \x7d" = .ok qs ∧
    Program.parse ("f := \"a\" // say \"f\"\nf" ++ "\n" ++ "\x7b y | y \x7d") = .ok r ∧
    Program.erase r = Program.erase ps ++ Program.erase qs := by
  have hp : (Program.parse "f := \"a\" // say \"f\"\nf").toOption.any (fun ps => !Program.takesBrace ps
      (Token.scan "f := \"a\" // say \"f\"\nf") (Token.scan "\x7b y | y \x7d")) = true := by decide +kernel
  have hq : (Program.parse "\x7b y | y \x7d").toOption.any (fun _ => true) = true := by decide +kernel
  obtain ⟨ps, hp, hbrace⟩ := exists_of_any_toOption hp
  obtain ⟨qs, hq, -⟩ := exists_of_any_toOption hq
  have hfirst : (Token.scan "\x7b y | y \x7d").head?.all (!·.token.continuesLine) = true := by decide +kernel
  obtain ⟨r, hr, herase⟩ := Program.parse_nextLine hp hq (by decide +kernel)
    (fun l hl => by simpa [Option.mem_def.1 hl] using hfirst) (by simpa using hbrace)
  exact ⟨ps, qs, r, hp, hq, hr, herase⟩

/-- A brace on the next line may be taken for a part of the line before. A block after a type declaration without a
body is read as its body, and a closure with a typed parameter after a name as the fields of a construction. The
texts are programs, without quotes, and no line begins with a symbol that continues the one before. -/
theorem Program.nextLine_taken :
    (∃ ps qs e, Program.parse "type A" = .ok ps ∧ Program.parse "\x7b x \x7d" = .ok qs ∧
      Token.QuotesEnclosed "type A".toList ∧
      (∀ l ∈ (Token.scan "\x7b x \x7d").head?, l.token.continuesLine = false) ∧
      Program.parse ("type A" ++ "\n" ++ "\x7b x \x7d") = .error e) ∧
    ∃ ps qs e, Program.parse "x" = .ok ps ∧ Program.parse "\x7b a: Int | a \x7d" = .ok qs ∧
      Token.QuotesEnclosed "x".toList ∧
      (∀ l ∈ (Token.scan "\x7b a: Int | a \x7d").head?, l.token.continuesLine = false) ∧
      Program.parse ("x" ++ "\n" ++ "\x7b a: Int | a \x7d") = .error e := by
  have hok (source : String) (h : (Program.parse source).isOk = true) : ∃ ps, Program.parse source = .ok ps := by
    cases hp : Program.parse source with
    | ok ps => exact ⟨ps, rfl⟩
    | error e => rw [hp] at h; cases h
  have herror (source : String) (h : (Program.parse source).isOk = false) : ∃ e, Program.parse source = .error e := by
    cases hp : Program.parse source with
    | ok ps => rw [hp] at h; cases h
    | error e => exact ⟨e, rfl⟩
  have hfirst {source : String} (h : (Token.scan source).head?.all (!·.token.continuesLine) = true) :
      ∀ l ∈ (Token.scan source).head?, l.token.continuesLine = false := by
    intro l hl
    simpa [Option.mem_def.1 hl] using h
  constructor
  · obtain ⟨ps, hp⟩ := hok "type A" (by decide +kernel)
    obtain ⟨qs, hq⟩ := hok "\x7b x \x7d" (by decide +kernel)
    obtain ⟨e, he⟩ := herror ("type A" ++ "\n" ++ "\x7b x \x7d") (by decide +kernel)
    exact ⟨ps, qs, e, hp, hq, by decide +kernel, hfirst (by decide +kernel), he⟩
  · obtain ⟨ps, hp⟩ := hok "x" (by decide +kernel)
    obtain ⟨qs, hq⟩ := hok "\x7b a: Int | a \x7d" (by decide +kernel)
    obtain ⟨e, he⟩ := herror ("x" ++ "\n" ++ "\x7b a: Int | a \x7d") (by decide +kernel)
    exact ⟨ps, qs, e, hp, hq, by decide +kernel, hfirst (by decide +kernel), he⟩

end DispatchLang
