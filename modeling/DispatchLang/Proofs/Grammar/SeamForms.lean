import DispatchLang.Proofs.Grammar.Seam

/-!
# The grammar at a seam

The grammar is gone through reader by reader: each one agrees with itself, run with at least as many rounds on the
other side. Types, parameters and fields are never open. A pattern is open if it ends with a name, a type
declaration if it has no body, and an expression if the part that it ends with is one of these; whatever is
closed by a bracket is not open, because the bracket is missing at the seam.

Two places look further ahead. A construction is told by a brace, a name and a colon, and the list `[:]` by
two symbols; the seam may lie between these, but no statement begins with what would be missing. A block first
tries to read parameters and starts again where it finds none; parameters that are found only in the second run
begin with a name and a symbol that no statement goes on with, so that in the first run the block is refused.

## Main results

* `Grammar.agrees_expression`: expressions agree.
-/

namespace DispatchLang

open Reader Seam

namespace Grammar

variable {σ : Seam} {c d : Cursor} {n m : Nat}

/-! ## Types and parameters -/

theorem agrees_typeExpr (hnm : n ≤ m) :
    σ.Agrees c d (typeExpr n) (typeExpr m) (σ.UpTo TypeExpr.moved) Never := by
  induction n generalizing m c d with
  | zero => exact .refused ⟨_, rfl⟩
  | succ n ih =>
    obtain ⟨m, rfl⟩ : ∃ k, m = k + 1 := ⟨m - 1, by omega⟩
    rw [typeExpr, typeExpr]
    refine .name_bind fun x y hxy _ => .onLine_bind (by decide) (fun hne => ?_) ?_
    · refine .take_bind hne fun _ => ?_
      refine (Agrees.separated (by decide) (fun c d => ih (by omega)) hnm).bind fun as bs c₁ d₁ h => ?_
      refine (Agrees.expect _).bind fun _ _ _ _ hclose => .pure ?_
      simp only [Placing.UpTo, TypeExpr.moved, TypeExpr.movedAll_eq_map, hxy.val, (hxy.place.cover hclose).eq,
        Placing.UpTo.map h]
    · exact .pure (by simp only [Placing.UpTo, TypeExpr.moved, hxy.val, hxy.place.eq])

theorem agrees_typeAfter {s : Symbol} (hs : s ∉ Symbol.starters) (hnm : n ≤ m) :
    σ.Agrees c d (typeAfter s n) (typeAfter s m) (σ.UpTo fun f => Option.map (TypeExpr.moved f)) Never := by
  refine (Agrees.accept hs).bind fun b b' c₁ d₁ hb => ?_
  subst hb
  split
  · exact (agrees_typeExpr hnm).map (fun a b h => congrArg some h) fun _ _ h => h.elim
  · exact .pure rfl

theorem agrees_param (hnm : n ≤ m) : σ.Agrees c d (param n) (param m) (σ.UpTo Param.moved) Never := by
  refine .name_bind fun x y hxy _ => (agrees_typeAfter (by decide) hnm).map (fun a b h => ?_) fun _ _ h => h.elim
  simp only [Placing.UpTo, Param.moved, hxy.eq, h.eq]

theorem agrees_typeParam (hnm : n ≤ m) :
    σ.Agrees c d (typeParam n) (typeParam m) (σ.UpTo TypeParam.moved) Never := by
  refine .name_bind fun x y hxy _ => (agrees_typeAfter (by decide) hnm).map (fun a b h => ?_) fun _ _ h => h.elim
  simp only [Placing.UpTo, TypeParam.moved, hxy.eq, h.eq]

theorem agrees_typeParams (hnm : n ≤ m) :
    σ.Agrees c d (typeParams n) (typeParams m) (List.Forall₂ (σ.UpTo TypeParam.moved)) Never := by
  refine (Agrees.accept (by decide)).bind fun b b' c₁ d₁ hb => ?_
  subst hb
  split
  · refine (Agrees.separated (by decide) (fun c d => agrees_typeParam hnm) hnm).bind fun as bs c₂ d₂ h => ?_
    exact (Agrees.expect _).bind fun _ _ _ _ _ => .pure h
  · exact .pure .nil

theorem agrees_closureParams (hnm : n ≤ m) :
    σ.Agrees c d (closureParams n) (closureParams m) (List.Forall₂ (σ.UpTo Param.moved)) Never := by
  induction n generalizing m c d with
  | zero => exact .refused ⟨_, rfl⟩
  | succ n ih =>
    obtain ⟨m, rfl⟩ : ∃ k, m = k + 1 := ⟨m - 1, by omega⟩
    refine (agrees_param hnm).bind fun p q c₁ d₁ hp => (Agrees.accept (by decide)).bind fun b b' c₂ d₂ hb => ?_
    subst hb
    split
    · exact (ih (by omega)).map (fun as bs h => .cons hp h) fun _ _ h => h.elim
    · exact (Agrees.expect _).bind fun _ _ _ _ _ => .pure (.cons hp .nil)

theorem agrees_functionParams (hnm : n ≤ m) :
    σ.Agrees c d (functionParams n) (functionParams m) (List.Forall₂ (σ.UpTo Param.moved)) Never := by
  refine .here_bind (fun hc _ => ?_) fun hne hl => ?_
  · rw [hc, σ.stops]
    exact .failHere
  · rw [← hl.token]
    split
    · refine .take_bind hne fun _ => ?_
      refine (Agrees.separated (by decide) (fun c d => agrees_param hnm) hnm).bind fun as bs c₂ d₂ h => ?_
      exact (Agrees.expect _).bind fun _ _ _ _ _ => .pure h
    · exact (agrees_param hnm).map (fun p q h => .cons h .nil) fun _ _ h => h.elim
    · exact .pure .nil
    · exact .failHere

theorem agrees_functionHead (hnm : n ≤ m) :
    σ.Agrees c d (functionHead n) (functionHead m)
      (fun x y => σ.Same x.1 y.1 ∧ σ.UpTo FunctionHead.moved x.2 y.2) Never := by
  refine (Agrees.expectWord _).bind fun _ _ c₁ d₁ hfirst => .name_bind fun x y hxy _ => ?_
  refine (agrees_typeParams hnm).bind fun ts us c₂ d₂ ht => ?_
  refine (agrees_functionParams hnm).bind fun ps qs c₃ d₃ hp => ?_
  refine (Agrees.expect _).bind fun _ _ _ _ _ => .pure ⟨hfirst, ?_⟩
  simp only [Placing.UpTo, FunctionHead.moved, hxy.eq, Placing.UpTo.map ht, Placing.UpTo.map hp]

/-! ## Type declarations -/

theorem refusesEnd_fieldDecl (n : Nat) : RefusesEnd (fieldDecl n) := by
  refine .here_bind fun l hl => ?_
  rw [hl]
  exact .failHere

theorem agrees_fieldDecl (hnm : n ≤ m) :
    σ.Agrees c d (fieldDecl n) (fieldDecl m) (σ.UpTo FieldDecl.moved) Never := by
  refine .here_bind (fun hc _ => ?_) fun hne hl => ?_
  · rw [hc, σ.stops]
    exact .failHere
  · rw [← hl.token]
    split
    · refine .name_bind fun x y hxy _ => (Agrees.accept (by decide)).bind fun b b' c₁ d₁ hb => ?_
      subst hb
      split
      · refine (agrees_typeExpr hnm).map (fun t u h => ?_) fun _ _ h => h.elim
        simp only [Placing.UpTo, FieldDecl.moved, hxy.eq, h.eq]
      · exact .failHere
    · exact .failHere

theorem agrees_variantDecl (hnm : n ≤ m) :
    σ.Agrees c d (variantDecl n) (variantDecl m) (σ.UpTo VariantDecl.moved) Never := by
  refine .name_bind fun x y hxy _ => .onLine_bind (by decide) (fun hne => ?_) ?_
  · refine .take_bind hne fun _ => ?_
    refine (Agrees.lines (by decide) (fun c d => agrees_fieldDecl hnm) (refusesEnd_fieldDecl n) hnm).bind
      fun as bs c₁ d₁ h => (Agrees.expect _).bind fun _ _ _ _ _ => .pure ?_
    simp only [Placing.UpTo, VariantDecl.moved, hxy.eq, Placing.UpTo.map h]
  · exact .pure (by simp only [Placing.UpTo, VariantDecl.moved, hxy.eq, List.map_nil])

theorem agrees_variantDecls (hnm : n ≤ m) :
    σ.Agrees c d (variantDecls n) (variantDecls m) (List.Forall₂ (σ.UpTo VariantDecl.moved)) Never := by
  induction n generalizing m c d with
  | zero => exact .refused ⟨_, rfl⟩
  | succ n ih =>
    obtain ⟨m, rfl⟩ : ∃ k, m = k + 1 := ⟨m - 1, by omega⟩
    refine (agrees_variantDecl hnm).bind fun v w c₁ d₁ hv => ?_
    refine (Agrees.accept (by decide)).bind fun b b' c₂ d₂ hb => ?_
    subst hb
    split
    · exact (ih (by omega)).map (fun as bs h => .cons hv h) fun _ _ h => h.elim
    · exact .pure (.cons hv .nil)

theorem typeBody_eof (n : Nat) {c : Cursor} (hc : c.here.token = .eof) :
    typeBody n c = .ok (.concrete, c) := by
  obtain ⟨last, ⟨token, span, afterBreak, touches⟩, ahead⟩ := c
  obtain rfl : token = .eof := hc
  rfl

/-- A declaration may be without a body at the seam and find a brace there in the second run. -/
theorem agrees_typeBody (hnm : n ≤ m) :
    σ.Agrees c d (typeBody n) (typeBody m) (σ.UpTo TypeBody.moved)
      fun c₁ body => Lexeme.beginBrace (σ.here :: σ.ahead) = true ∧ body = .concrete ∧
        Lexeme.reach σ.text ≤ c₁.last.stop := by
  refine .of_beside fun hcd => ?_
  have hbody (h : isSymbol .openBrace c.here.token = isSymbol .openBrace d.here.token) :
      σ.Agrees c d (typeBody n) (typeBody m) (σ.UpTo TypeBody.moved) Never := by
    refine (Agrees.accept_of_eq h).bind fun b b' c₁ d₁ hb => ?_
    subst hb
    split
    · refine (Agrees.lines (by decide) (fun c d => agrees_fieldDecl hnm) (refusesEnd_fieldDecl n) hnm).bind
        fun as bs c₂ d₂ h => (Agrees.expect _).bind fun _ _ _ _ _ => .pure ?_
      simp only [Placing.UpTo, TypeBody.moved, Placing.UpTo.map h]
    · refine (Agrees.accept (by decide)).bind fun b b' c₁ d₁ hb => ?_
      subst hb
      split
      · refine (agrees_variantDecls hnm).map (fun vs ws h => ?_) fun _ _ h => h.elim
        simp only [Placing.UpTo, TypeBody.moved, Placing.UpTo.map h]
      · exact .pure rfl
  rcases hcd.cases_here with ⟨hc, -, hd, -⟩ | ⟨-, hl, -⟩
  · have heof : c.here.token = .eof := hc ▸ σ.stops
    by_cases hbrace : Lexeme.beginBrace (σ.here :: σ.ahead) = true
    · refine .of_open fun body c₁ hb => ?_
      rw [typeBody_eof n heof] at hb
      cases hb
      exact ⟨heof, hbrace, rfl, hcd.reach_le heof⟩
    · refine (hbody ?_).closed
      rw [heof, hd]
      exact (Bool.eq_false_iff.2 hbrace).symm
  · exact (hbody (by rw [hl.token])).closed

theorem agrees_typeDecl (hnm : n ≤ m) :
    σ.Agrees c d (typeDecl n) (typeDecl m) (σ.UpTo Node.moved) σ.Open := by
  refine (Agrees.expectWord _).bind fun first _ c₁ d₁ hfirst => .name_bind fun x y hxy _ => ?_
  refine (agrees_typeParams hnm).bind fun ts us c₂ d₂ ht => ?_
  refine (agrees_typeAfter (by decide) hnm).bind fun p q c₃ d₃ hp => ?_
  refine (agrees_typeBody hnm).bind_open (fun b b' c₄ d₄ hb => ?_) fun b c₄ hc₄ hopen node c₅ hnode => ?_
  · intro hcd node c₅ hnode
    cases hnode
    refine .inl ⟨_, _, rfl, hcd, ?_⟩
    simp only [Placing.UpTo, Node.moved, TypeDecl.moved, (hfirst.cover hcd.place).eq, hxy.eq, Placing.UpTo.map ht,
      hp.eq, hb.eq]
  · cases hnode
    obtain ⟨hbrace, rfl, hreach⟩ := hopen
    exact ⟨hc₄, hbrace, rfl, hreach.trans (Span.stop_le_stop_cover' _ _)⟩

theorem agrees_abstractDecl (hnm : n ≤ m) :
    σ.Agrees c d (abstractDecl n) (abstractDecl m) (σ.UpTo Node.moved) Never := by
  have hrest {c d : Cursor} {s t : Span} (hst : σ.Same s t) : σ.Agrees c d
      (do
        let head ← name
        let parent ← typeAfter .below n
        return .typeDecl (s.cover (← get).last) ⟨head, [], parent, .abstract⟩)
      (do
        let head ← name
        let parent ← typeAfter .below m
        return .typeDecl (t.cover (← get).last) ⟨head, [], parent, .abstract⟩) (σ.UpTo Node.moved) Never := by
    refine .name_bind fun x y hxy _ => (agrees_typeAfter (by decide) hnm).bind fun p q c₁ d₁ hp => ?_
    intro hcd node c₂ hnode
    cases hnode
    refine .inl ⟨_, _, rfl, hcd, ?_⟩
    simp only [Placing.UpTo, Node.moved, TypeDecl.moved, (hst.cover hcd.place).eq, hxy.eq, hp.eq, List.map_nil,
      TypeBody.moved]
  refine (Agrees.expectWord _).bind fun s t c₁ d₁ hst => .here_bind (fun hc _ => ?_) fun hne hl => ?_
  · -- at the seam there is no name
    rw [hc, σ.stops]
    exact .refused_of_eof (hc ▸ σ.stops) RefusesEnd.name.bind
  · rw [← hl.token]
    dsimp only
    split
    · exact .take_bind hne fun _ => hrest hst
    · exact hrest hst

/-! ## Patterns -/

theorem fieldsAhead_eq (c : Cursor) :
    fieldsAhead c = .ok (Lexeme.beginFields (c.here :: c.ahead), c) := by
  obtain ⟨last, here, ahead⟩ := c
  match ahead with
  | [] => exact congrArg (fun b => Except.ok (b, _)) (Bool.and_false _)
  | [_] => exact congrArg (fun b => Except.ok (b, _)) (Bool.and_false _)
  | l :: m :: ls => exact congrArg (fun b => Except.ok (b, _)) (Bool.and_assoc ..).symm

/-- Before the seam the two runs find fields at the same places. What is missing of them at the seam does not
begin a statement. -/
theorem beginFields_eq {ls ls' : List Lexeme} (h : σ.Texts ls ls') (hne : ls ≠ [σ.stop]) :
    Lexeme.beginFields ls = Lexeme.beginFields ls' := by
  have hcolon : isSymbol .colon σ.here.token = false := isSymbol_here (by decide)
  have hstop : isSymbol .colon σ.stop.token = false := by rw [σ.stops]; rfl
  cases h with
  | seam => exact absurd rfl hne
  | word _ hl rest =>
    cases rest with
    | seam =>
      have hlabel := σ.label
      cases ha : σ.ahead with
      | nil => rfl
      | cons n ns =>
        rw [ha, List.head?_cons, Option.any_some] at hlabel
        unfold Lexeme.beginFields
        cases hn : isName σ.here.token with
        | false => simp [hn]
        | true => simp [hlabel hn]
    | word _ hm rest =>
      cases rest with
      | seam => simp [Lexeme.beginFields, hcolon, hstop]
      | word _ hn _ => simp only [Lexeme.beginFields, hl.token, hm.token, hn.token]

/-- What is read after looking for fields. At the seam they may be found in the second run alone. -/
theorem agrees_fieldsAhead {α : Type} {g g' : Bool → Reader α} {S : α → α → Prop} {B : Cursor → α → Prop}
    (h : ∀ b, σ.Agrees c d (g b) (g' b) S B)
    (hseam : σ.Beside c d → c.here.token = .eof → Lexeme.beginFields (σ.here :: σ.ahead) = true →
      ∀ a c₁, g false c = .ok (a, c₁) → c₁.here.token = .eof ∧ B c₁ a) :
    σ.Agrees c d (fieldsAhead >>= g) (fieldsAhead >>= g') S B := by
  refine .of_beside fun hcd => ?_
  have hc : (fieldsAhead >>= g) c = g (Lexeme.beginFields (c.here :: c.ahead)) c := by
    show (fieldsAhead c >>= fun x => g x.1 x.2) = _
    rw [fieldsAhead_eq]
    rfl
  have hd : (fieldsAhead >>= g') d = g' (Lexeme.beginFields (d.here :: d.ahead)) d := by
    show (fieldsAhead d >>= fun x => g' x.1 x.2) = _
    rw [fieldsAhead_eq]
    rfl
  intro _ a c₁ ha
  rw [hc] at ha
  rw [hd]
  by_cases hseq : Lexeme.beginFields (c.here :: c.ahead) = Lexeme.beginFields (d.here :: d.ahead)
  · rw [← hseq]
    exact h _ hcd a c₁ ha
  · rcases hcd.cases_here with ⟨hstop, hnil, hhere, hahead⟩ | ⟨hne, -, -⟩
    · rw [hnil] at ha hseq
      rw [hhere, hahead] at hseq
      have hfields : Lexeme.beginFields (σ.here :: σ.ahead) = true := by
        rw [← Bool.not_eq_false]
        exact fun hf => hseq hf.symm
      exact .inr (hseam hcd (hstop ▸ σ.stops) hfields a c₁ ha)
    · refine absurd (beginFields_eq hcd.texts fun hstop => hne ?_) hseq
      rw [(List.cons.inj hstop).1, σ.stops]

theorem Lexeme.beginBrace_of_beginFields {ls : List Lexeme} (h : Lexeme.beginFields ls = true) :
    Lexeme.beginBrace ls = true := by
  unfold Lexeme.beginFields at h
  split at h
  · rw [Bool.and_eq_true, Bool.and_eq_true] at h
    exact h.1.1
  · cases h

/-- A name at the seam that finds fields there in the second run. -/
theorem open_ident {x : Located String} (hcd : σ.Beside c d) (hend : c.here.token = .eof)
    (hfields : Lexeme.beginFields (σ.here :: σ.ahead) = true) (hlast : c.last = x.span) :
    σ.Open c (.ident x.span x.val) :=
  ⟨Lexeme.beginBrace_of_beginFields hfields, hfields, hlast ▸ hcd.reach_le hend⟩

variable {item item' : Reader Node}

theorem agrees_constructFields (h : ∀ c d, σ.Agrees c d item item' (σ.UpTo Node.moved) σ.Open) (hnm : n ≤ m) :
    σ.Agrees c d (constructFields item n) (constructFields item' m)
      (fun x y => σ.UpTo Node.movedEntries x.1 y.1 ∧ σ.Same x.2 y.2) Never := by
  refine (Agrees.expect _).bind fun _ _ c₁ d₁ _ => ?_
  refine (Agrees.lines (S := σ.UpTo fun f x => (x.1.moved f, x.2.moved f)) (B := fun c₁ x => σ.Open c₁ x.2) (by decide)
    (fun c d => ?_) RefusesEnd.name.bind hnm).bind fun as bs c₂ d₂ hs => ?_
  · refine .name_bind fun x y hxy _ => (Agrees.expect _).bind fun _ _ c₃ d₃ _ => ?_
    exact (h c₃ d₃).map (fun a b hab => Prod.ext hxy hab) fun _ _ hopen => hopen
  · refine (Agrees.expect _).bind fun _ _ _ _ hclose => .pure ⟨?_, hclose⟩
    show Node.movedEntries _ as = Node.movedEntries _ bs
    induction hs with
    | nil => rfl
    | cons hab _ ih =>
      obtain ⟨hname, hvalue⟩ := Prod.mk.inj hab.eq
      rw [Node.movedEntries, Node.movedEntries, hname, hvalue, ih]

theorem agrees_construct {x y : Located String} (hxy : σ.UpTo Located.moved x y)
    (h : ∀ c d, σ.Agrees c d item item' (σ.UpTo Node.moved) σ.Open) (hnm : n ≤ m) :
    σ.Agrees c d
      (do
        let (fields, close) ← constructFields item n
        return .construct (x.span.cover close) x fields)
      (do
        let (fields, close) ← constructFields item' m
        return .construct (y.span.cover close) y fields) (σ.UpTo Node.moved) Never := by
  refine (agrees_constructFields h hnm).bind fun a b _ _ hab => .pure ?_
  simp only [Placing.UpTo, Node.moved, hxy.eq, hab.1.eq, (hxy.place.cover hab.2).eq]

/-- At the seam a capture is not followed by the pattern that it is limited to. -/
theorem refinement_here : (!σ.here.afterBreak && beginsRefinement σ.here.token) = false := by
  by_cases h : σ.here.token = .eof
  · rw [h]
    exact Bool.and_false _
  · rw [(σ.onLine h).1]
    rfl

/-- At the seam a capture is not followed by its name. -/
theorem touching_here : (isName σ.here.token && σ.here.touches) = false := by
  by_cases h : σ.here.token = .eof
  · rw [h]
    rfl
  · rw [(σ.onLine h).2, Bool.and_false]

theorem agrees_captureWith (h : ∀ c d, σ.Agrees c d item item' (σ.UpTo Node.moved) σ.Open) :
    σ.Agrees c d (captureWith item) (captureWith item') (σ.UpTo Node.moved) σ.Open := by
  have hrest {c d : Cursor} {bound : Option String} {s t : Span} (hst : σ.Same s t) : σ.Agrees c d
      (do
        let l ← here
        if !l.afterBreak && beginsRefinement l.token then
          let inner ← item
          return .refine (s.cover inner.span) bound inner
        else return .capture s bound)
      (do
        let l ← here
        if !l.afterBreak && beginsRefinement l.token then
          let inner ← item'
          return .refine (t.cover inner.span) bound inner
        else return .capture t bound) (σ.UpTo Node.moved) σ.Open := by
    refine .here_bind (fun hc hd => ?_) fun _ hl => ?_
    · rw [hc, hd, σ.stops, refinement_here]
      simp only [beginsRefinement, isName, literal?, Option.isSome_none, Bool.or_self, Bool.and_false]
      exact .pure (congrArg (Node.capture · bound) hst)
    · rw [← hl.token, ← hl.afterBreak]
      split
      · refine (h c d).map (fun a b hab => ?_) fun _ _ hopen => hopen
        simp only [Placing.UpTo, Node.moved, hab.eq, (hst.cover hab.span).eq]
      · exact .pure (congrArg (Node.capture · bound) hst)
  refine (Agrees.expect _).bind fun s t c₁ d₁ hst => .here_bind (fun hc hd => ?_) fun _ hl => ?_
  · rw [hc, hd, σ.stops, touching_here]
    exact hrest hst
  · rw [← hl.token, ← hl.touches]
    dsimp only
    split
    · refine .name_bind fun x y hxy _ => ?_
      rw [hxy.val]
      exact hrest (hst.cover hxy.place)
    · exact hrest hst

theorem agrees_pattern (hnm : n ≤ m) :
    σ.Agrees c d (pattern n) (pattern m) (σ.UpTo Node.moved) σ.Open := by
  induction n generalizing m c d with
  | zero => exact .refused ⟨_, rfl⟩
  | succ n ih =>
    obtain ⟨m, rfl⟩ : ∃ k, m = k + 1 := ⟨m - 1, by omega⟩
    rw [pattern, pattern]
    refine .here_bind (fun hc hd => ?_) fun hne hl => ?_
    · rw [hc, σ.stops]
      exact .failHere
    · rw [← hl.token]
      split
      · exact agrees_captureWith fun c d => ih (by omega)
      · refine .name_bind fun x y hxy hlast => agrees_fieldsAhead (fun b => ?_) fun hcd hend hfields a c₁ ha => ?_
        · split
          · exact (agrees_construct hxy (fun c d => ih (by omega)) hnm).closed
          · exact .pure (by simp only [Placing.UpTo, Node.moved, hxy.val, hxy.place.eq])
        · cases ha
          exact ⟨hend, open_ident hcd hend hfields hlast⟩
      · refine .take_bind hne fun _ => .here_bind (fun hc _ => ?_) fun hne' hl' => ?_
        · rw [hc, σ.stops]
          exact .failHere
        · rw [← hl'.token]
          split
          · exact .take_bind hne' fun _ => .pure (congrArg (Node.literal · _) (hl.place.cover hl'.place))
          · exact .failHere
      · split
        · exact .take_bind hne fun _ => .pure (congrArg (Node.literal · _) hl.place)
        · exact .failHere

/-! ## What is asked about nodes -/

end Grammar

namespace Node

mutual

theorem holdsCapture_moved (f : Span → Span) : (node : Node) → (node.moved f).holdsCapture = node.holdsCapture
  | .construct _ _ fields => fieldsHoldCapture_moved f fields
  | .literal .. | .ident .. | .binary .. | .unary .. | .assign .. | .field .. | .call .. | .send ..
  | .block .. | .cases .. | .typeDecl .. | .function .. | .capture .. | .refine .. | .quoted ..
  | .array .. | .object .. | .pair .. => rfl

theorem fieldsHoldCapture_moved (f : Span → Span) : (fields : List (Located String × Node)) →
    fieldsHoldCapture (movedEntries f fields) = fieldsHoldCapture fields
  | [] => rfl
  | (_, value) :: fields => congrArg₂ (· || ·) (holdsCapture_moved f value) (fieldsHoldCapture_moved f fields)

end

theorem isTarget_moved (f : Span → Span) (node : Node) : (node.moved f).isTarget = node.isTarget := by
  cases node with
  | construct span name fields => exact holdsCapture_moved f (.construct span name fields)
  | _ => rfl

end Node

namespace Grammar

theorem isPair_moved (f : Span → Span) (node : Node) : isPair (node.moved f) = isPair node := by
  cases node <;> rfl

/-- The entries of an object stand where the object stands. -/
theorem entries_moved (f : Span → Span) (elements : List Node) :
    (entries (elements.map (Node.moved f))).toOption = (entries elements).toOption.map (Node.movedEntries f) := by
  have hcons (key : String) (s : Span) (value : Node) (x y : Except SyntaxError (List (Located String × Node)))
      (h : x.toOption = y.toOption.map (Node.movedEntries f)) :
      (do return (⟨key, f s⟩, value.moved f) :: (← x) : Except SyntaxError _).toOption =
        (do return (⟨key, s⟩, value) :: (← y) : Except SyntaxError _).toOption.map (Node.movedEntries f) := by
    cases x <;> cases y
    case ok.ok fields fields' =>
      obtain rfl : fields = Node.movedEntries f fields' := Option.some.inj h
      show some _ = some (Node.movedEntries f ((⟨key, s⟩, value) :: fields'))
      rw [Node.movedEntries]
      rfl
    all_goals first | rfl | cases h
  induction elements with
  | nil => rfl
  | cons node elements ih =>
    cases node with
    | pair span key value =>
      cases key with
      | ident at_ name => exact hcons _ _ _ _ _ ih
      | literal at_ key =>
        cases key with
        | string key => exact hcons _ _ _ _ _ ih
        | _ => rfl
      | _ => rfl
    | _ => exact ih

/-- A list of elements stands for the same array or object wherever it stands. -/
theorem ofElements_like {π : Placing} {s t : Span} {as bs : List Node} (hst : π.Same s t)
    (h : List.Forall₂ (π.UpTo Node.moved) as bs) :
    ∀ node, ofElements s as = .ok node → ∃ node', ofElements t bs = .ok node' ∧ π.UpTo Node.moved node node' := by
  have hmap := Placing.UpTo.map h
  have hpairs (p : Bool → Bool) : as.all (fun node => p (isPair node)) = bs.all fun node => p (isPair node) := by
    have h := congrArg (List.all · fun node => p (isPair node)) hmap
    simpa only [List.all_map, Function.comp_def, isPair_moved] using h
  intro node hnode
  unfold ofElements at hnode ⊢
  rw [hpairs (!·)] at hnode
  rw [show as.all isPair = bs.all isPair from hpairs id] at hnode
  split_ifs at hnode ⊢
  · cases hnode
    exact ⟨_, rfl, by simp only [Placing.UpTo, Node.moved, Node.movedAll_eq_map, hst.eq, hmap]⟩
  · have hentries : (entries as).toOption.map (Node.movedEntries π.left) =
        (entries bs).toOption.map (Node.movedEntries π.right) := by
      rw [← entries_moved, ← entries_moved, hmap]
    cases ha : entries as with
    | error e => rw [ha] at hnode; cases hnode
    | ok fields =>
      rw [ha] at hnode hentries
      cases hnode
      cases hb : entries bs with
      | error e => rw [hb] at hentries; cases hentries
      | ok fields' =>
        rw [hb] at hentries
        have hfields : Node.movedEntries π.left fields = Node.movedEntries π.right fields' := Option.some.inj hentries
        exact ⟨_, rfl, by simp only [Placing.UpTo, Node.moved, hst.eq, hfields]⟩

variable {σ : Seam} {c d : Cursor} {n m : Nat} {expr expr' : ExpressionReader}

/-! ## Forms that hold expressions -/

section Forms

variable (he : ∀ ctx least c d, σ.Agrees c d (expr ctx least) (expr' ctx least) (σ.UpTo Node.moved) σ.Open)
  (hnm : n ≤ m)
include he hnm

theorem agrees_arguments :
    σ.Agrees c d (arguments expr n) (arguments expr' m)
      (fun x y => σ.UpTo Node.movedAll x.1 y.1 ∧ σ.Same x.2 y.2) Never := by
  refine (Agrees.expect _).bind fun _ _ c₁ d₁ _ => ?_
  refine (Agrees.separated (by decide) (he _ _) hnm).bind fun as bs c₂ d₂ h => ?_
  refine (Agrees.expect _).bind fun _ _ _ _ hclose => .pure ⟨?_, hclose⟩
  simp only [Placing.UpTo, Node.movedAll_eq_map, Placing.UpTo.map h]

theorem agrees_afterName (ctx : Context) {x y : Located String} (hxy : σ.UpTo Located.moved x y) (hlast : c.last = x.span) :
    σ.Agrees c d (afterName expr n ctx x) (afterName expr' m ctx y) (σ.UpTo Node.moved) σ.Open := by
  refine .isAt_bind (by decide) (fun _ _ => ?_) fun hparen => ?_
  · refine ((agrees_arguments he hnm).bind fun a b _ _ hab => .pure ?_).closed
    simp only [Placing.UpTo, Node.moved, hxy.eq, hab.1.eq, (hxy.place.cover hab.2).eq]
  · have hident : σ.UpTo Node.moved (.ident x.span x.val) (.ident y.span y.val) := by
      simp only [Placing.UpTo, Node.moved, hxy.val, hxy.place.eq]
    dsimp only [Bool.false_eq_true, if_false]
    cases hc : ctx.constructs with
    | false => exact .pure hident
    | true =>
      refine agrees_fieldsAhead (fun b => ?_) fun hcd hend hfields a c₁ ha => ?_
      · cases b with
        | false => exact .pure hident
        | true => exact (agrees_construct hxy (he _ _) hnm).closed
      · cases ha
        exact ⟨hend, open_ident hcd hend hfields hlast⟩

theorem agrees_list : σ.Agrees c d (list expr n) (list expr' m) (σ.UpTo Node.moved) Never := by
  refine (Agrees.expect _).bind fun s t c₁ d₁ hst => .of_beside fun hcd => .get_bind ?_
  have hempty : (isSymbol .colon c₁.here.token && c₁.ahead.head?.any (isSymbol .closeBracket ·.token)) =
      (isSymbol .colon d₁.here.token && d₁.ahead.head?.any (isSymbol .closeBracket ·.token)) := by
    rw [hcd.isSymbol_eq (by decide)]
    by_cases hne : c₁.here.token = .eof
    · rw [← hcd.isSymbol_eq (by decide), hne]
      rfl
    · rw [hcd.nextIs_eq hne (by decide)]
  rw [← hempty]
  split
  · next h =>
    rw [Bool.and_eq_true] at h
    refine .take_bind (Reads.ne_eof_of_isSymbol h.1) fun _ => ?_
    exact .take_bind (Reads.ne_eof_of_isSymbol (Cursor.next_here h.2)) fun hl =>
      .pure (congrArg (Node.object · []) (hst.cover hl.place))
  · refine (Agrees.separated (by decide) (he _ _) hnm).bind fun as bs c₂ d₂ h => ?_
    exact (Agrees.expect _).bind fun _ _ _ _ hclose => .check (ofElements_like (hst.cover hclose) h)

theorem agrees_function : σ.Agrees c d (function expr n) (function expr' m) (σ.UpTo Node.moved) σ.Open := by
  refine (agrees_functionHead hnm).bind fun a b c₁ d₁ hab => ?_
  refine (he _ _ c₁ d₁).map (fun body body' hbody => ?_) fun _ _ hopen => hopen
  simp only [Placing.UpTo, Node.moved, hab.2.eq, hbody.eq, (hab.1.cover hbody.span).eq]

theorem agrees_cases : σ.Agrees c d (cases expr n) (cases expr' m) (σ.UpTo Node.moved) Never := by
  have hend (opening : Span) (arm : Reader (Option (Node × Node))) : RefusesEnd (do
      if ← isAt .closeBrace then return none
      if ← atEnd then fail .unclosedMatch opening
      arm) := .isAt_bind (.atEnd_bind RefusesEnd.fail.bind)
  refine (Agrees.expectWord _).bind fun s t c₁ d₁ hst => ?_
  refine (he _ _ c₁ d₁).bind_end (fun e e' c₂ d₂ hscrutinee => ?_) fun _ => (RefusesEnd.expect _).bind
  refine (Agrees.expect _).bind fun opening opening' c₃ d₃ _ => ?_
  refine (Agrees.collect (S := σ.UpTo fun f arm => (arm.1.moved f, arm.2.moved f)) (fun first c d => ?_)
    (.skipWhile_bind rfl (hend opening _)) hnm true).bind fun arms arms' c₄ d₄ harms =>
      (Agrees.expect _).bind fun _ _ _ _ hclose => .pure ?_
  · refine .skipWhile_bind (hend opening _) fun c₄ d₄ hne => ?_
    refine .isAt_bind (by decide) (fun _ _ => .pure .none) fun _ => .atEnd_bind hne ?_
    refine (agrees_pattern hnm).bind_end (fun p p' c₅ d₅ hp => ?_) fun _ => (RefusesEnd.expect _).bind
    refine (Agrees.expect _).bind fun _ _ c₆ d₆ _ => ?_
    exact .endLine (p := fun t => isSymbol .comma t || isSymbol .closeBrace t) rfl (he _ _ c₆ d₆)
      fun _ _ hbody => Prod.ext hp hbody
  · have harms : Node.movedArms σ.left arms = Node.movedArms σ.right arms' := by
      induction harms with
      | nil => rfl
      | cons harm _ ih =>
        obtain ⟨hpattern, hbody⟩ := Prod.mk.inj harm.eq
        rw [Node.movedArms, Node.movedArms, hpattern, hbody, ih]
    simp only [Placing.UpTo, Node.moved, hscrutinee.eq, harms, (hst.cover hclose).eq]

end Forms

/-! ## Blocks -/

theorem statementEnd_eof {inBlock : Bool} {c : Cursor} (hc : c.here.token = .eof) :
    statementEnd inBlock c = .ok ((), c) := by
  obtain ⟨last, ⟨token, span, afterBreak, touches⟩, ahead⟩ := c
  obtain rfl : token = .eof := hc
  rfl

theorem agrees_statementEnd {inBlock : Bool} (hne : c.here.token ≠ .eof) :
    σ.Agrees c d (statementEnd inBlock) (statementEnd inBlock) Eq Never := by
  refine .here_bind (fun hc _ => absurd (hc ▸ σ.stops) hne) fun _ hl => ?_
  rw [← hl.token, ← hl.afterBreak]
  split
  · exact .take_bind hne fun _ => .pure rfl
  · exact .pure rfl
  · exact .fail
  · split_ifs
    · exact .pure rfl
    · exact .pure rfl
    · exact .failHere

theorem agrees_statement {inBlock : Bool}
    (he : ∀ c d, σ.Agrees c d (expr .nested 0) (expr' .nested 0) (σ.UpTo Node.moved) σ.Open) :
    σ.Agrees c d (do let statement ← expr .nested 0; statementEnd inBlock; return some statement)
      (do let statement ← expr' .nested 0; statementEnd inBlock; return some statement)
      (Option.Rel (σ.UpTo Node.moved)) Agrees.Given := by
  have hend {a : Node} {o : Option Node} {c c' : Cursor} (hc : c.here.token = .eof)
      (ho : (do statementEnd inBlock; return some a) c = .ok (o, c')) : c'.here.token = .eof ∧ o.isSome := by
    have ho : (statementEnd inBlock c >>= fun x => Except.ok (some a, x.2)) = .ok (o, c') := ho
    rw [statementEnd_eof hc] at ho
    cases ho
    exact ⟨hc, rfl⟩
  refine (he c d).bind_open (fun a b c₁ d₁ hab => ?_) fun a c₁ hc₁ _ o c₂ ho => hend hc₁ ho
  by_cases hne : c₁.here.token = .eof
  · exact .of_open fun o c₂ ho => hend hne ho
  · exact (agrees_statementEnd hne).bind fun _ _ _ _ _ => .pure (.some hab)

/-- What a block reads in one round. -/
def statementItem (expr : ExpressionReader) (opening : Span) : Reader (Option Node) := do
  skipWhile (isSymbol .semicolon)
  if ← isAt .closeBrace then return none
  if ← atEnd then fail .unclosedBlock opening
  let statement ← expr .nested 0
  statementEnd true
  return some statement

theorem block_eq (expr : ExpressionReader) (n : Nat) : block expr n = (do
    let opening ← expect .openBrace
    let params := (← attempt (closureParams n)).getD []
    let body ← collect (fun _ => statementItem expr opening) n true
    let closing ← expect .closeBrace
    return .block (opening.cover closing) params body) := rfl

theorem agrees_body {s t : Span}
    (he : ∀ c d, σ.Agrees c d (expr .nested 0) (expr' .nested 0) (σ.UpTo Node.moved) σ.Open) (hnm : n ≤ m) :
    σ.Agrees c d (collect (fun _ => statementItem expr s) n true) (collect (fun _ => statementItem expr' t) m true)
      (List.Forall₂ (σ.UpTo Node.moved)) Never := by
  refine .collect (fun first c d => ?_) ?_ hnm true
  · refine .skipWhile_bind (.isAt_bind (.atEnd_bind RefusesEnd.fail.bind)) fun c₁ d₁ hne => ?_
    refine .isAt_bind (by decide) (fun _ _ => .pure .none) fun _ => .atEnd_bind hne ?_
    exact agrees_statement he
  · exact .skipWhile_bind rfl (.isAt_bind (.atEnd_bind RefusesEnd.fail.bind))

/-! ### Labels -/

/-- Whether no expression begins with a token and no statement goes on with it after a name: it is the end, or it
would make the name a label or a parameter. -/
def afterLabel : Token → Bool
  | .symbol .colon | .symbol .comma | .symbol .bar | .eof => true
  | _ => false

/-- What is asked of a reader for expressions besides that it agrees. -/
structure Proper (expr : ExpressionReader) : Prop where
  /-- It refuses what begins no expression. -/
  refuses : ∀ c, afterLabel c.here.token = true → ∃ e, expr .nested 0 c = .error e
  /-- It reads no more than the name of a label. -/
  label : ∀ c, isName c.here.token = true → afterLabel c.next.here.token = true →
    ∀ a c₁, expr .nested 0 c = .ok (a, c₁) → c₁ = c.next

theorem skipWhile_stay {α : Type} {skip : Token → Bool} {c : Cursor} (h : skip c.here.token = false)
    (g : Unit → Reader α) : (skipWhile skip >>= g) c = g () c := by
  show g () (c.skip skip) = _
  rw [c.skip_eq h]

theorem statementEnd_afterLabel {inBlock : Bool} {c c' : Cursor} {u : Unit}
    (h : afterLabel c.here.token = true) (hu : statementEnd inBlock c = .ok (u, c')) : c' = c := by
  obtain ⟨last, ⟨token, span, afterBreak, touches⟩, ahead⟩ := c
  unfold afterLabel at h
  split at h
  iterate 3
    · next ht =>
      obtain rfl := ht
      cases inBlock <;> cases afterBreak <;> cases hu <;> rfl
  · next ht =>
    rw [statementEnd_eof ht] at hu
    cases hu
    rfl
  · cases h

/-- No list of statements begins with a label: after the name nothing can be read. -/
theorem refuses_label (he : Proper expr) (inBlock : Bool) (item : Bool → Reader (Option Node)) {c : Cursor}
    (hname : isName c.here.token = true) (hlabel : afterLabel c.next.here.token = true)
    (hfirst : item true c = (do let statement ← expr .nested 0; statementEnd inBlock; return some statement) c)
    (hsecond : ∃ e, item false c.next = .error e) : ∃ e, collect item n true c = .error e := by
  cases n with
  | zero => exact ⟨_, rfl⟩
  | succ n =>
    have hitem : (∃ e, item true c = .error e) ∨ ∃ a, item true c = .ok (some a, c.next) := by
      rw [hfirst]
      show (∃ e, (expr .nested 0 c >>= fun x => statementEnd inBlock x.2 >>= fun y => .ok (some x.1, y.2)) =
        Except.error e) ∨ ∃ a, (expr .nested 0 c >>= fun x =>
          statementEnd inBlock x.2 >>= fun y => .ok (some x.1, y.2)) = Except.ok (some a, c.next)
      rcases hexpr : expr .nested 0 c with e | ⟨a, c₁⟩
      · exact .inl ⟨e, rfl⟩
      obtain rfl := he.label c hname hlabel a c₁ hexpr
      rcases hend : statementEnd inBlock c.next with e | ⟨u, c₂⟩
      · refine .inl ⟨e, ?_⟩
        show (statementEnd inBlock c.next >>= fun y => Except.ok (some a, y.2)) = _
        rw [hend]
        rfl
      · obtain rfl := statementEnd_afterLabel hlabel hend
        refine .inr ⟨a, ?_⟩
        show (statementEnd inBlock c.next >>= fun y => Except.ok (some a, y.2)) = _
        rw [hend]
        rfl
    rw [collect_succ]
    rcases hitem with ⟨e, hitem⟩ | ⟨a, hitem⟩
    · exact ⟨e, by rw [hitem]⟩
    · rw [hitem]
      cases n with
      | zero => exact ⟨_, rfl⟩
      | succ n =>
        obtain ⟨e, hsecond⟩ := hsecond
        refine ⟨e, ?_⟩
        show (collect item (n + 1) false c.next).map _ = _
        rw [collect_succ, hsecond]
        rfl

theorem label_of_closureParams {c c₁ : Cursor} {ps : List Param} (h : closureParams n c = .ok (ps, c₁)) :
    isName c.here.token = true ∧ afterLabel c.next.here.token = true := by
  cases n with
  | zero => cases h
  | succ n =>
    cases ht : c.here.token with
    | ident text =>
      refine ⟨rfl, ?_⟩
      by_contra hlabel
      have hno (s : Symbol) (hs : afterLabel (.symbol s) = true) : isSymbol s c.next.here.token = false := by
        cases hn : c.next.here.token with
        | symbol t =>
          refine decide_eq_false ?_
          rintro rfl
          exact hlabel (hn ▸ hs)
        | _ => rfl
      have hparam : param (n + 1) c = .ok (⟨⟨text, c.here.span⟩, none⟩, c.next) := by
        show (Reader.name c >>= fun x => (accept .colon x.2 >>= _) >>= _) = _
        rw [Agrees.name_eq, ht]
        show ((accept .colon c.next >>= _) >>= _) = _
        rw [Agrees.accept_eq, hno _ rfl]
        rfl
      have h : (param (n + 1) c >>= fun x => accept .comma x.2 >>= _) = Except.ok (ps, c₁) := h
      rw [hparam] at h
      have h : (accept .comma c.next >>= fun x => (if x.1 = true then _ else expect .bar >>= _ : Reader _) x.2) =
        Except.ok (ps, c₁) := h
      rw [Agrees.accept_eq, hno _ rfl] at h
      have h : (expect .bar c.next >>= _) = Except.ok (ps, c₁) := h
      rw [Agrees.expect_eq, hno _ rfl] at h
      cases h
    | _ =>
      have h : (param (n + 1) c >>= fun x => accept .comma x.2 >>= _) = Except.ok (ps, c₁) := h
      have hparam : ∃ e, param (n + 1) c = .error e := by
        refine ⟨⟨.expectedName c.here.token, c.here.span⟩, ?_⟩
        show (Reader.name c >>= fun x => (accept .colon x.2 >>= _) >>= _) = _
        rw [Agrees.name_eq, ht]
        rfl
      obtain ⟨e, hparam⟩ := hparam
      rw [hparam] at h
      cases h

theorem attempt_ok {α β : Type} {r : Reader α} {g : Option α → Reader β} {c c' : Cursor} {a : α}
    (h : r c = .ok (a, c')) : (attempt r >>= g) c = g (some a) c' := by
  show (attempt r c >>= fun x => g x.1 x.2) = _
  rw [attempt, h]
  rfl

theorem attempt_error {α β : Type} {r : Reader α} {g : Option α → Reader β} {c : Cursor} {e : SyntaxError}
    (h : r c = .error e) : (attempt r >>= g) c = g none c := by
  show (attempt r c >>= fun x => g x.1 x.2) = _
  rw [attempt, h]
  rfl

theorem statementItem_eq {s : Span} {c : Cursor} (hs : isSymbol .semicolon c.here.token = false)
    (hb : isSymbol .closeBrace c.here.token = false) : statementItem expr s c =
      match c.here.token with
      | .eof => .error ⟨.unclosedBlock, s⟩
      | _ => (do let statement ← expr .nested 0; statementEnd true; return some statement) c := by
  rw [statementItem, skipWhile_stay hs]
  show (if isSymbol .closeBrace c.here.token = true then _ else _ : Reader (Option Node)) c = _
  rw [hb]
  obtain ⟨last, ⟨token, span, afterBreak, touches⟩, ahead⟩ := c
  cases token <;> rfl

theorem isSymbol_afterLabel {s : Symbol} {t : Token} (hs : afterLabel (.symbol s) = false)
    (h : afterLabel t = true) : isSymbol s t = false := by
  cases t with
  | symbol s' =>
    refine decide_eq_false ?_
    rintro rfl
    rw [hs] at h
    cases h
  | _ => rfl

/-- No statement begins with what may follow the name of a label. -/
theorem refuses_statementItem (hproper : Proper expr) {s : Span} (hlabel : afterLabel c.here.token = true) :
    ∃ e, statementItem expr s c = .error e := by
  rw [statementItem_eq (isSymbol_afterLabel rfl hlabel) (isSymbol_afterLabel rfl hlabel)]
  split
  · exact ⟨_, rfl⟩
  · obtain ⟨e, he⟩ := hproper.refuses c hlabel
    refine ⟨e, ?_⟩
    show (expr .nested 0 c >>= _) = _
    rw [he]
    rfl

theorem refuses_statements (hproper : Proper expr) {s : Span} (hname : isName c.here.token = true)
    (hlabel : afterLabel c.next.here.token = true) :
    ∃ e, collect (fun _ => statementItem expr s) n true c = .error e := by
  refine refuses_label hproper true (fun _ => statementItem expr s) hname hlabel ?_
    (refuses_statementItem hproper hlabel)
  cases ht : c.here.token with
  | ident text => rw [statementItem_eq (by rw [ht]; rfl) (by rw [ht]; rfl), ht]
  | _ => rw [ht] at hname; cases hname

/-- Statements are refused where the parameters of a block are found only in the second run. -/
theorem refuses_body (hproper : Proper expr) (hcd : σ.Beside c d) {s : Span}
    (hname : isName d.here.token = true) (hlabel : afterLabel d.next.here.token = true) :
    ∃ e, collect (fun _ => statementItem expr s) n true c = .error e := by
  by_cases hne : c.here.token = .eof
  · cases n with
    | zero => exact ⟨_, rfl⟩
    | succ n =>
      obtain ⟨e, he⟩ := refuses_statementItem (c := c) (s := s) hproper (by rw [hne]; rfl)
      exact ⟨e, by rw [collect_succ, he]⟩
  · refine refuses_statements hproper (by rwa [(hcd.like hne).token]) ?_
    by_cases hne' : c.next.here.token = .eof
    · rw [hne']
      rfl
    · rwa [((hcd.next hne).like hne').token]

/-- A block that finds its parameters only in the second run is refused in the first one. -/
theorem agrees_block
    (he : ∀ c d, σ.Agrees c d (expr .nested 0) (expr' .nested 0) (σ.UpTo Node.moved) σ.Open)
    (hproper : Proper expr) (hnm : n ≤ m) :
    σ.Agrees c d (block expr n) (block expr' m) (σ.UpTo Node.moved) Never := by
  rw [block_eq, block_eq]
  refine (Agrees.expect _).bind fun s t c₁ d₁ hst => .of_beside fun hcd => ?_
  have hrest {ps qs : List Param} (h : List.Forall₂ (σ.UpTo Param.moved) ps qs) {c d : Cursor} :
      σ.Agrees c d (do
        let body ← collect (fun _ => statementItem expr s) n true
        let closing ← expect .closeBrace
        return .block (s.cover closing) ps body) (do
        let body ← collect (fun _ => statementItem expr' t) m true
        let closing ← expect .closeBrace
        return .block (t.cover closing) qs body) (σ.UpTo Node.moved) Never := by
    refine (agrees_body he hnm).bind fun as bs c₂ d₂ hbody => (Agrees.expect _).bind fun _ _ _ _ hclose => .pure ?_
    simp only [Placing.UpTo, Node.moved, Node.movedAll_eq_map, Placing.UpTo.map h, Placing.UpTo.map hbody,
      (hst.cover hclose).eq]
  rcases hc : closureParams n c₁ with e | ⟨ps, c₂⟩
  · rcases hd : closureParams m d₁ with e' | ⟨qs, d₂⟩
    · exact (hrest .nil).moved (attempt_error hc) (attempt_error hd) hcd
    · obtain ⟨hname, hlabel⟩ := label_of_closureParams hd
      obtain ⟨e', he'⟩ := refuses_body (n := n) (s := s) hproper hcd hname hlabel
      refine .refused ⟨e', ?_⟩
      rw [attempt_error hc]
      show (collect (fun _ => statementItem expr s) n true c₁ >>= _) = _
      rw [he']
      rfl
  · rcases agrees_closureParams hnm hcd ps c₂ hc with ⟨qs, d₂, hd, hcd₂, h⟩ | ⟨-, h⟩
    · exact (hrest h).moved (attempt_ok hc) (attempt_ok hd) hcd₂
    · exact h.elim

/-! ## Expressions -/

section Expressions

variable (he : ∀ ctx least c d, σ.Agrees c d (expr ctx least) (expr' ctx least) (σ.UpTo Node.moved) σ.Open)
  (hnm : n ≤ m)
include he hnm

theorem agrees_primary (hproper : Proper expr) (ctx : Context) :
    σ.Agrees c d (primary expr n ctx) (primary expr' m ctx) (σ.UpTo Node.moved) σ.Open := by
  refine .here_bind (fun hc _ => ?_) fun hne hl => ?_
  · rw [hc, σ.stops]
    exact .fail
  · have hliteral (value : Literal) {c₁ d₁ : Cursor} : σ.Agrees c₁ d₁ (pure (.literal c.here.span value))
        (pure (.literal d.here.span value)) (σ.UpTo Node.moved) σ.Open :=
      .pure (congrArg (Node.literal · value) hl.place)
    rw [← hl.token]
    split
    · exact .take_bind hne fun _ => hliteral _
    · exact .take_bind hne fun _ => hliteral _
    · exact .take_bind hne fun _ => hliteral _
    · exact .fail
    · exact .name_bind fun x y hxy hlast => agrees_afterName he hnm ctx hxy hlast
    · exact .fail
    · exact .take_bind hne fun _ => hliteral _
    · exact .take_bind hne fun _ => hliteral _
    · exact agrees_function he hnm
    · refine .of_beside fun hcd => .get_bind ?_
      rw [← hcd.nextIs_eq hne (by decide)]
      split
      · exact .take_bind hne fun _ => agrees_afterName he hnm ctx (congrArg (Located.mk "type") hl.place) (hcd.last_next hne)
      · exact agrees_typeDecl hnm
    · exact (agrees_abstractDecl hnm).closed
    · exact (agrees_cases he hnm).closed
    · exact .fail
    · refine .take_bind hne fun _ => ?_
      refine (he _ _ _ _).bind_end (fun a b _ _ hab => ?_) fun _ => (RefusesEnd.expect _).bind
      exact (Agrees.expect _).bind fun _ _ _ _ _ => .pure hab
    · exact (agrees_list he hnm).closed
    · exact (agrees_block (he _ _) hproper hnm).closed
    · refine .take_bind hne fun _ => (he _ _ _ _).map (fun a b hab => ?_) fun _ _ hopen => hopen
      simp only [Placing.UpTo, Node.moved, hab.eq, (hl.place.cover hab.span).eq]
    · refine .take_bind hne fun _ => (he _ _ _ _).map (fun a b hab => ?_) fun _ _ hopen => hopen
      simp only [Placing.UpTo, Node.moved, hab.eq, (hl.place.cover hab.span).eq]
    · refine .take_bind hne fun _ => (he _ _ _ _).map (fun a b hab => ?_) fun _ _ hopen => hopen
      simp only [Placing.UpTo, Node.moved, hab.eq, (hl.place.cover hab.span).eq]
    · exact agrees_captureWith fun _ _ => agrees_pattern hnm
    · exact .fail
    · exact .fail

omit he hnm in
theorem open_join {left right : Node} {connective : Connective} (h : σ.Open c right) :
    σ.Open c (join left connective right) := by
  cases connective <;> exact h

omit he hnm in
theorem join_upTo {π : Placing} {left left' right right' : Node} (connective : Connective)
    (hleft : π.UpTo Node.moved left left') (hright : π.UpTo Node.moved right right') :
    π.UpTo Node.moved (join left connective right) (join left' connective right') := by
  have hspan := (hleft.span.cover hright.span).eq
  cases connective <;> simp only [Placing.UpTo, join, Node.moved, hleft.eq, hright.eq, hspan]

/-- One more operator or member. -/
theorem agrees_extend (ctx : Context) (least : Nat) {left left' : Node} (hleft : σ.UpTo Node.moved left left') :
    σ.Agrees c d (extend expr n ctx least left) (extend expr' m ctx least left')
      (Option.Rel (σ.UpTo Node.moved)) fun c₁ o => ∃ a ∈ o, σ.Open c₁ a := by
  refine .here_bind (fun hc hd => ?_) fun hne hl => ?_
  · -- neither the end nor what begins another line goes on with an expression
    rw [hc, hd, σ.stops]
    by_cases hne : σ.here.token = .eof
    · rw [hne]
      cases σ.stop.afterBreak <;> cases σ.here.afterBreak <;> exact .pure .none
    · rw [(σ.onLine hne).1, continuesLine_here]
      cases σ.stop.afterBreak <;> exact .pure .none
  · rw [← hl.token, ← hl.afterBreak]
    split
    · exact .pure .none
    · split
      · refine .take_bind hne fun _ => .name_bind fun x y hxy _ => ?_
        refine .isAt_bind (by decide) (fun _ _ => ?_) fun _ => .pure (.some ?_)
        · refine ((agrees_arguments he hnm).bind fun a b _ _ hab => .pure (.some ?_)).closed
          simp only [Placing.UpTo, Node.moved, hxy.eq, hleft.eq, hab.1.eq, (hleft.span.cover hab.2).eq]
        · simp only [Placing.UpTo, Node.moved, hxy.eq, hleft.eq, (hleft.span.cover hxy.place).eq]
      · refine .take_bind hne fun _ => (he _ _ _ _).bind_end (fun a b _ _ hab => ?_) fun _ =>
          (RefusesEnd.expect _).bind
        refine (Agrees.expect _).bind fun _ _ _ _ hclose => .pure (.some ?_)
        simp only [Placing.UpTo, Node.moved, Node.movedAll, Located.moved, hl.place.eq, hleft.eq, hab.eq,
          (hleft.span.cover hclose).eq]
      · split
        · exact .pure .none
        · next connective _ =>
          split
          · exact .pure .none
          · refine .take_bind hne fun _ => ?_
            have hright {c d : Cursor} : σ.Agrees c d
                (do return some (join left connective (← expr ctx connective.powers.2)))
                (do return some (join left' connective (← expr' ctx connective.powers.2)))
                (Option.Rel (σ.UpTo Node.moved)) fun c₁ o => ∃ a ∈ o, σ.Open c₁ a :=
              (he _ _ c d).map (fun a b hab => .some (join_upTo connective hleft hab))
                fun _ a hopen => ⟨_, rfl, open_join hopen⟩
            have htarget : left'.isTarget = left.isTarget := by
              rw [← left.isTarget_moved σ.left, ← left'.isTarget_moved σ.right, hleft.eq]
            cases connective with
            | assign =>
              dsimp only
              rw [htarget, if_pos rfl, if_pos rfl]
              split
              · exact .refused ⟨_, rfl⟩
              · exact hright
            | _ => exact hright
      · exact .pure .none

omit he hnm in
/-- At the end there is nothing more of an expression. -/
theorem climb_eof {ctx : Context} {least k : Nat} {left node : Node} {c c₁ : Cursor} (hc : c.here.token = .eof)
    (h : climb expr n ctx least k left c = .ok (node, c₁)) : c₁ = c ∧ node = left := by
  obtain ⟨last, ⟨token, span, afterBreak, touches⟩, ahead⟩ := c
  obtain rfl : token = .eof := hc
  cases k with
  | zero => cases h
  | succ k => cases afterBreak <;> cases h <;> exact ⟨rfl, rfl⟩

theorem agrees_climb (ctx : Context) (least : Nat) {k l : Nat} (hkl : k ≤ l) {left left' : Node}
    (hleft : σ.UpTo Node.moved left left') :
    σ.Agrees c d (climb expr n ctx least k left) (climb expr' m ctx least l left') (σ.UpTo Node.moved) σ.Open := by
  induction k generalizing l c d left left' with
  | zero => exact .refused ⟨_, rfl⟩
  | succ k ih =>
    obtain ⟨l, rfl⟩ : ∃ i, l = i + 1 := ⟨l - 1, by omega⟩
    refine (agrees_extend he hnm ctx least hleft).bind_open (fun o o' c₁ d₁ ho => ?_)
      fun o c₁ hc₁ hopen node c₂ hnode => ?_
    · cases ho with
      | none => exact .pure hleft
      | some hab => exact ih (by omega) hab
    · obtain ⟨a, rfl, hopen⟩ := hopen
      obtain ⟨rfl, rfl⟩ := climb_eof hc₁ hnode
      exact ⟨hc₁, hopen⟩

end Expressions

/-- What an expression begins with is not a label, and a name before a label is a whole expression. -/
theorem proper_expression (n : Nat) : Proper (expression n) := by
  have htoken {t : Token} (h : afterLabel t = true) :
      t = .symbol .colon ∨ t = .symbol .comma ∨ t = .symbol .bar ∨ t = .eof := by
    unfold afterLabel at h
    split at h
    · exact .inl rfl
    · exact .inr (.inl rfl)
    · exact .inr (.inr (.inl rfl))
    · exact .inr (.inr (.inr rfl))
    · cases h
  cases n with
  | zero =>
    refine ⟨fun _ _ => ⟨_, rfl⟩, fun _ _ _ _ _ ha => ?_⟩
    cases ha
  | succ n =>
    constructor
    case refuses =>
      rintro ⟨last, ⟨token, span, afterBreak, touches⟩, ahead⟩ h
      obtain rfl | rfl | rfl | rfl := htoken h <;> exact ⟨_, rfl⟩
    case label =>
      rintro c hname h a c₁ ha
      cases ht : c.here.token with
      | ident text =>
        have ha : (primary (expression n) (n + 1) .nested c >>= fun x =>
          climb (expression n) (n + 1) .nested 0 (n + 1) x.1 x.2) = .ok (a, c₁) := ha
        have hprimary : primary (expression n) (n + 1) .nested c =
            (Reader.name c >>= fun x => afterName (expression n) (n + 1) .nested x.1 x.2) := by
          obtain ⟨last, ⟨token, span, afterBreak, touches⟩, ahead⟩ := c
          obtain rfl : token = .ident text := ht
          rfl
        rw [hprimary, Agrees.name_eq, ht] at ha
        generalize c.next = c' at h ha
        obtain ⟨last, ⟨token, span, afterBreak, touches⟩, ahead⟩ := c'
        obtain rfl | rfl | rfl | rfl := htoken h <;> cases afterBreak <;> cases ha <;> rfl
      | _ => rw [ht] at hname; cases hname

theorem agrees_expression (hnm : n ≤ m) (ctx : Context) (least : Nat) :
    σ.Agrees c d (expression n ctx least) (expression m ctx least) (σ.UpTo Node.moved) σ.Open := by
  induction n generalizing m c d ctx least with
  | zero => exact .refused ⟨_, rfl⟩
  | succ n ih =>
    obtain ⟨m, rfl⟩ : ∃ k, m = k + 1 := ⟨m - 1, by omega⟩
    have he (ctx : Context) (least : Nat) (c d : Cursor) := @ih c d m (by omega) ctx least
    refine (agrees_primary he hnm (proper_expression n) ctx).bind_open (fun a b c₁ d₁ hab => ?_)
      fun left c₁ hc₁ hopen node c₂ hnode => ?_
    · exact agrees_climb he hnm ctx least hnm hab
    · obtain ⟨rfl, rfl⟩ := climb_eof hc₁ hnode
      exact ⟨hc₁, hopen⟩

end Grammar

end DispatchLang
