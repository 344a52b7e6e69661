import DispatchLang.Proofs.Grammar.Acceptance

/-!
# Reading types, declarations and patterns

What contains no expressions is read without regard to precedence, so each of these phrases is simply accepted, whatever
follows it, as long as that does not go on with it. What would go on with it is one of a few symbols: a bracket after a
type, a colon after a parameter, a bar after the last alternative.

A capture goes on with what begins a pattern on the same line, and a name with the fields of a construction. Neither a
symbol that ends a pattern nor a new line does.

## Main results

* `TypeDecl.Lexical.accepts_words`, `FunctionHead.Lexical.accepts_words`: declarations are read as they were printed.
* `Node.PrintablePattern.accepts_words`: so are patterns.
-/

namespace DispatchLang

open Grammar Reader Phrase

/-! ## What does not follow -/

def NoneOf (ss : List Symbol) (ws : List Word) : Prop := ∀ s ∈ ss, isSymbol s (headToken ws) = false

namespace NoneOf

variable {ss ts : List Symbol} {ws : List Word}

theorem mono (h : NoneOf ss ws) (hs : ∀ s ∈ ts, s ∈ ss) : NoneOf ts ws := fun s ht => h s (hs s ht)

theorem of_endsItem {close : Symbol} (h : Accepts.EndsItem close ws) (hc : .comma ∉ ss ∧ close ∉ ss) :
    NoneOf ss ws := by
  obtain ⟨lead, t, ws', ht, rfl⟩ := h
  intro s hs
  refine decide_eq_false fun he => ?_
  obtain rfl | rfl := ht
  · exact hc.1 (he ▸ hs)
  · exact hc.2 (he ▸ hs)

theorem symbol {lead : Lead} {s : Symbol} (h : s ∉ ss) : NoneOf ss (.symbol lead s :: ws) :=
  fun _ ht => decide_eq_false fun he => h (he ▸ ht)

theorem name {lead : Lead} {text : String} : NoneOf ss (.name lead text :: ws) := by
  intro s _
  show isSymbol s (Word.name lead text).token = false
  simp only [Word.name, Token.ofWord]
  split <;> rfl

end NoneOf

/-! ## Types and parameters -/

section

variable {n : Nat} {ws : List Word} {lead : Lead}

theorem TypeExpr.eraseAll_eq_map (types : List TypeExpr) : eraseAll types = types.map erase := by
  induction types with
  | nil => rw [eraseAll, List.map_nil]
  | cons type types ih => rw [eraseAll, ih, List.map_cons]

/-- A type ends before everything but a bracket. -/
theorem TypeExpr.Lexical.accepts_words {type : TypeExpr} (h : type.Lexical) (hw : NoneOf [.openBracket] ws)
    (hn : (type.words lead ++ ws).length ≤ n) :
    Accepts (typeExpr n) (type.words lead ++ ws) ws (·.erase = type.erase) := by
  induction h generalizing n lead ws with
  | named isName =>
    rw [words, List.singleton_append, List.length_cons] at hn
    obtain ⟨n, rfl⟩ : ∃ m, n = m + 1 := ⟨n - 1, by omega⟩
    rw [words, List.singleton_append, typeExpr]
    refine (Accepts.name isName).bind fun head hh => Accepts.here_token.bind fun l hl => ?_
    refine Accepts.here_token.bind fun _ _ => ?_
    rw [hl, hw .openBracket (by decide), Bool.false_and, if_neg Bool.false_ne_true]
    exact Accepts.pure (by rw [erase, erase, hh])
  | @applied span name args isName lexical ih =>
    rw [words, phrases_eq_map] at hn ⊢
    simp only [List.cons_append, List.append_assoc, List.length_cons, List.nil_append] at hn ⊢
    obtain ⟨n, rfl⟩ : ∃ m, n = m + 1 := ⟨n - 1, by omega⟩
    have hargs : Accepts (separated .closeBracket false (typeExpr n) (n + 1))
        (commas .space (args.map words) .tight ++ .symbol .tight .closeBracket :: ws) (.symbol .tight .closeBracket :: ws)
        fun types => types.map erase = args.map erase :=
      Accepts.separated (by decide) (fun x hx => (lexical x hx).words_opens)
        (fun x hx lead vs hvs hlen => ih x hx (.of_endsItem hvs (by decide)) hlen) .tight (by omega) (Nat.lt_succ_self n) false
    rw [typeExpr]
    refine (Accepts.name isName).bind fun head hh => Accepts.here_token.bind fun l hl => ?_
    refine Accepts.here.bind fun l' hl' => ?_
    rw [hl, hl'.afterBreak, Accepts.isSymbol_headToken]
    refine Accepts.take.bind fun _ _ => hargs.bind fun types htypes => Accepts.expect.bind fun close _ => ?_
    exact Accepts.pure (by rw [erase, erase, hh, eraseAll_eq_map, eraseAll_eq_map, htypes])

/-- A type may follow a symbol, or there is neither. -/
theorem accepts_typeAfter {s : Symbol} {first : Lead} {type : Option TypeExpr} (ht : ∀ t ∈ type, t.Lexical)
    (hw : NoneOf [.openBracket, s] ws)
    (hn : ((type.elim [] fun t => .symbol first s :: t.words .space) ++ ws).length ≤ n) :
    Accepts (typeAfter s n) ((type.elim [] fun t => .symbol first s :: t.words .space) ++ ws) ws
      (·.map TypeExpr.erase = type.map TypeExpr.erase) := by
  cases type with
  | none =>
    refine (Accepts.accept_neg (hw s (by simp))).bind fun b hb => ?_
    rw [hb]
    exact Accepts.pure rfl
  | some type =>
    refine Accepts.accept_pos.bind fun b hb => ?_
    rw [hb]
    have hw' : NoneOf [.openBracket] ws := fun t ht => hw t (by simp_all)
    refine ((ht type rfl).accepts_words hw' (Nat.le_of_succ_le hn)).bind fun t hterase => Accepts.pure ?_
    rw [Option.map_some, Option.map_some, hterase]

theorem Param.words_eq (p : Param) : p.words lead =
    .name lead p.name.val :: (p.annotation.elim [] fun t => .symbol .tight .colon :: t.words .space) := by
  cases h : p.annotation <;> simp [words, h]

theorem TypeParam.words_eq (p : TypeParam) : p.words lead =
    .name lead p.name.val :: (p.constraint.elim [] fun t => .symbol .space .below :: t.words .space) := by
  cases h : p.constraint <;> simp [words, h]

theorem Param.Lexical.accepts_words {p : Param} (h : p.Lexical) (hw : NoneOf [.openBracket, .colon] ws)
    (hn : (p.words lead ++ ws).length ≤ n) : Accepts (param n) (p.words lead ++ ws) ws (·.erase = p.erase) := by
  rw [words_eq] at hn ⊢
  refine (Accepts.name h.isName).bind fun head hh => ?_
  refine (accepts_typeAfter h.annotation hw (Nat.le_of_succ_le hn)).bind fun type htype => Accepts.pure ?_
  rw [erase, erase, Located.erase, Located.erase, hh, htype]

theorem TypeParam.Lexical.accepts_words {p : TypeParam} (h : p.Lexical) (hw : NoneOf [.openBracket, .below] ws)
    (hn : (p.words lead ++ ws).length ≤ n) : Accepts (typeParam n) (p.words lead ++ ws) ws (·.erase = p.erase) := by
  rw [words_eq] at hn ⊢
  refine (Accepts.name h.isName).bind fun head hh => ?_
  refine (accepts_typeAfter h.constraint hw (Nat.le_of_succ_le hn)).bind fun type htype => Accepts.pure ?_
  rw [erase, erase, Located.erase, Located.erase, hh, htype]

theorem accepts_typeParams {params : List TypeParam} (hp : ∀ p ∈ params, p.Lexical) (hw : NoneOf [.openBracket] ws)
    (hn : (TypeParam.list params ++ ws).length ≤ n) :
    Accepts (typeParams n) (TypeParam.list params ++ ws) ws fun ps => ps.map TypeParam.erase = params.map TypeParam.erase := by
  cases params with
  | nil =>
    refine (Accepts.accept_neg (hw .openBracket (by decide))).bind fun b hb => ?_
    rw [hb]
    exact Accepts.pure rfl
  | cons p ps =>
    rw [TypeParam.list, List.isEmpty_cons, if_neg Bool.false_ne_true] at hn ⊢
    simp only [List.cons_append, List.append_assoc, List.length_cons, List.nil_append] at hn ⊢
    refine Accepts.accept_pos.bind fun b hb => ?_
    rw [hb]
    refine (Accepts.separated (f := TypeParam.erase) (e := TypeParam.erase) (k := n - 1) (by decide)
      (fun x hx => (hp x hx).words_opens)
      (fun x hx lead vs hvs hlen => (hp x hx).accepts_words (.of_endsItem hvs (by decide)) (by omega)) .tight (by omega) (by omega)
      false).bind fun qs hqs => ?_
    exact Accepts.expect.bind fun _ _ => Accepts.pure hqs

/-! ## Function declarations -/

theorem accepts_closureParams {params : List Param} (hp : ∀ p ∈ params, p.Lexical) (hne : params ≠ [])
    (hn : (commas .space (params.map Param.words) lead ++ .symbol .space .bar :: ws).length ≤ n) :
    Accepts (closureParams n) (commas .space (params.map Param.words) lead ++ .symbol .space .bar :: ws) ws
      fun qs => qs.map Param.erase = params.map Param.erase := by
  induction params generalizing n lead with
  | nil => exact absurd rfl hne
  | cons p ps ih =>
    obtain ⟨h, hps⟩ := List.forall_mem_cons.1 hp
    have hpos := h.words_opens.length_pos lead
    rw [List.map_cons, commas, joined, List.append_assoc] at hn ⊢
    have hlen := hn
    rw [List.length_append] at hlen
    obtain ⟨n, rfl⟩ : ∃ m, n = m + 1 := ⟨n - 1, by omega⟩
    rw [closureParams]
    cases ps with
    | nil =>
      refine (h.accepts_words (.symbol (by decide)) hn).bind fun q hq => ?_
      refine (Accepts.accept_neg rfl).bind fun b hb => ?_
      rw [hb]
      exact Accepts.expect.bind fun _ _ => Accepts.pure (congrArg (· :: []) hq)
    | cons p' ps =>
      refine (h.accepts_words (.symbol (by decide)) hn).bind fun q hq => ?_
      refine Accepts.accept_pos.bind fun b hb => ?_
      rw [hb]
      simp only [List.map_cons, tail_comma_cons, List.cons_append, List.length_cons] at hlen
      refine (ih hps (List.cons_ne_nil _ _) ?_).bind fun qs hqs => Accepts.pure ?_
      · simp only [List.map_cons, commas, joined]
        omega
      · rw [List.map_cons, List.map_cons, hq, hqs]

theorem FunctionHead.Lexical.accepts_words {head : FunctionHead} (h : head.Lexical)
    (hn : (head.words lead ++ ws).length ≤ n) :
    Accepts (functionHead n) (head.words lead ++ ws) ws fun r => r.2.erase = head.erase := by
  simp only [FunctionHead.words, List.cons_append, List.append_assoc, List.length_cons, List.nil_append,
    List.length_append] at hn ⊢
  refine (Accepts.expectWord rfl).bind fun first _ => (Accepts.name h.isName).bind fun name hname => ?_
  refine (accepts_typeParams h.typeParams (.symbol (by decide)) ?_).bind fun types htypes => ?_
  · simp only [List.length_append, List.length_cons]
    omega
  have hparams : Accepts (functionParams n) (.symbol .tight .openParen ::
      (commas .space (head.params.map Param.words) .tight ++ .symbol .tight .closeParen :: .symbol .space .assign :: ws))
      (.symbol .space .assign :: ws) fun ps => ps.map Param.erase = head.params.map Param.erase := by
    refine Accepts.here_token.bind fun l hl => ?_
    rw [hl]
    refine Accepts.take.bind fun _ _ => (Accepts.separated (f := Param.erase) (e := Param.erase) (k := n - 1) (by decide)
      (fun x hx => (h.params x hx).words_opens)
      (fun x hx lead vs hvs hlen => (h.params x hx).accepts_words (.of_endsItem hvs (by decide)) (by omega)) .tight ?_ (by omega)
      false).bind fun qs hqs => Accepts.expect.bind fun _ _ => Accepts.pure hqs
    simp only [List.length_append, List.length_cons]
    omega
  refine hparams.bind fun params hparams => Accepts.expect.bind fun _ _ => Accepts.pure ?_
  rw [FunctionHead.erase, FunctionHead.erase, Located.erase, Located.erase, hname, htypes, hparams]

/-! ## Type declarations -/

theorem FieldDecl.Lexical.accepts_words {f : FieldDecl} (h : f.Lexical) (hw : NoneOf [.openBracket] ws)
    (hn : (f.words lead ++ ws).length ≤ n) : Accepts (fieldDecl n) (f.words lead ++ ws) ws (·.erase = f.erase) := by
  rw [words, labelled] at hn ⊢
  refine Accepts.here_token.bind fun l hl => ?_
  rw [hl, show headToken _ = Token.ofWord f.name.val from rfl, Token.ofWord_of_isName h.isName]
  refine (Accepts.name h.isName).bind fun head hh => Accepts.accept_pos.bind fun b hb => ?_
  rw [hb]
  refine (h.type.accepts_words hw (Nat.le_of_succ_le (Nat.le_of_succ_le hn))).bind fun type htype => Accepts.pure ?_
  rw [erase, erase, Located.erase, Located.erase, hh, htype]

theorem accepts_fieldDecls {fields : List FieldDecl} {close : Symbol} {last : Lead} (hf : ∀ f ∈ fields, f.Lexical)
    (hclose : close ∉ [.comma, .openBracket] ∧ close ∉ Symbol.openers) 
    (hn : (commas .space (fields.map FieldDecl.words) lead ++ .symbol last close :: ws).length < n) :
    Accepts (lines close (fieldDecl n) n) (commas .space (fields.map FieldDecl.words) lead ++ .symbol last close :: ws)
      (.symbol last close :: ws) fun fs => fs.map FieldDecl.erase = fields.map FieldDecl.erase := by
  simp only [List.mem_cons, List.not_mem_nil, or_false, not_or] at hclose
  refine Accepts.lines (k := n - 1) ⟨hclose.1.1, hclose.2⟩ (fun x hx => (hf x hx).words_opens)
    (fun x hx lead vs hvs hlen => ?_) lead (by omega) (by omega)
  refine (hf x hx).accepts_words (.of_endsItem hvs ⟨by decide, ?_⟩) (by omega)
  simpa using hclose.1.2

theorem VariantDecl.Lexical.accepts_words {v : VariantDecl} (h : v.Lexical) (hw : NoneOf [.openParen] ws)
    (hn : (v.words lead ++ ws).length ≤ n) : Accepts (variantDecl n) (v.words lead ++ ws) ws (·.erase = v.erase) := by
  rw [words] at hn ⊢
  by_cases hne : v.fields.isEmpty = true
  · rw [if_pos hne, List.singleton_append]
    refine (Accepts.name h.isName).bind fun head hh => Accepts.here_token.bind fun l hl => ?_
    refine Accepts.here_token.bind fun _ _ => ?_
    rw [hl, hw .openParen (by decide)]
    exact Accepts.pure (by rw [erase, erase, Located.erase, Located.erase, hh, List.isEmpty_iff.1 hne])
  · rw [if_neg hne] at hn ⊢
    simp only [List.cons_append, List.append_assoc, List.length_cons, List.nil_append] at hn ⊢
    refine (Accepts.name h.isName).bind fun head hh => Accepts.here_token.bind fun l hl => ?_
    refine Accepts.here.bind fun l' hl' => ?_
    rw [hl, hl'.afterBreak, Accepts.isSymbol_headToken]
    refine Accepts.take.bind fun _ _ => (accepts_fieldDecls h.fields (by decide) (by omega)).bind fun fields hfields => ?_
    refine Accepts.expect.bind fun _ _ => Accepts.pure ?_
    rw [erase, erase, Located.erase, Located.erase, hh, hfields]

theorem accepts_variantDecls {vs : List VariantDecl} (hv : ∀ v ∈ vs, v.Lexical) (hne : vs ≠ [])
    (hw : NoneOf [.openParen, .bar] ws)
    (hn : (joined bar .space (vs.map VariantDecl.words) lead ++ ws).length ≤ n) :
    Accepts (variantDecls n) (joined bar .space (vs.map VariantDecl.words) lead ++ ws) ws
      fun us => us.map VariantDecl.erase = vs.map VariantDecl.erase := by
  induction vs generalizing n lead with
  | nil => exact absurd rfl hne
  | cons v vs ih =>
    obtain ⟨h, hvs⟩ := List.forall_mem_cons.1 hv
    have hpos := h.words_opens.length_pos lead
    rw [List.map_cons, joined, List.append_assoc] at hn ⊢
    have hlen := hn
    rw [List.length_append] at hlen
    obtain ⟨n, rfl⟩ : ∃ m, n = m + 1 := ⟨n - 1, by omega⟩
    rw [variantDecls]
    cases vs with
    | nil =>
      refine (h.accepts_words (hw.mono (by decide)) hn).bind fun u hu => ?_
      refine (Accepts.accept_neg (hw .bar (by decide))).bind fun b hb => ?_
      rw [hb]
      exact Accepts.pure (congrArg (· :: []) hu)
    | cons v' vs =>
      refine (h.accepts_words (.symbol (by decide)) hn).bind fun u hu => ?_
      refine Accepts.accept_pos.bind fun b hb => ?_
      rw [hb]
      simp only [List.map_cons, tail, bar, List.cons_append, List.nil_append, List.length_cons] at hlen
      refine (ih hvs (List.cons_ne_nil _ _) ?_).bind fun us hus => Accepts.pure ?_
      · simp only [List.map_cons, joined]
        omega
      · rw [List.map_cons, List.map_cons, hu, hus]

/-- What a declaration says about the instances. A type without fields goes on with a brace or an equals sign. -/
theorem TypeBody.Lexical.accepts_words {body : TypeBody} (h : body.Lexical) (ha : body ≠ .abstract)
    (hw : NoneOf [.openParen, .bar, .equals] ws) (hopen : body = .concrete → isSymbol .openBrace (headToken ws) = false)
    (hn : (body.words ++ ws).length ≤ n) : Accepts (typeBody n) (body.words ++ ws) ws (·.erase = body.erase) := by
  cases body with
  | abstract => exact absurd rfl ha
  | concrete =>
    refine (Accepts.accept_neg (hopen rfl)).bind fun b hb => ?_
    rw [hb]
    refine (Accepts.accept_neg (hw .equals (by decide))).bind fun b hb => ?_
    rw [hb]
    exact Accepts.pure rfl
  | struct fields =>
    simp only [words, List.cons_append, List.append_assoc, List.length_cons, List.nil_append] at hn ⊢
    refine Accepts.accept_pos.bind fun b hb => ?_
    rw [hb]
    refine (accepts_fieldDecls h (by decide) hn).bind fun fs hfs => ?_
    exact Accepts.expect.bind fun _ _ => Accepts.pure (by rw [erase, erase, hfs])
  | variants alternatives =>
    simp only [words, List.cons_append, List.length_cons] at hn ⊢
    refine (Accepts.accept_neg rfl).bind fun b hb => ?_
    rw [hb]
    refine Accepts.accept_pos.bind fun b hb => ?_
    rw [hb]
    refine (accepts_variantDecls h.2 h.1 (hw.mono (by decide)) (by omega)).bind fun vs hvs => ?_
    exact Accepts.pure (by rw [erase, erase, hvs])

theorem TypeDecl.parentWords_eq (decl : TypeDecl) :
    decl.parentWords = decl.parent.elim [] fun t => .symbol .space .below :: t.words .space := by
  cases h : decl.parent <;> simp [parentWords, h]

namespace TypeDecl.Lexical

variable {decl : TypeDecl} (h : decl.Lexical)
include h

theorem accepts_parent (hw : NoneOf [.openBracket, .below] (decl.body.words ++ ws))
    (hn : (decl.parentWords ++ (decl.body.words ++ ws)).length ≤ n) :
    Accepts (typeAfter .below n) (decl.parentWords ++ (decl.body.words ++ ws)) (decl.body.words ++ ws)
      (·.map TypeExpr.erase = decl.parent.map TypeExpr.erase) := by
  rw [parentWords_eq] at hn ⊢
  exact accepts_typeAfter h.parent hw hn

theorem accepts_abstract (ha : decl.body = .abstract) (hw : NoneOf [.openBracket, .below] ws)
    (hn : (decl.words lead ++ ws).length ≤ n) :
    Accepts (abstractDecl n) (decl.words lead ++ ws) ws (·.erase = (Node.typeDecl .nowhere decl).erase) := by
  have htypes := h.plain ha
  have hbody : decl.body.words ++ ws = ws := by rw [ha]; rfl
  have hread : _ → Accepts (typeAfter .below n) (decl.parentWords ++ (decl.body.words ++ ws)) (decl.body.words ++ ws)
      (·.map TypeExpr.erase = decl.parent.map TypeExpr.erase) := h.accepts_parent (by rwa [hbody])
  simp only [words, ha, htypes, TypeParam.list, List.isEmpty_nil, if_true, List.cons_append, List.append_assoc,
    List.nil_append, List.length_cons] at hn ⊢
  rw [ha] at hread
  refine (Accepts.expectWord rfl).bind fun first _ => Accepts.here_token.bind fun l hl => ?_
  rw [hl, show headToken _ = Token.ofWord decl.name.val from rfl, Token.ofWord_of_isName h.isName]
  refine (Accepts.name h.isName).bind fun head hh => (hread (by omega)).bind fun t ht => Accepts.get.bind fun _ _ => ?_
  refine Accepts.pure ?_
  simp only [Node.erase, TypeDecl.erase, Located.erase, hh, ht, ha, htypes, List.map_nil]

theorem accepts_type (ha : decl.body ≠ .abstract) (hw : NoneOf [.openParen, .openBracket, .bar, .equals, .below] ws)
    (hopen : decl.body = .concrete → isSymbol .openBrace (headToken ws) = false)
    (hn : (decl.words lead ++ ws).length ≤ n) :
    Accepts (Grammar.typeDecl n) (decl.words lead ++ ws) ws (·.erase = (Node.typeDecl .nowhere decl).erase) := by
  have hbody : NoneOf [.openBracket, .below] (decl.body.words ++ ws) := by
    cases hb : decl.body with
    | abstract => exact absurd hb ha
    | concrete => exact hw.mono (by decide)
    | struct | variants => exact .symbol (by decide)
  have hparent : NoneOf [.openBracket] (decl.parentWords ++ (decl.body.words ++ ws)) := by
    unfold parentWords
    split
    · exact hbody.mono (by decide)
    · exact .symbol (by decide)
  simp only [words, Bool.false_eq_true, if_false, List.cons_append, List.append_assoc, List.length_cons] at hn ⊢
  have hlen := hn
  simp only [List.length_append] at hlen
  refine (Accepts.expectWord rfl).bind fun first _ => (Accepts.name h.isName).bind fun head hh => ?_
  refine (accepts_typeParams h.typeParams hparent (by omega)).bind fun ts hts => ?_
  refine (h.accepts_parent hbody (by simp only [List.length_append]; omega)).bind fun t ht => ?_
  refine (h.body.accepts_words ha (hw.mono (by decide)) hopen (by simp only [List.length_append]; omega)).bind fun b hb => ?_
  refine Accepts.get.bind fun _ _ => Accepts.pure ?_
  simp only [Node.erase, TypeDecl.erase, Located.erase, hh, ht, hts, hb]

end TypeDecl.Lexical

/-! ## Fields -/

/-- Whether words begin with a brace, a name and a colon. -/
def beginsFields : List Word → Bool
  | w :: v :: u :: _ => isSymbol .openBrace w.token && (isName v.token && isSymbol .colon u.token)
  | _ => false

theorem beginsFields_eq_false (h : isSymbol .openBrace (headToken ws) = false) : beginsFields ws = false := by
  unfold beginsFields
  split
  · next w v u vs => rw [show isSymbol .openBrace w.token = false from h, Bool.false_and]
  · rfl

theorem accepts_fieldsAhead : Accepts fieldsAhead ws ws (· = beginsFields ws) := by
  refine Accepts.get.bind fun c hc => Accepts.pure ?_
  cases ws with
  | nil => rw [hc.token]; rfl
  | cons w ws =>
    have ha := hc.ahead
    cases hls : c.ahead with
    | nil => rw [hls] at ha; cases ha
    | cons l ls =>
      rw [hls] at ha
      cases ha with
      | eof => rw [Bool.and_false]; rfl
      | @word l ls v vs hl hls' =>
        obtain ⟨m, ms, rfl, hm⟩ := hls'.head_token
        show (isSymbol .openBrace c.here.token && (isName l.token && isSymbol .colon m.token)) = _
        rw [hc.token, hl.token, hm]
        cases vs with
        | nil => exact Bool.and_eq_false_imp.2 fun _ => Bool.and_false _
        | cons u us => rfl

theorem Node.eraseEntries_eq_map (entries : List (Located String × Node)) :
    eraseEntries entries = entries.map fun e => (e.1.erase, e.2.erase) := by
  induction entries with
  | nil => rw [eraseEntries, List.map_nil]
  | cons e entries ih => rw [eraseEntries, ih, List.map_cons]

section

variable {fields : List (Located String × Node)} {p : Node → Phrase}

def fieldWords (p : Node → Phrase) (fields : List (Located String × Node)) (ws : List Word) : List Word :=
  .symbol .space .openBrace :: (commas .space (fields.map fun f => labelled (.name · f.1.val) (p f.2)) .space ++
    .symbol .space .closeBrace :: ws)

theorem Node.words_construct {layout : Layout} {asked : Nat} {span : Span} {name : Located String} :
    (construct span name fields).words layout asked lead ++ ws =
      .name lead name.val :: fieldWords (words layout 0) fields ws := by
  simp [words, entryPhrases_eq_map, fieldWords]

theorem beginsFields_fieldWords (hne : fields ≠ []) (hnames : ∀ f ∈ fields, Printer.isName f.1.val) :
    beginsFields (fieldWords p fields ws) = true := by
  obtain ⟨f, fs, rfl⟩ := List.exists_cons_of_ne_nil hne
  show (true && (isName (Token.ofWord f.1.val) && true)) = true
  rw [Token.ofWord_of_isName (hnames f List.mem_cons_self)]
  rfl

theorem accepts_constructFields {item : Reader Node} {rounds : Nat} (hnames : ∀ f ∈ fields, Printer.isName f.1.val)
    (hitem : ∀ f ∈ fields, ∀ vs, Accepts.EndsItem .closeBrace vs → (p f.2 .space ++ vs).length ≤ n →
      Accepts item (p f.2 .space ++ vs) vs (·.erase = f.2.erase))
    (hn : (fieldWords p fields ws).length ≤ n) (hr : n < rounds) :
    Accepts (constructFields item rounds) (fieldWords p fields ws) ws
      fun r => Node.eraseEntries r.1 = Node.eraseEntries fields := by
  refine Accepts.expect.bind fun _ _ => ?_
  rw [fieldWords, List.length_cons] at hn
  refine (Accepts.lines (f := fun f : Located String × Node => (f.1.erase, f.2.erase))
    (e := fun f : Located String × Node => (f.1.erase, f.2.erase)) (k := n) (by decide)
    (fun f hf => Opens.labelled (hnames f hf)) (fun f hf lead vs hvs hlen => ?_) .space (by omega) hr).bind
      fun fs hfs => ?_
  · refine (Accepts.name (hnames f hf)).bind fun head hh => Accepts.expect.bind fun _ _ => ?_
    refine (hitem f hf vs hvs (Nat.le_of_succ_le (Nat.le_of_succ_le hlen))).bind fun value hv => Accepts.pure ?_
    rw [Located.erase, Located.erase, hh, hv]
  · refine Accepts.expect.bind fun _ _ => Accepts.pure ?_
    rw [Node.eraseEntries_eq_map, Node.eraseEntries_eq_map]
    exact hfs

end

/-! ## Captures -/

/-- Whether a word does not begin a pattern on the line of a capture before it: it begins a line, or it is a symbol
other than a question mark. -/
def Word.Apart (w : Word) : Prop := w.lead.breaks = true ∨ ∃ s, w.token = .symbol s ∧ s ≠ .question

section

variable {name : Option String} {reader : Reader Node}

/-- The name that a capture binds touches the question mark, and what follows does not, if it is a name. -/
theorem accepts_bound {first : Span} {rest : Option String × Span → Reader Node} {vs : List Word} {P : Node → Prop}
    (hname : ∀ n ∈ name, Printer.isName n)
    (hw : ∀ w ∈ ws.head?, isName w.token = true → w.lead ≠ .start ∧ w.lead ≠ .tight)
    (hrest : ∀ span, Accepts (rest (name, span)) ws vs P) :
    Accepts (do
      let l ← here
      if isName l.token && l.touches then do
        let head ← Reader.name
        let bound ← pure (some head.val, first.cover head.span)
        rest bound
      else do
        let bound ← pure (none, first)
        rest bound) (Word.bound name ++ ws) vs P := by
  cases name with
  | some text =>
    have htext : (Word.name .tight text).token = .ident text := Token.ofWord_of_isName (hname text rfl)
    refine Accepts.here.bind fun l hl => ?_
    rw [hl.token, hl.touches nofun, htext]
    refine (Accepts.name (hname text rfl)).bind fun head hh => ?_
    rw [hh]
    exact hrest _
  | none =>
    -- A name that follows does not touch the question mark.
    have hno : Accepts Reader.here ws ws fun l => (isName l.token && l.touches) = false := by
      cases ws with
      | nil =>
        refine Accepts.here_token.mono fun l hl => ?_
        rw [hl]
        rfl
      | cons w ws =>
        refine Accepts.here.mono fun l hl => ?_
        rw [hl.token, Bool.and_eq_false_imp]
        intro hn
        obtain ⟨hstart, htight⟩ := hw w rfl hn
        rw [hl.touches hstart]
        cases hlead : w.lead <;> first | rfl | exact absurd hlead htight
    refine hno.bind fun l hl => ?_
    rw [hl]
    exact hrest _

/-- A capture ends before a word that begins no pattern. -/
theorem accepts_capture (hname : ∀ n ∈ name, Printer.isName n) (hw : ∀ w ∈ ws.head?, w.Apart) :
    Accepts (captureWith reader) (.symbol lead .question :: (Word.bound name ++ ws)) ws
      (·.erase = .capture .nowhere name) := by
  have hend : Accepts Reader.here ws ws fun l => (!l.afterBreak && beginsRefinement l.token) = false := by
    cases ws with
    | nil => exact Accepts.here_token.mono fun l hl => by rw [hl]; exact Bool.and_false _
    | cons w ws =>
      refine Accepts.here.mono fun l hl => ?_
      rw [hl.afterBreak, hl.token]
      obtain hb | ⟨s, hs, hne⟩ := hw w rfl
      · rw [hb]
        rfl
      · rw [hs, Bool.and_eq_false_imp]
        intro _
        cases s <;> first | rfl | exact absurd rfl hne
  refine Accepts.expect.bind fun first _ => accepts_bound hname (fun w hm hn => ?_) fun span => ?_
  · obtain hb | ⟨s, hs, -⟩ := hw w hm
    · constructor <;> rintro hlead <;> rw [hlead] at hb <;> cases hb
    · rw [hs] at hn
      cases hn
  · refine hend.bind fun l hl => ?_
    rw [hl]
    exact Accepts.pure rfl

theorem accepts_refine {pattern : Node} {w : Word} (hname : ∀ n ∈ name, Printer.isName n) (hlead : w.lead = .space)
    (hbegins : beginsRefinement w.token = true) {vs : List Word}
    (hp : Accepts reader (w :: ws) vs (·.erase = pattern.erase)) :
    Accepts (captureWith reader) (.symbol lead .question :: (Word.bound name ++ w :: ws)) vs
      (·.erase = .refine .nowhere name pattern.erase) := by
  refine Accepts.expect.bind fun first _ => accepts_bound hname (fun v hm hn => ?_) fun span => ?_
  · obtain rfl := Option.some.inj hm
    rw [hlead]
    exact ⟨nofun, nofun⟩
  · refine Accepts.here.bind fun l hl => ?_
    rw [hl.afterBreak, hl.token, hlead, hbegins]
    refine hp.bind fun inner hinner => Accepts.pure ?_
    rw [Node.erase, hinner]

end

/-! ## Patterns -/

/-- Whether a pattern ends before some words: no pattern begins there that a capture would be limited to, and no fields
if the pattern ends in a name. -/
structure Node.EndsBefore (e : Node) (ws : List Word) : Prop where
  /-- No pattern begins here. -/
  apart : ∀ w ∈ ws.head?, w.Apart
  /-- Nor do fields after a name. -/
  fields : e.endsIn isIdent 0 = true → beginsFields ws = false

theorem Node.EndsBefore.symbol {e : Node} {first : Lead} {s : Symbol} (h : s ∉ [.question, .openBrace]) :
    e.EndsBefore (.symbol first s :: ws) where
  apart w hw := by
    obtain rfl := Option.some.inj hw
    exact .inr ⟨s, rfl, fun hs => h (by simp [hs])⟩
  fields _ := beginsFields_eq_false (decide_eq_false fun hs => h (by simp [hs]))

theorem Node.EndsBefore.of_endsItem {e : Node} (h : Accepts.EndsItem .closeBrace ws) : e.EndsBefore ws := by
  obtain ⟨first, s, vs, rfl | rfl, rfl⟩ := h <;> exact .symbol (by decide)

/-- The token of a literal that needs no sign. -/
theorem Literal.words_eq {value : Literal} (hu : value.Unsigned) (hr : value.Restored) :
    ∃ w : Word, literal? w.token = some value ∧ value.words = fun lead => [{ w with lead := lead }] := by
  cases value with
  | int value => exact ⟨.int .tight value, rfl, funext fun lead => if_neg (Int64.not_lt.2 hu)⟩
  | float x =>
    obtain ⟨whole, fraction, hwhole, -, ⟨hwords, hx⟩ | ⟨hs, -, -⟩⟩ := hr.words_float
    · refine ⟨.float .tight (whole ++ '.' :: fraction), ?_, hwords⟩
      rw [Word.token_float hwhole, hx]
      rfl
    · exact absurd hu hs
  | string text => exact ⟨.string .tight text, rfl, rfl⟩
  | bool value =>
    cases value
    · exact ⟨.name .tight "false", rfl, rfl⟩
    · exact ⟨.name .tight "true", rfl, rfl⟩

theorem Literal.words_eq_neg {value : Literal} (hs : value.Signed) (hu : ¬value.Unsigned) (hr : value.Restored) :
    ∃ w : Word, negative? w.token = some value ∧ value.words = fun lead => [.symbol lead .minus, w] := by
  cases value with
  | int value =>
    have hn : value < 0 := Int64.not_le.1 hu
    refine ⟨.int .tight (-value), congrArg (fun v => some (Literal.int v)) (Int64.neg_neg), funext fun lead => if_pos hn⟩
  | float x =>
    obtain ⟨whole, fraction, hwhole, -, ⟨-, hx⟩ | ⟨-, hwords, hx⟩⟩ := hr.words_float
    · exact absurd (hx ▸ Decimal.signless_ofDigits whole fraction) hu
    · refine ⟨.float .tight (whole ++ '.' :: fraction), ?_, hwords⟩
      rw [Word.token_float hwhole, hx]
      rfl
  | string | bool => exact absurd trivial hu

namespace Node

/-- The first word of a pattern that a capture may be limited to. -/
theorem PrintablePattern.beginsRefinement {e : Node} (h : e.PrintablePattern)
    (hu : ∀ {span : Span} {value : Literal}, e = .literal span value → value.Unsigned) (layout : Layout) (asked : Nat)
    (lead : Lead) : ∃ w vs, e.words layout asked lead = w :: vs ∧ w.lead = lead ∧ beginsRefinement w.token = true := by
  have hname {text : String} (ht : Printer.isName text) :
      Grammar.beginsRefinement (Word.name lead text).token = true := by
    rw [Word.name, Token.ofWord_of_isName ht]
    rfl
  cases h with
  | literal signed restored =>
    obtain ⟨w, hw, hwords⟩ := Literal.words_eq (hu rfl) restored
    rw [words, hwords]
    refine ⟨_, _, rfl, rfl, ?_⟩
    unfold Grammar.beginsRefinement
    split
    · rfl
    · simp [hw]
  | ident isName | construct isName => exact ⟨_, _, by rw [words], rfl, hname isName⟩
  | capture | refine => exact ⟨_, _, by rw [words], rfl, rfl⟩

/-- A pattern is read as it was printed. -/
theorem PrintablePattern.accepts_words {e : Node} (h : e.PrintablePattern) {layout : Layout} {asked : Nat}
    (hw : e.EndsBefore ws) (hn : (e.words layout asked lead ++ ws).length ≤ n) :
    Accepts (pattern n) (e.words layout asked lead ++ ws) ws (·.erase = e.erase) := by
  induction h generalizing n asked lead ws with
  | @literal span value signed restored =>
    obtain ⟨n, rfl⟩ := (PrintablePattern.words_opens (.literal signed restored) layout asked).exists_succ hn
    rw [words, pattern]
    by_cases hu : value.Unsigned
    · obtain ⟨w, hw, hwords⟩ := Literal.words_eq hu restored
      rw [hwords, List.singleton_append]
      refine Accepts.here.bind fun l hl => ?_
      rw [show l.token = w.token from hl.token]
      generalize w.token = token at hw
      split
      case h_4 =>
        rw [hw]
        exact Accepts.take.bind fun _ _ => Accepts.pure rfl
      all_goals cases hw
    -- Only patterns are negative numbers; they are read together with the sign.
    · obtain ⟨w, hw, hwords⟩ := Literal.words_eq_neg signed hu restored
      rw [hwords]
      refine Accepts.here.bind fun l hl => ?_
      rw [hl.token]
      refine Accepts.take.bind fun _ _ => Accepts.here.bind fun number hnumber => ?_
      rw [hnumber.token, hw]
      exact Accepts.take.bind fun _ _ => Accepts.pure rfl
  | ident isName =>
    obtain ⟨n, rfl⟩ := (PrintablePattern.words_opens (.ident isName) layout asked).exists_succ hn
    rw [words, List.singleton_append, pattern]
    refine Accepts.here.bind fun l hl => ?_
    rw [hl.token, show (Word.name lead _).token = _ from Token.ofWord_of_isName isName]
    refine (Accepts.name isName).bind fun head hh => accepts_fieldsAhead.bind fun b hb => ?_
    rw [hb, hw.fields rfl]
    exact Accepts.pure (by rw [erase, erase, hh])
  | capture isName =>
    obtain ⟨n, rfl⟩ := (PrintablePattern.words_opens (.capture isName) layout asked).exists_succ hn
    rw [words, pattern]
    refine Accepts.here.bind fun l hl => ?_
    rw [hl.token]
    exact accepts_capture isName hw.apart
  | @refine span name inner isName unsigned hp ih =>
    obtain ⟨n, rfl⟩ := (PrintablePattern.words_opens (.refine isName unsigned hp) layout asked).exists_succ hn
    rw [words, List.cons_append, List.append_assoc] at hn ⊢
    obtain ⟨w, vs, hwords, hlead, hbegins⟩ := hp.beginsRefinement unsigned layout 0 .space
    have hread : Accepts (pattern n) (inner.words layout 0 .space ++ ws) ws (·.erase = inner.erase) := by
      refine ih ⟨hw.apart, fun h => hw.fields (by rwa [endsIn])⟩ ?_
      rw [List.length_cons, List.length_append] at hn
      omega
    rw [hwords, List.cons_append] at hread ⊢
    rw [pattern]
    refine Accepts.here.bind fun l hl => ?_
    rw [hl.token]
    exact (accepts_refine isName hlead hbegins hread).mono fun e he => by rw [he, erase]
  | @construct span name fields isName nonempty names hf ih =>
    obtain ⟨n, rfl⟩ := (PrintablePattern.words_opens (.construct isName nonempty names hf) layout asked).exists_succ hn
    rw [words_construct] at hn ⊢
    have hfields : Accepts (constructFields (pattern n) (n + 1)) (fieldWords (words layout 0) fields ws) ws
        fun r => eraseEntries r.1 = eraseEntries fields :=
      accepts_constructFields names (fun f hm vs hvs hlen => ih f hm (.of_endsItem hvs) hlen)
        (Nat.le_of_succ_le_succ hn) (Nat.lt_succ_self n)
    rw [pattern]
    refine Accepts.here.bind fun l hl => ?_
    rw [hl.token, show (Word.name lead _).token = _ from Token.ofWord_of_isName isName]
    refine (Accepts.name isName).bind fun head hh => accepts_fieldsAhead.bind fun b hb => ?_
    rw [hb, beginsFields_fieldWords nonempty names]
    refine hfields.bind fun r hr => Accepts.pure ?_
    rw [erase, erase, Located.erase, Located.erase, hh, hr]

end Node

end

end DispatchLang
