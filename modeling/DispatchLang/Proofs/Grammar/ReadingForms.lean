import DispatchLang.Proofs.Grammar.Reading

/-!
# Reading printed forms

The forms that are no operators: members and calls, lists, constructions, captures and declarations. A member or a call
of a method extends what stands before the point, all others begin an expression. What they hold in brackets ends at a
comma or at the closing bracket, so everything may stand there.

The elements of a list may be pairs. The reader takes a list of pairs for an object, so an entry of an object is read as
a pair whose key is a name or a string.

## Main results

* `readsAs_call`, `readsAs_array`, `readsAs_object`, …: a form reads as a tree if its parts do.
-/

namespace DispatchLang

open Grammar Reader Phrase

variable {asked : Nat} {span : Span} {f : Node → Phrase}

/-! ## Elements -/

/-- A phrase that reads as an element of a list. -/
structure Phrase.ElementOf (p : Phrase) (e : Node) : Prop where
  /-- It begins like a tree. -/
  opens : p.Opens
  /-- It reads as the element where nothing is asked for. -/
  readsAs : p.ReadsAs 0 e

section

variable {ι : Type} {k rounds : Nat} {ctx : Context} {close : Symbol} {later last lead : Lead} {ws : List Word}
  {xs : List ι} {phrase : ι → Phrase} {t : ι → Node} {es : List Node}

/-- Trees with commas between them, up to the bracket that closes the list. -/
theorem accepts_elements (hx : ∀ x ∈ xs, (phrase x).ElementOf (t x))
    (hp : ∀ x ∈ xs, (t x).endsInPair = true → ctx.pairs = true)
    (hc : ctx.constructs = true) (hclose : close ∈ [.closeParen, .closeBracket])
    (hk : (commas later (xs.map phrase) lead ++ .symbol last close :: ws).length < k) (hr : k ≤ rounds) :
    Accepts (separated close true (expression k ctx 0) rounds)
      (commas later (xs.map phrase) lead ++ .symbol last close :: ws) (.symbol last close :: ws)
      fun es => es.map Node.erase = xs.map fun x => (t x).erase := by
  have hclose' : close ≠ .comma ∧ close ∉ Symbol.openers ∧ close ∈ Symbol.enders := by
    simp only [List.mem_cons, List.not_mem_nil, or_false] at hclose
    obtain rfl | rfl := hclose <;> decide
  refine Accepts.separated (k := k - 1) ⟨hclose'.1, hclose'.2.1⟩ (fun x hm => (hx x hm).opens)
    (fun x hm lead vs hvs hlen => ?_) lead (by omega) (by omega) true
  exact (hx x hm).readsAs.accepts_alone lead (hp x hm) hc hvs hclose'.2.2 (by omega)

theorem accepts_arguments (he : ∀ e ∈ es, (f e).ElementOf e) (hp : ∀ e ∈ es, e.endsInPair = false)
    (hk : (commas .space (es.map f) .tight ++ .symbol .tight .closeParen :: ws).length < k) (hr : k ≤ rounds) :
    Accepts (arguments (expression k) rounds) (.symbol lead .openParen ::
      (commas .space (es.map f) .tight ++ .symbol .tight .closeParen :: ws)) ws
      fun r => r.1.map Node.erase = es.map Node.erase := by
  refine Accepts.expect.bind fun _ _ => ?_
  refine (accepts_elements (t := fun e => e) he (fun e hm h => absurd h (by simp [hp e hm])) rfl (by decide) hk hr).bind
    fun es' hes' => ?_
  exact Accepts.expect.bind fun _ _ => Accepts.pure hes'

end

/-! ## Members and calls -/

section

variable {subject : Node} {args : List Node} {p : Phrase}

/-- What has a member ends neither in a pair nor in what goes on by itself. -/
theorem Node.Legible.holder {e : Node} (hl : e.Legible) (hc : subject ∈ e.children) (hm : ¬e.MayHold subject)
    (hlegible : (!subject.isFunction && !subject.isQuoted) = true) :
    subject.endsInPair = false ∧ subject.isFunction = false ∧ subject.isQuoted = false := by
  simp only [Bool.and_eq_true, Bool.not_eq_true'] at hlegible
  exact ⟨hl.endsInPair_eq_false hc hm, hlegible⟩

/-- A phrase with a point behind it reads as far as the point. -/
theorem reads_member {e : Node} {ctx : Context} {least n : Nat} {lead : Lead} {ws vs ws' : List Word} {Q : Node → Prop}
    (hp : p.ReadsAs Printer.memberPrecedence subject) (hs : subject.Printable) (hpair : subject.endsInPair = false)
    (hf : subject.isFunction = false) (hq : subject.isQuoted = false) (hstands : e.Stands asked ctx ws)
    (hshows : subject.shows Node.isConstruct Printer.memberPrecedence = true → e.shows Node.isConstruct asked = true)
    (hleast : least ≤ 20) (hn : (p lead ++ .symbol .tight .dot :: vs).length ≤ n)
    (hk : ∀ m subject', vs.length < m → subject'.erase = subject.erase →
      Accepts (climb (expression n) (n + 1) ctx least (m + 1) subject') (.symbol .tight .dot :: vs) ws' Q) :
    Accepts (expression (n + 1) ctx least) (p lead ++ .symbol .tight .dot :: vs) ws' Q := by
  refine hp.reads ?_ (.subject hs hpair hf hq (fun h => hstands.constructs (hshows h)) _ _) hn fun m subject' hm he => ?_
  · rw [Node.floor_eq hpair]
    exact hleast
  · obtain ⟨m, rfl⟩ : ∃ m', m = m' + 1 := ⟨m - 1, by omega⟩
    exact hk m subject' (Nat.lt_of_succ_lt_succ hm) he

theorem readsAs_field {member : Located String} (hl : Node.Legible (.field span subject member)) (hs : subject.Printable)
    (hp : p.ReadsAs Printer.memberPrecedence subject) (h : Printer.isName member.val) :
    ReadsAs (fun lead => p lead ++ [.symbol .tight .dot, .name .tight member.val]) asked
      (.field span subject member) := by
  obtain ⟨hpair, hf, hq⟩ := hl.holder List.mem_cons_self nofun hl.isLegible
  refine ⟨fun {lead ctx least n ws ws' Q} hleast hstands hn hk => ?_⟩
  rw [List.append_assoc] at hn ⊢
  refine reads_member hp hs hpair hf hq hstands (fun hc => ?_) (Nat.le_trans hleast (Grammar.floor_le _)) hn
    fun m subject' hm he => ?_
  · rw [Node.shows, hc, Bool.or_true]
  · refine accepts_climb_step (accepts_extend_field h
      (hstands.follows.not_open Node.reach_le_twenty .openParen (by decide))) ?_
    rintro longer ⟨span', member', rfl, hm'⟩
    refine hk m _ (Nat.lt_of_succ_lt hm) ?_
    simp only [Node.erase, Located.erase, he, hm']

theorem readsAs_send {method : Located String} (hl : Node.Legible (.send span subject method args))
    (hs : subject.Printable) (hp : p.ReadsAs Printer.memberPrecedence subject) (ha : ∀ a ∈ args, (f a).ElementOf a)
    (h : Printer.isName method.val) :
    ReadsAs (fun lead => p lead ++ .symbol .tight .dot :: .name .tight method.val ::
      .symbol .tight .openParen ::
        (commas .space (args.map f) .tight ++ [.symbol .tight .closeParen])) asked
      (.send span subject method args) := by
  obtain ⟨hpair, hf, hq⟩ := hl.holder List.mem_cons_self nofun hl.isLegible
  have hargs : ∀ a ∈ args, a.endsInPair = false := fun a hm =>
    hl.endsInPair_eq_false (List.mem_cons_of_mem _ hm) nofun
  refine ⟨fun {lead ctx least n ws ws' Q} hleast hstands hn hk => ?_⟩
  simp only [List.append_assoc, List.cons_append, List.nil_append] at hn ⊢
  refine reads_member hp hs hpair hf hq hstands (fun hc => ?_) (Nat.le_trans hleast (Grammar.floor_le _)) hn
    fun m subject' hm he => ?_
  · rw [Node.shows, hc, Bool.or_true]
  · simp only [List.length_append, List.length_cons] at hn hm
    have harguments : Accepts (arguments (expression n) (n + 1)) (.symbol .tight .openParen ::
        (commas .space (args.map f) .tight ++ .symbol .tight .closeParen :: ws)) ws
        fun r => r.1.map Node.erase = args.map Node.erase :=
      accepts_arguments ha hargs (by simp only [List.length_append, List.length_cons]; omega) (Nat.le_succ n)
    refine accepts_climb_step (accepts_extend_send h Accepts.isSymbol_headToken harguments) ?_
    rintro longer ⟨span', method', r, rfl, hm', hr⟩
    refine hk m _ (by omega) ?_
    simp only [Node.erase, Node.eraseAll_eq_map, Located.erase, he, hm', hr]

theorem readsAs_call {callee : Located String} (hl : Node.Legible (.call span callee args))
    (ha : ∀ a ∈ args, (f a).ElementOf a) (h : Printer.isName callee.val ∨ callee.val = "type") :
    ReadsAs (fun lead => .name lead callee.val :: .symbol .tight .openParen ::
      (commas .space (args.map f) .tight ++ [.symbol .tight .closeParen])) asked
      (.call span callee args) := by
  have hargs : ∀ a ∈ args, a.endsInPair = false := fun a hm => hl.endsInPair_eq_false hm nofun
  refine ReadsAs.of_primary fun {lead ctx n ws} hw hn => ?_
  simp only [List.cons_append, List.append_assoc, List.nil_append, List.length_cons] at hn ⊢
  have harguments : Accepts (arguments (expression n) (n + 1)) (.symbol .tight .openParen ::
      (commas .space (args.map f) .tight ++ .symbol .tight .closeParen :: ws)) ws
      fun r => r.1.map Node.erase = args.map Node.erase := accepts_arguments ha hargs (by omega) (Nat.le_succ n)
  have hcall : ∀ head : Located String, head.val = callee.val →
      Accepts (afterName (expression n) (n + 1) ctx head)
        (.symbol .tight .openParen ::
          (commas .space (args.map f) .tight ++ .symbol .tight .closeParen :: ws)) ws
        (·.erase = (Node.call span callee args).erase) := by
    intro head hh
    refine (Accepts.isAt .openParen).bind fun b hb => ?_
    rw [hb, if_pos Accepts.isSymbol_headToken]
    refine harguments.bind fun r hr => Accepts.pure ?_
    simp only [Node.erase, Node.eraseAll_eq_map, Located.erase, hh, hr]
  refine Accepts.here.bind fun l hl => ?_
  obtain h | h := h
  · rw [hl.token, show ∀ lead, (Word.name lead callee.val).token = .ident callee.val from
      fun _ => Token.ofWord_of_isName h]
    exact (Accepts.name h).bind hcall
  · rw [hl.token, h]
    refine Accepts.get.bind fun c hc => ?_
    obtain ⟨m, ms, hm, ht⟩ := hc.ahead.head_token
    rw [hm, List.head?_cons, Option.any_some, ht, if_pos Accepts.isSymbol_headToken]
    exact Accepts.take.bind fun _ _ => hcall ⟨"type", l.span⟩ h.symm

end

/-! ## Constructions -/

theorem readsAs_construct {name : Located String} {fields : List (Located String × Node)} {layout : Layout}
    (hl : Node.Legible (.construct span name fields)) (hname : Printer.isName name.val) (hne : fields ≠ [])
    (hnames : ∀ field ∈ fields, Printer.isName field.1.val)
    (hf : ∀ field ∈ fields, (field.2.words layout 0).ElementOf field.2) :
    ((Node.construct span name fields).words layout asked).ReadsAs asked (.construct span name fields) := by
  have hpairs : ∀ field ∈ fields, field.2.endsInPair = false := fun field hm =>
    hl.endsInPair_eq_false (List.mem_map_of_mem hm) nofun
  refine ReadsAs.of_primary fun {lead ctx n ws} hs hn => ?_
  rw [Node.words_construct, List.length_cons] at hn
  rw [Node.words_construct]
  have hfields : Accepts (constructFields (expression n .nested 0) (n + 1)) (fieldWords (Node.words layout 0) fields ws) ws
      fun r => Node.eraseEntries r.1 = Node.eraseEntries fields :=
    accepts_constructFields (n := n - 1) hnames (fun field hm vs hvs hlen => (hf field hm).readsAs.accepts_alone .space
      (fun h => absurd h (by simp [hpairs field hm])) rfl hvs (by decide) (by omega)) (by omega) (by omega)
  refine Accepts.here.bind fun l hl' => ?_
  rw [hl'.token, show (Word.name lead _).token = _ from Token.ofWord_of_isName hname]
  refine (Accepts.name hname).bind fun head hh => (Accepts.isAt _).bind fun b hb => ?_
  have hparen : b = false := hb
  rw [hparen, if_neg Bool.false_ne_true]
  refine accepts_fieldsAhead.bind fun b hb => ?_
  rw [hb, beginsFields_fieldWords hne hnames, hs.constructs (Node.shows_self rfl)]
  refine hfields.bind fun r hr => Accepts.pure ?_
  rw [Node.erase, Node.erase, Located.erase, Located.erase, hh, hr]

/-! ## Captures -/

/-- A pattern that begins with a question mark reads as a tree. -/
theorem readsAs_capture {e : Node} {layout : Layout} (h : e.PrintablePattern)
    (hq : ∀ lead, ∃ ws, e.words layout asked lead = .symbol lead .question :: ws) :
    (e.words layout asked).ReadsAs asked e := by
  refine ReadsAs.of_primary fun {lead ctx n ws} hs hn c hc => ?_
  have hname : e.endsIn Node.isIdent 0 = e.endsIn Node.isIdent asked := by cases h <;> rfl
  have htoken : c.here.token = .symbol .question := by
    obtain ⟨vs, hvs⟩ := hq lead
    rw [hc.token, hvs]
    rfl
  have hpattern : Accepts (pattern (n + 2)) (e.words layout asked lead ++ ws) ws (·.erase = e.erase) :=
    h.accepts_words ⟨hs.follows.apart, fun hi => hs.name (hname ▸ hi)⟩ (by omega)
  obtain ⟨e', c', hread, hc', he⟩ := hpattern c hc
  refine ⟨e', c', ?_, hc', he⟩
  -- An expression and a pattern that begin with a question mark are read in the same way.
  obtain ⟨last, ⟨token, place, afterBreak, touches⟩, ahead⟩ := c
  obtain rfl := htoken
  rw [pattern] at hread
  exact hread

/-! ## Declarations -/

theorem readsAs_typeDecl {decl : TypeDecl} (h : decl.Lexical) : decl.words.ReadsAs asked (.typeDecl span decl) := by
  refine ReadsAs.of_primary fun {lead ctx n ws} hs hn => ?_
  have hopen := hs.follows.not_open Node.reach_le_twenty
  have hw : NoneOf [.openParen, .openBracket, .bar, .equals, .below] ws := by
    intro s hm
    simp only [List.mem_cons, List.not_mem_nil, or_false] at hm
    obtain rfl | rfl | rfl | rfl | rfl := hm
    · exact hopen _ (by decide)
    · exact hopen _ (by decide)
    all_goals exact hs.follows.noneOf _ (by decide)
  by_cases ha : decl.body = .abstract
  · have hread := h.accepts_abstract ha (hw.mono (by decide)) (Nat.le_succ_of_le hn)
    obtain ⟨vs, hvs⟩ : ∃ vs, decl.words lead ++ ws = .name lead "abstract" :: vs :=
      ⟨_, by simp only [TypeDecl.words, ha, if_true, List.cons_append]; rfl⟩
    rw [hvs] at hread ⊢
    refine Accepts.here.bind fun l hl => ?_
    rw [hl.token]
    exact hread
  · have hopen : decl.body = .concrete → isSymbol .openBrace (headToken ws) = false := fun hc =>
      hs.decl (Node.endsIn_self (by rw [Node.isOpenDecl, hc]))
    have hread := h.accepts_type ha hw hopen (Nat.le_succ_of_le hn)
    obtain ⟨vs, hvs⟩ : ∃ vs, decl.words lead ++ ws = .name lead "type" :: .name .space decl.name.val :: vs :=
      ⟨_, by simp only [TypeDecl.words, Bool.false_eq_true, if_false, List.cons_append]; rfl⟩
    rw [hvs] at hread ⊢
    refine Accepts.here.bind fun l hl => ?_
    rw [hl.token]
    -- The name of the type stands where the function `type` has its parenthesis.
    refine Accepts.get.bind fun c hc => ?_
    obtain ⟨m, ms, hm, ht⟩ := hc.ahead.head_token
    have hparen : NoneOf [.openParen] (.name .space decl.name.val :: vs) := NoneOf.name
    rw [hm, List.head?_cons, Option.any_some, ht, hparen .openParen (by decide), if_neg Bool.false_ne_true]
    exact hread

theorem readsAs_function {head : FunctionHead} {body : Node} {p : Phrase} (hl : Node.Legible (.function span head body))
    (h : head.Lexical) (hp : p.ReadsAs 1 body) :
    ReadsAs (fun lead => head.words lead ++ p .space) asked (.function span head body) := by
  have hpair : body.endsInPair = false := hl.endsInPair_eq_false List.mem_cons_self nofun
  refine ReadsAs.of_primary fun {lead ctx n ws} hs hn => ?_
  rw [List.append_assoc] at hn ⊢
  obtain ⟨vs, hvs⟩ : ∃ vs, head.words lead = .name lead "fn" :: vs := ⟨_, rfl⟩
  have hlen : (p .space ++ ws).length < n := by
    rw [hvs, List.cons_append, List.length_cons, List.length_append] at hn
    omega
  have hhead : Accepts (functionHead (n + 1)) (head.words lead ++ (p .space ++ ws)) (p .space ++ ws)
      (·.2.erase = head.erase) := h.accepts_words (Nat.le_succ_of_le hn)
  have hbody : Accepts (expression n .nested bodyPower) (p .space ++ ws) ws (·.erase = body.erase) :=
    hp.accepts .space (by rw [Node.floor_eq hpair]; decide) (by decide) (hs.body hl) (hs.function (Node.endsIn_self rfl)) hlen
  refine Accepts.here_token.bind fun l hl' => ?_
  rw [hl', hvs]
  refine (hvs ▸ hhead).bind fun r hr => hbody.bind fun e' he => Accepts.pure ?_
  simp only [Node.erase, hr, he]

/-! ## Lists -/

theorem isPair_erase (e : Node) : isPair e.erase = isPair e := by
  cases e <;> simp [Node.erase, isPair]

section

variable {ι : Type} {es : List Node} {xs : List ι} {phrase : ι → Phrase} {t : ι → Node}

theorem all_isPair_eq (p : Bool → Bool) (h : es.map Node.erase = xs.map fun x => (t x).erase) :
    es.all (fun e => p (isPair e)) = xs.all fun x => p (isPair (t x)) := by
  have hes : es.all (fun e => p (isPair e)) = (es.map Node.erase).all fun e => p (isPair e) := by
    rw [List.all_map]
    exact congrArg es.all (funext fun e => by rw [Function.comp, isPair_erase])
  rw [hes, h, List.all_map]
  exact congrArg xs.all (funext fun x => by rw [Function.comp, isPair_erase])

theorem accepts_list {lead : Lead} {ws : List Word} {n : Nat} {result : Node} (hx : ∀ x ∈ xs, (phrase x).ElementOf (t x))
    (hn : (commas .space (xs.map phrase) .tight ++ .symbol .tight .closeBracket :: ws).length < n)
    (hresult : ∀ es at_, es.map Node.erase = xs.map (fun x => (t x).erase) →
      ∃ e, ofElements at_ es = .ok e ∧ e.erase = result.erase) :
    Accepts (list (expression n) (n + 1)) (.symbol lead .openBracket ::
      (commas .space (xs.map phrase) .tight ++ .symbol .tight .closeBracket :: ws)) ws (·.erase = result.erase) := by
  have hcolon : isSymbol .colon (headToken (commas .space (xs.map phrase) .tight ++
      .symbol .tight .closeBracket :: ws)) = false := by
    cases xs with
    | nil => rfl
    | cons x xs =>
      rw [List.map_cons, commas, joined, List.append_assoc]
      exact (hx x List.mem_cons_self).opens.not_symbol _ _ (by decide)
  refine Accepts.expect.bind fun _ _ => Accepts.get.bind fun c hc => ?_
  rw [hc.token, hcolon, Bool.false_and, if_neg Bool.false_ne_true]
  have helements : Accepts (separated .closeBracket true (expression n .element 0) (n + 1)) _ _ _ :=
    accepts_elements hx (fun _ _ _ => rfl) rfl (by decide) hn (Nat.le_succ n)
  refine helements.bind fun es hes => ?_
  refine Accepts.expect.bind fun closing _ => ?_
  obtain ⟨e, hof, herase⟩ := hresult es _ hes
  rw [hof]
  exact Accepts.pure herase

end

theorem readsAs_array {elements : List Node} (hl : Node.Legible (.array span elements))
    (he : ∀ e ∈ elements, (f e).ElementOf e) :
    ReadsAs (fun lead => .symbol lead .openBracket ::
      (commas .space (elements.map f) .tight ++ [.symbol .tight .closeBracket])) asked (.array span elements) := by
  have hpair : ∀ e ∈ elements, isPair e = false := fun e hm => by
    cases hp : isPair e with
    | false => rfl
    | true =>
      have hends : e.endsInPair = true := by cases e <;> first | rfl | cases hp
      have hno : isPair e = false := hl.wellFormed.pairs e hm hends
      rw [hno] at hp
      cases hp
  refine ReadsAs.of_primary fun {lead ctx n ws} hw hn => ?_
  simp only [List.cons_append, List.append_assoc, List.nil_append, List.length_cons] at hn ⊢
  refine Accepts.here.bind fun l hl => ?_
  rw [hl.token]
  refine accepts_list (t := fun e => e) he hn fun es at_ hes => ⟨.array at_ es, ?_, ?_⟩
  · rw [ofElements, if_pos]
    · rfl
    · rw [all_isPair_eq (!·) hes, List.all_eq_true]
      exact fun e hm => by rw [hpair e hm]; rfl
  · rw [Node.erase, Node.erase, Node.eraseAll_eq_map, Node.eraseAll_eq_map, hes]

/-! ### Objects -/

def Node.ofKey (name : String) : Node :=
  if Printer.isName name then .ident .nowhere name else .literal .nowhere (.string name)

/-- An entry of an object, as the pair that it is read as. -/
def Node.ofEntry (entry : Located String × Node) : Node := .pair .nowhere (.ofKey entry.1.val) entry.2

theorem readsAs_key (name : String) : ReadsAs (fun lead => [.key lead name]) asked (.ofKey name) := by
  unfold Node.ofKey Word.key
  split
  · next h => exact readsAs_ident h
  · exact readsAs_literal (show (Literal.string name).Unsigned from trivial) trivial

theorem elementOf_entry {entry : Located String × Node} {p : Phrase} (hp : p.ReadsAs 1 entry.2)
    (hassign : entry.2.isAssignment = false) (hpair : entry.2.endsInPair = false) :
    (labelled (.key · entry.1.val) p).ElementOf (.ofEntry entry) where
  opens := Opens.key _
  readsAs := by
    have hkey : (Node.ofKey entry.1.val).isAssignment = false ∧ (Node.ofKey entry.1.val).endsInPair = false := by
      unfold Node.ofKey
      split <;> exact ⟨rfl, rfl⟩
    have hvalue : isPair entry.2 = false := by
      generalize entry.2 = value at hpair
      cases value <;> first | rfl | cases hpair
    refine readsAs_pair ⟨Node.wellFormed_of_pairs nofun nofun ?_, ?_, nofun⟩ (readsAs_key entry.1.val) hp
    · exact List.forall_mem_cons.2 ⟨fun h => absurd h (by simp [hkey.2]),
        List.forall_mem_singleton.2 fun h => absurd h (by simp [hpair])⟩
    · rw [Node.isLegible, hkey.1, hassign, hvalue]
      rfl

theorem Node.exists_of_erase_ofKey {e : Node} {name : String} (h : e.erase = (Node.ofKey name).erase) :
    (∃ span, e = .ident span name) ∨ ∃ span, e = .literal span (.string name) := by
  unfold Node.ofKey at h
  cases e with
  | ident span name' =>
    rw [erase] at h
    split at h <;> rw [erase] at h <;> cases h
    exact .inl ⟨span, rfl⟩
  | literal span value =>
    rw [erase] at h
    split at h <;> rw [erase] at h <;> cases h
    exact .inr ⟨span, rfl⟩
  | _ =>
    rw [erase] at h
    split at h <;> rw [erase] at h <;> cases h

/-- The pairs that entries are read as are taken for these entries. -/
theorem entries_eq {es : List Node} {entries : List (Located String × Node)}
    (h : es.map Node.erase = entries.map fun entry => (Node.ofEntry entry).erase) :
    ∃ entries', Grammar.entries es = .ok entries' ∧ Node.eraseEntries entries' = Node.eraseEntries entries := by
  induction entries generalizing es with
  | nil =>
    obtain rfl := List.map_eq_nil_iff.1 h
    exact ⟨[], rfl, rfl⟩
  | cons entry entries ih =>
    obtain ⟨e, es, rfl, he, hes⟩ := List.map_eq_cons_iff.1 h
    obtain ⟨entries', hentries, herase⟩ := ih hes
    obtain ⟨name, value⟩ := entry
    change e.erase = (Node.pair .nowhere (.ofKey name.val) value).erase at he
    rw [Node.erase] at he
    cases e with
    | pair span k v =>
      rw [Node.erase] at he
      obtain ⟨-, hk, hv⟩ := Node.pair.inj he
      have hread : ∃ s, Grammar.entries (.pair span k v :: es) = .ok ((⟨name.val, s⟩, v) :: entries') := by
        obtain ⟨s, rfl⟩ | ⟨s, rfl⟩ := Node.exists_of_erase_ofKey hk <;>
          exact ⟨s, by rw [Grammar.entries, hentries]; rfl⟩
      obtain ⟨s, hread⟩ := hread
      exact ⟨_, hread, by rw [Node.eraseEntries, Node.eraseEntries, herase, hv, Located.erase, Located.erase]⟩
    | _ => rw [Node.erase] at he; cases he

theorem readsAs_object {entries : List (Located String × Node)} {layout : Layout} (hl : Node.Legible (.object span entries))
    (he : ∀ entry ∈ entries, (entry.2.words layout 1).ReadsAs 1 entry.2) :
    ((Node.object span entries).words layout asked).ReadsAs asked (.object span entries) := by
  have hassign : ∀ entry ∈ entries, entry.2.isAssignment = false := by
    have h := List.all_eq_true.1 hl.isLegible
    exact fun entry hm => by simpa using h entry hm
  have hpair : ∀ entry ∈ entries, entry.2.endsInPair = false := fun entry hm =>
    hl.endsInPair_eq_false (List.mem_map_of_mem hm) (fun hm => by cases hm)
  refine ReadsAs.of_primary fun {lead ctx n ws} hs hn => ?_
  rw [Node.words, Node.entryPhrases_eq_map] at hn ⊢
  simp only [List.cons_append, List.append_assoc, List.nil_append, List.length_cons] at hn ⊢
  refine Accepts.here.bind fun l hl' => ?_
  rw [hl'.token]
  by_cases hempty : entries.isEmpty = true
  · rw [if_pos hempty]
    obtain rfl := List.isEmpty_iff.1 hempty
    refine Accepts.expect.bind fun _ _ => Accepts.get.bind fun c hc => ?_
    obtain ⟨m, ms, hm, ht⟩ := hc.ahead.head_token
    rw [hc.token, hm, List.head?_cons, Option.any_some, ht]
    exact Accepts.take.bind fun _ _ => Accepts.take.bind fun _ _ => Accepts.pure rfl
  · rw [if_neg hempty] at hn ⊢
    refine accepts_list (t := Node.ofEntry)
      (fun entry hm => elementOf_entry (Node.words_one (hassign entry hm) layout ▸ he entry hm) (hassign entry hm)
        (hpair entry hm)) hn fun es at_ hes => ?_
    · obtain ⟨entries', hread, herase⟩ := entries_eq hes
      refine ⟨.object at_ entries', ?_, by rw [Node.erase, Node.erase, herase]⟩
      obtain ⟨entry, entries, rfl⟩ := List.exists_cons_of_ne_nil fun h => hempty (List.isEmpty_iff.2 h)
      have hsome : ¬es.all (fun e => !isPair e) = true := by
        rw [all_isPair_eq (!·) hes]
        exact Bool.false_ne_true
      have hall : es.all isPair = true := (all_isPair_eq id hes).trans (List.all_eq_true.2 fun _ _ => rfl)
      rw [ofElements, if_neg hsome, if_pos hall, hread]
      rfl

end DispatchLang
