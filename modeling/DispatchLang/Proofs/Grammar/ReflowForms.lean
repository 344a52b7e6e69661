import DispatchLang.Proofs.Grammar.LineBreaks
import DispatchLang.Proofs.Grammar.NextLine
import DispatchLang.Proofs.Grammar.Reflow

/-!
# The grammar of reflowed texts

The grammar is gone through reader by reader: each one agrees with itself on a text and on the same text with more line
breaks before words that continue lines. Types and alternatives may disagree where a bracket is broken off, and then
their answers hold the opening; every other form only has to pass on the openings of its parts. Patterns have neither.

A block first tries to read parameters, and this attempt may come out in another way in the second run. Parameters
begin with a name and a symbol that no statement goes on with, so that a block which finds them only in the second run
is refused in the first one.

## Main results

* `Grammar.reflow_expression`, `Grammar.reflow_program`: expressions and programs agree.
* `Program.parse_break`: a line break before a word that continues a line changes nothing of what is read but places.
-/

namespace DispatchLang

open Reader Reflow

namespace Grammar

variable {ρ : Reflow} {c d : Cursor} {n : Nat}

/-! ## Types and parameters -/

theorem reflow_typeExpr :
    ρ.Agrees c d (typeExpr n) (typeExpr n) (ρ.UpTo TypeExpr.moved) fun type => ρ.Opens type.openings := by
  induction n generalizing c d with
  | zero => exact .refused ⟨_, rfl⟩
  | succ n ih =>
    rw [typeExpr]
    refine .name_bind fun x y hxy hbroken => .onLine_bind ?_ ?_ fun hs hb hb' => ?_
    · refine .take_bind fun _ => (Agrees.separated fun c d => ih).bind_open (fun as bs c₁ d₁ h => ?_)
        fun as c₁ hopen => Yields.skip fun close c₂ => Yields.pure ?_
      · refine (Agrees.expect _).bind fun _ _ _ _ hclose => .pure ?_
        simp only [Placing.UpTo, TypeExpr.moved, TypeExpr.movedAll_eq_map, hxy.val, (hxy.place.cover hclose).eq,
          Placing.UpTo.map h]
      · rw [TypeExpr.openings, TypeExpr.openingsAll_eq]
        exact (Opens.flatMap hopen).mono fun _ => List.mem_cons_of_mem _
    · exact .pure (by simp only [Placing.UpTo, TypeExpr.moved, hxy.val, hxy.place.eq])
    · exact Yields.skip fun _ _ => Yields.skip fun _ _ => Yields.skip fun _ _ =>
        Yields.pure ⟨_, List.mem_cons_self, hbroken _ hs hb hb'⟩

theorem opens_some {type : TypeExpr} (h : ρ.Opens type.openings) : ρ.Opens (TypeExpr.openings? (some type)) := by
  rw [TypeExpr.openings?, Option.toList_some, List.flatMap_singleton]
  exact h

theorem reflow_typeAfter {s : Symbol} : ρ.Agrees c d (typeAfter s n) (typeAfter s n)
    (ρ.UpTo fun f => Option.map (TypeExpr.moved f)) fun type => ρ.Opens (TypeExpr.openings? type) := by
  refine .accept_bind fun b c₁ d₁ => ?_
  split
  · exact reflow_typeExpr.map (fun a b h => congrArg some h) fun _ h => opens_some h
  · exact .pure rfl

theorem reflow_param :
    ρ.Agrees c d (param n) (param n) (ρ.UpTo Param.moved) fun p => ρ.Opens p.openings := by
  refine .name_bind fun x y hxy _ => reflow_typeAfter.map (fun a b h => ?_) fun _ h => h
  simp only [Placing.UpTo, Param.moved, hxy.eq, h.eq]

theorem reflow_typeParam :
    ρ.Agrees c d (typeParam n) (typeParam n) (ρ.UpTo TypeParam.moved) fun p => ρ.Opens p.openings := by
  refine .name_bind fun x y hxy _ => reflow_typeAfter.map (fun a b h => ?_) fun _ h => h
  simp only [Placing.UpTo, TypeParam.moved, hxy.eq, h.eq]

theorem reflow_typeParams : ρ.Agrees c d (typeParams n) (typeParams n) (List.Forall₂ (ρ.UpTo TypeParam.moved))
    fun ps => ρ.Opens (ps.flatMap TypeParam.openings) := by
  refine .accept_bind fun b c₁ d₁ => ?_
  split
  · refine (Agrees.separated fun c d => reflow_typeParam).bind_open (fun as bs c₂ d₂ h => ?_)
      fun as c₁ hopen => Yields.skip fun _ _ => Yields.pure (Opens.flatMap hopen)
    exact (Agrees.expect _).bind fun _ _ _ _ _ => .pure h
  · exact .pure .nil

theorem reflow_closureParams : ρ.Agrees c d (closureParams n) (closureParams n) (List.Forall₂ (ρ.UpTo Param.moved))
    fun ps => ρ.Opens (ps.flatMap Param.openings) := by
  induction n generalizing c d with
  | zero => exact .refused ⟨_, rfl⟩
  | succ n ih =>
    refine reflow_param.bind_open (fun p q c₁ d₁ hp => .accept_bind fun b c₂ d₂ => ?_) fun p c₁ hopen => ?_
    · split
      · refine ih.map (fun as bs h => .cons hp h) fun ps hopen => ?_
        rw [List.flatMap_cons]
        exact hopen.right
      · exact (Agrees.expect _).bind fun _ _ _ _ _ => .pure (.cons hp .nil)
    · refine Yields.skip fun b c₂ => ?_
      split
      · refine Yields.skip fun ps c₃ => Yields.pure ?_
        rw [List.flatMap_cons]
        exact hopen.left
      · refine Yields.skip fun _ c₃ => Yields.pure ?_
        rw [List.flatMap_singleton]
        exact hopen

theorem reflow_functionParams : ρ.Agrees c d (functionParams n) (functionParams n)
    (List.Forall₂ (ρ.UpTo Param.moved)) fun ps => ρ.Opens (ps.flatMap Param.openings) := by
  refine .here_bind fun hl => ?_
  rw [← hl.token]
  split
  · refine .take_bind fun _ => (Agrees.separated fun c d => reflow_param).bind_open (fun as bs c₂ d₂ h => ?_)
      fun as c₁ hopen => Yields.skip fun _ _ => Yields.pure (Opens.flatMap hopen)
    exact (Agrees.expect _).bind fun _ _ _ _ _ => .pure h
  · refine reflow_param.map (fun p q h => .cons h .nil) fun p hopen => ?_
    rw [List.flatMap_singleton]
    exact hopen
  · exact .pure .nil
  · exact .failHere

theorem reflow_functionHead : ρ.Agrees c d (functionHead n) (functionHead n)
    (fun x y => ρ.Same x.1 y.1 ∧ ρ.UpTo FunctionHead.moved x.2 y.2) fun x => ρ.Opens x.2.openings := by
  refine (Agrees.expectWord _).bind fun _ _ c₁ d₁ hfirst => .name_bind fun x y hxy _ => ?_
  refine reflow_typeParams.bind_open (fun ts us c₂ d₂ ht => ?_)
    fun ts c₁ hopen => Yields.skip fun _ _ => Yields.skip fun _ _ => Yields.pure hopen.left
  refine reflow_functionParams.bind_open (fun ps qs c₃ d₃ hp => ?_)
    fun ps c₁ hopen => Yields.skip fun _ _ => Yields.pure hopen.right
  refine (Agrees.expect _).bind fun _ _ _ _ _ => .pure ⟨hfirst, ?_⟩
  simp only [Placing.UpTo, FunctionHead.moved, hxy.eq, Placing.UpTo.map ht, Placing.UpTo.map hp]

/-! ## Type declarations -/

theorem reflow_fieldDecl :
    ρ.Agrees c d (fieldDecl n) (fieldDecl n) (ρ.UpTo FieldDecl.moved) fun field => ρ.Opens field.openings := by
  refine .here_bind fun hl => ?_
  rw [← hl.token]
  split
  · refine .name_bind fun x y hxy _ => .accept_bind fun b c₁ d₁ => ?_
    split
    · refine reflow_typeExpr.map (fun t u h => ?_) fun _ h => h
      simp only [Placing.UpTo, FieldDecl.moved, hxy.eq, h.eq]
    · exact .failHere
  · exact .failHere

theorem reflow_variantDecl :
    ρ.Agrees c d (variantDecl n) (variantDecl n) (ρ.UpTo VariantDecl.moved) fun v => ρ.Opens v.openings := by
  refine .name_bind fun x y hxy hbroken => .onLine_bind ?_ ?_ fun hs hb hb' => ?_
  · refine .take_bind fun _ => (Agrees.lines fun c d => reflow_fieldDecl).bind_open (fun as bs c₁ d₁ h => ?_)
      fun as c₁ hopen => Yields.skip fun _ _ => Yields.pure ?_
    · refine (Agrees.expect _).bind fun _ _ _ _ _ => .pure ?_
      simp only [Placing.UpTo, VariantDecl.moved, hxy.eq, Placing.UpTo.map h]
    · exact (Opens.flatMap hopen).mono fun _ => List.mem_cons_of_mem _
  · exact .pure (by simp only [Placing.UpTo, VariantDecl.moved, hxy.eq, List.map_nil])
  · exact Yields.skip fun _ _ => Yields.skip fun _ _ => Yields.skip fun _ _ =>
      Yields.pure ⟨_, List.mem_cons_self, hbroken _ hs hb hb'⟩

theorem reflow_variantDecls : ρ.Agrees c d (variantDecls n) (variantDecls n)
    (List.Forall₂ (ρ.UpTo VariantDecl.moved)) fun vs => ρ.Opens (vs.flatMap VariantDecl.openings) := by
  induction n generalizing c d with
  | zero => exact .refused ⟨_, rfl⟩
  | succ n ih =>
    refine reflow_variantDecl.bind_open (fun v w c₁ d₁ hv => .accept_bind fun b c₂ d₂ => ?_) fun v c₁ hopen => ?_
    · split
      · refine ih.map (fun as bs h => .cons hv h) fun vs hopen => ?_
        rw [List.flatMap_cons]
        exact hopen.right
      · exact .pure (.cons hv .nil)
    · refine Yields.skip fun b c₂ => ?_
      split
      · refine Yields.skip fun vs c₃ => Yields.pure ?_
        rw [List.flatMap_cons]
        exact hopen.left
      · refine Yields.pure ?_
        rw [List.flatMap_singleton]
        exact hopen

theorem reflow_typeBody :
    ρ.Agrees c d (typeBody n) (typeBody n) (ρ.UpTo TypeBody.moved) fun body => ρ.Opens body.openings := by
  refine .accept_bind fun b c₁ d₁ => ?_
  split
  · refine (Agrees.lines fun c d => reflow_fieldDecl).bind_open (fun as bs c₂ d₂ h => ?_)
      fun as c₁ hopen => Yields.skip fun _ _ => Yields.pure (Opens.flatMap hopen)
    refine (Agrees.expect _).bind fun _ _ _ _ _ => .pure ?_
    simp only [Placing.UpTo, TypeBody.moved, Placing.UpTo.map h]
  · refine .accept_bind fun b c₂ d₂ => ?_
    split
    · refine reflow_variantDecls.map (fun vs ws h => ?_) fun _ h => h
      simp only [Placing.UpTo, TypeBody.moved, Placing.UpTo.map h]
    · exact .pure rfl

theorem reflow_typeDecl :
    ρ.Agrees c d (typeDecl n) (typeDecl n) (ρ.UpTo Node.moved) fun node => ρ.Opens node.openings := by
  refine (Agrees.expectWord _).bind fun first _ c₁ d₁ hfirst => .name_bind fun x y hxy _ => ?_
  refine reflow_typeParams.bind_open (fun ts us c₂ d₂ ht => ?_) fun ts c₁ hopen =>
    Yields.skip fun _ _ => Yields.skip fun _ _ => Yields.get (Yields.pure (Opens.own hopen.left.left))
  refine reflow_typeAfter.bind_open (fun p q c₃ d₃ hp => ?_) fun p c₁ hopen =>
    Yields.skip fun _ _ => Yields.get (Yields.pure (Opens.own hopen.right.left))
  refine reflow_typeBody.bind_open (fun b b' c₄ d₄ hb => .get_bind fun hcd => .pure ?_) fun b c₁ hopen =>
    Yields.get (Yields.pure (Opens.own hopen.right))
  simp only [Placing.UpTo, Node.moved, TypeDecl.moved, (hfirst.cover hcd.place).eq, hxy.eq, Placing.UpTo.map ht,
    hp.eq, hb.eq]

theorem reflow_abstractDecl :
    ρ.Agrees c d (abstractDecl n) (abstractDecl n) (ρ.UpTo Node.moved) fun node => ρ.Opens node.openings := by
  have hrest {c d : Cursor} {s t : Span} (hst : ρ.Same s t) : ρ.Agrees c d
      (do
        let head ← name
        let parent ← typeAfter .below n
        return .typeDecl (s.cover (← get).last) ⟨head, [], parent, .abstract⟩)
      (do
        let head ← name
        let parent ← typeAfter .below n
        return .typeDecl (t.cover (← get).last) ⟨head, [], parent, .abstract⟩) (ρ.UpTo Node.moved)
      fun node => ρ.Opens node.openings := by
    refine .name_bind fun x y hxy _ => reflow_typeAfter.bind_open (fun p q c₁ d₁ hp => .get_bind fun hcd => .pure ?_)
      fun p c₁ hopen => Yields.get (Yields.pure (Opens.own hopen.right.left))
    simp only [Placing.UpTo, Node.moved, TypeDecl.moved, (hst.cover hcd.place).eq, hxy.eq, hp.eq, List.map_nil,
      TypeBody.moved]
  refine (Agrees.expectWord _).bind fun s t c₁ d₁ hst => .here_bind fun hl => ?_
  rw [← hl.token]
  dsimp only
  split
  · exact .take_bind fun _ => hrest hst
  · exact hrest hst

/-! ## Patterns -/

/-- Fields are ahead at the same places of the two texts. -/
theorem beginFields_texts {ls ls' : List Lexeme} (h : ρ.Texts ls ls') :
    Lexeme.beginFields ls = Lexeme.beginFields ls' := by
  cases h with
  | last like => rfl
  | word hl _ rest =>
    cases rest with
    | last hm => rfl
    | word hm _ rest => simp only [Lexeme.beginFields, hl.token, hm.token, rest.like.token]

theorem reflow_fieldsAhead {α : Type} {g g' : Bool → Reader α} {S : α → α → Prop} {O : α → Prop}
    (h : ∀ b, ρ.Agrees c d (g b) (g' b) S O) : ρ.Agrees c d (fieldsAhead >>= g) (fieldsAhead >>= g') S O := by
  refine .of_beside fun hcd => (h (Lexeme.beginFields (c.here :: c.ahead))).moved ?_ ?_ hcd
  · show (fieldsAhead c >>= fun x => g x.1 x.2) = _
    rw [fieldsAhead_eq]
    rfl
  · show (fieldsAhead d >>= fun x => g' x.1 x.2) = _
    rw [fieldsAhead_eq, ← beginFields_texts hcd.texts]
    rfl

section Items

variable {item item' : Reader Node} {O : Node → Prop}

theorem reflow_constructFields (h : ∀ c d, ρ.Agrees c d item item' (ρ.UpTo Node.moved) O) :
    ρ.Agrees c d (constructFields item n) (constructFields item' n)
      (fun x y => ρ.UpTo Node.movedEntries x.1 y.1 ∧ ρ.Same x.2 y.2) fun x => ∃ field ∈ x.1, O field.2 := by
  refine (Agrees.expect _).bind fun _ _ c₁ d₁ _ => ?_
  have hfield (c d : Cursor) : ρ.Agrees c d (do
      let head ← name
      let _ ← expect .colon
      return (head, ← item)) (do
      let head ← name
      let _ ← expect .colon
      return (head, ← item')) (ρ.UpTo fun f (x : Located String × Node) => (x.1.moved f, x.2.moved f))
      fun field => O field.2 := by
    refine .name_bind fun x y hxy _ => (Agrees.expect _).bind fun _ _ c₃ d₃ _ => ?_
    exact (h c₃ d₃).map (fun a b hab => Prod.ext hxy hab) fun _ hopen => hopen
  refine (Agrees.lines hfield).bind_open (fun as bs c₂ d₂ hs => ?_)
    fun as c₁ hopen => Yields.skip fun _ _ => Yields.pure hopen
  refine (Agrees.expect _).bind fun _ _ _ _ hclose => .pure ⟨?_, hclose⟩
  show Node.movedEntries _ as = Node.movedEntries _ bs
  induction hs with
  | nil => rfl
  | cons hab _ ih =>
    obtain ⟨hname, hvalue⟩ := Prod.mk.inj hab.eq
    rw [Node.movedEntries, Node.movedEntries, hname, hvalue, ih]

theorem reflow_construct {x y : Located String} (hxy : ρ.UpTo Located.moved x y)
    (h : ∀ c d, ρ.Agrees c d item item' (ρ.UpTo Node.moved) O) {O' : Node → Prop}
    (hO : ∀ span fields, (∃ field ∈ fields, O field.2) → O' (.construct span x fields)) :
    ρ.Agrees c d
      (do
        let (fields, close) ← constructFields item n
        return .construct (x.span.cover close) x fields)
      (do
        let (fields, close) ← constructFields item' n
        return .construct (y.span.cover close) y fields) (ρ.UpTo Node.moved) O' := by
  refine (reflow_constructFields h).bind_open (fun a b _ _ hab => .pure ?_)
    fun a _ hopen => Yields.pure (hO _ _ hopen)
  simp only [Placing.UpTo, Node.moved, hxy.eq, hab.1.eq, (hxy.place.cover hab.2).eq]

/-- A name or the beginning of a pattern does not continue a line, so that the two runs find it at the same places. -/
theorem fixed_of_refinement {l l' : Lexeme} (hl : ρ.Eased l l') :
    (!l.afterBreak && beginsRefinement l.token) = (!l'.afterBreak && beginsRefinement l'.token) := by
  rw [← hl.token]
  cases hb : beginsRefinement l.token with
  | false => rw [Bool.and_false, Bool.and_false]
  | true =>
    rw [(hl.fixed ?_).1]
    obtain ⟨token, span, afterBreak, touches⟩ := l
    cases token with
    | symbol s => cases s <;> first | rfl | cases hb
    | _ => rfl

theorem reflow_captureWith (h : ∀ c d, ρ.Agrees c d item item' (ρ.UpTo Node.moved) Never) :
    ρ.Agrees c d (captureWith item) (captureWith item') (ρ.UpTo Node.moved) Never := by
  have hrest {c d : Cursor} {bound : Option String} {s t : Span} (hst : ρ.Same s t) : ρ.Agrees c d
      (do
        let l ← here
        if !l.afterBreak && beginsRefinement l.token then
          let inner ← item
          return .refine (s.cover inner.span) bound inner
        else return .capture s bound)
      (do
        let l ← here
        if !l.afterBreak && beginsRefinement l.token then
          let inner ← item'
          return .refine (t.cover inner.span) bound inner
        else return .capture t bound) (ρ.UpTo Node.moved) Never := by
    refine .here_bind fun hl => ?_
    rw [fixed_of_refinement hl]
    split
    · refine (h c d).map (fun a b hab => ?_) fun _ hopen => hopen
      simp only [Placing.UpTo, Node.moved, hab.eq, (hst.cover hab.span).eq]
    · exact .pure (congrArg (Node.capture · bound) hst)
  refine (Agrees.expect _).bind fun s t c₁ d₁ hst => .here_bind fun hl => ?_
  have hname : (isName c₁.here.token && c₁.here.touches) = (isName d₁.here.token && d₁.here.touches) := by
    rw [← hl.token]
    cases ht : c₁.here.token with
    | ident text => rw [(hl.fixed (by rw [ht]; rfl)).2]
    | _ => rfl
  rw [hname]
  dsimp only
  split
  · refine .name_bind fun x y hxy _ => ?_
    rw [hxy.val]
    exact hrest (hst.cover hxy.place)
  · exact hrest hst

end Items

theorem reflow_pattern : ρ.Agrees c d (pattern n) (pattern n) (ρ.UpTo Node.moved) Never := by
  induction n generalizing c d with
  | zero => exact .refused ⟨_, rfl⟩
  | succ n ih =>
    rw [pattern]
    refine .here_bind fun hl => ?_
    rw [← hl.token]
    split
    · exact reflow_captureWith fun c d => ih
    · refine .name_bind fun x y hxy _ => reflow_fieldsAhead fun b => ?_
      split
      · exact reflow_construct hxy (fun c d => ih) fun _ _ hopen => hopen.elim fun _ h => h.2
      · exact .pure (by simp only [Placing.UpTo, Node.moved, hxy.val, hxy.place.eq])
    · refine .take_bind fun _ => .here_bind fun hl' => ?_
      rw [← hl'.token]
      split
      · exact .take_bind fun _ => .pure (congrArg (Node.literal · _) (hl.place.cover hl'.place))
      · exact .failHere
    · split
      · exact .take_bind fun _ => .pure (congrArg (Node.literal · _) hl.place)
      · exact .failHere

/-! ## Forms that hold expressions -/

/-- What is in a pair under a name or a string is in its value. -/
theorem opens_value {span : Span} {key value : Node} (hkey : key.openings = [])
    (h : ρ.Opens (Node.pair span key value).openings) : ρ.Opens value.openings := by
  obtain ⟨o, ho, hb⟩ := h
  obtain ⟨n, hn, ho⟩ := List.mem_flatMap.1 ho
  rcases List.mem_cons.1 hn with rfl | hn
  · cases ho
  · rw [Node.inside, List.mem_append] at hn
    rcases hn with hn | hn
    · have hmem : o ∈ key.openings := List.mem_flatMap.2 ⟨n, hn, ho⟩
      rw [hkey] at hmem
      cases hmem
    · exact ⟨o, List.mem_flatMap.2 ⟨n, hn, ho⟩, hb⟩

theorem opens_entries {elements : List Node} {fields : List (Located String × Node)}
    (hpairs : ∀ element ∈ elements, isPair element = true) (h : entries elements = .ok fields)
    (hopen : ∃ a ∈ elements, ρ.Opens a.openings) : ∃ field ∈ fields, ρ.Opens field.2.openings := by
  induction elements generalizing fields with
  | nil => exact absurd hopen (by simp)
  | cons element elements ih =>
    obtain ⟨hpair, hpairs⟩ := List.forall_mem_cons.1 hpairs
    have hentry {span : Span} {key : Node} {name : Located String} {value : Node} (hkey : key.openings = [])
        (helement : element = .pair span key value)
        (h : (do return (name, value) :: (← entries elements)) = Except.ok fields) :
        ∃ field ∈ fields, ρ.Opens field.2.openings := by
      cases hr : entries elements with
      | error e =>
        rw [hr] at h
        cases h
      | ok rest =>
        rw [hr] at h
        cases h
        obtain ⟨a, ha, hopen⟩ := hopen
        rcases List.mem_cons.1 ha with rfl | ha
        · exact ⟨_, List.mem_cons_self, opens_value hkey (helement ▸ hopen)⟩
        · obtain ⟨field, hfield, hopen⟩ := ih hpairs hr ⟨a, ha, hopen⟩
          exact ⟨field, List.mem_cons_of_mem _ hfield, hopen⟩
    cases element with
    | pair span key value =>
      cases key with
      | ident _ _ => exact hentry rfl rfl h
      | literal _ literal =>
        cases literal with
        | string _ => exact hentry rfl rfl h
        | _ => cases h
      | _ => cases h
    | _ => cases hpair

/-- What is in a list of elements is in the array or object that it stands for. -/
theorem opens_ofElements {span : Span} {elements : List Node} {node : Node} (h : ofElements span elements = .ok node)
    (hopen : ∃ a ∈ elements, ρ.Opens a.openings) : ρ.Opens node.openings := by
  rw [ofElements] at h
  split at h
  · cases h
    obtain ⟨a, ha, hopen⟩ := hopen
    exact hopen.child ha
  · split at h
    · next hall =>
      cases hentries : entries elements with
      | error e =>
        rw [hentries] at h
        cases h
      | ok fields =>
        rw [hentries] at h
        cases h
        obtain ⟨field, hfield, hopen⟩ := opens_entries (List.all_eq_true.mp hall) hentries hopen
        exact hopen.child (List.mem_map_of_mem hfield)
    · cases h

section Forms

variable {expr expr' : ExpressionReader}
  (he : ∀ ctx least c d, ρ.Agrees c d (expr ctx least) (expr' ctx least) (ρ.UpTo Node.moved)
    fun node => ρ.Opens node.openings)
include he

theorem reflow_arguments : ρ.Agrees c d (arguments expr n) (arguments expr' n)
    (fun x y => ρ.UpTo Node.movedAll x.1 y.1 ∧ ρ.Same x.2 y.2) fun x => ∃ a ∈ x.1, ρ.Opens a.openings := by
  refine (Agrees.expect _).bind fun _ _ c₁ d₁ _ => ?_
  refine (Agrees.separated (he _ _)).bind_open (fun as bs c₂ d₂ h => ?_)
    fun as c₁ hopen => Yields.skip fun _ _ => Yields.pure hopen
  refine (Agrees.expect _).bind fun _ _ _ _ hclose => .pure ⟨?_, hclose⟩
  simp only [Placing.UpTo, Node.movedAll_eq_map, Placing.UpTo.map h]

theorem reflow_afterName (ctx : Context) {x y : Located String} (hxy : ρ.UpTo Located.moved x y) :
    ρ.Agrees c d (afterName expr n ctx x) (afterName expr' n ctx y) (ρ.UpTo Node.moved)
      fun node => ρ.Opens node.openings := by
  have hident : ρ.UpTo Node.moved (.ident x.span x.val) (.ident y.span y.val) := by
    simp only [Placing.UpTo, Node.moved, hxy.val, hxy.place.eq]
  refine .isAt_bind ?_
  split
  · refine (reflow_arguments he).bind_open (fun a b _ _ hab => .pure ?_)
      fun a _ hopen => Yields.pure (hopen.elim fun arg h => h.2.child h.1)
    simp only [Placing.UpTo, Node.moved, hxy.eq, hab.1.eq, (hxy.place.cover hab.2).eq]
  · cases ctx.constructs with
    | false => exact .pure hident
    | true =>
      refine reflow_fieldsAhead fun b => ?_
      cases b with
      | false => exact .pure hident
      | true =>
        refine reflow_construct hxy (he _ _) fun span fields hopen => ?_
        obtain ⟨field, hfield, hopen⟩ := hopen
        exact hopen.child (List.mem_map_of_mem hfield)

theorem reflow_list : ρ.Agrees c d (list expr n) (list expr' n) (ρ.UpTo Node.moved)
    fun node => ρ.Opens node.openings := by
  refine (Agrees.expect _).bind fun s t c₁ d₁ hst => .get_bind fun hcd => ?_
  have hempty : (isSymbol .colon c₁.here.token && c₁.ahead.head?.any (isSymbol .closeBracket ·.token)) =
      (isSymbol .colon d₁.here.token && d₁.ahead.head?.any (isSymbol .closeBracket ·.token)) := by
    rw [hcd.like.token, hcd.head?_ahead]
  rw [← hempty]
  split
  · exact .take_bind fun _ => .take_bind fun hl => .pure (congrArg (Node.object · []) (hst.cover hl.place))
  · refine (Agrees.separated (he _ _)).bind_open (fun as bs c₂ d₂ h => ?_) fun as c₁ hopen => Yields.skip fun _ _ => ?_
    · exact (Agrees.expect _).bind fun _ _ _ _ hclose => .check (ofElements_like (hst.cover hclose) h)
    · intro node c₂ hnode
      cases hof : ofElements _ as with
      | error e => rw [hof] at hnode; cases hnode
      | ok node' =>
        rw [hof] at hnode
        cases hnode
        exact opens_ofElements hof hopen

theorem reflow_function : ρ.Agrees c d (function expr n) (function expr' n) (ρ.UpTo Node.moved)
    fun node => ρ.Opens node.openings := by
  refine reflow_functionHead.bind_open (fun a b c₁ d₁ hab => ?_)
    fun a c₁ hopen => Yields.skip fun _ _ => Yields.pure hopen.own
  refine (he _ _ c₁ d₁).map (fun body body' hbody => ?_) fun _ hopen => hopen.child List.mem_cons_self
  simp only [Placing.UpTo, Node.moved, hab.2.eq, hbody.eq, (hab.1.cover hbody.span).eq]

theorem reflow_cases : ρ.Agrees c d (cases expr n) (cases expr' n) (ρ.UpTo Node.moved)
    fun node => ρ.Opens node.openings := by
  refine (Agrees.expectWord _).bind fun s t c₁ d₁ hst => ?_
  refine (he _ _ c₁ d₁).bind_open (fun e e' c₂ d₂ hscrutinee => ?_) fun e c₁ hopen =>
    Yields.skip fun _ _ => Yields.skip fun _ _ => Yields.skip fun _ _ => Yields.pure (hopen.child List.mem_cons_self)
  refine (Agrees.expect _).bind fun opening opening' c₃ d₃ _ => ?_
  refine (Agrees.collect (S := ρ.UpTo fun f arm => (arm.1.moved f, arm.2.moved f))
    (O := fun arm => ρ.Opens arm.2.openings) (fun first c d => .skipWhile_bind fun c₁ d₁ => .isAt_bind ?_)
    true).bind_open (fun arms arms' c₄ d₄ harms => (Agrees.expect _).bind fun _ _ _ _ hclose => .pure ?_)
    fun arms c₁ hopen => Yields.skip fun _ _ => Yields.pure ?_
  · split
    · exact .pure .none
    · refine .atEnd_bind ?_
      split
      · exact .fail
      · refine reflow_pattern.bind fun p p' c₅ d₅ hp => (Agrees.expect _).bind fun _ _ c₆ d₆ _ => ?_
        exact .endLine (p := fun t => isSymbol .comma t || isSymbol .closeBrace t) (he _ _ c₆ d₆)
          (fun _ _ hbody => Prod.ext hp hbody) fun _ hopen => hopen
  · have harms : Node.movedArms ρ.left arms = Node.movedArms ρ.right arms' := by
      induction harms with
      | nil => rfl
      | cons harm _ ih =>
        obtain ⟨hpattern, hbody⟩ := Prod.mk.inj harm.eq
        rw [Node.movedArms, Node.movedArms, hpattern, hbody, ih]
    simp only [Placing.UpTo, Node.moved, hscrutinee.eq, harms, (hst.cover hclose).eq]
  · obtain ⟨arm, harm, hopen⟩ := hopen
    refine hopen.child (List.mem_cons_of_mem _ (List.mem_flatMap.2 ⟨arm, harm, ?_⟩))
    exact List.mem_cons_of_mem _ List.mem_cons_self

end Forms

/-! ## Blocks -/

theorem reflow_statement {expr expr' : ExpressionReader} {inBlock : Bool}
    (he : ∀ c d, ρ.Agrees c d (expr .nested 0) (expr' .nested 0) (ρ.UpTo Node.moved) fun node => ρ.Opens node.openings) :
    ρ.Agrees c d (do let statement ← expr .nested 0; statementEnd inBlock; return some statement)
      (do let statement ← expr' .nested 0; statementEnd inBlock; return some statement)
      (Option.Rel (ρ.UpTo Node.moved)) (Agrees.Given fun node => ρ.Opens node.openings) := by
  have hend {c d : Cursor} : ρ.Agrees c d (statementEnd inBlock) (statementEnd inBlock) Eq Never := by
    refine .here_bind fun hl => ?_
    rw [← hl.token]
    split
    · exact .take_bind fun _ => .pure rfl
    · exact .pure rfl
    · exact .fail
    · split_ifs with hbrace hb hb'
      · exact .pure rfl
      · exact .pure rfl
      · exact absurd (hl.broken hb) hb'
      · exact .failHere
      · exact .failHere
  refine (he c d).bind_open (fun a b c₁ d₁ hab => ?_)
    fun a c₁ hopen => Yields.skip fun _ _ => Yields.pure ⟨a, rfl, hopen⟩
  exact hend.bind fun _ _ _ _ _ => .pure (.some hab)

section Blocks

variable {expr expr' : ExpressionReader}
  (he : ∀ c d, ρ.Agrees c d (expr .nested 0) (expr' .nested 0) (ρ.UpTo Node.moved) fun node => ρ.Opens node.openings)
include he

theorem reflow_body {s t : Span} :
    ρ.Agrees c d (collect (fun _ => statementItem expr s) n true) (collect (fun _ => statementItem expr' t) n true)
      (List.Forall₂ (ρ.UpTo Node.moved)) (Agrees.Some fun node => ρ.Opens node.openings) := by
  refine .collect (fun first c d => .skipWhile_bind fun c₁ d₁ => .isAt_bind ?_) true
  split
  · exact .pure .none
  · refine .atEnd_bind ?_
    split
    · exact .fail
    · exact reflow_statement he

/-- The parameters of a block are tried first. If they are found in the second run alone, then the block is refused in the
first one. -/
theorem reflow_block (hproper : Proper expr) : ρ.Agrees c d (block expr n) (block expr' n) (ρ.UpTo Node.moved)
    fun node => ρ.Opens node.openings := by
  rw [block_eq, block_eq]
  refine (Agrees.expect _).bind fun s t c₁ d₁ hst => .of_beside fun hcd => ?_
  have hrest {ps qs : List Param} (h : List.Forall₂ (ρ.UpTo Param.moved) ps qs) {c d : Cursor} :
      ρ.Agrees c d (do
        let body ← collect (fun _ => statementItem expr s) n true
        let closing ← expect .closeBrace
        return .block (s.cover closing) ps body) (do
        let body ← collect (fun _ => statementItem expr' t) n true
        let closing ← expect .closeBrace
        return .block (t.cover closing) qs body) (ρ.UpTo Node.moved) fun node => ρ.Opens node.openings := by
    refine (reflow_body he).bind_open (fun as bs c₂ d₂ hbody => (Agrees.expect _).bind fun _ _ _ _ hclose => .pure ?_)
      fun as c₁ hopen => Yields.skip fun _ _ => Yields.pure (hopen.elim fun a h => h.2.child h.1)
    simp only [Placing.UpTo, Node.moved, Node.movedAll_eq_map, Placing.UpTo.map h, Placing.UpTo.map hbody,
      (hst.cover hclose).eq]
  rcases hc : closureParams n c₁ with e | ⟨ps, c₂⟩
  · rcases hd : closureParams n d₁ with e' | ⟨qs, d₂⟩
    · exact (hrest .nil).moved (attempt_error hc) (attempt_error hd) hcd
    · obtain ⟨hname, hlabel⟩ := label_of_closureParams hd
      rw [← hcd.like.token] at hname
      rw [← hcd.next.like.token] at hlabel
      obtain ⟨e', he'⟩ := refuses_statements (n := n) (s := s) hproper hname hlabel
      refine .refused ⟨e', ?_⟩
      rw [attempt_error hc]
      show (collect (fun _ => statementItem expr s) n true c₁ >>= _) = _
      rw [he']
      rfl
  · rcases reflow_closureParams hcd ps c₂ hc with ⟨qs, d₂, hd, hcd₂, h⟩ | hopen
    · exact (hrest h).moved (attempt_ok hc) (attempt_ok hd) hcd₂
    · have hparams : Yields c₂ (do
          let body ← collect (fun _ => statementItem expr s) n true
          let closing ← expect .closeBrace
          return Node.block (s.cover closing) ps body) fun node _ => ρ.Opens node.openings :=
        Yields.skip fun body _ => Yields.skip fun closing _ => Yields.pure (Opens.own hopen)
      refine .of_open fun node c₃ hnode => hparams node c₃ ?_
      rw [attempt_ok hc] at hnode
      exact hnode

end Blocks

/-! ## Expressions -/

section Expressions

variable {expr expr' : ExpressionReader}
  (he : ∀ ctx least c d, ρ.Agrees c d (expr ctx least) (expr' ctx least) (ρ.UpTo Node.moved)
    fun node => ρ.Opens node.openings)
include he

theorem reflow_primary (hproper : Proper expr) (ctx : Context) :
    ρ.Agrees c d (primary expr n ctx) (primary expr' n ctx) (ρ.UpTo Node.moved) fun node => ρ.Opens node.openings := by
  refine .here_bind fun hl => ?_
  have hliteral (value : Literal) {c₁ d₁ : Cursor} : ρ.Agrees c₁ d₁ (pure (.literal c.here.span value))
      (pure (.literal d.here.span value)) (ρ.UpTo Node.moved) fun node => ρ.Opens node.openings :=
    .pure (congrArg (Node.literal · value) hl.place)
  have hchild {node child : Node} (hc : node.children = [child]) (h : ρ.Opens child.openings) : ρ.Opens node.openings :=
    h.child (hc ▸ List.mem_cons_self)
  rw [← hl.token]
  split
  · exact .take_bind fun _ => hliteral _
  · exact .take_bind fun _ => hliteral _
  · exact .take_bind fun _ => hliteral _
  · exact .fail
  · exact .name_bind fun x y hxy _ => reflow_afterName he ctx hxy
  · exact .fail
  · exact .take_bind fun _ => hliteral _
  · exact .take_bind fun _ => hliteral _
  · exact reflow_function he
  · refine .get_bind fun hcd => ?_
    rw [← hcd.head?_ahead]
    split
    · exact .take_bind fun _ => reflow_afterName he ctx (congrArg (Located.mk "type") hl.place)
    · exact reflow_typeDecl
  · exact reflow_abstractDecl
  · exact reflow_cases he
  · exact .fail
  · refine .take_bind fun _ => (he _ _ _ _).bind_open (fun a b _ _ hab => ?_)
      fun a _ hopen => Yields.skip fun _ _ => Yields.pure hopen
    exact (Agrees.expect _).bind fun _ _ _ _ _ => .pure hab
  · exact reflow_list he
  · exact reflow_block (he _ _) hproper
  · refine .take_bind fun _ => (he _ _ _ _).map (fun a b hab => ?_) fun a hopen => hchild rfl hopen
    simp only [Placing.UpTo, Node.moved, hab.eq, (hl.place.cover hab.span).eq]
  · refine .take_bind fun _ => (he _ _ _ _).map (fun a b hab => ?_) fun a hopen => hchild rfl hopen
    simp only [Placing.UpTo, Node.moved, hab.eq, (hl.place.cover hab.span).eq]
  · refine .take_bind fun _ => (he _ _ _ _).map (fun a b hab => ?_) fun a hopen => hchild rfl hopen
    simp only [Placing.UpTo, Node.moved, hab.eq, (hl.place.cover hab.span).eq]
  · exact (reflow_captureWith fun _ _ => reflow_pattern).closed
  · exact .fail
  · exact .fail

omit he in
/-- Adding an operator or a member loses nothing. -/
theorem extend_keeps (ctx : Context) (least : Nat) {left : Node} (hleft : ρ.Opens left.openings) :
    Yields c (extend expr n ctx least left) fun (o : Option Node) _ => ∀ a ∈ o, ρ.Opens a.openings := by
  have hnone {c : Cursor} : Yields c (pure none) fun (o : Option Node) _ => ∀ a ∈ o, ρ.Opens a.openings := Yields.pure nofun
  have hsome {c : Cursor} {node : Node} (h : left ∈ node.children) :
      Yields c (pure (some node)) fun (o : Option Node) _ => ∀ a ∈ o, ρ.Opens a.openings :=
    Yields.pure fun a ha => Option.some.inj ha ▸ hleft.child h
  have hjoin {c : Cursor} {connective : Connective} :
      Yields c (do return some (join left connective (← expr ctx connective.powers.2)))
        fun (o : Option Node) _ => ∀ a ∈ o, ρ.Opens a.openings :=
    Yields.skip fun right _ => hsome (by cases connective <;> exact List.mem_cons_self)
  refine Yields.look ?_
  split
  · exact hnone
  · split
    · refine Yields.skip fun _ _ => Yields.skip fun member _ => Yields.skip fun paren _ => ?_
      split
      · exact Yields.skip fun args _ => hsome List.mem_cons_self
      · exact hsome List.mem_cons_self
    · exact Yields.skip fun _ _ => Yields.skip fun index _ => Yields.skip fun close _ => hsome List.mem_cons_self
    · split
      · exact hnone
      · next connective _ =>
        split
        · exact hnone
        · refine Yields.skip fun _ _ => ?_
          cases connective with
          | assign =>
            dsimp only
            rw [if_pos rfl]
            split
            · exact Yields.skip fun _ _ => hjoin
            · exact hjoin
          | _ => exact hjoin
    · exact hnone

omit he in
theorem climb_keeps (ctx : Context) (least : Nat) {k : Nat} {left : Node} (hleft : ρ.Opens left.openings) :
    Yields c (climb expr n ctx least k left) fun node _ => ρ.Opens node.openings := by
  induction k generalizing c left with
  | zero => exact Yields.look (Yields.fail _ _)
  | succ k ih =>
    refine (extend_keeps ctx least hleft).bind fun o c₁ ho => ?_
    cases o with
    | none => exact Yields.pure hleft
    | some longer => exact ih (ho longer rfl)

/-- One more operator or member. A symbol that continues a line is an operator wherever it stands. -/
theorem reflow_extend (ctx : Context) (least : Nat) {left left' : Node} (hleft : ρ.UpTo Node.moved left left') :
    ρ.Agrees c d (extend expr n ctx least left) (extend expr' n ctx least left') (Option.Rel (ρ.UpTo Node.moved))
      (Agrees.Given fun node => ρ.Opens node.openings) := by
  refine .here_bind fun hl => ?_
  have hends : (c.here.afterBreak && !c.here.token.continuesLine) =
      (d.here.afterBreak && !d.here.token.continuesLine) := by
    rw [← hl.token]
    cases hc : c.here.token.continuesLine with
    | true => rw [Bool.not_true, Bool.and_false, Bool.and_false]
    | false => rw [(hl.fixed hc).1]
  rw [← hends, ← hl.token]
  split
  · exact .pure .none
  · split
    · refine .take_bind fun _ => .name_bind fun x y hxy _ => .isAt_bind ?_
      split
      · refine (reflow_arguments he).bind_open (fun a b _ _ hab => .pure (.some ?_)) fun a _ hopen => Yields.pure ?_
        · simp only [Placing.UpTo, Node.moved, hxy.eq, hleft.eq, hab.1.eq, (hleft.span.cover hab.2).eq]
        · obtain ⟨arg, harg, hopen⟩ := hopen
          exact ⟨_, rfl, hopen.child (List.mem_cons_of_mem _ harg)⟩
      · refine .pure (.some ?_)
        simp only [Placing.UpTo, Node.moved, hxy.eq, hleft.eq, (hleft.span.cover hxy.place).eq]
    · refine .take_bind fun _ => (he _ _ _ _).bind_open (fun a b _ _ hab => ?_)
        fun a _ hopen => Yields.skip fun _ _ => Yields.pure
          ⟨_, rfl, hopen.child (List.mem_cons_of_mem _ List.mem_cons_self)⟩
      refine (Agrees.expect _).bind fun _ _ _ _ hclose => .pure (.some ?_)
      simp only [Placing.UpTo, Node.moved, Node.movedAll, Located.moved, hl.place.eq, hleft.eq, hab.eq,
        (hleft.span.cover hclose).eq]
    · split
      · exact .pure .none
      · next connective _ =>
        split
        · exact .pure .none
        · refine .take_bind fun _ => ?_
          have hright {c d : Cursor} : ρ.Agrees c d
              (do return some (join left connective (← expr ctx connective.powers.2)))
              (do return some (join left' connective (← expr' ctx connective.powers.2)))
              (Option.Rel (ρ.UpTo Node.moved)) (Agrees.Given fun node => ρ.Opens node.openings) := by
            refine (he _ _ c d).map (fun a b hab => .some (join_upTo connective hleft hab))
              fun a hopen => ⟨_, rfl, hopen.child ?_⟩
            cases connective <;> exact List.mem_cons_of_mem _ List.mem_cons_self
          have htarget : left'.isTarget = left.isTarget := by
            rw [← left.isTarget_moved ρ.left, ← left'.isTarget_moved ρ.right, hleft.eq]
          cases connective with
          | assign =>
            dsimp only
            rw [htarget, if_pos rfl, if_pos rfl]
            split
            · exact .refused ⟨_, rfl⟩
            · exact hright
          | _ => exact hright
    · exact .pure .none

theorem reflow_climb (ctx : Context) (least : Nat) {k : Nat} {left left' : Node} (hleft : ρ.UpTo Node.moved left left') :
    ρ.Agrees c d (climb expr n ctx least k left) (climb expr' n ctx least k left') (ρ.UpTo Node.moved)
      fun node => ρ.Opens node.openings := by
  induction k generalizing c d left left' with
  | zero => exact .refused ⟨_, rfl⟩
  | succ k ih =>
    refine (reflow_extend he ctx least hleft).bind_open (fun o o' c₁ d₁ ho => ?_) fun o c₁ hopen => ?_
    · cases ho with
      | none => exact .pure hleft
      | some hab => exact ih hab
    · obtain ⟨a, ha, hopen⟩ := hopen
      obtain rfl : o = some a := ha
      exact climb_keeps ctx least hopen

end Expressions

theorem reflow_expression (ctx : Context) (least : Nat) :
    ρ.Agrees c d (expression n ctx least) (expression n ctx least) (ρ.UpTo Node.moved)
      fun node => ρ.Opens node.openings := by
  induction n generalizing c d ctx least with
  | zero => exact .refused ⟨_, rfl⟩
  | succ n ih =>
    have he (ctx : Context) (least : Nat) (c d : Cursor) := @ih c d ctx least
    refine (reflow_primary he (proper_expression n) ctx).bind_open (fun a b c₁ d₁ hab => ?_) fun left c₁ hopen => ?_
    · exact reflow_climb he ctx least hab
    · exact climb_keeps ctx least hopen

theorem reflow_program : ρ.Agrees c d (program n) (program n) (List.Forall₂ (ρ.UpTo Node.moved))
    (Agrees.Some fun node => ρ.Opens node.openings) := by
  refine .collect (fun first c d => .skipWhile_bind fun c₁ d₁ => .atEnd_bind ?_) true
  split
  · exact .pure .none
  · exact reflow_statement fun c d => reflow_expression .nested 0

end Grammar

/-! ## A line break before one word -/

namespace Reflow

variable {ρ : Reflow}

/-- Lexemes after one that may be broken off are alike. -/
theorem Texts.of_like (hlike : ∀ {l l' : Lexeme}, l.Like l' → ρ.Eased l l') {l l' : Lexeme} (hl : ρ.Eased l l')
    {ls ls' : List Lexeme} (h : List.Forall₂ Lexeme.Like ls ls') : ρ.Texts (l :: ls) (l' :: ls') := by
  induction h generalizing l l' with
  | nil => exact .last hl
  | cons hm _ ih =>
    refine .word hl (fun s _ hb hb' => ?_) (ih (hlike hm))
    rw [← hm.afterBreak, hb] at hb'
    cases hb'

/-- Lexemes of which one is broken off. -/
theorem Texts.of_break (hlike : ∀ {l l' : Lexeme}, l.Like l' → ρ.Eased l l') {l l' : Lexeme} (hl : ρ.Eased l l')
    {before after after' : List Lexeme} (h : List.Forall₂ Lexeme.Like after after')
    (hbroken : ∀ w ∈ before.getLast?, ∀ s, isSymbol s l.token = true → l.afterBreak = false →
      ρ.Broken ⟨s, w.span.start⟩) : ρ.Texts (before ++ l :: after) (before ++ l' :: after') := by
  induction before with
  | nil => exact .of_like hlike hl h
  | cons w before ih =>
    have hw : ρ.Eased w w := hlike ⟨rfl, rfl, rfl⟩
    cases before with
    | nil => exact .word hw (fun s hs hb _ => hbroken w rfl s hs hb) (.of_like hlike hl h)
    | cons x before =>
      refine .word hw (fun s _ hb hb' => ?_) (ih fun w hw => hbroken w (by rwa [List.getLast?_cons_cons]))
      rw [hb] at hb'
      cases hb'

theorem Beside.start {ls ls' : List Lexeme} (h : ρ.Texts ls ls') (hplace : ρ.Same .nowhere .nowhere) :
    ρ.Beside (.start ls) (.start ls') := by
  cases h with
  | last like => exact ⟨.last like, hplace⟩
  | word like next rest => exact ⟨.word like next rest, hplace⟩

theorem Texts.length_eq {ls ls' : List Lexeme} (h : ρ.Texts ls ls') : ls.length = ls'.length := by
  induction h with
  | last like => rfl
  | word like next rest ih => exact congrArg (· + 1) ih

end Reflow

namespace Program

/-- Whether a lexeme after a word is the bracket of the arguments of a type or of the fields of an alternative: it is on
the line of the word, and in the program the word is the head of a type with arguments or the name of an alternative. -/
def Opens (program : Program) (word l : Lexeme) : Prop :=
  l.afterBreak = false ∧ ∃ s, l.token = .symbol s ∧ ⟨s, word.span.start⟩ ∈ program.openings

/-- A line break before a word that continues a line changes nothing of what is read but places, if the word is not the
bracket of the arguments of a type or of the fields of an alternative. -/
theorem parse_break {u v : String} {program : Program} (h : Program.parse (u ++ v) = .ok program)
    {before after : List Lexeme} {l : Lexeme} (hscan : Token.scan (u ++ v) = before ++ l :: after)
    (hstart : l.span.start = u.utf8ByteSize) (hl : l.token.continuesLine = true)
    (hopens : ∀ word ∈ before.getLast?, ¬program.Opens word l) :
    ∃ r, Program.parse (u ++ "\n" ++ v) = .ok r ∧ r.erase = program.erase := by
  obtain ⟨c, hrun⟩ := Program.exists_of_parse h
  obtain ⟨l', after', hscan', htoken, hbreak, hafter⟩ :=
    Token.scan_break hscan hstart (by rintro heof; rw [heof] at hl; cases hl)
  let ρ : Reflow := ⟨.nowhere, fun o => ∃ word ∈ before.getLast?,
    l.afterBreak = false ∧ l.token = .symbol o.bracket ∧ o.head = word.span.start⟩
  have hlike {l l' : Lexeme} (h : l.Like l') : ρ.Eased l l' :=
    ⟨h.token, rfl, fun hb => h.afterBreak ▸ hb, fun _ => ⟨h.afterBreak, h.touches⟩⟩
  have heased : ρ.Eased l l' := ⟨htoken, rfl, hbreak, fun hc => by rw [hl] at hc; cases hc⟩
  have htexts : ρ.Texts (Token.scan (u ++ v)) (Token.scan (u ++ "\n" ++ v)) := by
    rw [hscan, hscan']
    refine .of_break hlike heased hafter fun word hword s hs hb => ⟨word, hword, hb, ?_, rfl⟩
    cases ht : l.token with
    | symbol t => rw [ht] at hs; exact congrArg _ (of_decide_eq_true hs)
    | _ => rw [ht] at hs; cases hs
  rcases Grammar.reflow_program (Reflow.Beside.start htexts rfl) program c hrun with ⟨r, d, hr, -, hlike⟩ | hopen
  · refine ⟨r, Program.parse_of_run (c := d) (htexts.length_eq ▸ hr), ?_⟩
    rw [← Program.moved_nowhere, ← Program.moved_nowhere, Program.moved, Program.moved, Node.movedAll_eq_map,
      Node.movedAll_eq_map]
    exact (Placing.UpTo.map hlike).symm
  · obtain ⟨statement, hs, o, ho, word, hword, hb, hbracket, hhead⟩ := hopen
    obtain ⟨bracket, head⟩ := o
    exact absurd ⟨hb, bracket, hbracket, hhead ▸ Program.mem_openings hs ho⟩ (hopens word hword)

/-- A call whose arguments are moved to the next line is the same call. The program has a type with arguments and two
alternatives, but the name of the function is none of these. -/
theorem parse_arguments_below : ∃ ps r, Program.parse ("type T = A(x: List[Int]) | B; f" ++ "(1)") = .ok ps ∧
    ps.openings = [⟨.openParen, 9⟩, ⟨.openBracket, 14⟩, ⟨.openParen, 27⟩] ∧
    Program.parse ("type T = A(x: List[Int]) | B; f" ++ "\n" ++ "(1)") = .ok r ∧
    Program.erase r = Program.erase ps := by
  have hp : (Program.parse ("type T = A(x: List[Int]) | B; f" ++ "(1)")).toOption.any (fun ps =>
      ps.openings = [⟨.openParen, 9⟩, ⟨.openBracket, 14⟩, ⟨.openParen, 27⟩]) = true := by decide +kernel
  obtain ⟨ps, hp, hopenings⟩ := exists_of_any_toOption hp
  have hopenings := of_decide_eq_true hopenings
  -- the parenthesis is the lexeme after sixteen others, and the last of these is the name of the function
  have hword : ((Token.scan ("type T = A(x: List[Int]) | B; f" ++ "(1)")).take 16).getLast?.all
      (·.span.start = 30) = true := by decide +kernel
  have hhere : ((Token.scan ("type T = A(x: List[Int]) | B; f" ++ "(1)")).drop 16).head?.any
      (fun l => l.span.start = "type T = A(x: List[Int]) | B; f".utf8ByteSize && l.token.continuesLine) = true := by
    decide +kernel
  generalize hls : Token.scan ("type T = A(x: List[Int]) | B; f" ++ "(1)") = ls at hword hhere
  cases hdrop : ls.drop 16 with
  | nil => rw [hdrop] at hhere; cases hhere
  | cons l after =>
    rw [hdrop, List.head?_cons, Option.any_some, Bool.and_eq_true] at hhere
    have hscan : Token.scan ("type T = A(x: List[Int]) | B; f" ++ "(1)") = ls.take 16 ++ l :: after := by
      rw [hls, ← hdrop, List.take_append_drop]
    obtain ⟨r, hr, herase⟩ := parse_break hp hscan (of_decide_eq_true hhere.1) hhere.2 fun word hw hopens => by
      rw [Option.mem_def.1 hw] at hword
      have hstart : word.span.start = 30 := of_decide_eq_true hword
      obtain ⟨-, s, -, hmem⟩ := hopens
      rw [hopenings, hstart] at hmem
      simp at hmem
    exact ⟨ps, r, hp, hopenings, hr, herase⟩

/-- The brackets that are left out make a difference: the fields of an alternative are not taken from the next line. -/
example : (Program.parse "type T = A(x: Int)").isOk = true ∧ (Program.parse "type T = A\n(x: Int)").isOk = false := by
  decide +kernel

end Program

end DispatchLang
