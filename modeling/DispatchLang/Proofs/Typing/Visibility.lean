import DispatchLang.Proofs.Typing.Knowing

/-!
# A checker that finds nothing wrong has seen every name bound

Where the checker looks a name up, it finds it or reports it. So if it reports nothing, every name that a program
reads is one that the checker knew there. What it knew is visible in the sense of `Node.wellScoped`, or loose: the
checker lists types and functions for the whole program, wherever they are declared, and it takes what the right
operand of `&&` or `||` binds for bound. So all names are visible where they are read, but loose ones: of these, only
those that are watched because they are visible for another reason.

## Main results

* `Walks.infer`: a node in which nothing is found wrong reads the names that are not loose only where they are visible.
* `Checker.firm_of_check`: so does a program that checks without findings.
-/

namespace DispatchLang

namespace Check

open Checker (Learnt Known)

/-! ## Patterns and constructions -/

namespace Quiet

theorem here : Quiet (MonadState.get : Check Checker) :=
  ⟨fun _ => rfl, fun _ => rfl, fun _ => rfl, fun _ => rfl, fun _ => id, fun _ => id⟩

theorem patternFields (name : String) : Quiet (Check.patternFields name) := by
  refine (read _).bind fun found => ?_
  split
  · exact pure _
  · refine (read _).bind fun known => ?_
    split
    · exact pure _
    · refine get fun c => ?_
      split <;> exact pure _

theorem patternFieldType (owner : String) (declared : FieldTypes) (field : Located String) :
    Quiet (Check.patternFieldType owner declared field) := by
  rw [Check.patternFieldType]
  split
  · exact get fun _ => pure _
  · exact reportAny _ _ (by rintro ⟨⟩)

theorem checkFieldValue (owner field : String) (expected actual : TypeId) (span : Span) :
    Quiet (Check.checkFieldValue owner field expected actual span) := by
  refine get fun c => ?_
  dsimp only
  split
  · exact report _ _ nofun
  · exact pure _

theorem reportMissing (owner : String) (given : List String) (span : Span) (declared : FieldTypes) :
    Quiet (Check.reportMissing owner given span declared) := by
  induction declared with
  | nil => exact pure _
  | cons field declared ih =>
    rw [Check.reportMissing]
    split
    · exact (report (.missingField ..) _ nofun).bind fun _ => ih
    · exact ih

theorem constructed (name : Located String) : Quiet (Check.constructed name) := by
  refine (read _).bind fun found => ?_
  cases found with
  | some id =>
    refine get fun c => ?_
    dsimp only
    split
    · exact pure _
    · exact (report (.typeWithoutFields _) _ nofun).bind fun _ => pure _
  | none =>
    refine (read _).bind fun found => ?_
    cases found with
    | some variant => exact pure _
    | none => exact (report (.undefinedType _) _ nofun).bind fun _ => pure _

end Quiet

namespace Walks

variable {watched : String → Bool} {loose listed visible : List String} {c : Checker}

mutual

theorem bindPattern {c : Checker} (type : TypeId) (pattern : Node) :
    Walks loose pattern.captures listed c (Check.bindPattern type pattern) True := by
  have answer {c' : Checker} {id : TypeId} : Walks loose [] listed c' (do
      Check.record pattern.span id
      return id) True := .quiet ((Quiet.record _ id).bind fun _ => .pure _) trivial
  have bound (name : Option String) {c' : Checker} {id : TypeId} : Walks loose name.toList listed c' (do
      if let some name := name then Check.define name id
      Check.record pattern.span id
      return id) True := by
    cases name with
    | none => exact answer
    | some name => exact (define name id).seq fun _ => answer
  unfold Check.bindPattern
  cases pattern with
  | capture span name => exact bound name
  | refine span name inner => exact (bindPattern type inner).seq fun _ => bound name
  | construct span name fields =>
    refine after (Quiet.patternFields name.val) fun _ => ?_
    split
    · exact (bindFields name.val _ fields).last fun _ => answer
    · exact after (Quiet.report _ _ nofun) fun _ => (bindFields name.val none fields).last fun _ => answer
  | ident span name =>
    refine after (Quiet.read _) fun _ => ?_
    split
    · exact answer
    · exact after (Quiet.report _ _ nofun) fun _ => answer
  | literal span value => exact answer
  | _ => exact after (Quiet.report _ _ nofun) fun _ => answer

theorem bindFields {c : Checker} (owner : String) (declared : Option FieldTypes)
    (fields : List (Located String × Node)) :
    Walks loose (Node.capturesOf fields) listed c (Check.bindFields owner declared fields) True := by
  unfold Check.bindFields
  cases fields with
  | nil => exact pure trivial
  | cons field fields =>
    have rest {type : TypeId} {c' : Checker} : Walks loose (Node.capturesOf (field :: fields)) listed c' (do
        let _ ← Check.bindPattern type field.2
        Check.bindFields owner declared fields) True :=
      (bindPattern type field.2).seq fun _ => bindFields owner declared fields
    cases declared with
    | none => exact rest
    | some declared => exact after (Quiet.patternFieldType owner declared field.1) fun _ => rest

end

theorem assignTo (target : Node) (type : TypeId) :
    Walks loose target.targets listed c (Check.assignTo target type) True := by
  cases target with
  | ident span name => exact (assign name type).andThen (.record _ _)
  | construct _ _ _ | capture _ _ | refine _ _ _ => exact (bindPattern type _).andThen (.pure _)
  | _ => exact report _ _

/-! ## Declarations -/

theorem defineParams (params : List Param) :
    Walks loose (params.map (·.name.val)) listed c (Check.defineParams params) True := by
  induction params generalizing c with
  | nil => exact pure trivial
  | cons p params ih =>
    refine after (Quiet.resolveOption p.annotation) fun _ => ?_
    exact (define p.name.val _).seq fun _ => ih.andThen (.pure _)

theorem defineAll (entries : List (String × TypeId)) :
    Walks loose (entries.map Prod.fst) listed c (entries.forM fun (name, type) => Check.define name type) True := by
  induction entries generalizing c with
  | nil => exact pure trivial
  | cons entry entries ih => exact (define entry.1 entry.2).seq fun _ => ih

theorem declareVariant {name : String} (hname : name ∈ listed) (vars : List TypeId) (type : TypeId)
    (fields : FieldTypes) : Walks loose [name] listed c (Check.declareVariant vars type name fields) True := by
  have hvariant : Quiet (Check.defineVariant name ⟨type, fields⟩) :=
    ⟨fun _ => rfl, fun _ => rfl, fun _ => rfl, fun _ => rfl, fun _ => id, fun _ => id⟩
  rw [Check.declareVariant]
  split
  · exact (define name type).andThen hvariant
  · refine after (.modifyTypes _) fun _ => ?_
    exact ((addMethod hname _).andThen hvariant).weaken (List.nil_subset _)

theorem declareVariants {alternatives : List VariantDecl} (h : alternatives.map (·.name.val) ⊆ listed)
    (vars : List TypeId) (type : TypeId) :
    Walks loose (alternatives.map (·.name.val)) listed c (Check.declareVariants vars type alternatives) True := by
  induction alternatives generalizing c with
  | nil => exact pure trivial
  | cons v alternatives ih =>
    obtain ⟨hv, h⟩ := List.cons_subset.mp h
    refine after (Quiet.resolveFields v.fields) fun _ => ?_
    exact (declareVariant hv vars type _).seq fun _ => (ih h).andThen (.pure _)

/-- A type declaration binds its names and lists no others. -/
theorem declareType {decl : TypeDecl} (h : decl.bound ⊆ listed) :
    Walks loose decl.bound listed c (Check.declareType decl) True := by
  rw [TypeDecl.bound, List.append_subset] at h
  obtain ⟨halternatives, hname⟩ := h
  have hname : decl.name.val ∈ listed := hname (List.mem_singleton_self _)
  have redefine (d : TypeDef) (id : TypeId) : Quiet (modify fun c => { c with arena := c.arena.redefine id d }) :=
    ⟨fun _ => rfl, fun _ => rfl, fun _ => rfl, fun _ => rfl, fun _ h => h, fun _ h => h⟩
  rw [Check.declareType]
  refine Walks.weaken ?_ (List.subset_append_left _ _)
  refine (withTypeVars (S := True) ?_).last fun _ => defineType hname _
  refine (enterTypeParams _).seq fun _ => after (.resolveOption _) fun _ => ?_
  cases hbody : decl.body with
  | abstract | concrete => exact quiet (.modifyTypes _) trivial
  | struct fields =>
    refine after (.modifyTypes _) fun _ => (defineType hname _).last fun _ => ?_
    exact after (.resolveFields _) fun _ => after (redefine _ _) fun _ => pure trivial
  | variants alternatives =>
    rw [hbody] at halternatives
    refine after (.modifyTypes _) fun _ => (defineType hname _).seq fun _ => ?_
    refine (declareVariants halternatives _ _).last fun _ => ?_
    exact after (redefine _ _) fun _ => pure trivial

/-! ## Names -/

theorem nameType (name : String) (span : Span) :
    Walks loose [] listed c (Check.nameType name span) (BoundIn c.scopes name ∨ c.Lists name) := by
  rw [Check.nameType]
  refine after (Quiet.read _) fun _ => ?_
  split
  · next hfound => exact pure (.inl (boundIn_of_findSome? hfound))
  · refine after (Quiet.read _) fun _ => ?_
    split
    · next htype => exact pure (.inr (.inl htype))
    · refine after (Quiet.read _) fun _ => ?_
      split
      · next hfunction =>
        have hknown := Option.isSome_of_eq_some hfunction
        split <;> exact pure (.inr (.inr hknown))
      · exact wrong _ _

theorem namedCallType (name : String) (args : List (TypeId × Span)) (span : Span) :
    Walks loose [] listed c (Check.namedCallType name args span) (c.Lists name) := by
  rw [Check.namedCallType]
  refine after (Quiet.read _) fun _ => ?_
  split
  · next f hfunction => exact quiet (Quiet.callType _ _ _) (.inr (Option.isSome_of_eq_some hfunction))
  · refine after (Quiet.read _) fun _ => ?_
    split <;> exact wrong _ _

/-! ## Nodes -/

theorem inferFunction (span : Span) (head : FunctionHead) (body : Node) {S : Prop} (hname : head.name.val ∈ listed)
    (hlisted : ∀ name ∈ listed, name = head.name.val ∨ name ∈ loose) (hloose : loose ⊆ listed)
    (hk : c.Known loose visible)
    (hbody : ∀ c : Checker, c.Known loose (visible ++ head.name.val :: head.params.map (·.name.val)) →
      ∃ new, Walks loose new loose c (Check.infer true body) S) :
    Walks loose [] listed c (Check.infer false (.function span head body)) S := by
  unfold Check.infer
  dsimp only
  refine (withTypeVars (S := S) ?_).bindLast (T := True) (fun _ => ?_) |>.imp And.left
  · refine (enterTypeParams _).seq fun h₁ => after (.resolveParams _) fun h₂ => after (.modifyTypes _) fun h₃ => ?_
    refine (addMethod hname _).last fun h₄ => ?_
    have hdeclared := ((h₁.trans h₂).trans h₃).trans h₄
    generalize (Check.addMethod _ _ _).2 = c' at hdeclared ⊢
    have hk' : c'.Known loose (visible ++ [head.name.val]) :=
      hk.learnt (hdeclared.mono nofun fun _ => id) fun name hn => (hlisted name hn).imp_left List.mem_singleton.mpr
    have hparams (l : List String) (types : List TypeId) : Walks loose (head.params.map (·.name.val)) l
        { c' with scopes := [] :: c'.scopes }
        (((head.params.map (·.name.val)).zip types).forM fun (name, type) => Check.define name type) True := by
      refine (defineAll _).weaken fun name hn => ?_
      obtain ⟨entry, he, rfl⟩ := List.mem_map.mp hn
      exact (List.of_mem_zip he).1
    have hinner (types : List TypeId) := hk'.inner.learnt (hparams loose types).1 fun _ => .inr
    rw [← List.append_cons] at hinner
    obtain ⟨new, hbody⟩ := hbody _ (hinner _)
    have hbody := hbody.mono (fun _ => .inl) hloose id
    refine (inScope (S := S) ⟨head.params.map (·.name.val) ++ new, ?_⟩).andThen (.pure _)
    exact (hparams listed _).seq fun _ => hbody
  · exact after (.modifyTypes _) fun _ => (addMethod hname _).andThen ((Quiet.record _ _).bind fun _ => .pure _)

mutual

/-- If nothing is found wrong in a node, all that it reads is visible, unless it is loose and not watched. -/
theorem infer {c : Checker} {visible : List String} {node : Node} (hn : node.loose ⊆ loose)
    (hs : node.wellScoped watched visible = true) (hk : c.Known loose visible) :
    Walks loose node.binds loose c (Check.infer false node)
        (node.wellScoped (Node.firm watched loose) visible = true) ∧
      ∃ new, Walks loose new loose c (Check.infer true node)
        (node.wellScoped (Node.firm watched loose) visible = true) := by
  have answer {c' : Checker} {id : TypeId} : Walks loose [] loose c' (do
      Check.record node.span id
      return id) True := .quiet ((Quiet.record _ id).bind fun _ => .pure _) trivial
  have finish {x : Check TypeId} {c' : Checker} {new : List String} {S : Prop} (hx : Walks loose new loose c' x S) :
      Walks loose new loose c' (do
        let id ← x
        Check.record node.span id
        return id) S := hx.andThen ((Quiet.record _ _).bind fun _ => .pure _)
  have further {c' : Checker} {new : List String} (hl : Learnt loose new loose c c') :
      c'.Known loose (visible ++ new) := hk.learnt hl fun _ => .inr
  have noted {α : Type} {a : α} {id : TypeId} : Quiet (do
      Check.record node.span id
      return a) := (Quiet.record _ id).bind fun _ => .pure _
  have hvalue : Walks loose node.binds loose c (Check.infer false node)
      (node.wellScoped (Node.firm watched loose) visible = true) := by
    unfold Check.infer
    cases node with
    | literal span value => exact finish (pure rfl)
    | ident span name =>
      rw [Node.wellScoped] at hs ⊢
      exact finish ((nameType name span).imp fun h => Node.sees_of_known hs (hk name h))
    | binary span op left right =>
      dsimp only
      rw [Node.loose, List.append_subset, List.append_subset] at hn
      obtain ⟨⟨hleft, hright⟩, hlogical⟩ := hn
      rw [Node.wellScoped, Bool.and_eq_true] at hs ⊢
      refine ((infer hleft hs.1 hk).1.bind fun hl => (infer hright hs.2 (further hl)).1.andThen noted).mono
        (fun name hname => ?_) (fun _ => id) id
      rw [Node.binds]
      cases hop : op.isLogical with
      | false => exact .inl hname
      | true =>
        rw [hop] at hlogical
        rw [if_pos rfl, List.append_nil]
        exact (List.mem_append.mp hname).imp_right (hlogical ·)
    | unary span op operand =>
      rw [Node.loose] at hn
      rw [Node.wellScoped] at hs ⊢
      exact (infer hn hs hk).1.andThen noted
    | assign span target value =>
      rw [Node.loose] at hn
      rw [Node.wellScoped] at hs ⊢
      exact ((infer hn hs hk).1.bind fun _ => (assignTo target _).andThen noted).imp And.left
    | field span object field =>
      rw [Node.loose] at hn
      rw [Node.wellScoped] at hs ⊢
      exact (infer hn hs hk).1.andThen ((Quiet.fieldType _ _).bind fun _ => noted)
    | call span function args =>
      dsimp only
      rw [Node.loose] at hn
      rw [Node.wellScoped, Bool.and_eq_true] at hs ⊢
      refine after (Quiet.read _) fun _ => ?_
      have hargs := inferPlaced hn hs.2 hk
      -- The name is looked up before the arguments; a function of the name may be listed by them.
      split
      · next hcallee =>
        have hseen := Node.sees_of_known hs.1 (hk _ (.inl (boundIn_of_findSome? hcallee)))
        exact (hargs.andThen (Quiet.get fun _ => noted)).imp fun hargs => ⟨hseen, hargs⟩
      · refine (hargs.bindLast fun hl => (finish (namedCallType _ _ _)).imp fun hlists => ?_).imp And.symm
        exact Node.sees_of_known hs.1 ((hl.lists _ hlists).elim (hk _ <| .inr ·) .inr)
    | send span receiver method args =>
      dsimp only
      rw [Node.loose, List.append_subset] at hn
      rw [Node.wellScoped, Bool.and_eq_true] at hs ⊢
      refine (infer hn.1 hs.1 hk).1.bind fun hl => after (Quiet.methodType _ method) fun hq => ?_
      exact (inferPlaced hn.2 hs.2 ((further hl).kept hq)).andThen ((Quiet.methodCall _ _ _ _).bind fun _ => noted)
    | block span params body =>
      dsimp only
      rw [Node.wellScoped] at hs ⊢
      refine (inScope ⟨_, (defineParams params).seq fun hl =>
        (inferLast hn hs (hk.inner.learnt hl fun _ => .inr)).andThen (.pure _)⟩).andThen ?_
      exact (Quiet.modifyTypes _).bind fun _ => noted
    | cases span scrutinee arms =>
      dsimp only
      rw [Node.loose, List.append_subset] at hn
      rw [Node.wellScoped, Bool.and_eq_true] at hs ⊢
      exact (infer hn.1 hs.1 hk).1.bindLast fun hl => (inferArms hn.2 hs.2 (further hl)).andThen (Quiet.get fun _ => noted)
    | construct span name fields =>
      dsimp only
      rw [Node.wellScoped] at hs ⊢
      refine after (Quiet.constructed name) fun hl => ?_
      split
      · exact (inferFields hn hs (hk.kept hl)).andThen ((Quiet.reportMissing _ _ _ _).bind fun _ => noted)
      · exact (inferEntries hn hs (hk.kept hl)).andThen noted
    | typeDecl span decl =>
      rw [Node.loose] at hn
      exact ((declareType hn).last fun _ => answer).imp fun _ => rfl
    | function span head body =>
      rw [Node.loose, List.cons_subset] at hn
      rw [Node.wellScoped] at hs ⊢
      have hfunction := inferFunction span head body hn.1 (fun _ => .inr) (List.Subset.refl _) hk
        fun c hk => (infer hn.2 hs hk).2
      unfold Check.infer at hfunction
      exact hfunction.weaken (List.nil_subset _)
    | capture span name | refine span name pattern => exact after (Quiet.report _ _ nofun) fun _ => finish (pure rfl)
    | quoted span body => cases hs
    | array span elements =>
      exact (inferPlaced hn hs hk).andThen ((Quiet.modifyTypes _).bind fun _ => (Quiet.record _ _).bind fun _ => .pure _)
    | object span entries =>
      exact (inferEntries hn hs hk).andThen ((Quiet.record _ _).bind fun _ => .pure _)
    | pair span key value =>
      dsimp only
      rw [Node.loose, List.append_subset] at hn
      rw [Node.wellScoped, Bool.and_eq_true] at hs ⊢
      exact (infer hn.1 hs.1 hk).1.bind fun hl => (infer hn.2 hs.2 (further hl)).1.andThen noted
  -- In place, a block without parameters is run in the scope itself.
  refine ⟨hvalue, ?_⟩
  unfold Check.infer at hvalue ⊢
  cases node with
  | block span params body =>
    cases params with
    | nil =>
      rw [Node.wellScoped, List.map_nil, List.append_nil] at hs
      rw [Node.wellScoped, List.map_nil, List.append_nil]
      exact ⟨_, finish (inferLast hn hs hk)⟩
    | cons param params => exact ⟨_, hvalue⟩
  | _ => exact ⟨_, hvalue⟩

theorem inferPlaced {c : Checker} {visible : List String} {nodes : List Node} (hn : Node.looseAll nodes ⊆ loose)
    (hs : Node.wellScopedAll watched visible nodes = true) (hk : c.Known loose visible) :
    Walks loose (Node.bindsAll nodes) loose c (Check.inferPlaced nodes)
      (Node.wellScopedAll (Node.firm watched loose) visible nodes = true) := by
  unfold Check.inferPlaced
  cases nodes with
  | nil => exact pure rfl
  | cons node nodes =>
    rw [Node.looseAll, List.append_subset] at hn
    rw [Node.wellScopedAll, Bool.and_eq_true] at hs
    rw [Node.wellScopedAll, Bool.and_eq_true]
    exact (infer hn.1 hs.1 hk).1.bind fun hl =>
      (inferPlaced hn.2 hs.2 (hk.learnt hl fun _ => .inr)).andThen (.pure _)

theorem inferLast {c : Checker} {visible : List String} {last : TypeId} {nodes : List Node}
    (hn : Node.looseAll nodes ⊆ loose) (hs : Node.wellScopedAll watched visible nodes = true)
    (hk : c.Known loose visible) :
    Walks loose (Node.bindsAll nodes) loose c (Check.inferLast last nodes)
      (Node.wellScopedAll (Node.firm watched loose) visible nodes = true) := by
  unfold Check.inferLast
  cases nodes with
  | nil => exact pure rfl
  | cons node nodes =>
    rw [Node.looseAll, List.append_subset] at hn
    rw [Node.wellScopedAll, Bool.and_eq_true] at hs
    rw [Node.wellScopedAll, Bool.and_eq_true]
    exact (infer hn.1 hs.1 hk).1.bind fun hl => inferLast hn.2 hs.2 (hk.learnt hl fun _ => .inr)

theorem inferArms {c : Checker} {visible : List String} {scrutinee : TypeId} {arms : List (Node × Node)}
    (hn : Node.looseArms arms ⊆ loose) (hs : Node.wellScopedArms watched visible arms = true)
    (hk : c.Known loose visible) :
    Walks loose [] loose c (Check.inferArms scrutinee arms)
      (Node.wellScopedArms (Node.firm watched loose) visible arms = true) := by
  unfold Check.inferArms
  cases arms with
  | nil => exact pure rfl
  | cons arm arms =>
    rw [Node.looseArms, List.append_subset] at hn
    rw [Node.wellScopedArms, Bool.and_eq_true] at hs ⊢
    obtain ⟨new, hbody⟩ := (infer hn.1 hs.1
      (hk.inner.learnt (bindPattern scrutinee arm.1).1 fun _ => .inr)).2
    exact (inScope ⟨_, (bindPattern scrutinee arm.1).seq fun _ => hbody⟩).bind fun hl =>
      (inferArms hn.2 hs.2 (hk.kept hl)).andThen (.pure _)

theorem inferFields {c : Checker} {visible : List String} {owner : String} {declared : FieldTypes}
    {given : List String} {fields : List (Located String × Node)} (hn : Node.looseFields fields ⊆ loose)
    (hs : Node.wellScopedFields watched visible fields = true) (hk : c.Known loose visible) :
    Walks loose (Node.bindsFields fields) loose c (Check.inferFields owner declared given fields)
      (Node.wellScopedFields (Node.firm watched loose) visible fields = true) := by
  unfold Check.inferFields
  cases fields with
  | nil => exact pure rfl
  | cons field fields =>
    rw [Node.looseFields, List.append_subset] at hn
    rw [Node.wellScopedFields, Bool.and_eq_true] at hs ⊢
    have value {c' : Checker} (hk : c'.Known loose visible) := (infer hn.1 hs.1 hk).1
    have others {c' : Checker} (hk : c'.Known loose (visible ++ field.2.binds)) :
        Walks loose _ loose c' (Check.inferFields owner declared (field.1.val :: given) fields) _ :=
      inferFields hn.2 hs.2 hk
    have checked {c' : Checker} {type : TypeId} (hk : c'.Known loose visible) : Walks loose _ loose c' (do
        let expected := withoutVars (← MonadState.get).arena type
        let actual ← Check.infer false field.2
        Check.checkFieldValue owner field.1.val expected actual field.2.span
        Check.inferFields owner declared (field.1.val :: given) fields) _ :=
      after Quiet.here fun h => (value (hk.kept h)).bind fun hl =>
        after (Quiet.checkFieldValue _ _ _ _ _) fun hq => others (((hk.kept h).learnt hl fun _ => .inr).kept hq)
    have unchecked {c' : Checker} (hk : c'.Known loose visible) : Walks loose _ loose c' (do
        Check.report (.literalWithoutField owner field.1.val) field.1.span
        let _ ← Check.infer false field.2
        Check.inferFields owner declared (field.1.val :: given) fields) _ :=
      after (Quiet.report _ _ nofun) fun h => (value (hk.kept h)).bind fun hl =>
        others ((hk.kept h).learnt hl fun _ => .inr)
    dsimp only
    split
    · refine after (Quiet.report _ _ nofun) fun h => ?_
      split
      · exact checked (hk.kept h)
      · exact unchecked (hk.kept h)
    · split
      · exact checked hk
      · exact unchecked hk

theorem inferEntries {c : Checker} {visible : List String} {entries : List (Located String × Node)}
    (hn : Node.looseFields entries ⊆ loose)
    (hs : Node.wellScopedFields watched visible entries = true) (hk : c.Known loose visible) :
    Walks loose (Node.bindsFields entries) loose c (Check.inferEntries entries)
      (Node.wellScopedFields (Node.firm watched loose) visible entries = true) := by
  unfold Check.inferEntries
  cases entries with
  | nil => exact pure rfl
  | cons entry entries =>
    rw [Node.looseFields, List.append_subset] at hn
    rw [Node.wellScopedFields, Bool.and_eq_true] at hs ⊢
    exact (infer hn.1 hs.1 hk).1.bind fun hl => inferEntries hn.2 hs.2 (hk.learnt hl fun _ => .inr)

end

/-! ## Programs -/

/-- If nothing is found wrong in a statement of a program, all that it reads is visible, unless it is loose and not
watched. The statement may list what it declares. -/
theorem inferStatement {node : Node} (hn : node.looseBelow ⊆ loose)
    (hs : node.wellScoped watched visible = true) (hk : c.Known loose visible) :
    Walks loose node.binds (node.binds ++ loose) c (Check.infer false node)
      (node.wellScoped (Node.firm watched loose) visible = true) := by
  have inner (h : node.loose ⊆ loose) := (infer h hs hk).1.mono (fun _ => .inl)
    (fun _ => List.mem_append_right node.binds) id
  cases node with
  | typeDecl span decl =>
    unfold Check.infer
    exact (declareType (List.subset_append_left _ _)).last fun _ => quiet ((Quiet.record _ _).bind fun _ => .pure _) rfl
  | function span head body =>
    rw [Node.looseBelow] at hn
    rw [Node.wellScoped] at hs
    rw [Node.wellScoped, Node.binds]
    exact (inferFunction span head body (List.mem_cons_self ..) (fun _ => List.mem_cons.mp)
      (List.subset_cons_self _ _) hk fun c hk => (infer hn hs hk).2).weaken (List.nil_subset _)
  | _ => exact inner hn

theorem inferStatements {nodes : List Node} (hn : nodes.flatMap Node.looseBelow ⊆ loose)
    (hs : Node.wellScopedAll watched visible nodes = true) (hk : c.Known loose visible)
    (hf : (Check.inferPlaced nodes c).2.findings = []) :
    c.findings = [] ∧ Node.wellScopedAll (Node.firm watched loose) visible nodes = true := by
  induction nodes generalizing c visible with
  | nil => exact ⟨hf, rfl⟩
  | cons node nodes ih =>
    rw [List.flatMap_cons, List.append_subset] at hn
    rw [Node.wellScopedAll, Bool.and_eq_true] at hs
    rw [Node.wellScopedAll, Bool.and_eq_true]
    obtain ⟨hl, hc⟩ := inferStatement hn.1 hs.1 hk
    obtain ⟨hf, hnodes⟩ := ih hn.2 hs.2 (hk.learnt hl fun _ => List.mem_append.mp) hf
    obtain ⟨hf, hnode⟩ := hc hf
    exact ⟨hf, hnode, hnodes⟩

end Walks

end Check

namespace Checker

/-- If nothing is found wrong in a program, every name that is not loose is visible where it is read. -/
theorem firm_of_check {c : Checker} {watched : String → Bool} {visible : List String} {program : Program}
    (hk : c.Known [] visible) (hs : Node.wellScopedAll watched visible program = true)
    (hok : (c.check program).1.ok = true) :
    Node.wellScopedAll (Node.firm watched program.loose) visible program = true := by
  have hk : c.Known program.loose visible := fun name h => (hk name h).imp_right (absurd · List.not_mem_nil)
  have hf : (Check.inferPlaced program c).2.findings = [] :=
    List.reverse_eq_nil_iff.mp (List.isEmpty_iff.mp hok)
  exact (Check.Walks.inferStatements (List.Subset.refl _) hs hk hf).2

end Checker

end DispatchLang
