import DispatchLang.Eval.Run
import DispatchLang.Proofs.Eval.SafeCalls

/-!
# Evaluation meets no name without a meaning

A node that is scoped, in a scope that sees the names which are visible to it, is evaluated safely, and the scope then
also sees what the node binds. The proof is by induction on the depth to which the evaluation may nest, with one lemma
for each form that takes more than a few steps.

## Main results

* `Safe.form`: a form is evaluated safely if its parts are.
* `Safe.eval`: scoped nodes are evaluated safely, however deeply they may nest.
-/

namespace DispatchLang

namespace Safe

variable {α : Type} {strategy : Strategy} {watched : String → Bool} {s : Session} {P : Claim α} {self : NodeEval}
  {scope : ScopeId} {visible : List String}

section

variable (hself : SelfSafe strategy watched self)
include hself

/-! ## Lists of nodes -/

theorem evalAll {nodes : List Node} (hclosed : Node.wellScopedAll watched visible nodes = true)
    (hs : s.Sees scope visible) :
    Safe strategy watched s (Eval.evalAll self nodes scope) fun t values =>
      valuesClosed strategy watched t values ∧ t.Sees scope (visible ++ Node.bindsAll nodes) := by
  induction nodes generalizing s visible with
  | nil => exact pure ⟨List.forall_mem_nil _, by rwa [Node.bindsAll, List.append_nil]⟩
  | cons node nodes ih =>
    rw [Node.wellScopedAll, Bool.and_eq_true] at hclosed
    rw [Eval.evalAll, List.mapM_cons, Node.bindsAll, ← List.append_assoc]
    refine (hself node scope visible s hclosed.1 hs).bind fun value t _ ⟨hv, ht⟩ => ?_
    exact (ih hclosed.2 ht).bind fun values u htu ⟨hvs, hu⟩ =>
      pure ⟨List.forall_mem_cons.mpr ⟨hv.later htu, hvs⟩, hu⟩

theorem evalEntries {fields : List (Located String × Node)}
    (hclosed : Node.wellScopedFields watched visible fields = true) (hs : s.Sees scope visible)
    {done : List (String × Value)} (hdone : entriesClosed strategy watched s done) :
    Safe strategy watched s (Eval.evalEntries self scope done fields) fun t entries =>
      entriesClosed strategy watched t entries ∧ t.Sees scope (visible ++ Node.bindsFields fields) := by
  induction fields generalizing s visible done with
  | nil => exact pure ⟨hdone, by rwa [Node.bindsFields, List.append_nil]⟩
  | cons field fields ih =>
    rw [Node.wellScopedFields, Bool.and_eq_true] at hclosed
    rw [Node.bindsFields, ← List.append_assoc]
    exact (hself field.2 scope visible s hclosed.1 hs).bind fun value t hst h =>
      ih hclosed.2 h.2 (ScopeTree.forall_mem_insert h.1 (entriesClosed.later hdone hst))

theorem givenFields (declared : FieldTypes) (owner : String) {fields : List (Located String × Node)}
    (hclosed : Node.wellScopedFields watched visible fields = true) (hs : s.Sees scope visible)
    {given : List (String × Value)} (hgiven : entriesClosed strategy watched s given) :
    Safe strategy watched s (Eval.givenFields self declared owner scope given fields) fun t entries =>
      entriesClosed strategy watched t entries ∧ t.Sees scope (visible ++ Node.bindsFields fields) := by
  induction fields generalizing s visible given with
  | nil => exact pure ⟨hgiven, by rwa [Node.bindsFields, List.append_nil]⟩
  | cons field fields ih =>
    rw [Node.wellScopedFields, Bool.and_eq_true] at hclosed
    rw [Node.bindsFields, ← List.append_assoc, Eval.givenFields]
    split
    · exact failAt rfl
    · split
      · exact failAt rfl
      · exact (hself field.2 scope visible s hclosed.1 hs).bind fun value t hst h => ih hclosed.2 h.2
          (List.forall_mem_append.mpr ⟨entriesClosed.later hgiven hst, List.forall_mem_singleton.mpr h.1⟩)

theorem instance_of (type : TypeId) (typeName : String) (variant : Option String) (owner : String)
    (declared : FieldTypes) {fields : List (Located String × Node)}
    (hclosed : Node.wellScopedFields watched visible fields = true) (hs : s.Sees scope visible) :
    Safe strategy watched s (do
      let given ← Eval.givenFields self declared owner scope [] fields
      return Value.inst type typeName variant (← Eval.orderFields owner declared given)) fun t value =>
        value.Closed strategy watched t ∧ t.Sees scope (visible ++ Node.bindsFields fields) := by
  refine (givenFields hself declared owner hclosed hs (List.forall_mem_nil _)).bind fun given t _ ⟨hgiven, ht⟩ => ?_
  exact (orderFields owner declared hgiven).bind fun ordered u htu hordered =>
    pure ⟨Value.closed_inst.mpr hordered, ht.later htu⟩

theorem construct (name : Located String) {fields : List (Located String × Node)}
    (hclosed : Node.wellScopedFields watched visible fields = true) (hs : s.Sees scope visible) :
    Safe strategy watched s (Eval.construct strategy self name fields scope) fun t value =>
      value.Closed strategy watched t ∧ t.Sees scope (visible ++ Node.bindsFields fields) := by
  refine (lookup scope name.val).bind fun found t hst _ => ?_
  have ht := hs.later hst
  split
  · refine get ?_
    split
    · exact instance_of hself _ _ none _ _ hclosed ht
    · exact fail rfl
  · exact instance_of hself _ _ _ _ _ hclosed ht
  · exact failAt rfl

end

/-! ## Patterns -/

theorem matchValue (pattern : Node) {value : Value} (h : value.Closed strategy watched s) :
    Safe strategy watched s (Eval.matchValue pattern value) fun t found =>
      ∀ bindings, found = some bindings → Value.Binds (Value.Closed strategy watched t) pattern.captures bindings := by
  have hmeets := Value.matchPattern_meets Value.inherited_closed pattern h
  rw [Eval.matchValue]
  rcases hm : value.matchPattern pattern with e | found <;> rw [hm] at hmeets
  · have hsafe : e.fault.isUndefined watched = false := by
      rw [show e.fault = .pattern .invalid from hmeets]
      rfl
    exact fun _ => hsafe
  · refine pure fun bindings hfound => ?_
    rw [hfound] at hmeets
    exact hmeets

theorem assignTo (target : Node) {value : Value} (h : value.Closed strategy watched s) (hs : s.Sees scope visible) :
    Safe strategy watched s (Eval.assignTo target value scope) fun t _ => t.Sees scope target.targets := by
  cases target with
  | ident span name => exact assign hs.there name h
  | construct span name fields =>
    refine (matchValue _ h).bind fun found t hst hfound => ?_
    split
    · next bindings =>
      obtain ⟨hnames, hclosed⟩ := hfound bindings rfl
      rw [Node.targets, ← hnames]
      · exact forM (fun u e hscope he => assign hscope e.1 he) (hs.later hst).there hclosed
      · exact fun _ _ => Node.noConfusion
    · exact (repr value).bind fun _ _ _ _ => failAt rfl
  | _ => exact failAt rfl

theorem runArms (hself : SelfSafe strategy watched self) {value : Value} (h : value.Closed strategy watched s)
    {arms : List (Node × Node)} (hclosed : Node.wellScopedArms watched visible arms = true)
    (hs : s.Sees scope visible) :
    Safe strategy watched s (Eval.runArms self value scope arms) (Value.Closed strategy watched) := by
  induction arms generalizing s with
  | nil => exact (repr value).bind fun _ _ _ _ => fail rfl
  | cons arm arms ih =>
    obtain ⟨pattern, body⟩ := arm
    rw [Node.wellScopedArms, Bool.and_eq_true] at hclosed
    refine (matchValue pattern h).bind fun found t hst hfound => ?_
    split
    · exact ih (h.later hst) hclosed.2 (hs.later hst)
    · next bindings =>
      obtain ⟨hnames, hbound⟩ := hfound bindings rfl
      refine (newScope (hs.later hst)).bind fun inner u htu hinner => ?_
      refine (defineAll hinner.there (entriesClosed.later hbound htu)).bind fun _ w huw hseen => ?_
      rw [hnames] at hseen
      exact runBody hself hclosed.1 ((hinner.later huw).append hseen)

/-! ## Declarations -/

theorem lookupType (vars : TypeArena.Bindings) (scope : ScopeId) (name : String) :
    Safe strategy watched s (Dispatch.lookupType vars scope name) anything := by
  rw [Dispatch.lookupType]
  split
  · exact pure trivial
  · refine (lookup scope name).bind fun found _ _ _ => ?_
    split <;> exact pure trivial

mutual

theorem resolveType {s : Session} (vars : TypeArena.Bindings) (scope : ScopeId) (type : TypeExpr) :
    Safe strategy watched s (Dispatch.resolveType vars scope type) anything := by
  cases type with
  | named span name =>
    rw [Dispatch.resolveType]
    refine (lookupType vars scope name).bind fun found _ _ _ => ?_
    split
    · exact pure trivial
    · exact failAt rfl
  | applied span name args =>
    rw [Dispatch.resolveType]
    refine (lookupType vars scope name).bind fun found t _ _ => ?_
    split
    · exact (resolveTypes vars scope args).bind fun _ _ _ _ => modifyTypes _
    · exact failAt rfl

theorem resolveTypes {s : Session} (vars : TypeArena.Bindings) (scope : ScopeId) (types : List TypeExpr) :
    Safe strategy watched s (Dispatch.resolveTypes vars scope types) anything := by
  cases types with
  | nil => exact pure trivial
  | cons type types =>
    rw [Dispatch.resolveTypes]
    exact (resolveType vars scope type).bind fun _ _ _ _ =>
      (resolveTypes vars scope types).bind fun _ _ _ _ => pure trivial

end

theorem resolveOption (vars : TypeArena.Bindings) (scope : ScopeId) (type : Option TypeExpr) :
    Safe strategy watched s (Dispatch.resolveOption vars scope type) anything := by
  cases type with
  | none => exact pure trivial
  | some type => exact resolveType vars scope type

theorem typeParams (scope : ScopeId) (vars : TypeArena.Bindings) (params : List TypeParam) :
    Safe strategy watched s (Dispatch.typeParams scope vars params) anything := by
  induction params generalizing s vars with
  | nil => exact pure trivial
  | cons p params ih =>
    exact (resolveOption vars scope p.constraint).bind fun _ _ _ _ => (modifyTypes _).bind fun _ _ _ _ => ih _

theorem resolveFields (vars : TypeArena.Bindings) (scope : ScopeId) (fields : List FieldDecl) :
    Safe strategy watched s (Dispatch.resolveFields vars scope fields) anything := by
  induction fields generalizing s with
  | nil => exact pure trivial
  | cons f fields ih =>
    exact (resolveType vars scope f.type).bind fun _ _ _ _ => ih.bind fun _ _ _ _ => pure trivial

theorem resolveParams (vars : TypeArena.Bindings) (scope : ScopeId) (params : List Param) :
    Safe strategy watched s (Dispatch.resolveParams vars scope params) fun _ ids => ids.length = params.length := by
  induction params generalizing s with
  | nil => exact pure rfl
  | cons p params ih =>
    exact (resolveOption vars scope p.annotation).bind fun _ _ _ _ => ih.bind fun _ _ _ hids =>
      pure (congrArg Nat.succ hids)

/-- The name of an alternative is bound to an instance without fields, or to a constructor. -/
theorem closed_variant {value : Value} (h : (∃ type typeName variant, value = .inst type typeName variant []) ∨
    ∃ id c, value = .constructor id c) : value.Closed strategy watched s := by
  rcases h with ⟨_, _, _, rfl⟩ | ⟨_, _, rfl⟩
  · exact Value.closed_inst.mpr (List.forall_mem_nil _)
  · exact (Value.closed_iff rfl).mpr trivial

section

variable (hs : s.Sees scope visible)
include hs

theorem dispatchVariants (vars : TypeArena.Bindings) (type : TypeId) (typeName : String)
    (alternatives : List VariantDecl) :
    Safe strategy watched s (Dispatch.declareVariants vars scope type typeName alternatives) fun t _ =>
      t.Sees scope (alternatives.map (·.name.val)) := by
  induction alternatives generalizing s visible with
  | nil => exact pure hs.nil
  | cons v alternatives ih =>
    refine (resolveFields vars scope v.fields).bind fun fields t hst _ => ?_
    refine bind (P := fun u value => Value.Closed strategy watched u value) ?_ fun value u htu hvalue => ?_
    · rw [Dispatch.variantValue]
      split
      · exact pure (closed_variant (.inl ⟨_, _, _, rfl⟩))
      · exact newId.bind fun _ _ _ _ => pure (closed_variant (.inr ⟨_, _, rfl⟩))
    · refine (define (hs.later (hst.trans htu)).there v.name.val hvalue).bind fun _ w _ hseen => ?_
      exact (ih hseen).bind fun _ x hwx hrest => pure ((hseen.later hwx).append hrest)

theorem directVariants (typeName : String) (alternatives : List VariantDecl) :
    Safe strategy watched s (alternatives.forM fun v => do
      let value ← Direct.variantValue typeName v.name.val (Direct.fieldTypes v.fields)
      Eval.define scope v.name.val value) fun t _ => t.Sees scope (alternatives.map (·.name.val)) := by
  induction alternatives generalizing s visible with
  | nil => exact pure hs.nil
  | cons v alternatives ih =>
    refine bind (P := fun t _ => t.Sees scope [v.name.val]) ?_ fun _ t _ hseen =>
      (ih hseen).mono fun u _ htu hrest => (hseen.later htu).append hrest
    refine bind (P := fun u value => Value.Closed strategy watched u value) ?_ fun value u hsu hvalue =>
      define (hs.later hsu).there v.name.val hvalue
    rw [Direct.variantValue]
    split
    · exact pure (closed_variant (.inl ⟨_, _, _, rfl⟩))
    · exact newId.bind fun _ _ _ _ => pure (closed_variant (.inr ⟨_, _, rfl⟩))

theorem defineType {names : List String} (hseen : s.Sees scope names) (id : TypeId) (name : String) :
    Safe strategy watched s (do
      Eval.define scope name (Value.typeRef id name)
      return Value.typeRef id name) fun t value =>
        Value.Closed strategy watched t value ∧ t.Sees scope (visible ++ (names ++ [name])) := by
  have hvalue {t : Session} : Value.Closed strategy watched t (.typeRef id name) := (Value.closed_iff rfl).mpr trivial
  exact (define hs.there name hvalue).bind fun _ t hst hname =>
    pure ⟨hvalue, (hs.later hst).append ((hseen.later hst).append hname)⟩

/-- A type declaration binds its names. -/
theorem dispatchType (decl : TypeDecl) :
    Safe strategy watched s (Dispatch.declareType decl scope) fun t value =>
      value.Closed strategy watched t ∧ t.Sees scope (visible ++ decl.bound) := by
  refine (typeParams scope [] decl.typeParams).bind fun vars t hst _ => ?_
  refine (resolveOption vars scope decl.parent).bind fun parent u htu _ => ?_
  have hs := (hs.later hst).later htu
  have typeRef {t : Session} (id : TypeId) : Value.Closed strategy watched t (.typeRef id decl.name.val) :=
    (Value.closed_iff rfl).mpr trivial
  have redefine {t : Session} (id : TypeId) (d : TypeDef) :
      Safe strategy watched t (modify fun s => { s with arena := s.arena.redefine id d }) anything :=
    inert rfl rfl rfl rfl trivial
  rw [TypeDecl.bound]
  dsimp only
  cases decl.body with
  | abstract | concrete =>
    exact (modifyTypes _).bind fun id v huv _ => defineType (hs.later huv) (hs.later huv).nil id _
  | struct fields =>
    refine (modifyTypes _).bind fun id v huv _ => (define (hs.later huv).there _ (typeRef id)).bind fun _ w hvw _ => ?_
    refine (resolveFields vars scope fields).bind fun fs x hwx _ => (redefine id _).bind fun _ y hxy _ => ?_
    have hs := (hs.later huv).later ((hvw.trans hwx).trans hxy)
    exact (pure trivial).bind (P := anything) fun id z hyz _ => defineType (hs.later hyz) (hs.later hyz).nil id _
  | variants alternatives =>
    refine (modifyTypes _).bind fun id v huv _ => (define (hs.later huv).there _ (typeRef id)).bind fun _ w hvw hw => ?_
    refine (dispatchVariants hw vars id decl.name.val alternatives).bind fun alts x hwx hseen => ?_
    refine (redefine id _).bind fun _ y hxy _ => ?_
    have hs := (hs.later huv).later ((hvw.trans hwx).trans hxy)
    have hseen := hseen.later hxy
    exact (pure trivial).bind (P := anything) fun id z hyz _ => defineType (hs.later hyz) (hseen.later hyz) id _

/-- A type declaration binds its names under the other strategy as well. -/
theorem directType (decl : TypeDecl) :
    Safe strategy watched s (Direct.declareType decl scope) fun t value =>
      value.Closed strategy watched t ∧ t.Sees scope (visible ++ decl.bound) := by
  have add {t : Session} {names : List String} (hst : s.Precedes t) (hseen : t.Sees scope names) (kind : TypeKind) :
      Safe strategy watched t (do
        let id ← Eval.modifyTypes (·.add ⟨decl.name.val, kind, some .any⟩)
        Eval.define scope decl.name.val (Value.typeRef id decl.name.val)
        return Value.typeRef id decl.name.val) fun t value =>
          Value.Closed strategy watched t value ∧ t.Sees scope (visible ++ (names ++ [decl.name.val])) :=
    (modifyTypes _).bind fun id u htu _ => defineType (hs.later (hst.trans htu)) (hseen.later htu) id _
  rw [Direct.declareType, TypeDecl.bound]
  dsimp only
  cases decl.body with
  | abstract | concrete | struct _ => exact add (.refl s) hs.nil _
  | variants alternatives =>
    exact (directVariants hs decl.name.val alternatives).bind fun _ t hst hseen => add hst hseen _

/-- A name may be bound to a function that is closed as soon as the name is seen. -/
theorem defineClosed (name : String) {value : Value}
    (hv : ∀ t, s.Precedes t → t.Sees scope (visible ++ [name]) → value.Closed strategy watched t) :
    Safe strategy watched s (Eval.define scope name value) fun t _ => t.Sees scope (visible ++ [name]) := by
  let t : Session := { s with scopes := s.scopes.define scope name value }
  have hw : s.Precedes t := ⟨ScopeTree.grows_define _ scope name value, fun _ => id⟩
  have hseen : t.Sees scope (visible ++ [name]) :=
    (hs.later hw).append ((hs.later hw).singleton (ScopeTree.contains_define hs.there name value))
  refine modifyGet (f := fun s => ((), { s with scopes := s.scopes.define scope name value })) hw (fun hs => ?_) hseen
  obtain ⟨h₁, h₂, h₃⟩ := hs.later hw
  exact ⟨hs.assignment, h₁.define (hv t hw hseen), h₂, h₃⟩

theorem directDeclared (head : FunctionHead) {body : Node}
    (hclosed : body.wellScoped watched (visible ++ head.name.val :: head.params.map (·.name.val)) = true) :
    Safe strategy watched s (Direct.declareFunction head body scope) fun t value =>
      value.Closed strategy watched t ∧ t.Sees scope (visible ++ [head.name.val]) := by
  rw [List.append_cons] at hclosed
  refine newId.bind fun id t hst _ => ?_
  have hfunction (u : Session) (hu : u.Sees scope (visible ++ [head.name.val])) :
      Value.Closed strategy watched u (.function id head.name.val (head.params.map (·.name.val)) body scope) :=
    (Value.closed_iff rfl).mpr ⟨_, hu, hclosed⟩
  exact (defineClosed (hs.later hst) head.name.val fun u _ => hfunction u).bind fun _ u _ hu =>
    pure ⟨hfunction u hu, hu⟩

/-- Under the dispatch strategy it adds a method, whose body may read the name as soon as that is bound. -/
theorem dispatchDeclared (head : FunctionHead) {body : Node}
    (hclosed : body.wellScoped watched (visible ++ head.name.val :: head.params.map (·.name.val)) = true) :
    Safe .dispatch watched s (Dispatch.declareFunction head body scope) fun t value =>
      value.Closed .dispatch watched t ∧ t.Sees scope (visible ++ [head.name.val]) := by
  rw [List.append_cons] at hclosed
  refine (typeParams scope [] head.typeParams).bind fun vars t hst _ => ?_
  refine (resolveParams vars scope head.params).bind fun signature u htu hlength => ?_
  let m : Method FunctionBody :=
    ⟨vars.reverse.map Prod.snd, signature, .declared (head.params.map (·.name.val)) body scope⟩
  let f := (u.functions.lookup head.name.val).getD (.empty head.name.val u.options.cache)
  let v : Session := { u with
    functions := Assoc.insert head.name.val (f.withMethod m) u.functions
    scopes := u.scopes.define scope head.name.val (.generic head.name.val) }
  have hdeclared : (v.functions.lookup head.name.val).isSome = true := by
    rw [Assoc.lookup_insert_self]
    rfl
  have hw : u.Precedes v := by
    refine ⟨ScopeTree.grows_define _ scope _ _, fun other hother => ?_⟩
    by_cases hne : other = head.name.val
    · rw [hne]
      exact hdeclared
    · rwa [show v.functions = _ from rfl, Assoc.lookup_insert_of_ne hne]
  have hseen : v.Sees scope (visible ++ [head.name.val]) := by
    have hs := ((hs.later hst).later htu)
    exact (hs.later hw).append ((hs.later hw).singleton (ScopeTree.contains_define hs.there _ _))
  have hvalue : Value.Closed .dispatch watched v (.generic head.name.val) := (Value.closed_iff rfl).mpr hdeclared
  have hm : m.Closed watched v := ⟨(List.length_map _).trans hlength.symm, _, hseen, hclosed⟩
  intro hu
  obtain ⟨h₁, h₂, h₃⟩ := hu.later hw
  refine ⟨hw, ⟨hu.assignment, h₁.define hvalue, h₂, fun e he => ?_⟩, hvalue, hseen⟩
  rcases ScopeTree.mem_insert he with heq | he
  · rw [heq]
    refine GenericFunction.Keeps.withMethod ?_ hm
    cases hf : u.functions.lookup head.name.val with
    | none => exact GenericFunction.keeps_empty _ _
    | some f => exact h₃ _ (Assoc.mem_of_lookup hf)
  · exact h₃ e he

end

/-! ## Forms -/

section

variable (hself : SelfSafe strategy watched self)
include hself

/-- The right operand of `&&` and `||` may be skipped, so nothing that it binds is seen afterwards. -/
theorem directBinaryNode (op : BinaryOp) {left right : Node} (hleft : left.wellScoped watched visible = true)
    (hright : right.wellScoped watched (visible ++ left.binds) = true) (hs : s.Sees scope visible) :
    Safe strategy watched s (Direct.binaryNode self op left right scope) fun t value =>
      value.Closed strategy watched t ∧
        t.Sees scope (visible ++ (left.binds ++ if op.isLogical then [] else right.binds)) := by
  have bool {t : Session} {names : List String} {b : Bool} (ht : t.Sees scope names) :
      Safe strategy watched t (Pure.pure (Value.bool b)) fun t value =>
        value.Closed strategy watched t ∧ t.Sees scope names :=
    pure ⟨(Value.closed_iff rfl).mpr trivial, ht⟩
  rw [Direct.binaryNode]
  split
  · rw [List.append_nil]
    refine (hself left scope visible s hleft hs).bind fun l t hst ⟨_, ht⟩ => ?_
    refine (logicalOperand op l).bind fun b u htu _ => ?_
    have hu := ht.later htu
    split
    · exact bool hu
    · refine (hself right scope _ u hright hu).bind fun r v huv _ => ?_
      exact (logicalOperand op r).bind fun _ w hvw _ => bool (hu.later (huv.trans hvw))
  · rw [← List.append_assoc]
    refine (hself left scope visible s hleft hs).bind fun l t hst ⟨hl, ht⟩ => ?_
    refine (hself right scope _ t hright ht).bind fun r u htu ⟨hr, hu⟩ => ?_
    exact (directBinary op l r).mono fun v _ huv hv => ⟨hv, hu.later huv⟩

theorem dispatchBinaryNode (op : BinaryOp) {left right : Node} (hleft : left.wellScoped watched visible = true)
    (hright : right.wellScoped watched (visible ++ left.binds) = true) (hs : s.Sees scope visible) :
    Safe strategy watched s (Dispatch.binaryNode self op left right scope) fun t value =>
      value.Closed strategy watched t ∧
        t.Sees scope (visible ++ (left.binds ++ if op.isLogical then [] else right.binds)) := by
  rw [← List.append_assoc]
  refine (hself left scope visible s hleft hs).bind fun l t hst ⟨hl, ht⟩ => ?_
  split
  · exact pure ⟨hl, (List.append_nil (visible ++ left.binds)).symm ▸ ht⟩
  · exact pure ⟨hl, (List.append_nil (visible ++ left.binds)).symm ▸ ht⟩
  · refine (hself right scope _ t hright ht).bind fun r u htu ⟨hr, hu⟩ => ?_
    have hargs := List.forall_mem_cons.mpr ⟨hl.later htu, List.forall_mem_singleton.mpr hr⟩
    refine (invokeOperator self _ hargs scope).mono fun v _ huv hv => ⟨hv, (hu.later huv).sublist ?_⟩
    refine List.append_subset.mpr ⟨List.subset_append_left _ _, ?_⟩
    split
    · exact List.nil_subset _
    · exact List.subset_append_right _ _

end

theorem form (hself : SelfSafe strategy watched self) (node : Node) (hclosed : node.wellScoped watched visible = true)
    (hs : s.Sees scope visible) : Safe strategy watched s (Eval.evalForm strategy self node scope) fun t value =>
      value.Closed strategy watched t ∧ t.Sees scope (visible ++ node.binds) := by
  have seen {t : Session} {value : Value} (hst : s.Precedes t) (h : value.Closed strategy watched t) :
      value.Closed strategy watched t ∧ t.Sees scope (visible ++ []) :=
    ⟨h, (List.append_nil visible).symm ▸ hs.later hst⟩
  cases node with
  | literal span value => exact pure (seen (.refl s) (Value.closed_ofLiteral value))
  | ident span name =>
    rw [Node.wellScoped] at hclosed
    refine (lookup_seen hs hclosed).bind fun found t hst h => ?_
    obtain ⟨hfound, hnone⟩ := h
    cases found with
    | none => exact fail (hnone rfl)
    | some v => exact pure (seen hst (hfound v rfl))
  | binary span op left right =>
    rw [Node.wellScoped, Bool.and_eq_true] at hclosed
    rw [Node.binds]
    cases strategy with
    | direct => exact directBinaryNode hself op hclosed.1 hclosed.2 hs
    | dispatch => exact dispatchBinaryNode hself op hclosed.1 hclosed.2 hs
  | unary span op operand =>
    rw [Node.wellScoped] at hclosed
    refine (hself operand scope visible s hclosed hs).bind fun value t _ h => ?_
    obtain ⟨hv, ht⟩ := h
    cases strategy with
    | direct => exact (directUnary op value).mono fun u _ htu hv => ⟨hv, ht.later htu⟩
    | dispatch =>
      have hargs : valuesClosed .dispatch watched t [value] := List.forall_mem_singleton.mpr hv
      cases op with
      | neg | not => exact (invokeOperator self _ hargs scope).mono fun u _ htu hv => ⟨hv, ht.later htu⟩
  | assign span target value =>
    rw [Node.wellScoped] at hclosed
    rw [Node.binds, ← List.append_assoc]
    refine (hself value scope visible s hclosed hs).bind fun v t _ h => ?_
    obtain ⟨hv, ht⟩ := h
    exact (assignTo target hv ht).bind fun _ u htu hu => pure ⟨hv.later htu, (ht.later htu).append hu⟩
  | field span subject member =>
    rw [Node.wellScoped] at hclosed
    refine (hself subject scope visible s hclosed hs).bind fun receiver t _ h => ?_
    obtain ⟨hr, ht⟩ := h
    exact (fieldOf strategy hr member.val).mono fun u _ htu hv => ⟨hv, ht.later htu⟩
  | call span function args =>
    rw [Node.wellScoped, Bool.and_eq_true] at hclosed
    refine (lookup_seen hs hclosed.1).bind fun found t hst h => ?_
    obtain ⟨hfound, hnone⟩ := h
    cases found with
    | none => exact fail (hnone rfl)
    | some callee =>
      have hcallee := hfound callee rfl
      refine (evalAll hself hclosed.2 (hs.later hst)).bind fun values u htu h => ?_
      obtain ⟨hvalues, hu⟩ := h
      exact (callValue hself scope u callee values (hcallee.later htu) hvalues).mono fun v _ huv hv =>
        ⟨hv, hu.later huv⟩
  | send span receiver method args =>
    rw [Node.wellScoped, Bool.and_eq_true] at hclosed
    rw [Node.binds, ← List.append_assoc]
    refine (hself receiver scope visible s hclosed.1 hs).bind fun r t _ h => ?_
    obtain ⟨hr, ht⟩ := h
    refine (evalAll hself hclosed.2 ht).bind fun values u htu h => ?_
    obtain ⟨hvalues, hu⟩ := h
    exact (callMethod hself (hr.later htu) hvalues method.val scope).mono fun v _ huv hv => ⟨hv, hu.later huv⟩
  | block span params body =>
    rw [Node.wellScoped] at hclosed
    refine newId.bind fun id t hst _ => pure (seen hst ((Value.closed_iff rfl).mpr ?_))
    exact ⟨visible, hs.later hst, hclosed⟩
  | cases span scrutinee arms =>
    rw [Node.wellScoped, Bool.and_eq_true] at hclosed
    refine (hself scrutinee scope visible s hclosed.1 hs).bind fun value t _ h => ?_
    obtain ⟨hv, ht⟩ := h
    exact (runArms hself hv hclosed.2 ht).mono fun u _ htu hv => ⟨hv, ht.later htu⟩
  | construct span name fields =>
    rw [Node.wellScoped] at hclosed
    exact construct hself name hclosed hs
  | typeDecl span decl =>
    cases strategy with
    | direct => exact directType hs decl
    | dispatch => exact dispatchType hs decl
  | function span head body =>
    rw [Node.wellScoped] at hclosed
    cases strategy with
    | direct => exact directDeclared hs head hclosed
    | dispatch => exact dispatchDeclared hs head hclosed
  | capture span name | refine span name pattern => exact fail rfl
  | quoted span body => cases hclosed
  | array span elements =>
    rw [Node.wellScoped] at hclosed
    refine (evalAll hself hclosed hs).bind fun values t _ h => ?_
    obtain ⟨hvalues, ht⟩ := h
    exact (newArray strategy hvalues).mono fun u _ htu hv => ⟨hv, ht.later htu⟩
  | object span entries =>
    rw [Node.wellScoped] at hclosed
    refine (evalEntries hself hclosed hs (List.forall_mem_nil _)).bind fun entries t _ h => ?_
    obtain ⟨hentries, ht⟩ := h
    exact (newObject hentries).mono fun u _ htu hv => ⟨hv, ht.later htu⟩
  | pair span key value => exact fail rfl

/-- Scoped nodes are evaluated safely, however deeply they may nest. -/
theorem eval (strategy : Strategy) (depth : Nat) : SelfSafe strategy watched (Eval.eval strategy depth) := by
  induction depth with
  | zero => exact fun _ _ _ _ _ _ _ => trivial
  | succ depth ih => exact fun node scope visible s hclosed hs => located node.span (form ih node hclosed hs)

end Safe

end DispatchLang
