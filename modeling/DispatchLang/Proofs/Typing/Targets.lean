import DispatchLang.Proofs.Grammar.WellFormed
import DispatchLang.Proofs.Typing.Visibility

/-!
# The checker finds nothing wrong with targets

The checker reports an invalid assignment where something is assigned to that is no target. That happens for one form of
node only, and there the target is looked at and nothing else. So for programs in which nothing but targets is assigned
to, as all programs are that have been read, the report is never made, whatever the checker knows.

## Main definitions

* `Checker.checked`: a checker after it has checked the programs that some sources contain.

## Main results

* `Check.Spares.infer`: no inference reports an invalid target, if there are none.
* `Checker.no_invalidAssignment`: neither does a check of a program that has been read.
-/

namespace DispatchLang

namespace Check.Spares

variable {α β : Type} {x : Check α}

/-! ## Rules -/

theorem pure (a : α) : Spares (Pure.pure a) := fun _ => id

/-- What comes after a step needs to be looked at for its answers only. -/
theorem followed {f : α → Check β} (h : Spares x) (hf : ∀ c, Spares (f (x c).1)) : Spares (x >>= f) := fun c hc =>
  hf c _ (h c hc)

theorem bind {f : α → Check β} (h : Spares x) (hf : ∀ a, Spares (f a)) : Spares (x >>= f) := h.followed fun _ => hf _

theorem get {f : Checker → Check α} (h : ∀ c, Spares (f c)) : Spares (MonadState.get >>= f) := fun c => h c c

/-- A step that leaves what was found as it is. -/
theorem same (h : ∀ c, (x c).2.findings = c.findings) : Spares x := by
  intro c hc
  rwa [h c]

theorem define (name : String) (type : TypeId) : Spares (Check.define name type) := same fun _ => rfl

theorem assign (name : String) (type : TypeId) : Spares (Check.assign name type) := same fun _ => rfl

theorem addMethod (name : String) (method : Method TypeId) : Spares (Check.addMethod name method) := same fun _ => rfl

/-- Scopes have nothing to do with what is found. -/
theorem inScope (h : Spares x) : Spares (Check.inScope x) := fun c => h { c with scopes := [] :: c.scopes }

theorem withTypeVars (h : Spares x) : Spares (Check.withTypeVars x) := h

theorem defineAll (entries : List (String × TypeId)) :
    Spares (entries.forM fun (name, type) => Check.define name type) := by
  induction entries with
  | nil => exact pure _
  | cons entry entries ih => exact (define entry.1 entry.2).bind fun _ => ih

/-! ## Patterns -/

mutual

theorem bindPattern (type : TypeId) (pattern : Node) : Spares (Check.bindPattern type pattern) := by
  have answer {id : TypeId} : Spares (do
      Check.record pattern.span id
      return id) := ((Quiet.record _ id).bind fun _ => .pure _).spares
  have bound (name : Option String) {id : TypeId} : Spares (do
      if let some name := name then Check.define name id
      Check.record pattern.span id
      return id) := by
    cases name with
    | none => exact answer
    | some name => exact (define name id).bind fun _ => answer
  unfold Check.bindPattern
  cases pattern with
  | capture span name => exact bound name
  | refine span name inner => exact (bindPattern type inner).bind fun _ => bound name
  | construct span name fields =>
    refine (Quiet.patternFields name.val).spares.bind fun _ => ?_
    split
    · exact (bindFields name.val _ fields).bind fun _ => answer
    · exact (Quiet.report (.unknownVariantOrType _) _ nofun).spares.bind fun _ => (bindFields name.val none fields).bind fun _ => answer
  | ident span name =>
    refine (Quiet.read _).spares.bind fun _ => ?_
    split
    · exact answer
    · exact (Quiet.report (.unknownVariant _) _ nofun).spares.bind fun _ => answer
  | literal span value => exact answer
  | _ => exact (Quiet.report .invalidPattern _ nofun).spares.bind fun _ => answer

theorem bindFields (owner : String) (declared : Option FieldTypes) (fields : List (Located String × Node)) :
    Spares (Check.bindFields owner declared fields) := by
  unfold Check.bindFields
  cases fields with
  | nil => exact pure _
  | cons field fields =>
    have rest {type : TypeId} : Spares (do
        let _ ← Check.bindPattern type field.2
        Check.bindFields owner declared fields) :=
      (bindPattern type field.2).bind fun _ => bindFields owner declared fields
    cases declared with
    | none => exact rest
    | some declared => exact (Quiet.patternFieldType owner declared field.1).spares.bind fun _ => rest

end

/-- Only here something is reported that has to do with targets. -/
theorem assignTo {target : Node} (h : target.isTarget = true) (type : TypeId) :
    Spares (Check.assignTo target type) := by
  cases target with
  | ident span name => exact (assign name type).bind fun _ => (Quiet.record _ _).spares
  | construct _ _ _ => exact (bindPattern type _).bind fun _ => pure _
  | _ => cases h

/-! ## Declarations -/

theorem defineParams (params : List Param) : Spares (Check.defineParams params) := by
  induction params with
  | nil => exact pure _
  | cons p params ih =>
    exact (Quiet.resolveOption p.annotation).spares.bind fun _ => (define p.name.val _).bind fun _ =>
      ih.bind fun _ => pure _

theorem enterTypeParams (params : List TypeParam) : Spares (Check.enterTypeParams params) := by
  induction params with
  | nil => exact pure _
  | cons p params ih =>
    refine (Quiet.resolveOption p.constraint).spares.bind fun _ => (Quiet.modifyTypes _).spares.bind fun id => ?_
    have henter : Spares (modify fun c => { c with typeVars := Assoc.insert p.name.val id c.typeVars }) :=
      same fun _ => rfl
    exact henter.bind fun _ => ih.bind fun _ => pure _

theorem declareVariant (vars : List TypeId) (type : TypeId) (name : String) (fields : FieldTypes) :
    Spares (Check.declareVariant vars type name fields) := by
  rw [Check.declareVariant]
  split
  · exact (define name type).bind fun _ => same fun _ => rfl
  · exact (Quiet.modifyTypes _).spares.bind fun _ => (addMethod name _).bind fun _ => same fun _ => rfl

theorem declareVariants (vars : List TypeId) (type : TypeId) (alternatives : List VariantDecl) :
    Spares (Check.declareVariants vars type alternatives) := by
  induction alternatives with
  | nil => exact pure _
  | cons v alternatives ih =>
    exact (Quiet.resolveFields v.fields).spares.bind fun _ => (declareVariant vars type _ _).bind fun _ =>
      ih.bind fun _ => pure _

theorem declareType (decl : TypeDecl) : Spares (Check.declareType decl) := by
  have redefine (d : TypeDef) (id : TypeId) :
      Spares (modify fun c => { c with arena := c.arena.redefine id d } : Check PUnit) := same fun _ => rfl
  have name (id : TypeId) : Spares (Check.defineType decl.name.val id) := same fun _ => rfl
  refine (withTypeVars ?_).bind name
  refine (enterTypeParams _).bind fun _ => (Quiet.resolveOption _).spares.bind fun _ => ?_
  dsimp only
  cases decl.body with
  | abstract | concrete => exact (Quiet.modifyTypes _).spares
  | struct fields =>
    refine (Quiet.modifyTypes _).spares.bind fun id => (name id).bind fun _ => ?_
    exact (Quiet.resolveFields fields).spares.bind fun _ => (redefine _ id).bind fun _ => pure id
  | variants alternatives =>
    refine (Quiet.modifyTypes _).spares.bind fun id => (name id).bind fun _ => ?_
    exact (declareVariants _ id alternatives).bind fun _ => (redefine _ id).bind fun _ => pure id

/-! ## Nodes -/

mutual

/-- No inference reports an invalid target, if only targets are assigned to. -/
theorem infer (inPlace : Bool) {node : Node} (h : node.Sound) : Spares (Check.infer inPlace node) := by
  have answer {id : TypeId} : Spares (do
      Check.record node.span id
      return id) := ((Quiet.record _ id).bind fun _ => .pure _).spares
  have finish {x : Check TypeId} (hx : Spares x) : Spares (do
      let id ← x
      Check.record node.span id
      return id) := hx.bind fun _ => answer
  have hchild {child : Node} (hc : child ∈ node.children) : child.Sound := h.child hc
  unfold Check.infer
  cases node with
  | literal span value | quoted span body => exact answer
  | ident span name => exact finish (Quiet.nameType name span).spares
  | binary span op left right =>
    exact (infer false (hchild (by simp [Node.children]))).bind fun _ =>
      (infer false (hchild (by simp [Node.children]))).bind fun _ => answer
  | unary span op operand => exact (infer false (hchild (by simp [Node.children]))).bind fun _ => answer
  | assign span target value =>
    exact (infer false (hchild (by simp [Node.children]))).bind fun type =>
      (assignTo (h.1.target rfl) type).bind fun _ => answer
  | field span object field =>
    exact (infer false (hchild (by simp [Node.children]))).bind fun owner => finish (Quiet.fieldType owner field).spares
  | call span function args =>
    refine (Quiet.read _).spares.bind fun callee => (inferPlaced fun _ => hchild).bind fun types => ?_
    cases callee with
    | some callee => exact get fun _ => answer
    | none => exact finish (Quiet.namedCallType function.val types function.span).spares
  | send span receiver method args =>
    refine (infer false (hchild (by simp [Node.children]))).bind fun type => ?_
    refine (Quiet.methodType type method).spares.followed fun c => ?_
    refine (inferPlaced fun _ hn => hchild (List.mem_cons_of_mem _ hn)).bind fun types => ?_
    exact finish (Quiet.methodCall type method c types).spares
  | block span params body =>
    have hbody : ∀ node ∈ body, node.Sound := fun _ => hchild
    dsimp only
    split
    · exact finish (inferLast .nothing hbody)
    · refine (inScope ((defineParams params).bind fun _ => (inferLast .nothing hbody).bind fun _ => pure _)).bind
        fun _ => finish (Quiet.modifyTypes _).spares
  | cases span scrutinee arms =>
    have harms : ∀ arm ∈ arms, arm.2.Sound := fun arm harm =>
      hchild (List.mem_cons_of_mem _ (List.mem_flatMap.mpr ⟨arm, harm, by simp⟩))
    exact (infer false (hchild List.mem_cons_self)).bind fun type => (inferArms type harms).bind fun _ =>
      get fun _ => answer
  | construct span name fields =>
    have hfields : ∀ field ∈ fields, field.2.Sound := fun field hf => hchild (List.mem_map_of_mem hf)
    refine (Quiet.constructed name).spares.bind fun found => ?_
    cases found with
    | some found =>
      exact (inferFields _ _ _ hfields).bind fun _ => (Quiet.reportMissing _ _ _ _).spares.bind fun _ => answer
    | none => exact (inferEntries hfields).bind fun _ => answer
  | typeDecl span decl => exact (declareType decl).bind fun _ => answer
  | function span head body =>
    refine (withTypeVars ?_).bind fun _ => ?_
    · refine (enterTypeParams _).bind fun _ => (Quiet.resolveParams _).spares.bind fun _ => ?_
      refine (Quiet.modifyTypes _).spares.bind fun _ => (addMethod _ _).bind fun _ => ?_
      have hbody : Spares (Check.infer true body) := infer true (hchild (by simp [Node.children]))
      exact (inScope ((defineAll _).bind fun _ => hbody)).bind fun _ => pure _
    · exact (Quiet.modifyTypes _).spares.bind fun _ => (addMethod _ _).bind fun _ => answer
  | capture span name | refine span name pattern => exact (Quiet.report .strayCapture _ nofun).spares.bind fun _ => answer
  | array span elements =>
    exact (inferPlaced fun _ => hchild).bind fun _ => finish (Quiet.modifyTypes _).spares
  | object span entries =>
    exact (inferEntries fun field hf => hchild (List.mem_map_of_mem hf)).bind fun _ => answer
  | pair span key value =>
    exact (infer false (hchild (by simp [Node.children]))).bind fun _ =>
      (infer false (hchild (by simp [Node.children]))).bind fun _ => answer

theorem inferPlaced {nodes : List Node} (h : ∀ node ∈ nodes, node.Sound) : Spares (Check.inferPlaced nodes) := by
  unfold Check.inferPlaced
  cases nodes with
  | nil => exact pure _
  | cons node nodes =>
    obtain ⟨hnode, hnodes⟩ := List.forall_mem_cons.mp h
    exact (infer false hnode).bind fun _ => (inferPlaced hnodes).bind fun _ => pure _

theorem inferLast (last : TypeId) {nodes : List Node} (h : ∀ node ∈ nodes, node.Sound) :
    Spares (Check.inferLast last nodes) := by
  unfold Check.inferLast
  cases nodes with
  | nil => exact pure _
  | cons node nodes =>
    obtain ⟨hnode, hnodes⟩ := List.forall_mem_cons.mp h
    exact (infer false hnode).bind fun _ => inferLast _ hnodes

theorem inferArms (scrutinee : TypeId) {arms : List (Node × Node)} (h : ∀ arm ∈ arms, arm.2.Sound) :
    Spares (Check.inferArms scrutinee arms) := by
  unfold Check.inferArms
  cases arms with
  | nil => exact pure _
  | cons arm arms =>
    obtain ⟨harm, harms⟩ := List.forall_mem_cons.mp h
    exact (inScope ((bindPattern scrutinee arm.1).bind fun _ => infer true harm)).bind fun _ =>
      (inferArms scrutinee harms).bind fun _ => pure _

theorem inferFields (owner : String) (declared : FieldTypes) (given : List String)
    {fields : List (Located String × Node)} (h : ∀ field ∈ fields, field.2.Sound) :
    Spares (Check.inferFields owner declared given fields) := by
  unfold Check.inferFields
  cases fields with
  | nil => exact pure _
  | cons field fields =>
    obtain ⟨hfield, hfields⟩ := List.forall_mem_cons.mp h
    have hrest := inferFields owner declared (field.1.val :: given) hfields
    have checked {type : TypeId} : Spares (do
        let expected := withoutVars (← MonadState.get).arena type
        let actual ← Check.infer false field.2
        Check.checkFieldValue owner field.1.val expected actual field.2.span
        Check.inferFields owner declared (field.1.val :: given) fields) :=
      get fun _ => (infer false hfield).bind fun _ => (Quiet.checkFieldValue _ _ _ _ _).spares.bind fun _ => hrest
    have unchecked : Spares (do
        Check.report (.literalWithoutField owner field.1.val) field.1.span
        let _ ← Check.infer false field.2
        Check.inferFields owner declared (field.1.val :: given) fields) :=
      (Quiet.report (.literalWithoutField ..) _ nofun).spares.bind fun _ => (infer false hfield).bind fun _ => hrest
    dsimp only
    split
    · refine (Quiet.report (.duplicateField ..) _ nofun).spares.bind fun _ => ?_
      split
      · exact checked
      · exact unchecked
    · split
      · exact checked
      · exact unchecked

theorem inferEntries {entries : List (Located String × Node)} (h : ∀ entry ∈ entries, entry.2.Sound) :
    Spares (Check.inferEntries entries) := by
  unfold Check.inferEntries
  cases entries with
  | nil => exact pure _
  | cons entry entries =>
    obtain ⟨hentry, hentries⟩ := List.forall_mem_cons.mp h
    exact (infer false hentry).bind fun _ => inferEntries hentries

end

end Check.Spares

/-! ## Programs -/

/-- What is reported as an invalid assignment is that something is assigned to which is no target. -/
theorem FindingCause.eq_invalidTarget {cause : FindingCause} (h : cause.kind = .invalidAssignment) :
    cause = .invalidTarget := by
  cases cause with
  | invalidTarget => rfl
  | unresolved error => cases error <;> cases h
  | _ => cases h

namespace Checker

/-- A checker after it has checked the program that a source contains, if it contains one. -/
def after (c : Checker) (source : String) : Checker :=
  match Program.parse source with
  | .ok program => (c.check program).2
  | .error _ => c

def checked (sources : List String) : Checker := sources.foldl after initial

theorem findings_after {c : Checker} (h : c.findings = []) (source : String) : (c.after source).findings = [] := by
  rw [after]
  cases Program.parse source with
  | error e => exact h
  | ok program => rfl

theorem findings_foldl {c : Checker} (h : c.findings = []) (sources : List String) :
    (sources.foldl after c).findings = [] := by
  induction sources generalizing c with
  | nil => exact h
  | cons source sources ih => exact ih (findings_after h source)

/-- Between two programs a checker has found nothing. -/
theorem findings_checked (sources : List String) : (checked sources).findings = [] :=
  findings_foldl (List.isEmpty_iff.mp (by decide +kernel)) sources

variable {source : String} {program : Program}

theorem no_invalidAssignment (h : Program.parse source = .ok program) {c : Checker} (hc : c.findings = []) :
    ∀ finding ∈ (c.check program).1.findings, finding.kind ≠ .invalidAssignment := by
  have hsound : ∀ statement ∈ program, statement.Sound := Node.forall_nodes_iff.mp (Program.parse_wellFormed h).1
  intro finding hf hkind
  refine Check.Spares.inferPlaced hsound c ?_ finding (List.mem_reverse.mp hf) (FindingCause.eq_invalidTarget hkind)
  rw [hc]
  exact nofun

end Checker

end DispatchLang
