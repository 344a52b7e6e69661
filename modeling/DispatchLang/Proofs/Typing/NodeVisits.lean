import DispatchLang.Proofs.Grammar.WellFormed
import DispatchLang.Proofs.Typing.Silence

/-!
# Every node is visited once

To infer the type of a node the checker visits the nodes that it is made of, each in the state that the visits before
have left behind, and then it notes the type under the place of the node. What a visit consists of depends on the
state: the fields of a construction are visited in another way if its name means nothing, and a method that is not
known by then may be found by the time its arguments have been visited. But whatever is not known, all parts are visited,
each of them once; only the bodies of quoted forms are left alone, and what stands in a pattern and is no pattern.

A `NodeVisit` names what the checker is asked, `NodeVisit.parts` lists the visits that answering takes with the states in which
they begin, and `NodeVisit.Unfold` lists these visits with all that they take. That the log grows by what these visits
answer (`Check.Notes`) is proved along the recursion of the checker.

## Main definitions

* `Node.exposed`: the nodes inside a node that are not inside a quoted form.
* `NodeVisit`, `NodeVisit.parts`, `NodeVisit.Unfold`: visits, and the visits that they consist of.
* `Check.Notes`: a step of the checker consists of some visits and notes what they answer.

## Main results

* `Check.Notes.infer`: inferring the type of a node visits the node and all exposed nodes inside it, once each.
-/

namespace DispatchLang

/-! ## Nodes outside quoted forms -/

namespace Node

mutual

/-- The nodes inside a node that are not inside a quoted form. -/
def exposed : Node → List Node
  | .literal _ _ | .ident _ _ | .typeDecl _ _ | .capture _ _ | .quoted _ _ => []
  | .binary _ _ left right | .assign _ left right | .pair _ left right =>
    left :: exposed left ++ right :: exposed right
  | .unary _ _ node | .field _ node _ | .function _ _ node | .refine _ _ node => node :: exposed node
  | .call _ _ nodes | .block _ _ nodes | .array _ nodes => exposedAll nodes
  | .send _ receiver _ args => receiver :: exposed receiver ++ exposedAll args
  | .cases _ scrutinee arms => scrutinee :: exposed scrutinee ++ exposedArms arms
  | .construct _ _ fields | .object _ fields => exposedFields fields

/-- The nodes of a list and all exposed nodes inside them. -/
def exposedAll : List Node → List Node
  | [] => []
  | node :: nodes => node :: exposed node ++ exposedAll nodes

/-- The nodes under names and all exposed nodes inside them. -/
def exposedFields : List (Located String × Node) → List Node
  | [] => []
  | (_, node) :: fields => node :: exposed node ++ exposedFields fields

/-- The patterns and bodies of arms and all exposed nodes inside them. -/
def exposedArms : List (Node × Node) → List Node
  | [] => []
  | (pattern, body) :: arms => pattern :: exposed pattern ++ body :: exposed body ++ exposedArms arms

end

mutual

/-- Exposed nodes are among all nodes inside, in the same order. -/
theorem exposed_sublist (node : Node) : node.exposed.Sublist node.inside := by
  unfold exposed inside
  cases node with
  | binary _ _ left right | assign _ left right | pair _ left right =>
    exact ((exposed_sublist left).cons_cons _).append ((exposed_sublist right).cons_cons _)
  | unary _ _ node | field _ node _ | function _ _ node | refine _ _ node => exact (exposed_sublist node).cons_cons _
  | call _ _ nodes | block _ _ nodes | array _ nodes => exact exposedAll_sublist nodes
  | send _ receiver _ args => exact ((exposed_sublist receiver).cons_cons _).append (exposedAll_sublist args)
  | cases _ scrutinee arms => exact ((exposed_sublist scrutinee).cons_cons _).append (exposedArms_sublist arms)
  | construct _ _ fields | object _ fields => exact exposedFields_sublist fields
  | _ => exact List.nil_sublist _

theorem exposedAll_sublist (nodes : List Node) : (exposedAll nodes).Sublist (insideAll nodes) := by
  cases nodes with
  | nil => exact .slnil
  | cons node nodes => exact ((exposed_sublist node).cons_cons _).append (exposedAll_sublist nodes)

theorem exposedFields_sublist (fields : List (Located String × Node)) :
    (exposedFields fields).Sublist (insideFields fields) := by
  cases fields with
  | nil => exact .slnil
  | cons field fields => exact ((exposed_sublist field.2).cons_cons _).append (exposedFields_sublist fields)

theorem exposedArms_sublist (arms : List (Node × Node)) : (exposedArms arms).Sublist (insideArms arms) := by
  cases arms with
  | nil => exact .slnil
  | cons arm arms =>
    exact (((exposed_sublist arm.1).cons_cons _).append ((exposed_sublist arm.2).cons_cons _)).append
      (exposedArms_sublist arms)

end

end Node

/-- The nodes of a program that are not inside a quoted form. -/
def Program.exposed (program : Program) : List Node := Node.exposedAll program

/-! ## Visits -/

def Check.beforeBody (head : FunctionHead) : Check Unit := do
  let vars ← enterTypeParams head.typeParams
  let params ← resolveParams head.params
  let provisional ← modifyTypes (·.function params .any)
  addMethod head.name.val ⟨vars, params, provisional⟩
  modify fun c => { c with scopes := [] :: c.scopes }
  ((head.params.map (·.name.val)).zip params).forM fun (name, type) => define name type

/-- A visit of the checker to a node. -/
inductive NodeVisit where
  /-- The type of a node is inferred. -/
  | infer (inPlace : Bool) (node : Node)
  /-- A value of the given type is matched against a pattern. -/
  | bind (type : TypeId) (pattern : Node)
  /-- A value of the given type is assigned to a name. -/
  | rebind (type : TypeId) (target : Node)

namespace NodeVisit

def node : NodeVisit → Node
  | .infer _ node | .bind _ node | .rebind _ node => node

def run : NodeVisit → Check TypeId
  | .infer inPlace node => Check.infer inPlace node
  | .bind type pattern => Check.bindPattern type pattern
  | .rebind type target => do
    Check.assignTo target type
    return type

def type (v : NodeVisit) (c : Checker) : TypeId := (v.run c).1

/-- What is noted at the end of the visit. -/
def entry (v : NodeVisit) (c : Checker) : NodeKey × TypeId := (v.node.span.key, v.type c)

def inTurn : List Node → Checker → List (NodeVisit × Checker)
  | [], _ => []
  | node :: nodes, c => (.infer false node, c) :: inTurn nodes (Check.infer false node c).2

def ofTarget (type : TypeId) (target : Node) (c : Checker) : List (NodeVisit × Checker) :=
  match target with
  | .ident _ _ => [(.rebind type target, c)]
  | _ => [(.bind type target, c)]

/-- Arms are visited one after the other, each in a scope of its own: first the pattern, and then the body. -/
def ofArms (scrutinee : TypeId) : List (Node × Node) → Checker → List (NodeVisit × Checker)
  | [], _ => []
  | (pattern, body) :: arms, c =>
    let entered : Checker := { c with scopes := [] :: c.scopes }
    let bound := (Check.bindPattern scrutinee pattern entered).2
    let left := (Check.infer true body bound).2
    (.bind scrutinee pattern, entered) :: (.infer true body, bound) ::
      ofArms scrutinee arms { left with scopes := left.scopes.tail }

/-- The values of a construction whose fields are known are visited, and each one is checked afterwards. -/
def ofFields (owner : String) (declared : FieldTypes) (given : List String) :
    List (Located String × Node) → Checker → List (NodeVisit × Checker)
  | [], _ => []
  | (field, value) :: fields, c =>
    let c := if given.contains field.val then (Check.report (.duplicateField field.val owner) field.span c).2 else c
    match declared.lookup field.val with
    | some type =>
      let expected := Check.withoutVars c.arena type
      let (actual, after) := Check.infer false value c
      (.infer false value, c) :: ofFields owner declared (field.val :: given) fields
        (Check.checkFieldValue owner field.val expected actual value.span after).2
    | none =>
      let c := (Check.report (.literalWithoutField owner field.val) field.span c).2
      (.infer false value, c) :: ofFields owner declared (field.val :: given) fields (Check.infer false value c).2

def ofPatterns (owner : String) (declared : Option FieldTypes) :
    List (Located String × Node) → Checker → List (NodeVisit × Checker)
  | [], _ => []
  | (field, pattern) :: fields, c =>
    let (type, c) :=
      match declared with
      | some declared => Check.patternFieldType owner declared field c
      | none => (.any, c)
    (.bind type pattern, c) :: ofPatterns owner declared fields (Check.bindPattern type pattern c).2

def parts (v : NodeVisit) (c : Checker) : List (NodeVisit × Checker) :=
  match v with
  | .infer inPlace node =>
    match node with
    | .literal _ _ | .ident _ _ | .typeDecl _ _ | .capture _ _ | .refine _ _ _ | .quoted _ _ => []
    | .binary _ _ left right | .pair _ left right => inTurn [left, right] c
    | .unary _ _ operand | .field _ operand _ => inTurn [operand] c
    | .call _ _ nodes | .array _ nodes => inTurn nodes c
    | .send _ receiver _ args => inTurn (receiver :: args) c
    | .object _ entries => inTurn (entries.map (·.2)) c
    | .assign _ target value =>
      let (type, assigned) := Check.infer false value c
      (.infer false value, c) :: ofTarget type target assigned
    | .block _ params body =>
      if inPlace && params.isEmpty then inTurn body c
      else inTurn body (Check.defineParams params { c with scopes := [] :: c.scopes }).2
    | .cases _ scrutinee arms =>
      let (type, decided) := Check.infer false scrutinee c
      (.infer false scrutinee, c) :: ofArms type arms decided
    | .construct _ name fields =>
      match Check.constructed name c with
      | (some (owner, declared, _), c) => ofFields owner declared [] fields c
      | (none, c) => inTurn (fields.map (·.2)) c
    | .function _ head body => [(.infer true body, (Check.beforeBody head c).2)]
  | .bind type pattern =>
    match pattern with
    | .refine _ _ inner => [(.bind type inner, c)]
    | .construct _ name fields =>
      match Check.patternFields name.val c with
      | (some (_, declared), c) => ofPatterns name.val (some declared) fields c
      | (none, c) =>
        ofPatterns name.val none fields (Check.report (.unknownVariantOrType name.val) name.span c).2
    | _ => []
  | .rebind _ _ => []

/-- Visits, and all visits that they take, in the order in which they begin. -/
inductive Unfold : List (NodeVisit × Checker) → List (NodeVisit × Checker) → Prop where
  | nil : Unfold [] []
  | cons {v : NodeVisit} {c : Checker} {rest inner later : List (NodeVisit × Checker)} (hi : Unfold (v.parts c) inner)
      (hr : Unfold rest later) : Unfold ((v, c) :: rest) ((v, c) :: inner ++ later)

theorem Unfold.append {vs ws all all' : List (NodeVisit × Checker)} (h : Unfold vs all) (h' : Unfold ws all') :
    Unfold (vs ++ ws) (all ++ all') := by
  induction h with
  | nil => exact h'
  | cons hi _ _ ih =>
    rw [List.cons_append, List.append_assoc]
    exact .cons hi ih

theorem Unfold.one {v : NodeVisit} {c : Checker} {inner : List (NodeVisit × Checker)} (h : Unfold (v.parts c) inner) :
    Unfold [(v, c)] ((v, c) :: inner) := by
  have hone := Unfold.cons (v := v) h .nil
  rwa [List.append_nil] at hone

end NodeVisit

/-! ## Steps that note what visits find -/

namespace Check

open NodeVisit (inTurn ofTarget ofArms ofFields ofPatterns)

/-- A step consists of some visits. It adds to the log what they and all visits they take find, and if no pattern is
found to be invalid, these are visits to the given nodes, to each once. -/
def Notes {α : Type} (x : Check α) (c : Checker) (visits : List (NodeVisit × Checker)) (nodes : List Node) : Prop :=
  ∃ all new more, NodeVisit.Unfold visits all ∧ (x c).2.inferred = new ++ c.inferred ∧
    (x c).2.findings = more ++ c.findings ∧ new.Perm (all.map fun v => v.1.entry v.2) ∧
    ((∀ finding ∈ more, finding.kind ≠ .invalidPattern) → (all.map fun v => v.1.node).Perm nodes)

namespace Notes

variable {α β : Type} {x : Check α} {c : Checker} {visits visits' : List (NodeVisit × Checker)} {nodes nodes' : List Node}

/-! ### Rules -/

theorem silent (h : Silent x) : Notes x c [] [] := by
  obtain ⟨hinferred, more, hmore⟩ := h c
  exact ⟨[], [], more, .nil, hinferred, hmore.symm, .refl _, fun _ => .refl _⟩

theorem pure (a : α) : Notes (Pure.pure a) c [] [] := silent (.pure a)

theorem bind {f : α → Check β} (h : Notes x c visits nodes) (hf : Notes (f (x c).1) (x c).2 visits' nodes') :
    Notes (x >>= f) c (visits ++ visits') (nodes ++ nodes') := by
  obtain ⟨all, new, more, hall, hinferred, hfindings, hnew, hnodes⟩ := h
  obtain ⟨all', new', more', hall', hinferred', hfindings', hnew', hnodes'⟩ := hf
  refine ⟨all ++ all', new' ++ new, more' ++ more, hall.append hall', ?_, ?_, ?_, fun hclean => ?_⟩
  · exact hinferred'.trans (by rw [hinferred, List.append_assoc])
  · exact hfindings'.trans (by rw [hfindings, List.append_assoc])
  · rw [List.map_append]
    exact List.perm_append_comm.trans (hnew.append hnew')
  · obtain ⟨hclean', hclean⟩ := List.forall_mem_append.mp hclean
    rw [List.map_append]
    exact (hnodes hclean).append (hnodes' hclean')

/-- A silent step may come before. -/
theorem after {f : α → Check β} (h : Silent x) (hf : Notes (f (x c).1) (x c).2 visits nodes) :
    Notes (x >>= f) c visits nodes := (silent h).bind hf

/-- A silent step may follow. -/
theorem andThen {f : α → Check β} (h : Notes x c visits nodes) (hf : ∀ a, Silent (f a)) :
    Notes (x >>= f) c visits nodes := by
  have hbind := h.bind (silent (hf (x c).1))
  rwa [List.append_nil, List.append_nil] at hbind

theorem inScope (h : Notes x { c with scopes := [] :: c.scopes } visits nodes) : Notes (Check.inScope x) c visits nodes := h

theorem withTypeVars (h : Notes x c visits nodes) : Notes (Check.withTypeVars x) c visits nodes := h

end Notes

/-- A step consists of some visits, and the last that it adds to the log is its own answer, under the given place. -/
def Concludes (span : Span) (x : Check TypeId) (c : Checker) (visits : List (NodeVisit × Checker)) (nodes : List Node) : Prop :=
  ∃ all new more, NodeVisit.Unfold visits all ∧ (x c).2.inferred = (span.key, (x c).1) :: (new ++ c.inferred) ∧
    (x c).2.findings = more ++ c.findings ∧ new.Perm (all.map fun v => v.1.entry v.2) ∧
    ((∀ finding ∈ more, finding.kind ≠ .invalidPattern) → (all.map fun v => v.1.node).Perm nodes)

namespace Concludes

variable {α : Type} {x : Check α} {c : Checker} {span : Span} {visits visits' : List (NodeVisit × Checker)}
  {nodes nodes' : List Node}

theorem answer (id : TypeId) : Concludes span (do
    Check.record span id
    return id) c [] [] :=
  ⟨[], [], [], .nil, rfl, rfl, .refl _, fun _ => .refl _⟩

theorem bind {f : α → Check TypeId} (h : Notes x c visits nodes)
    (hf : Concludes span (f (x c).1) (x c).2 visits' nodes') :
    Concludes span (x >>= f) c (visits ++ visits') (nodes ++ nodes') := by
  obtain ⟨all, new, more, hall, hinferred, hfindings, hnew, hnodes⟩ := h
  obtain ⟨all', new', more', hall', hinferred', hfindings', hnew', hnodes'⟩ := hf
  refine ⟨all ++ all', new' ++ new, more' ++ more, hall.append hall', ?_, ?_, ?_, fun hclean => ?_⟩
  · exact hinferred'.trans (by rw [hinferred, List.append_assoc]; rfl)
  · exact hfindings'.trans (by rw [hfindings, List.append_assoc])
  · rw [List.map_append]
    exact List.perm_append_comm.trans (hnew.append hnew')
  · obtain ⟨hclean', hclean⟩ := List.forall_mem_append.mp hclean
    rw [List.map_append]
    exact (hnodes hclean).append (hnodes' hclean')

theorem after {f : α → Check TypeId} (h : Silent x) (hf : Concludes span (f (x c).1) (x c).2 visits nodes) :
    Concludes span (x >>= f) c visits nodes := bind (.silent h) hf

theorem last {f : α → Check TypeId} (h : Notes x c visits nodes)
    (hf : Concludes span (f (x c).1) (x c).2 [] []) : Concludes span (x >>= f) c visits nodes := by
  have hbind := bind h hf
  rwa [List.append_nil, List.append_nil] at hbind

theorem perm {x : Check TypeId} (h : Concludes span x c visits nodes) (hp : nodes.Perm nodes') :
    Concludes span x c visits nodes' := by
  obtain ⟨all, new, more, hall, hinferred, hfindings, hnew, hnodes⟩ := h
  exact ⟨all, new, more, hall, hinferred, hfindings, hnew, fun hclean => (hnodes hclean).trans hp⟩

/-- The answer is noted after a silent step. -/
theorem finish {x : Check TypeId} (h : Silent x) : Concludes span (do
    let id ← x
    Check.record span id
    return id) c [] [] := after h (answer _)

/-- Once a pattern is found to be invalid, nothing is said about the nodes that have been visited. -/
theorem invalid {cause : FindingCause} (hc : cause.kind = .invalidPattern) (place : Span) (id : TypeId) :
    Concludes span (do
      Check.report cause place
      Check.record span id
      return id) c [] nodes :=
  ⟨[], [], [⟨cause, place⟩], .nil, rfl, rfl, .refl _, fun hclean => absurd hc (hclean ⟨cause, place⟩ (by simp))⟩

theorem visit {v : NodeVisit} (h : Concludes v.node.span v.run c (v.parts c) nodes) :
    Notes v.run c [(v, c)] (v.node :: nodes) := by
  obtain ⟨all, new, more, hall, hinferred, hfindings, hnew, hnodes⟩ := h
  exact ⟨(v, c) :: all, v.entry c :: new, more, hall.one, hinferred, hfindings, hnew.cons _,
    fun hclean => (hnodes hclean).cons _⟩

end Concludes

namespace Notes

variable {α : Type} {c : Checker}

/-! ### Patterns -/

mutual

/-- Matching against a pattern visits it and all patterns inside it. -/
theorem bindPattern {c : Checker} (type : TypeId) (pattern : Node) :
    Notes (Check.bindPattern type pattern) c [(.bind type pattern, c)] (pattern :: pattern.exposed) := by
  have bound (name : Option String) {id : TypeId} {c : Checker} : Concludes pattern.span (do
      if let some name := name then Check.define name id
      Check.record pattern.span id
      return id) c [] [] := by
    cases name with
    | none => exact .answer _
    | some name => exact .after (.define name id) (.answer _)
  refine Concludes.visit (v := .bind type pattern) ?_
  rw [NodeVisit.run]
  unfold Check.bindPattern
  cases pattern with
  | capture span name => exact bound name
  | refine span name inner => exact .last (bindPattern type inner) (bound name)
  | construct span name fields =>
    rw [NodeVisit.parts, Node.exposed]
    refine .after (Silent.patternFields name.val) ?_
    dsimp only
    generalize Check.patternFields name.val c = found
    obtain ⟨_ | ⟨id, declared⟩, c'⟩ := found
    · exact .after (Silent.report _ _) (.last (bindFields name.val none fields) (.answer _))
    · exact .last (bindFields name.val (some declared) fields) (.answer _)
  | ident span name =>
    refine .after (Silent.read _) ?_
    split
    · exact .answer _
    · exact .after (Silent.report _ _) (.answer _)
  | literal span value => exact .answer _
  | _ => exact .invalid rfl _ _

theorem bindFields {c : Checker} (owner : String) (declared : Option FieldTypes)
    (fields : List (Located String × Node)) :
    Notes (Check.bindFields owner declared fields) c (ofPatterns owner declared fields c) (Node.exposedFields fields) := by
  unfold Check.bindFields
  cases fields with
  | nil => exact pure _
  | cons field fields =>
    have rest (type : TypeId) (c : Checker) := (bindPattern (c := c) type field.2).bind (f := fun _ =>
      Check.bindFields owner declared fields) (bindFields owner declared fields)
    cases declared with
    | none => exact rest .any c
    | some declared => exact after (Silent.patternFieldType owner declared field.1) (rest _ _)

end

/-- The target of an assignment is a name, or it is visited like a pattern. -/
theorem assignTo {target : Node} (h : target.isTarget = true) (type : TypeId) :
    Notes (Check.assignTo target type) c (ofTarget type target c) (target :: target.exposed) := by
  cases target with
  | ident span name => exact ⟨[_], [_], [], .one .nil, rfl, rfl, .refl _, fun _ => .refl _⟩
  | construct span name fields => exact (bindPattern type _).andThen fun _ => .pure _
  | _ => cases h

/-! ### Nodes -/

mutual

/-- Inferring the type of a node visits the node and all exposed nodes inside it, each once. -/
theorem infer {c : Checker} (inPlace : Bool) {node : Node} (h : node.Sound) :
    Notes (Check.infer inPlace node) c [(.infer inPlace node, c)] (node :: node.exposed) := by
  refine Concludes.visit (v := .infer inPlace node) ?_
  have hchild {child : Node} (hc : child ∈ node.children) : child.Sound := h.child hc
  rw [NodeVisit.run]
  unfold Check.infer
  cases node with
  | literal span value | quoted span body => exact .answer _
  | ident span name => exact .finish (.nameType name span)
  | binary span op left right =>
    rw [NodeVisit.parts, Node.exposed]
    have hleft : left.Sound := hchild (by simp [Node.children])
    have hright : right.Sound := hchild (by simp [Node.children])
    exact .bind (infer false hleft) (.last (infer false hright) (.answer _))
  | unary span op operand => exact .last (infer false (hchild (by simp [Node.children]))) (.answer _)
  | assign span target value =>
    have hvalue : value.Sound := hchild (by simp [Node.children])
    refine Concludes.perm ?_ List.perm_append_comm
    exact .bind (infer false hvalue) (.last (assignTo (h.1.target rfl) _) (.answer _))
  | field span object field =>
    exact .last (infer false (hchild (by simp [Node.children]))) (.finish (.fieldType _ _))
  | call span function args =>
    have hargs : ∀ node ∈ args, node.Sound := fun _ => hchild
    refine .after (Silent.read _) (.last (inferPlaced hargs) ?_)
    split
    · exact .after (Silent.read _) (.answer _)
    · exact .finish (.namedCallType _ _ _)
  | send span receiver method args =>
    have hreceiver : receiver.Sound := hchild List.mem_cons_self
    have hargs : ∀ node ∈ args, node.Sound := fun _ hn => hchild (List.mem_cons_of_mem _ hn)
    refine .bind (infer false hreceiver) (.after (x := Check.methodType _ method) (.methodType _ _) ?_)
    rw [Silent.methodType_state]
    exact .last (inferPlaced hargs) (.finish (.methodCall _ _ _ _))
  | block span params body =>
    have hbody : ∀ node ∈ body, node.Sound := fun _ => hchild
    rw [NodeVisit.parts, Node.exposed]
    dsimp only
    split
    · exact .last (inferLast .nothing hbody) (.answer _)
    · refine .last (inScope ?_) (.finish (.modifyTypes _))
      exact after (Silent.defineParams params) ((inferLast .nothing hbody).andThen fun _ => .pure _)
  | cases span scrutinee arms =>
    have hscrutinee : scrutinee.Sound := hchild List.mem_cons_self
    have harms : ∀ arm ∈ arms, arm.2.Sound := fun arm harm =>
      hchild (List.mem_cons_of_mem _ (List.mem_flatMap.mpr ⟨arm, harm, by simp⟩))
    rw [NodeVisit.parts, Node.exposed]
    exact .bind (infer false hscrutinee) (.last (inferArms _ harms) (.finish (.read _)))
  | construct span name fields =>
    have hfields : ∀ field ∈ fields, field.2.Sound := fun field hf => hchild (List.mem_map_of_mem hf)
    rw [NodeVisit.parts, Node.exposed]
    refine .after (Silent.constructed name) ?_
    dsimp only
    generalize Check.constructed name c = found
    obtain ⟨_ | ⟨owner, declared, id⟩, c'⟩ := found
    · exact .last (inferEntries hfields) (.answer _)
    · exact .last (inferFields owner declared [] hfields) (.after (.reportMissing _ _ _ _) (.answer _))
  | typeDecl span decl => exact .after (.declareType decl) (.answer _)
  | function span head body =>
    have hbody : body.Sound := hchild (by simp [Node.children])
    refine .last (withTypeVars ?_) (.after (.modifyTypes _) (.after (.addMethod _ _) (.answer _)))
    refine after (.enterTypeParams _) (after (.resolveParams _) (after (.modifyTypes _) (after (.addMethod _ _) ?_)))
    refine (inScope (after (.forM (fun _ => .define _ _) _) (infer true hbody))).andThen fun _ => .pure _
  | capture span name | refine span name pattern => exact .invalid rfl _ _
  | array span elements =>
    exact .last (inferPlaced fun _ => hchild) (.finish (.modifyTypes _))
  | object span entries =>
    have hentries : ∀ entry ∈ entries, entry.2.Sound := fun entry he => hchild (List.mem_map_of_mem he)
    exact .last (inferEntries hentries) (.answer _)
  | pair span key value =>
    rw [NodeVisit.parts, Node.exposed]
    exact .bind (infer false (hchild (by simp [Node.children])))
      (.last (infer false (hchild (by simp [Node.children]))) (.answer _))

theorem inferPlaced {c : Checker} {nodes : List Node} (h : ∀ node ∈ nodes, node.Sound) :
    Notes (Check.inferPlaced nodes) c (inTurn nodes c) (Node.exposedAll nodes) := by
  unfold Check.inferPlaced
  cases nodes with
  | nil => exact pure _
  | cons node nodes =>
    obtain ⟨hnode, hnodes⟩ := List.forall_mem_cons.mp h
    exact (infer false hnode).bind ((inferPlaced hnodes).andThen fun _ => .pure _)

theorem inferLast {c : Checker} (last : TypeId) {nodes : List Node} (h : ∀ node ∈ nodes, node.Sound) :
    Notes (Check.inferLast last nodes) c (inTurn nodes c) (Node.exposedAll nodes) := by
  unfold Check.inferLast
  cases nodes with
  | nil => exact pure _
  | cons node nodes =>
    obtain ⟨hnode, hnodes⟩ := List.forall_mem_cons.mp h
    exact (infer false hnode).bind (inferLast _ hnodes)

theorem inferArms {c : Checker} (scrutinee : TypeId) {arms : List (Node × Node)} (h : ∀ arm ∈ arms, arm.2.Sound) :
    Notes (Check.inferArms scrutinee arms) c (ofArms scrutinee arms c) (Node.exposedArms arms) := by
  unfold Check.inferArms
  cases arms with
  | nil => exact pure _
  | cons arm arms =>
    obtain ⟨harm, harms⟩ := List.forall_mem_cons.mp h
    have harm {c : Checker} := (bindPattern (c := c) scrutinee arm.1).bind (f := fun _ => Check.infer true arm.2)
      (infer true harm)
    exact Notes.bind (inScope harm) ((inferArms scrutinee harms).andThen fun _ => .pure _)

theorem inferFields {c : Checker} (owner : String) (declared : FieldTypes) (given : List String)
    {fields : List (Located String × Node)} (h : ∀ field ∈ fields, field.2.Sound) :
    Notes (Check.inferFields owner declared given fields) c (ofFields owner declared given fields c)
      (Node.exposedFields fields) := by
  unfold Check.inferFields
  cases fields with
  | nil => exact pure _
  | cons field fields =>
    obtain ⟨hfield, hfields⟩ := List.forall_mem_cons.mp h
    obtain ⟨field, value⟩ := field
    have visited (c : Checker) : Notes (match declared.lookup field.val with
        | some type => do
          let expected := withoutVars (← MonadState.get).arena type
          let actual ← Check.infer false value
          Check.checkFieldValue owner field.val expected actual value.span
          Check.inferFields owner declared (field.val :: given) fields
        | none => do
          Check.report (.literalWithoutField owner field.val) field.span
          let _ ← Check.infer false value
          Check.inferFields owner declared (field.val :: given) fields) c
        (match declared.lookup field.val with
        | some type =>
          let expected := withoutVars c.arena type
          let (actual, after) := Check.infer false value c
          (.infer false value, c) :: ofFields owner declared (field.val :: given) fields
            (Check.checkFieldValue owner field.val expected actual value.span after).2
        | none =>
          let c := (Check.report (.literalWithoutField owner field.val) field.span c).2
          (.infer false value, c) :: ofFields owner declared (field.val :: given) fields (Check.infer false value c).2)
        (value :: value.exposed ++ Node.exposedFields fields) := by
      split
      · exact after (x := MonadState.get) (.same fun _ => ⟨rfl, rfl⟩)
          ((infer false hfield).bind (after (.checkFieldValue _ _ _ _ _) (inferFields owner declared _ hfields)))
      · exact after (.report _ _) ((infer false hfield).bind (inferFields owner declared _ hfields))
    rw [ofFields]
    dsimp only at visited ⊢
    split
    · exact after (.report _ _) (visited _)
    · exact visited c

theorem inferEntries {c : Checker} {entries : List (Located String × Node)} (h : ∀ entry ∈ entries, entry.2.Sound) :
    Notes (Check.inferEntries entries) c (inTurn (entries.map (·.2)) c) (Node.exposedFields entries) := by
  unfold Check.inferEntries
  cases entries with
  | nil => exact pure _
  | cons entry entries =>
    obtain ⟨hentry, hentries⟩ := List.forall_mem_cons.mp h
    exact (infer false hentry).bind (inferEntries hentries)

end

end Notes

end Check

end DispatchLang
