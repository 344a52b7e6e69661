import DispatchLang.Proofs.Typing.Balance
import DispatchLang.Proofs.Typing.Inference
import DispatchLang.Proofs.Typing.Mirrors
import DispatchLang.Proofs.Typing.NodeVisits

/-!
# Function declarations in a mirror

A function declaration gives a session one method and is done. The checker makes the function known twice: before it
looks at the body, so that the body may call it, and again once it knows the type of the body. Both times the signature
is the same, so the second method takes the place of the first one. What the checker adds to its arena besides are types
of functions and whatever the body mentions, of which the session knows nothing.

The body is not run, so nothing may be declared in it. Types and functions become known to the checker where they are
declared, and nowhere else: a node that no declaration stands in, outside of quoted forms, leaves the types and functions
that are known as they are. It may bind names, note types and add types to the arena.

## Main definitions

* `Node.DeclaresNothing`: no declaration stands in a node.
* `Checker.SameDeclared`: the same types and functions are known.

## Main results

* `Check.Leads.infer_sameDeclared`: a node that declares nothing leaves what is declared as it is.
* `Checker.Mirrors.grownAlone`: the checker may do what declares nothing.
* `Check.declareFunction_mirrors`: a function declaration in which nothing is found wrong is evaluated, and what is known
  afterwards is the same again.
-/

namespace DispatchLang

/-! ## Nodes that declare nothing -/

def Node.isDeclaration : Node → Bool
  | .typeDecl _ _ | .function _ _ _ => true
  | _ => false

/-- None of some nodes is a declaration, and none stands in them outside of quoted forms. -/
def Node.DeclareNothing (nodes : List Node) : Prop := ∀ n ∈ exposedAll nodes, n.isDeclaration = false

/-- A node is no declaration, and none stands in it outside of quoted forms. -/
def Node.DeclaresNothing (node : Node) : Prop := ∀ n ∈ node :: node.exposed, n.isDeclaration = false

namespace Checker

/-- The same types and functions are known, and what was found wrong before is still there. -/
structure SameDeclared (c c' : Checker) : Prop where
  types : c'.types = c.types
  functions : c'.functions = c.functions
  findings : c'.findings = [] → c.findings = []

instance : IsPreorder Checker SameDeclared where
  refl _ := ⟨rfl, rfl, id⟩
  trans _ _ _ h h' := ⟨h'.types.trans h.types, h'.functions.trans h.functions, fun hc => h.findings (h'.findings hc)⟩

end Checker

namespace Check.Leads

open Checker (SameDeclared)
open Node (DeclaresNothing DeclareNothing exposed exposedAll exposedFields exposedArms)

variable {α : Type} {x : Check α}

theorem quiet_sameDeclared (h : Quiet x) : Leads SameDeclared x := fun c => ⟨h.types c, h.functions c, h.findings c⟩

theorem report_sameDeclared (cause : FindingCause) (span : Span) : Leads SameDeclared (Check.report cause span) :=
  fun _ => ⟨rfl, rfl, fun h => absurd h (List.cons_ne_nil _ _)⟩

theorem define_sameDeclared (name : String) (type : TypeId) : Leads SameDeclared (Check.define name type) :=
  fun _ => ⟨rfl, rfl, id⟩

theorem assign_sameDeclared (name : String) (type : TypeId) : Leads SameDeclared (Check.assign name type) :=
  fun _ => ⟨rfl, rfl, id⟩

theorem inScope_sameDeclared (h : Leads SameDeclared x) : Leads SameDeclared (Check.inScope x) := fun c =>
  ⟨(h { c with scopes := [] :: c.scopes }).types, (h { c with scopes := [] :: c.scopes }).functions,
    (h { c with scopes := [] :: c.scopes }).findings⟩

/-! ## Patterns and parameters -/

mutual

theorem bindPattern_sameDeclared (type : TypeId) (pattern : Node) :
    Leads SameDeclared (Check.bindPattern type pattern) := by
  have answer {id : TypeId} : Leads SameDeclared (do
      Check.record pattern.span id
      return id) := quiet_sameDeclared ((Quiet.record _ id).bind fun _ => .pure _)
  have bound (name : Option String) {id : TypeId} : Leads SameDeclared (do
      if let some name := name then Check.define name id
      Check.record pattern.span id
      return id) := by
    cases name with
    | none => exact answer
    | some name => exact (define_sameDeclared name id).bind fun _ => answer
  unfold Check.bindPattern
  cases pattern with
  | capture span name => exact bound name
  | refine span name inner => exact (bindPattern_sameDeclared type inner).bind fun _ => bound name
  | construct span name fields =>
    refine (quiet_sameDeclared (.patternFields name.val)).bind fun _ => ?_
    split
    · exact (bindFields_sameDeclared name.val _ fields).bind fun _ => answer
    · exact (report_sameDeclared _ _).bind fun _ => (bindFields_sameDeclared name.val none fields).bind fun _ => answer
  | ident span name =>
    refine (quiet_sameDeclared (.read _)).bind fun _ => ?_
    split
    · exact answer
    · exact (report_sameDeclared _ _).bind fun _ => answer
  | literal span value => exact answer
  | _ => exact (report_sameDeclared _ _).bind fun _ => answer

theorem bindFields_sameDeclared (owner : String) (declared : Option FieldTypes) (fields : List (Located String × Node)) :
    Leads SameDeclared (Check.bindFields owner declared fields) := by
  unfold Check.bindFields
  cases fields with
  | nil => exact pure _
  | cons field fields =>
    have rest {type : TypeId} : Leads SameDeclared (do
        let _ ← Check.bindPattern type field.2
        Check.bindFields owner declared fields) :=
      (bindPattern_sameDeclared type field.2).bind fun _ => bindFields_sameDeclared owner declared fields
    cases declared with
    | none => exact rest
    | some declared => exact (quiet_sameDeclared (.patternFieldType owner declared field.1)).bind fun _ => rest

end

theorem assignTo_sameDeclared (target : Node) (type : TypeId) : Leads SameDeclared (Check.assignTo target type) := by
  cases target with
  | ident span name => exact (assign_sameDeclared name type).bind fun _ => quiet_sameDeclared (.record _ _)
  | construct _ _ _ | capture _ _ | refine _ _ _ => exact (bindPattern_sameDeclared type _).bind fun _ => pure _
  | _ => exact report_sameDeclared _ _

theorem defineParams_sameDeclared (params : List Param) : Leads SameDeclared (Check.defineParams params) := by
  induction params with
  | nil => exact pure _
  | cons p params ih =>
    exact (quiet_sameDeclared (.resolveOption p.annotation)).bind fun _ => (define_sameDeclared p.name.val _).bind fun _ =>
      ih.bind fun _ => pure _

/-! ## Nodes -/

mutual

theorem infer_sameDeclared (inPlace : Bool) {node : Node} (h : node.DeclaresNothing) :
    Leads SameDeclared (Check.infer inPlace node) := by
  have answer {id : TypeId} : Leads SameDeclared (do
      Check.record node.span id
      return id) := quiet_sameDeclared ((Quiet.record _ id).bind fun _ => .pure _)
  have finish {x : Check TypeId} (hx : Leads SameDeclared x) : Leads SameDeclared (do
      let id ← x
      Check.record node.span id
      return id) := hx.bind fun _ => answer
  obtain ⟨hself, hexposed⟩ := List.forall_mem_cons.mp h
  unfold Node.exposed at hexposed
  unfold Check.infer
  cases node with
  | typeDecl span decl | function span head body => cases hself
  | literal span value | quoted span body => exact answer
  | ident span name => exact finish (quiet_sameDeclared (.nameType name span))
  | capture span name | refine span name pattern => exact (report_sameDeclared _ _).bind fun _ => answer
  | block span params body =>
    have hbody := inferLast_sameDeclared .nothing hexposed
    dsimp only
    split
    · exact finish hbody
    · refine (inScope_sameDeclared ((defineParams_sameDeclared params).bind fun _ => hbody.bind fun _ => pure _)).bind
        fun _ => ?_
      exact finish (quiet_sameDeclared (.modifyTypes _))
  | binary span op left right =>
    obtain ⟨hleft, hright⟩ := List.forall_mem_append.mp hexposed
    exact (infer_sameDeclared false hleft).bind fun _ => (infer_sameDeclared false hright).bind fun _ => answer
  | unary span op operand => exact (infer_sameDeclared false hexposed).bind fun _ => answer
  | assign span target value =>
    obtain ⟨-, hvalue⟩ := List.forall_mem_append.mp hexposed
    exact (infer_sameDeclared false hvalue).bind fun type => (assignTo_sameDeclared target type).bind fun _ => answer
  | field span object field =>
    exact (infer_sameDeclared false hexposed).bind fun owner => finish (quiet_sameDeclared (.fieldType owner field))
  | call span function args =>
    refine (quiet_sameDeclared (.read _)).bind fun callee => (inferPlaced_sameDeclared hexposed).bind fun types => ?_
    cases callee with
    | some callee => exact get fun _ => answer
    | none => exact finish (quiet_sameDeclared (.namedCallType function.val types function.span))
  | send span receiver method args =>
    obtain ⟨hreceiver, hargs⟩ := List.forall_mem_append.mp hexposed
    refine (infer_sameDeclared false hreceiver).bind fun type => ?_
    refine (quiet_sameDeclared (.methodType type method)).followed fun c =>
      (inferPlaced_sameDeclared hargs).bind fun types => ?_
    exact finish (quiet_sameDeclared (Quiet.methodCall type method c types))
  | cases span scrutinee arms =>
    obtain ⟨hscrutinee, harms⟩ := List.forall_mem_append.mp hexposed
    refine (infer_sameDeclared false hscrutinee).bind fun type => ?_
    exact (inferArms_sameDeclared type harms).bind fun _ => get fun _ => answer
  | construct span name fields =>
    refine (quiet_sameDeclared (.constructed name)).bind fun found => ?_
    cases found with
    | some found =>
      exact (inferFields_sameDeclared _ _ _ hexposed).bind fun _ =>
        (quiet_sameDeclared (.reportMissing _ _ _ _)).bind fun _ => answer
    | none => exact (inferEntries_sameDeclared hexposed).bind fun _ => answer
  | array span elements =>
    exact (inferPlaced_sameDeclared hexposed).bind fun _ => finish (quiet_sameDeclared (.modifyTypes _))
  | object span entries => exact (inferEntries_sameDeclared hexposed).bind fun _ => answer
  | pair span key value =>
    obtain ⟨hkey, hvalue⟩ := List.forall_mem_append.mp hexposed
    exact (infer_sameDeclared false hkey).bind fun _ => (infer_sameDeclared false hvalue).bind fun _ => answer

theorem inferPlaced_sameDeclared {nodes : List Node} (h : DeclareNothing nodes) :
    Leads SameDeclared (Check.inferPlaced nodes) := by
  unfold Check.inferPlaced
  cases nodes with
  | nil => exact pure _
  | cons node nodes =>
    obtain ⟨hnode, hnodes⟩ := List.forall_mem_append.mp h
    exact (infer_sameDeclared false hnode).bind fun _ => (inferPlaced_sameDeclared hnodes).bind fun _ => pure _

theorem inferLast_sameDeclared (last : TypeId) {nodes : List Node} (h : DeclareNothing nodes) :
    Leads SameDeclared (Check.inferLast last nodes) := by
  unfold Check.inferLast
  cases nodes with
  | nil => exact pure _
  | cons node nodes =>
    obtain ⟨hnode, hnodes⟩ := List.forall_mem_append.mp h
    exact (infer_sameDeclared false hnode).bind fun _ => inferLast_sameDeclared _ hnodes

theorem inferArms_sameDeclared (scrutinee : TypeId) {arms : List (Node × Node)}
    (h : ∀ n ∈ exposedArms arms, n.isDeclaration = false) : Leads SameDeclared (Check.inferArms scrutinee arms) := by
  unfold Check.inferArms
  cases arms with
  | nil => exact pure _
  | cons arm arms =>
    obtain ⟨harm, harms⟩ := List.forall_mem_append.mp h
    obtain ⟨-, hbody⟩ := List.forall_mem_append.mp harm
    exact (inScope_sameDeclared ((bindPattern_sameDeclared scrutinee arm.1).bind fun _ =>
      infer_sameDeclared true hbody)).bind fun _ => (inferArms_sameDeclared scrutinee harms).bind fun _ => pure _

theorem inferFields_sameDeclared (owner : String) (declared : FieldTypes) (given : List String)
    {fields : List (Located String × Node)} (h : ∀ n ∈ exposedFields fields, n.isDeclaration = false) :
    Leads SameDeclared (Check.inferFields owner declared given fields) := by
  unfold Check.inferFields
  cases fields with
  | nil => exact pure _
  | cons field fields =>
    obtain ⟨hnode, hnodes⟩ := List.forall_mem_append.mp h
    have hrest := inferFields_sameDeclared owner declared (field.1.val :: given) hnodes
    have hvalue := infer_sameDeclared false hnode
    have checked {type : TypeId} : Leads SameDeclared (do
        let expected := withoutVars (← MonadState.get).arena type
        let actual ← Check.infer false field.2
        Check.checkFieldValue owner field.1.val expected actual field.2.span
        Check.inferFields owner declared (field.1.val :: given) fields) :=
      get fun _ => hvalue.bind fun _ => (quiet_sameDeclared (.checkFieldValue _ _ _ _ _)).bind fun _ => hrest
    have unchecked : Leads SameDeclared (do
        Check.report (.literalWithoutField owner field.1.val) field.1.span
        let _ ← Check.infer false field.2
        Check.inferFields owner declared (field.1.val :: given) fields) :=
      (report_sameDeclared _ _).bind fun _ => hvalue.bind fun _ => hrest
    dsimp only
    split
    · refine (report_sameDeclared _ _).bind fun _ => ?_
      split
      · exact checked
      · exact unchecked
    · split
      · exact checked
      · exact unchecked

theorem inferEntries_sameDeclared {entries : List (Located String × Node)}
    (h : ∀ n ∈ exposedFields entries, n.isDeclaration = false) : Leads SameDeclared (Check.inferEntries entries) := by
  unfold Check.inferEntries
  cases entries with
  | nil => exact pure _
  | cons entry entries =>
    obtain ⟨hnode, hnodes⟩ := List.forall_mem_append.mp h
    exact (infer_sameDeclared false hnode).bind fun _ => inferEntries_sameDeclared hnodes

end

end Check.Leads

open TypeArena

variable {f : TypeId → TypeId} {A B D : TypeArena} {names : ValueNames} {c c' : Checker} {t t' : Session}
  {vars : Bindings}

/-! ## Methods with the same signatures -/

namespace GenericFunction

variable {ι : Type} {m : Method ι} {methods : List (Method ι)}

/-- Signatures stay distinct when a method is added. -/
theorem pairwise_insertMethod (h : methods.Pairwise fun m m' => m.signature ≠ m'.signature) :
    (insertMethod m methods).Pairwise fun m m' => m.signature ≠ m'.signature := by
  induction methods with
  | nil => exact List.pairwise_singleton _ _
  | cons m' ms ih =>
    obtain ⟨hfirst, hrest⟩ := List.pairwise_cons.mp h
    rw [insertMethod]
    split
    · next heq => exact List.pairwise_cons.mpr ⟨heq ▸ hfirst, hrest⟩
    · next hne =>
      exact List.pairwise_cons.mpr
        ⟨forall_mem_insertMethod (p := fun x => m'.signature ≠ x.signature) hne hfirst, ih hrest⟩

theorem signatures_insertMethod (h : m.signature ∈ methods.map Method.signature) :
    (insertMethod m methods).map Method.signature = methods.map Method.signature := by
  induction methods with
  | nil => cases h
  | cons m' ms ih =>
    rw [insertMethod]
    split
    · next heq => rw [List.map_cons, List.map_cons, heq]
    · next hne =>
      obtain heq | hrest := List.mem_cons.mp h
      · exact absurd heq.symm hne
      · rw [List.map_cons, List.map_cons, ih hrest]

end GenericFunction

open GenericFunction (insertMethod)

/-- Methods with the same signatures are added in the same place. -/
theorem SameSignature.insertMethod {m : Method FunctionBody} {m' : Method TypeId} {methods : List (Method FunctionBody)}
    {methods' : List (Method TypeId)} (he : Embeds f A D) (hm : SameSignature f A B m m')
    (hms : List.Forall₂ (SameSignature f A B) methods methods') :
    List.Forall₂ (SameSignature f A B) (insertMethod m methods) (insertMethod m' methods') := by
  induction hms with
  | nil => exact .cons hm .nil
  | @cons first first' rest rest' hfirst hrest ih =>
    have hiff : first'.signature = m'.signature ↔ first.signature = m.signature := by
      rw [← Image.map_eq hfirst, ← Image.map_eq hm]
      exact ⟨he.map_inj (Image.all_lt hfirst).1 (Image.all_lt hm).1, congrArg _⟩
    rw [GenericFunction.insertMethod, GenericFunction.insertMethod]
    by_cases heq : first.signature = m.signature
    · rw [if_pos heq, if_pos (hiff.mpr heq)]
      exact .cons hm hrest
    · rw [if_neg heq, if_neg fun heq' => heq (hiff.mp heq')]
      exact .cons hfirst ih

theorem SameFunction.withMethod {h : Option (GenericFunction FunctionBody)} {k : Option (GenericFunction TypeId)}
    (hs : SameFunction f A B h k) (he : Embeds f A D) {m : Method FunctionBody} {m' : Method TypeId}
    (hm : SameSignature f A B m m') (hplain : m'.typeVars = [] → ∀ p ∈ m'.signature, B.hasVars p = false)
    (name : String) (cache cache' : Bool) :
    SameMethods f A B ((h.getD (.empty name cache)).withMethod m) ((k.getD (.empty name cache')).withMethod m') := by
  cases hs with
  | none => exact ⟨.cons hm .nil, List.pairwise_singleton _ _, rfl, List.forall_mem_singleton.mpr hplain⟩
  | some hs =>
    exact ⟨hm.insertMethod he hs.signatures, GenericFunction.pairwise_insertMethod hs.distinct, rfl,
      GenericFunction.forall_mem_insertMethod hplain hs.plain⟩

theorem SameMethods.again {h : GenericFunction FunctionBody} {k : GenericFunction TypeId} (hs : SameMethods f A B h k)
    {m : Method TypeId} (hmem : m.signature ∈ k.methods.map Method.signature)
    (hplain : m.typeVars = [] → ∀ p ∈ m.signature, B.hasVars p = false) : SameMethods f A B h (k.withMethod m) := by
  -- only the signatures of the methods of the checker are compared
  have hmap (l : List (Method TypeId)) : List.Forall₂ (SameSignature f A B) h.methods l ↔
      List.Forall₂ (fun m ids => List.Forall₂ (Image f A B) m.signature ids) h.methods (l.map fun m => m.signature) :=
    (List.forall₂_map_right_iff (R := fun (m : Method FunctionBody) ids =>
      List.Forall₂ (Image f A B) m.signature ids)).symm
  have hsignatures := (hmap _).mp hs.signatures
  rw [← GenericFunction.signatures_insertMethod hmem] at hsignatures
  exact { hs with signatures := (hmap _).mpr hsignatures,
                  plain := GenericFunction.forall_mem_insertMethod hplain hs.plain }

/-! ## Steps that one of both takes alone -/

/-- A name that no scope binds is not among their names. -/
theorem Check.findSome?_lookup_eq_none_iff {scopes : List (List (String × TypeId))} {name : String} :
    scopes.findSome? (·.lookup name) = none ↔ ∀ bound ∈ scopes.map (List.map Prod.fst), name ∉ bound := by
  rw [List.findSome?_eq_none_iff, List.forall_mem_map]
  refine forall₂_congr fun scope _ => ?_
  rw [List.lookup_eq_none_iff, List.mem_map, not_exists]
  exact forall_congr' fun e => by rw [bne_iff_ne, not_and, ne_comm]

namespace Checker

/-- What was found wrong before is still there. -/
def KeepsFindings (c c' : Checker) : Prop := c'.findings = [] → c.findings = []

instance : IsPreorder Checker KeepsFindings where
  refl _ := id
  trans _ _ _ h h' := fun hc => h (h' hc)

namespace Mirrors

/-- The checker may do by itself what declares nothing and leaves the scopes. -/
theorem grownAlone (h : c.Mirrors names f t vars) (hs : c'.Sound c.arena) (hd : SameDeclared c c') (he : Sealed c c') :
    ∃ g, c'.Mirrors names g t vars ∧ Retains f t.arena c.arena g t.arena c'.arena := by
  obtain ⟨g, hreflects, hretains, -⟩ := h.reflects.grown hs.extension hs.regular
  have hvars (id : TypeId) (hid : id < c.arena.size) : c'.arena.hasVars id = c.arena.hasVars id :=
    hs.extension.hasVars_eq h.reflects.regular'.indexed.toOrdered hid
  have hm := h.moved hreflects hretains hs.extension.size_le hvars hs.extension.parts_eq_nil
  refine ⟨g, ⟨hreflects, hs.known, h.rooted, fun name => ?_, fun hid => ?_, hs.declared, fun hname => ?_,
    fun hname => ?_, h.bound, fun hname => ?_⟩, hretains⟩
  · rw [he.typeVars]
    exact hm.vars name
  · rw [hd.types] at hid
    exact hm.types hid
  · rw [hd.types]
    exact h.apart hname
  · rw [hd.functions]
    exact hm.functions hname
  · have hunbound := h.unbound hname
    rw [Check.findSome?_lookup_eq_none_iff] at hunbound ⊢
    rw [show c'.scopes.map (List.map Prod.fst) = _ from he.names]
    exact hunbound

/-- What was found wrong and which types were noted plays no part. -/
theorem noted (h : c.Mirrors names f t vars) (findings : List Finding) (inferred : List (NodeKey × TypeId)) :
    Checker.Mirrors names f t vars { c with findings, inferred } :=
  have hk := h.known
  { h with known := ⟨hk.scopes, hk.types, hk.functions, hk.variants, hk.typeVars⟩ }

/-- Both may get a method with the same signature. -/
theorem declared (h : c.Mirrors names f t vars) {name : String} (hname : names.functions name)
    {m : Method FunctionBody} {m' : Method TypeId} (hm : SameSignature f t.arena c.arena m m')
    (himplementation : m'.implementation < c.arena.size)
    (hplain : m'.typeVars = [] → ∀ p ∈ m'.signature, c.arena.hasVars p = false) :
    Checker.Mirrors names f
      { t with functions := Assoc.insert name (t.declaring name m) t.functions,
               scopes := t.scopes.define ScopeTree.root name (.generic name) } vars
      (Check.addMethod name m' c).2 := by
  have hget (other : String) := ScopeTree.get?_root_define h.rooted name other (.generic name)
  refine { h with
    known := (Check.Keeps.addMethod name (Image.all_lt hm).2 himplementation h.sound).1.known
    rooted := Nat.lt_of_lt_of_eq h.rooted (ScopeTree.size_define ..).symm
    types := fun {other x} hx => ?_
    functions := fun {other} hother => ?_
    bound := fun {other k} hother hk => ?_ }
  · have hne : other ≠ name := by
      rintro rfl
      exact nomatch (h.apart (.inl hname)).symm.trans hx
    rw [Session.knownTypes, hget, if_neg hne]
    exact h.types hx
  · change SameFunction f t.arena c.arena ((Assoc.insert name _ t.functions).lookup other)
      ((Assoc.insert name _ c.functions).lookup other)
    by_cases heq : other = name
    · rw [heq, Assoc.lookup_insert_self, Assoc.lookup_insert_self]
      exact .some ((h.functions hname).withMethod h.reflects.embeds hm hplain name t.options.cache true)
    · rw [Assoc.lookup_insert_of_ne heq, Assoc.lookup_insert_of_ne heq]
      exact h.functions hother
  · rw [hget]
    by_cases heq : other = name
    · rw [if_pos heq, heq]
    · rw [if_neg heq]
      dsimp only at hk
      rw [Assoc.lookup_insert_of_ne heq] at hk
      exact h.bound hother hk

theorem declaredAgain (h : c.Mirrors names f t vars) {name : String}
    {k : GenericFunction TypeId} (hk : c.functions.lookup name = some k) {m : Method TypeId}
    (hmem : m.signature ∈ k.methods.map Method.signature) (hlt : ∀ p ∈ m.signature, p < c.arena.size)
    (himplementation : m.implementation < c.arena.size)
    (hplain : m.typeVars = [] → ∀ p ∈ m.signature, c.arena.hasVars p = false) :
    (Check.addMethod name m c).2.Mirrors names f t vars := by
  refine { h with
    known := (Check.Keeps.addMethod name hlt himplementation h.sound).1.known
    functions := fun {other} hother => ?_ }
  have hfunction := h.functions hother
  change SameFunction f t.arena c.arena (t.functions.lookup other)
    ((Assoc.insert name (((c.functions.lookup name).getD _).withMethod m) c.functions).lookup other)
  by_cases heq : other = name
  · rw [heq, Assoc.lookup_insert_self, hk, Option.getD_some]
    rw [heq, hk] at hfunction
    generalize t.functions.lookup name = known at hfunction ⊢
    cases hfunction with
    | some hs => exact .some (hs.again hmem hplain)
  · rwa [Assoc.lookup_insert_of_ne heq]

end Mirrors

end Checker

namespace Check

open Checker (KeepsFindings SameDeclared Sealed Balanced)

namespace Tracks

variable {α β γ δ : Type} {x : Check α} {y : Eval β} {P : Checker → Session → α → β → Prop}

theorem alone {f : α → Check γ} {Q : Checker → Session → γ → β → Prop} (h : Tracks c t x y P)
    (hf : ∀ a, Leads KeepsFindings (f a))
    (hq : ∀ c' t' a b, P c' t' a b → Q (f a c').2 t' (f a c').1 b) : Tracks c t (x >>= f) y Q := by
  intro hclean
  obtain ⟨b, t', hy, hp⟩ := h (hf _ _ hclean)
  exact ⟨b, t', hy, hq _ _ _ _ hp⟩

/-- Steps may be sequenced if what has been found wrong after the first ones is still there in the end. -/
theorem thenKept {f : α → Check γ} {g : β → Eval δ} {Q : Checker → Session → γ → δ → Prop} (h : Tracks c t x y P)
    (hf : ∀ a, Leads KeepsFindings (f a)) (hstep : ∀ c' t' a b, P c' t' a b → Tracks c' t' (f a) (g b) Q) :
    Tracks c t (x >>= f) (y >>= g) Q := by
  intro hclean
  obtain ⟨b, t', hy, hp⟩ := h (hf _ _ hclean)
  obtain ⟨d, t'', hg, hq⟩ := hstep _ _ _ _ hp hclean
  exact ⟨d, t'', (Eval.bind_of_ok hy).trans hg, hq⟩

end Tracks

/-! ## Function declarations -/

def inferBody (head : FunctionHead) (body : Node) (params : List TypeId) : Check TypeId := inScope do
  ((head.params.map (·.name.val)).zip params).forM fun (name, type) => define name type
  infer true body

/-- Makes a function known with a type in which the result is not known yet, and infers the type of the body. -/
def announce (head : FunctionHead) (body : Node) (vars params : List TypeId) :
    Check (List TypeId × List TypeId × TypeId) := do
  let provisional ← modifyTypes (·.function params .any)
  addMethod head.name.val ⟨vars, params, provisional⟩
  let result ← inferBody head body params
  return (vars, params, result)

/-- Makes a function known within its type variables. -/
def declareHead (head : FunctionHead) (body : Node) : Check (List TypeId × List TypeId × TypeId) := do
  let vars ← enterTypeParams head.typeParams
  let params ← resolveParams head.params
  announce head body vars params

/-- Makes a function known with the type of its body. -/
def declareResult (name : String) (span : Span) (vars params : List TypeId) (result : TypeId) : Check TypeId := do
  let type ← modifyTypes (·.function params result)
  addMethod name ⟨vars, params, type⟩
  record span type
  return type

theorem infer_function (inPlace : Bool) (span : Span) (head : FunctionHead) (body : Node) :
    infer inPlace (.function span head body) = (do
      let (vars, params, result) ← withTypeVars (declareHead head body)
      declareResult head.name.val span vars params result) := by
  unfold infer
  rfl

/-! ### Which steps declare nothing, and which keep what was found -/

theorem Silent.keepsFindings {α : Type} {x : Check α} (h : Silent x) : Leads KeepsFindings x := fun c hc => by
  have hsuffix := (h c).findings
  rw [hc] at hsuffix
  exact List.suffix_nil.mp hsuffix

section

variable {base : TypeArena} {head : FunctionHead} {body : Node} {params : List TypeId}

theorem inferBody_sameDeclared (hbody : body.DeclaresNothing) : Leads SameDeclared (inferBody head body params) := by
  refine .inScope_sameDeclared (.bind ?_ fun _ => .infer_sameDeclared true hbody)
  generalize (head.params.map (·.name.val)).zip params = entries
  induction entries with
  | nil => exact .pure _
  | cons entry entries ih => exact (Leads.define_sameDeclared _ _).bind fun _ => ih

theorem inferBody_sealed : Leads Sealed (inferBody head body params) :=
  .inScope ((Leads.defineAll _).bind fun _ => .infer true body)

theorem inferBody_sound (head : FunctionHead) (body : Node) (hs : c.Sound base) (hp : typesBelow c.arena.size params) :
    (inferBody head body params c).2.Sound base ∧ c.arena.size ≤ (inferBody head body params c).2.arena.size ∧
      (inferBody head body params c).1 < (inferBody head body params c).2.arena.size := by
  have hparams : namedBelow c.arena.size ((head.params.map (·.name.val)).zip params) := fun e he =>
    hp e.2 (List.of_mem_zip he).2
  have hdefined : Keeps base { c with scopes := [] :: c.scopes }
      (((head.params.map (·.name.val)).zip params).forM fun (name, type) => define name type) anyAnswer :=
    .forM (fun _ e he => .define e.1 he) hparams
  exact Keeps.inScope (hdefined.bind fun _ _ _ _ => .infer true body) hs

theorem announce_keepsFindings (hbody : body.DeclaresNothing) (vars : List TypeId) :
    Leads KeepsFindings (announce head body vars params) :=
  (Silent.modifyTypes _).keepsFindings.bind fun _ => (Silent.addMethod _ _).keepsFindings.bind fun _ =>
    ((inferBody_sameDeclared hbody).mono (S := KeepsFindings) fun h => h.findings).bind fun _ => .pure _

theorem declareHead_keepsFindings (hbody : body.DeclaresNothing) :
    Leads KeepsFindings (withTypeVars (declareHead head body)) := fun c =>
  (((Silent.enterTypeParams _).keepsFindings.bind fun _ => (Silent.resolveParams _).keepsFindings.bind fun _ =>
    announce_keepsFindings hbody _) : Leads KeepsFindings (declareHead head body)) c

theorem declareResult_keepsFindings (name : String) (span : Span) (vars : List TypeId) (result : TypeId) :
    Leads KeepsFindings (declareResult name span vars params result) :=
  (Silent.modifyTypes _).keepsFindings.bind fun _ => (Silent.addMethod _ _).keepsFindings.bind fun _ =>
    fun _ => id

end

/-! ### What is known after them -/

/-- A function is known with a method of the given type variables and parameters. -/
structure Announced (names : ValueNames) (vars : Bindings) (name : String) (ids params : List TypeId) (c' : Checker)
    (t' : Session) : Prop where
  mirrors : ∃ g, c'.Mirrors names g t' vars
  known : ∃ k, c'.functions.lookup name = some k ∧ params ∈ k.methods.map Method.signature
  below : ∀ p ∈ params, p < c'.arena.size
  plain : ids = [] → ∀ p ∈ params, c'.arena.hasVars p = false

section

variable {head : FunctionHead} {body : Node} {name : String} {ids params : List TypeId} {result : TypeId}
  {m : Method FunctionBody}

/-- What the checker does by itself leaves a function known that it does not declare anew. -/
theorem Announced.grownAlone (h : Announced names vars name ids params c t) (hs : c'.Sound c.arena)
    (hd : SameDeclared c c') (he : Sealed c c') : Announced names vars name ids params c' t := by
  obtain ⟨f, hm⟩ := h.mirrors
  obtain ⟨k, hk, hmem⟩ := h.known
  obtain ⟨g, hgrown, -⟩ := hm.grownAlone hs hd he
  refine ⟨⟨g, hgrown⟩, ⟨k, by rw [hd.functions, hk], hmem⟩, typesBelow.mono h.below hs.extension.size_le,
    fun hnone p hp => ?_⟩
  rw [hs.extension.hasVars_eq hm.reflects.regular'.indexed.toOrdered (h.below p hp)]
  exact h.plain hnone p hp

/-- The checker makes known what a session declares. -/
theorem provisional_announced (h : c.Mirrors names f t vars) (hname : names.functions name)
    (hsignature : List.Forall₂ (Image f t.arena c.arena) m.signature params)
    (hplain : ids = [] → ∀ p ∈ params, c.arena.hasVars p = false) (hresult : result < c.arena.size) :
    Announced names vars name ids params (addMethod name ⟨ids, params, result⟩ c).2
      { t with functions := Assoc.insert name (t.declaring name m) t.functions,
               scopes := t.scopes.define ScopeTree.root name (.generic name) } :=
  ⟨⟨f, h.declared hname hsignature hresult hplain⟩,
    ⟨_, Assoc.lookup_insert_self .., List.mem_map_of_mem (GenericFunction.mem_insertMethod _ _)⟩,
    (Image.all_lt hsignature).2, hplain⟩

/-- The checker makes a function known and looks at its body, while a session declares it. -/
theorem announce_announced (h : c.Mirrors names f t vars) (hname : names.functions head.name.val)
    (hbody : body.DeclaresNothing) (hsignature : List.Forall₂ (Image f t.arena c.arena) m.signature params)
    (hplain : ids = [] → ∀ p ∈ params, c.arena.hasVars p = false) :
    Announced names vars head.name.val ids params (announce head body ids params c).2
        { t with functions := Assoc.insert head.name.val (t.declaring head.name.val m) t.functions,
                 scopes := t.scopes.define ScopeTree.root head.name.val (.generic head.name.val) } ∧
      (announce head body ids params c).1.2.2 < (announce head body ids params c).2.arena.size := by
  have hlt := (Image.all_lt hsignature).2
  obtain ⟨hsound, -, htype⟩ := Keeps.function hlt (Keeps.any_below h.sound.builtin) h.sound
  obtain ⟨g, hadded, hretains⟩ := h.grownAlone hsound (Leads.quiet_sameDeclared (.modifyTypes _) c)
    (Leads.still (.modifyTypes _) c)
  have hknown := provisional_announced (m := m) hadded hname (hretains.all hsignature) (fun hnone p hp =>
    (hsound.extension.hasVars_eq h.reflects.regular'.indexed.toOrdered (hlt p hp)).trans (hplain hnone p hp)) htype
  obtain ⟨k, hm⟩ := hknown.mirrors
  obtain ⟨hsound', -, hresult⟩ := inferBody_sound head body hm.sound hknown.below
  exact ⟨hknown.grownAlone hsound' (inferBody_sameDeclared hbody _) (inferBody_sealed _), hresult⟩

/-- A function may be made known again with the type of its result. -/
theorem declareResult_mirrors (h : Announced names vars name ids params c t) (hresult : result < c.arena.size)
    (span : Span) : ∃ g, (declareResult name span ids params result c).2.Mirrors names g t vars := by
  obtain ⟨f, hm⟩ := h.mirrors
  obtain ⟨hsound, -, htype⟩ := Keeps.function h.below hresult hm.sound
  have hgrown := h.grownAlone hsound (Leads.quiet_sameDeclared (.modifyTypes _) c) (Leads.still (.modifyTypes _) c)
  obtain ⟨g, hadded⟩ := hgrown.mirrors
  obtain ⟨k, hk, hmem⟩ := hgrown.known
  have hagain := hadded.declaredAgain hk (m := ⟨ids, params, _⟩) hmem hgrown.below htype hgrown.plain
  exact ⟨g, hagain.noted _ _⟩

end

/-- **A function declaration in which the checker finds nothing wrong is evaluated**, and what is known afterwards is the
same again. -/
theorem declareFunction_mirrors (h : c.Mirrors names f t []) {head : FunctionHead} {body : Node}
    (hname : names.functions head.name.val) (hbody : body.DeclaresNothing) (inPlace : Bool) (span : Span) :
    Tracks c t (infer inPlace (.function span head body)) (Dispatch.declareFunction head body ScopeTree.root)
      fun c' t' _ _ => ∃ g, c'.Mirrors names g t' [] := by
  have hwithin : Tracks c t (withTypeVars (declareHead head body)) (Dispatch.declareFunction head body ScopeTree.root)
      fun c' t' answer _ => Announced names [] head.name.val answer.1 answer.2.1 c' t' ∧ answer.2.2 < c'.arena.size := by
    suffices hinner : Tracks c t (declareHead head body) (Dispatch.declareFunction head body ScopeTree.root)
        fun c' t' answer _ => ∃ vars, Announced names vars head.name.val answer.1 answer.2.1 c' t' ∧
          answer.2.2 < c'.arena.size by
      intro hclean
      obtain ⟨value, t', hrun, vars, hannounced, hresult⟩ := hinner hclean
      obtain ⟨g, hm⟩ := hannounced.mirrors
      have houtside : Checker.Mirrors names g t' [] { (declareHead head body c).2 with typeVars := c.typeVars } := by
        rw [h.typeVars_eq_nil]
        exact hm.outside
      exact ⟨value, t', hrun, ⟨⟨g, houtside⟩, hannounced.known, hannounced.below, hannounced.plain⟩, hresult⟩
    refine (enterTypeParams_mirrors h head.typeParams).thenKept (fun _ => (Silent.resolveParams _).keepsFindings.bind
      fun _ => announce_keepsFindings hbody _) fun c₁ t₁ ids vars he => ?_
    obtain ⟨g, hm, -⟩ := he.mirrors
    refine (resolveParams_mirrors hm head.params).thenKept (fun _ => announce_keepsFindings hbody _)
      fun c₂ t₂ params signature hmeant _ => ?_
    obtain ⟨k, ha, hsignature, hplain⟩ := hmeant
    refine ⟨_, _, rfl, vars, announce_announced (ha.mirrors hm) hname hbody hsignature fun hnone => ?_⟩
    obtain ⟨htypeVars, harena⟩ := he.none hnone
    have hsame : c₁ = c := by rw [he.checker, htypeVars, harena]
    exact hplain (hsame ▸ h.namesPlain)
  rw [infer_function]
  exact hwithin.alone (fun _ => declareResult_keepsFindings _ _ _ _) fun _ _ _ _ hannounced =>
    declareResult_mirrors hannounced.1 hannounced.2 span

end Check

end DispatchLang
