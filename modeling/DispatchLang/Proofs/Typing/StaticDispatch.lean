import DispatchLang.Proofs.Typing.AcceptedConstructions
import DispatchLang.Proofs.Typing.CleanPrograms
import DispatchLang.Proofs.Typing.MirroredArguments
import DispatchLang.Proofs.Typing.ResolvedCalls

/-!
# Static and dynamic dispatch agree

A program of declarations is followed by a call of a declared function. If the checker finds nothing wrong in the
declarations and the arguments can be evaluated, then the checker finds something wrong in the call exactly if the call
cannot be resolved when it is run, and otherwise it types the call by the method that is run.

The two decide in arenas of their own. After the declarations the checker mirrors the session, and so it does after the
arguments; so the types of the arguments and the signatures of the methods are images of each other, and resolution does
not look at the indices under which types are kept. For this the names of functions and alternatives have to be kept apart
from each other, from those of types and from the built-in names.

## Main definitions

* `Node.Declares`: a node is a declaration in which no other one stands.
* `Program.KeepsApart`: the names that a program declares are kept apart.
* `Dispatch.proceed`: what a call of a function does once it has been resolved.

## Main results

* `Checker.initial_mirrors`: the first checker mirrors a fresh session.
* `Check.declarations_mirror`: a program of declarations in which nothing is found wrong runs to its end, and the checker
  mirrors the session.
* `Eval.eval_call`: a call of a function resolves the call and proceeds.
* `Checker.Mirrors.selected_index`: a checker selects the method that a session chooses.
* `Session.static_dispatch_agrees`: static and dynamic dispatch agree after a program of declarations.
-/

namespace DispatchLang

open TypeArena

variable {f : TypeId → TypeId} {names : ValueNames} {c c' : Checker} {t : Session}

/-! ## Declarations -/

namespace Node

def Declares : Node → Prop
  | .typeDecl _ _ => True
  | .function _ _ body => body.DeclaresNothing
  | _ => False

def typeNames : Node → List String
  | .typeDecl _ decl => [decl.name.val]
  | _ => []

def variantNames : Node → List String
  | .typeDecl _ decl => decl.variantNames
  | _ => []

def functionNames : Node → List String
  | .function _ head _ => [head.name.val]
  | _ => []

end Node

/-- The names of functions, alternatives and types that a program declares are kept apart, and no function or alternative
has a built-in name. A function may be declared several times. -/
structure Program.KeepsApart (program : Program) : Prop where
  functions : ∀ name ∈ program.flatMap Node.functionNames,
    name ∉ program.flatMap Node.variantNames ∧ name ∉ program.flatMap Node.typeNames ∧ name ∉ Session.builtinNames
  variants : ∀ name ∈ program.flatMap Node.variantNames,
    name ∉ program.flatMap Node.typeNames ∧ name ∉ Session.builtinNames

/-- The names of the functions and alternatives that a program declares. -/
def Program.KeepsApart.valueNames {program : Program} (h : program.KeepsApart) : ValueNames where
  functions name := name ∈ program.flatMap Node.functionNames
  variants name := name ∈ program.flatMap Node.variantNames
  distinct hname := (h.functions _ hname).1

namespace ValueNames

/-- What a declaration declares has names of the right sort. -/
def Allows (names : ValueNames) : Node → Prop
  | .typeDecl _ decl => names.Admits decl
  | .function _ head _ => names.functions head.name.val
  | _ => True

/-- None of the names is a built-in one. -/
def Fresh (names : ValueNames) : Prop := ∀ name, names.Has name → name ∉ Session.builtinNames

end ValueNames

theorem Program.KeepsApart.allows {program : Program} (h : program.KeepsApart) :
    ∀ node ∈ program, h.valueNames.Allows node := by
  intro node hnode
  cases node with
  | typeDecl span decl =>
    have hown : decl.name.val ∈ program.flatMap Node.typeNames :=
      List.mem_flatMap.mpr ⟨_, hnode, List.mem_singleton_self _⟩
    refine ⟨?_, fun name hname => List.mem_flatMap.mpr ⟨_, hnode, hname⟩⟩
    rintro (hfunction | hvariant)
    · exact (h.functions _ hfunction).2.1 hown
    · exact (h.variants _ hvariant).1 hown
  | function span head body => exact List.mem_flatMap.mpr ⟨_, hnode, List.mem_singleton_self _⟩
  | _ => trivial

theorem Program.KeepsApart.fresh {program : Program} (h : program.KeepsApart) : h.valueNames.Fresh := by
  rintro name (hname | hname)
  · exact (h.functions name hname).2.2
  · exact (h.variants name hname).2

/-! ## The beginning -/

theorem Checker.initial_mirrors (hfresh : names.Fresh) (options : Options) :
    ∃ f, Checker.initial.Mirrors names f (Session.fresh .dispatch options) [] := by
  obtain ⟨hscopes, htypeVars, htypes⟩ : Checker.initial.scopes = [[]] ∧ Checker.initial.typeVars = [] ∧
      Checker.initial.types = Checker.bare.types := by decide +kernel
  have hlisted : ∀ name ∈ Checker.initial.types.map Prod.fst ++ Checker.initial.functions.map Prod.fst,
      name ∈ Session.builtinNames := by decide +kernel
  have hfunctionNames : ∀ name ∈ Direct.functionNames, name ∈ Session.builtinNames := by decide
  have hbound : ∀ entry ∈ Checker.bare.types, entry.2 < builtinTypes.length ∧
      (Session.fresh .dispatch .standard).knownTypes ScopeTree.root entry.1 = some entry.2 := by decide
  have hunlisted {α : Type} {entries : List (String × α)} {name : String}
      (h : ∀ other ∈ entries.map Prod.fst, other ∈ Session.builtinNames) (hname : names.Has name) :
      entries.lookup name = none := by
    cases hl : entries.lookup name with
    | none => rfl
    | some value => exact absurd (h _ (List.mem_map_of_mem (Assoc.mem_of_lookup hl))) (hfresh name hname)
  have hsound := initial_sound
  have hbuiltin {name : String} {id : TypeId} (hid : initial.types.lookup name = some id) :
      id < builtinTypes.length ∧ (Session.fresh .dispatch options).knownTypes ScopeTree.root name = some id := by
    rw [htypes] at hid
    obtain ⟨hlt, hknown⟩ := hbound _ (Assoc.mem_of_lookup hid)
    rw [Session.knownTypes, Session.scopes_fresh] at hknown ⊢
    exact ⟨hlt, hknown⟩
  -- a session begins with the built-in types and those of elements, the checker with more
  obtain ⟨f, -, hembeds⟩ := Regular.initial.embeds_withElements hsound.regular hsound.extension.embeds
  have hreflects : Reflects f (Session.fresh .dispatch options).arena initial.arena :=
    ⟨Session.fresh_regular options, hsound.regular, hembeds⟩
  have hnone {name : String} (hname : names.functions name) :
      (Session.fresh .dispatch options).functions.lookup name = none := by
    refine hunlisted (List.forall_mem_map.mpr fun e he => ?_) (.inl hname)
    rw [Session.functions_fresh] at he
    exact hfunctionNames _ (functions_builtin _ e he).1
  obtain ⟨hlistedTypes, hlistedFunctions⟩ := List.forall_mem_append.mp hlisted
  refine ⟨f, hreflects, hsound.self.known, ?_, fun name => .inl ⟨rfl, by rw [htypeVars]; rfl⟩, fun hid => ?_,
    hsound.declared, hunlisted hlistedTypes, fun hname => ?_, fun hname hk => ?_, fun _ => by rw [hscopes]; rfl⟩
  · rw [Session.scopes_fresh]
    decide
  · exact ⟨_, (hbuiltin hid).2, hreflects.image_builtin (hbuiltin hid).1⟩
  · rw [hnone hname, hunlisted hlistedFunctions (.inl hname)]
    exact .none
  · rw [hnone hname] at hk
    cases hk

namespace Check

open Checker (KeepsFindings)

/-! ## Declarations one after the other -/

/-- A declaration takes back nothing of what was found wrong. -/
theorem infer_keepsFindings {node : Node} (h : node.Declares) (inPlace : Bool) :
    Leads KeepsFindings (infer inPlace node) := by
  cases node with
  | typeDecl span decl =>
    unfold infer
    exact (Silent.declareType decl).keepsFindings.bind fun _ => fun _ => id
  | function span head body =>
    rw [infer_function]
    exact (declareHead_keepsFindings h).bind fun _ => declareResult_keepsFindings _ _ _ _
  | _ => cases h

theorem inferPlaced_keepsFindings {nodes : List Node} (h : ∀ node ∈ nodes, node.Declares) :
    Leads KeepsFindings (inferPlaced nodes) := by
  induction nodes with
  | nil => exact .pure _
  | cons node nodes ih =>
    obtain ⟨hnode, hnodes⟩ := List.forall_mem_cons.mp h
    exact (infer_keepsFindings hnode false).bind fun _ => (ih hnodes).bind fun _ => .pure _

/-- A declaration in which nothing is found wrong is evaluated. -/
theorem declaration_mirrors (h : c.Mirrors names f t []) {node : Node} (hdeclares : node.Declares)
    (hallowed : names.Allows node) (n : Nat) :
    Tracks c t (infer false node) (Eval.eval .dispatch (n + 1) node ScopeTree.root) fun c' t' _ _ =>
      ∃ g, c'.Mirrors names g t' [] := by
  cases node with
  | typeDecl span decl =>
    intro hclean
    obtain ⟨value, t', hrun, g, hm⟩ := declareType_mirrors h hallowed (by unfold infer at hclean; exact hclean)
    refine ⟨value, t', Eval.located_ok.mpr hrun, g, ?_⟩
    unfold infer
    exact hm.noted _ _
  | function span head body =>
    intro hclean
    obtain ⟨value, t', hrun, hm⟩ := declareFunction_mirrors h hallowed hdeclares false span hclean
    exact ⟨value, t', Eval.located_ok.mpr hrun, hm⟩
  | _ => cases hdeclares

/-- **A program of declarations in which nothing is found wrong runs to its end**, and what is known afterwards is the
same. -/
theorem declarations_mirror (h : c.Mirrors names f t []) {nodes : List Node} (hdeclares : ∀ node ∈ nodes, node.Declares)
    (hallowed : ∀ node ∈ nodes, names.Allows node) (n : Nat) (last : Value) :
    Tracks c t (inferPlaced nodes) (Eval.runStatements (Eval.eval .dispatch (n + 1)) ScopeTree.root last nodes)
      fun c' t' _ _ => ∃ g, c'.Mirrors names g t' [] := by
  induction nodes generalizing f c t last with
  | nil => exact .pure ⟨f, h⟩
  | cons node nodes ih =>
    obtain ⟨hnode, hnodes⟩ := List.forall_mem_cons.mp hdeclares
    obtain ⟨hfirst, hrest⟩ := List.forall_mem_cons.mp hallowed
    rw [inferPlaced, Eval.runStatements]
    refine (declaration_mirrors h hnode hfirst n).thenKept
      (fun _ => (inferPlaced_keepsFindings hnodes).bind fun _ => .pure _) fun c' t' type value hmirrors => ?_
    obtain ⟨g, hm⟩ := hmirrors
    exact (ih hm hnodes hrest value).answers fun _ _ _ _ hm => hm

end Check

/-! ## Names that stay known -/

namespace Checker

/-- The names of types and functions that were known still are. -/
structure KeepsNames (c c' : Checker) : Prop where
  types : ∀ name, (c.types.lookup name).isSome = true → (c'.types.lookup name).isSome = true
  functions : ∀ name, (c.functions.lookup name).isSome = true → (c'.functions.lookup name).isSome = true

instance : IsPreorder Checker KeepsNames where
  refl _ := ⟨fun _ => id, fun _ => id⟩
  trans _ _ _ h h' :=
    ⟨fun name hn => h'.types name (h.types name hn), fun name hn => h'.functions name (h.functions name hn)⟩

end Checker

/-- A name that is in a list is there after something has been put into it. -/
theorem Assoc.isSome_lookup_insert {α : Type} (name : String) (value : α) (entries : List (String × α)) {other : String}
    (h : (entries.lookup other).isSome = true) : ((Assoc.insert name value entries).lookup other).isSome = true := by
  by_cases heq : other = name
  · rw [heq, lookup_insert_self]
    rfl
  · rwa [lookup_insert_of_ne heq]

namespace Check

open Checker (KeepsNames SameDeclared)

namespace Leads

variable {α : Type} {x : Check α}

theorem same_keepsNames (h : ∀ c, (x c).2.types = c.types ∧ (x c).2.functions = c.functions) : Leads KeepsNames x :=
  fun c => ⟨fun _ hn => by rwa [(h c).1], fun _ hn => by rwa [(h c).2]⟩

theorem quiet_keepsNames (h : Quiet x) : Leads KeepsNames x := same_keepsNames fun c => ⟨h.types c, h.functions c⟩

theorem addMethod_keepsNames (name : String) (m : Method TypeId) : Leads KeepsNames (Check.addMethod name m) := fun c =>
  ⟨fun _ => id, fun _ => Assoc.isSome_lookup_insert _ _ c.functions⟩

theorem defineType_keepsNames (name : String) (type : TypeId) : Leads KeepsNames (Check.defineType name type) := fun c =>
  ⟨fun _ => Assoc.isSome_lookup_insert _ _ c.types, fun _ => id⟩

theorem enterTypeParams_keepsNames (params : List TypeParam) : Leads KeepsNames (Check.enterTypeParams params) := by
  induction params with
  | nil => exact pure _
  | cons p params ih =>
    exact (quiet_keepsNames (.resolveOption _)).bind fun _ => (quiet_keepsNames (.modifyTypes _)).bind fun _ =>
      (same_keepsNames fun _ => ⟨rfl, rfl⟩).bind fun _ => ih.bind fun _ => pure _

theorem declareVariants_keepsNames (vars : List TypeId) (type : TypeId) (alternatives : List VariantDecl) :
    Leads KeepsNames (Check.declareVariants vars type alternatives) := by
  induction alternatives with
  | nil => exact pure _
  | cons v alternatives ih =>
    rw [Check.declareVariants]
    refine (quiet_keepsNames (.resolveFields _)).bind fun fields => Leads.bind ?_ fun _ => ih.bind fun _ => pure _
    rw [Check.declareVariant]
    split
    · exact (same_keepsNames fun _ => ⟨rfl, rfl⟩).bind fun _ => same_keepsNames fun _ => ⟨rfl, rfl⟩
    · exact (quiet_keepsNames (.modifyTypes _)).bind fun _ => (addMethod_keepsNames _ _).bind fun _ =>
        same_keepsNames fun _ => ⟨rfl, rfl⟩

theorem declareWithin_keepsNames (decl : TypeDecl) : Leads KeepsNames (Check.declareWithin decl) := by
  refine (enterTypeParams_keepsNames _).bind fun vars => (quiet_keepsNames (.resolveOption _)).bind fun parent => ?_
  rw [Check.addDeclared]
  dsimp only
  split
  · exact quiet_keepsNames (.modifyTypes _)
  · exact quiet_keepsNames (.modifyTypes _)
  · exact (quiet_keepsNames (.modifyTypes _)).bind fun id => (defineType_keepsNames _ id).bind fun _ =>
      (quiet_keepsNames (.resolveFields _)).bind fun _ => (same_keepsNames fun _ => ⟨rfl, rfl⟩).bind fun _ => pure _
  · exact (quiet_keepsNames (.modifyTypes _)).bind fun id => (defineType_keepsNames _ id).bind fun _ =>
      (declareVariants_keepsNames _ _ _).bind fun _ => (same_keepsNames fun _ => ⟨rfl, rfl⟩).bind fun _ => pure _

theorem declareHead_keepsNames (head : FunctionHead) {body : Node} (h : body.DeclaresNothing) :
    Leads KeepsNames (Check.declareHead head body) :=
  (enterTypeParams_keepsNames _).bind fun _ => (quiet_keepsNames (.resolveParams _)).bind fun _ =>
    (quiet_keepsNames (.modifyTypes _)).bind fun _ => (addMethod_keepsNames _ _).bind fun _ =>
      (same_keepsNames fun c => ⟨(inferBody_sameDeclared h c).types, (inferBody_sameDeclared h c).functions⟩).bind
        fun _ => pure _

end Leads

theorem infer_keepsNames {node : Node} (h : node.Declares) (c : Checker) :
    KeepsNames c (infer false node c).2 ∧
      (∀ name ∈ node.typeNames, ((infer false node c).2.types.lookup name).isSome = true) ∧
      ∀ name ∈ node.functionNames, ((infer false node c).2.functions.lookup name).isSome = true := by
  cases node with
  | typeDecl span decl =>
    have hrun : infer false (.typeDecl span decl) = (do
        declareType decl
        record span .type
        return .type) := by
      unfold infer
      rfl
    rw [hrun, declareType_eq]
    have hwithin : Leads KeepsNames (withTypeVars (declareWithin decl)) := fun c =>
      ⟨(Leads.declareWithin_keepsNames decl c).types, (Leads.declareWithin_keepsNames decl c).functions⟩
    refine ⟨((hwithin.bind fun _ => Leads.defineType_keepsNames _ _).bind fun _ =>
        Leads.same_keepsNames fun _ => ⟨rfl, rfl⟩) c,
      List.forall_mem_singleton.mpr ?_, List.forall_mem_nil _⟩
    exact congrArg Option.isSome (Assoc.lookup_insert_self ..)
  | function span head body =>
    rw [infer_function]
    have hwithin : Leads KeepsNames (withTypeVars (declareHead head body)) := fun c =>
      ⟨(Leads.declareHead_keepsNames head h c).types, (Leads.declareHead_keepsNames head h c).functions⟩
    refine ⟨(hwithin.bind fun answer => (Leads.quiet_keepsNames (.modifyTypes _)).bind fun _ =>
      (Leads.addMethod_keepsNames _ _).bind fun _ => Leads.same_keepsNames fun _ => ⟨rfl, rfl⟩) c, List.forall_mem_nil _,
      List.forall_mem_singleton.mpr ?_⟩
    exact congrArg Option.isSome (Assoc.lookup_insert_self ..)
  | _ => cases h

theorem declared_known {nodes : List Node} (h : ∀ node ∈ nodes, node.Declares) (c : Checker) :
    KeepsNames c (inferPlaced nodes c).2 ∧
      (∀ name ∈ nodes.flatMap Node.typeNames, ((inferPlaced nodes c).2.types.lookup name).isSome = true) ∧
      ∀ name ∈ nodes.flatMap Node.functionNames, ((inferPlaced nodes c).2.functions.lookup name).isSome = true := by
  induction nodes generalizing c with
  | nil =>
    rw [inferPlaced]
    exact ⟨⟨fun _ => id, fun _ => id⟩, List.forall_mem_nil _, List.forall_mem_nil _⟩
  | cons node nodes ih =>
    obtain ⟨hnode, hnodes⟩ := List.forall_mem_cons.mp h
    obtain ⟨hfirst, htypes, hfunctions⟩ := infer_keepsNames hnode c
    obtain ⟨hrest, htypes', hfunctions'⟩ := ih hnodes (infer false node c).2
    have hrun : (inferPlaced (node :: nodes) c).2 = (inferPlaced nodes (infer false node c).2).2 := by
      rw [inferPlaced]
      rfl
    rw [hrun, List.flatMap_cons, List.flatMap_cons]
    exact ⟨IsTrans.trans _ _ _ hfirst hrest,
      List.forall_mem_append.mpr ⟨fun name hname => hrest.types name (htypes name hname), htypes'⟩,
      List.forall_mem_append.mpr ⟨fun name hname => hrest.functions name (hfunctions name hname), hfunctions'⟩⟩

/-! ## Calls in a checker -/

/-- The last node of a program is looked at after all others. -/
theorem inferPlaced_concat (nodes : List Node) (node : Node) (c : Checker) :
    inferPlaced (nodes ++ [node]) c =
      ((inferPlaced nodes c).1 ++ [((infer false node (inferPlaced nodes c).2).1, node.span)],
        (infer false node (inferPlaced nodes c).2).2) := by
  induction nodes generalizing c with
  | nil =>
    rw [List.nil_append, inferPlaced]
    rfl
  | cons first nodes ih =>
    rw [List.cons_append, inferPlaced, inferPlaced]
    change ((_, first.span) :: (inferPlaced (nodes ++ [node]) (infer false first c).2).1,
      (inferPlaced (nodes ++ [node]) (infer false first c).2).2) = _
    rw [ih]
    rfl

/-- How the checker looks at a call of a function that no variable hides. -/
theorem infer_call {function : Located String} {args : List Node} {k : GenericFunction TypeId}
    (hunbound : c.scopes.findSome? (·.lookup function.val) = none)
    (hk : (inferPlaced args c).2.functions.lookup function.val = some k) (span : Span) :
    let answer := callType k (inferPlaced args c).1 function.span (inferPlaced args c).2
    infer false (.call span function args) c =
      (answer.1, { answer.2 with inferred := (span.key, answer.1) :: answer.2.inferred }) := by
  have hnamed : namedCallType function.val (inferPlaced args c).1 function.span (inferPlaced args c).2 =
      callType k (inferPlaced args c).1 function.span (inferPlaced args c).2 := by
    have hfunction : lookupFunction function.val (inferPlaced args c).2 = (some k, (inferPlaced args c).2) :=
      congrArg (·, (inferPlaced args c).2) hk
    rw [namedCallType, bind_run, hfunction]
  have hlookup : Check.lookup function.val c = (none, c) := by
    change (c.scopes.findSome? (·.lookup function.val), c) = _
    rw [hunbound]
  intro answer
  rw [infer, bind_run, bind_run, hlookup]
  dsimp only
  rw [bind_run]
  change ((record span _ >>= fun _ => pure _) (namedCallType _ _ _ _).2 : TypeId × Checker) = _
  rw [hnamed]
  rfl

end Check

/-! ## Calls in a session -/

namespace Dispatch

/-- What a call of a function does once it has been resolved. -/
def proceed (self : NodeEval) (f : GenericFunction FunctionBody) (args : List Value) (scope : ScopeId) :
    Except DispatchError (Resolution FunctionBody) → Eval Value
  | .error e => Eval.fail ((arityMismatch? f args.length).getD (.dispatch e))
  | .ok r =>
    match r.method.implementation with
    | .primitive operation => operation.run self args scope
    | .declared params body outer => runDeclared self params body outer r.bindings args

end Dispatch

theorem Eval.eval_call {function : Located String} {args : List Node} {values : List Value} {u : Session}
    {h : GenericFunction FunctionBody} {n : Nat}
    (hbound : t.scopes.get? ScopeTree.root function.val = some (.generic function.val))
    (hvalues : evalAll (eval .dispatch n) args ScopeTree.root t = .ok values u)
    (hh : u.functions.lookup function.val = some h) (span : Span) :
    ∃ u', eval .dispatch (n + 1) (.call span function args) ScopeTree.root t =
      located span (Dispatch.proceed (eval .dispatch n) h values ScopeTree.root
        (h.resolve (values.map (Value.tag u.heap)) u.arena).result) u' := by
  refine ⟨TableOf.functionsByName.called function.val (h.resolve (values.map (Value.tag u.heap)) u.arena) u, ?_⟩
  rw [eval, evalNode, located, located]
  have hform : evalForm .dispatch (eval .dispatch n) (.call span function args) ScopeTree.root t =
      Dispatch.invokeFunction (eval .dispatch n) function.val values ScopeTree.root u := by
    have hlookup : Eval.lookup ScopeTree.root function.val t = .ok (some (.generic function.val)) t := by
      change EStateM.Result.ok (t.scopes.get? ScopeTree.root function.val) t = _
      rw [hbound]
    rw [evalForm]
    refine (bind_of_ok hlookup).trans ?_
    exact bind_of_ok hvalues
  rw [hform, Dispatch.invokeFunction_eq, TableOf.functionsByName.invoke_of_lookup hh]
  rfl

/-! ## Decisions in a mirror -/

namespace Checker.Mirrors

variable {h : GenericFunction FunctionBody} {k : GenericFunction TypeId} {args args' : List TypeId}

/-- The arguments of a call and the methods of a function are there on both sides. -/
theorem callable (hm : c.Mirrors names f t []) (hs : SameMethods f t.arena c.arena h k)
    (hargs : List.Forall₂ (Image f t.arena c.arena) args args') :
    Callable t.arena args h.methods ∧ Callable c.arena args' k.methods := by
  have hi := hm.reflects.regular.indexed
  have hi' := hm.reflects.regular'.withElements.indexed
  have hmethods : ∀ m ∈ h.methods, m.In t.arena :=
    ((List.forall₂_and_left _ _).mp (hs.signatures.imp fun _ _ hm => ⟨(Image.all_lt hm).1, hm⟩)).1
  have hcall : Callable t.arena args h.methods := ⟨hi, (Image.all_lt hargs).1, hmethods, hs.distinct⟩
  have hrenamed : List.Forall₂ (Method.Renamed f) h.methods k.methods :=
    hs.signatures.imp fun _ _ hm => (Image.map_eq hm).symm
  exact ⟨hcall, hm.reflects.regular'.indexed, (Image.all_lt hargs).2, hs.lt,
    (hm.reflects.embeds.callable hi' hcall hrenamed).distinct⟩

/-- **A checker selects the method that a session chooses**, and none if that chooses none. -/
theorem selected_index (hm : c.Mirrors names f t []) (hs : SameMethods f t.arena c.arena h k)
    (hargs : List.Forall₂ (Image f t.arena c.arena) args args') (name : String) :
    (Check.selected c.arena k args').map Resolution.index = chosenIndex (choose name h.methods args t.arena).1 := by
  obtain ⟨hcall, hcall'⟩ := hm.callable hs hargs
  have hi' := hm.reflects.regular'.withElements.indexed
  have hsession := hm.reflects.embeds.choose_index hi' hcall (hs.signatures.imp fun _ _ hm => (Image.map_eq hm).symm)
    name k.name
  -- the types that the built-in methods are declared with make no difference
  have hchecker := c.arena.withElements_extends.embeds.choose_index hi' hcall'
    (List.forall₂_same.mpr fun m _ => (List.map_id m.signature).symm) k.name k.name
  rw [List.map_id'] at hchecker
  rw [Image.map_eq hargs] at hsession
  rw [Check.selected_index hcall' hs.plain, ← hchecker, hsession]

/-- A function that the checker knows is known to the session, with the same methods. -/
theorem function (hm : c.Mirrors names f t []) {name : String} (hname : names.functions name)
    (hk : (c.functions.lookup name).isSome = true) : ∃ h k, t.functions.lookup name = some h ∧
      c.functions.lookup name = some k ∧ SameMethods f t.arena c.arena h k := by
  have hsame := hm.functions hname
  obtain ⟨k, hk⟩ := Option.isSome_iff_exists.mp hk
  rw [hk] at hsame ⊢
  generalize t.functions.lookup name = known at hsame ⊢
  cases hsame with
  | some hs => exact ⟨_, k, rfl, rfl, hs⟩

end Checker.Mirrors

/-- A session resolves a call by the types of the values, and a checker by the types of the nodes. Both know a function with
the same methods in the same order, and both come to the method at the same place, or to none. -/
structure Dispatch.Agreed (s : Session) (c : Checker) (h : GenericFunction FunctionBody) (k : GenericFunction TypeId)
    (tags types : List TypeId) : Prop where
  same : ∃ f, SameMethods f s.arena c.arena h k
  index : (Check.selected c.arena k types).map Resolution.index = chosenIndex (h.resolve tags s.arena).result
  chosen : ∀ r, (h.resolve tags s.arena).result = .ok r → h.methods[r.index]? = some r.method
  selected : ∀ r, Check.selected c.arena k types = some r → k.methods[r.index]? = some r.method

/-- **A checker that mirrors a session decides calls as the session does.** -/
theorem Checker.Mirrors.agreed (hm : c.Mirrors names f t []) {h : GenericFunction FunctionBody} {k : GenericFunction TypeId}
    (hs : SameMethods f t.arena c.arena h k) {tags types : List TypeId}
    (hargs : List.Forall₂ (Image f t.arena c.arena) tags types) : Dispatch.Agreed t c h k tags types := by
  obtain ⟨hcall, hcall'⟩ := hm.callable hs hargs
  have hresult : (h.resolve tags t.arena).result = (choose h.name h.methods tags t.arena).1 :=
    GenericFunction.resolve_result (.inr (by rw [hs.fresh]; rfl))
  refine ⟨⟨f, hs⟩, ?_, fun r hr => ?_, fun r hr => Check.getElem?_selected hcall' hr⟩
  · rw [hresult]
    exact hm.selected_index hs hargs h.name
  · exact (((hcall.choose_decides h.name).ok_iff hcall r).mp (hresult.symm.trans hr)).1

/-! ## Programs that end with a call -/

theorem Checker.Mirrors.call (hm : c.Mirrors names f t []) {known : String → Prop}
    (hknown : ∀ name, known name → (c.types.lookup name).isSome = true) {function : Located String}
    (hfunction : names.functions function.val) (hk : (c.functions.lookup function.val).isSome = true) {args : List Node}
    (hargs : ∀ arg ∈ args, ∃ type, arg.IsArgument known type) {n : Nat} {values : List Value} {u : Session}
    (hvalues : Eval.evalAll (Eval.eval .dispatch n) args ScopeTree.root t = .ok values u) (span : Span) :
    let placed := Check.inferPlaced args c
    ∃ h k, u.functions.lookup function.val = some h ∧ placed.2.functions.lookup function.val = some k ∧
      Dispatch.Agreed u placed.2 h k (values.map (Value.tag u.heap)) (placed.1.map Prod.fst) ∧
      (∃ u', Eval.eval .dispatch (n + 1) (.call span function args) ScopeTree.root t =
        Eval.located span (Dispatch.proceed (Eval.eval .dispatch n) h values ScopeTree.root
          (h.resolve (values.map (Value.tag u.heap)) u.arena).result) u') ∧
      placed.2.findings = c.findings ∧ ∃ new, Check.Settled placed.2
        (Check.selected placed.2.arena k (placed.1.map Prod.fst)) (Check.infer false (.call span function args) c) new := by
  intro placed
  have hfits : ∀ arg ∈ args, arg.Fits names known n fun _ => True := fun arg harg => by
    obtain ⟨type, hargument⟩ := hargs arg harg
    exact Node.Fits.mono (hargument.fits names n) fun _ _ => trivial
  obtain ⟨g, he, htyped⟩ := Check.inferPlaced_fits hfits hm hknown hvalues
  obtain ⟨himages, hisKnown⟩ := Check.Typed.images htyped
  have hm' := he.mirrors hm
  obtain ⟨h, k, hh, hk, hs⟩ := hm'.function hfunction (by rwa [he.checker])
  have hbound : t.scopes.get? ScopeTree.root function.val = some (.generic function.val) :=
    hm.bound hfunction (by rwa [he.session] at hh)
  obtain ⟨new, hsettled⟩ := Check.callType_settled (hm'.callable hs himages).2 hisKnown function.span
  refine ⟨h, k, hh, hk, hm'.agreed hs himages, Eval.eval_call hbound hvalues hh span, by rw [he.checker], new, ?_⟩
  rw [Check.infer_call (hm.unbound hfunction) hk]
  exact ⟨hsettled.findings, hsettled.kinds, hsettled.clean, hsettled.answers⟩

/-- Nothing is found wrong in a program exactly if the checker ends without findings. -/
theorem Checker.check_ok (c : Checker) (program : Program) :
    (c.check program).1.ok = true ↔ (Check.inferPlaced program c).2.findings = [] := by
  change (Check.inferPlaced program c).2.findings.reverse.isEmpty = true ↔ _
  rw [List.isEmpty_iff, List.reverse_eq_nil_iff]

namespace Session

/-- **Static and dynamic dispatch agree.** Let the checker find nothing wrong in a program of declarations, whose names are
kept apart. Then the program runs to its end. Whenever the arguments of a call of one of its functions can be evaluated
then, the call is resolved by the types of their values. The checker reports the call, in one of the ways in which calls
are reported, exactly if it cannot be resolved. If it is resolved then the checker finds nothing wrong in the program that
ends with the call, and types the call by the method at the same place. -/
theorem static_dispatch_agrees (options : Options) {decls args : List Node} {function : Located String} (span : Span)
    (hdeclares : ∀ node ∈ decls, node.Declares) (hapart : Program.KeepsApart decls)
    (hclean : (Checker.initial.check decls).1.ok = true) (hfunction : function.val ∈ decls.flatMap Node.functionNames)
    (hargs : ∀ arg ∈ args, ∃ type, arg.IsArgument (· ∈ decls.flatMap Node.typeNames) type) :
    ∃ last s, (fresh .dispatch options).run .dispatch decls = (.ok last, s) ∧
      ∀ {n values u}, Eval.evalAll (Eval.eval .dispatch n) args ScopeTree.root s = .ok values u →
        let call := Node.call span function args
        let report := (Checker.initial.check (decls ++ [call])).1
        let placed := Check.inferPlaced args (Check.inferPlaced decls Checker.initial).2
        ∃ h k, u.functions.lookup function.val = some h ∧ placed.2.functions.lookup function.val = some k ∧
          Dispatch.Agreed u placed.2 h k (values.map (Value.tag u.heap)) (placed.1.map Prod.fst) ∧
          let resolved := (h.resolve (values.map (Value.tag u.heap)) u.arena).result
          (∃ u', Eval.eval .dispatch (n + 1) call ScopeTree.root s =
            Eval.located span (Dispatch.proceed (Eval.eval .dispatch n) h values ScopeTree.root resolved) u') ∧
          ((∃ finding ∈ report.findings, finding.kind ∈ FindingKind.ofCalls) ↔ ∃ e, resolved = .error e) ∧
          ∀ r, resolved = .ok r → report.ok = true ∧ ∃ r' type,
            Check.selected placed.2.arena k (placed.1.map Prod.fst) = some r' ∧ r'.index = r.index ∧
            report.statements.getLast? = some (type, span) ∧ Check.Answers placed.2.arena r' type := by
  have hnone := (Checker.check_ok _ _).mp hclean
  -- the declarations leave a checker that mirrors the session
  obtain ⟨f, hm⟩ := Checker.initial_mirrors hapart.fresh options
  obtain ⟨n, hn⟩ : ∃ n, depthLimit = n + 1 := ⟨_, rfl⟩
  obtain ⟨last, s, hrun, g, hm'⟩ := Check.declarations_mirror hm hdeclares hapart.allows n .nothing hnone
  refine ⟨last, s, by rw [run, hn, hrun], fun {n values u} hvalues => ?_⟩
  obtain ⟨-, htypes, hfunctions⟩ := Check.declared_known hdeclares Checker.initial
  obtain ⟨h, k, hh, hk, hagreed, hcall, hkept, new, hsettled⟩ :=
    hm'.call htypes hfunction (hfunctions _ hfunction) hargs hvalues span
  intro call report placed
  refine ⟨h, k, hh, hk, hagreed, ?_⟩
  intro resolved
  -- what is found in the whole program is found in the call
  have hprogram := Check.inferPlaced_concat decls call Checker.initial
  have hfindings : (Check.inferPlaced (decls ++ [call]) Checker.initial).2.findings = new := by
    rw [hprogram]
    exact hsettled.findings.trans (by rw [hkept, hnone, List.append_nil])
  have hreported : report.findings = new.reverse := congrArg List.reverse hfindings
  refine ⟨hcall, ?_, fun r hr => ?_⟩
  · simp only [hreported, List.mem_reverse]
    rw [hsettled.reported_iff, ← chosenIndex_eq_none, ← hagreed.index, Option.map_eq_none_iff]
  · obtain ⟨r', hselected, hr'⟩ :=
      Option.map_eq_some_iff.mp (hagreed.index.trans (chosenIndex_eq_some.mpr ⟨r, hr, rfl⟩))
    have hclean' : new = [] := hsettled.clean.mpr (Option.isSome_of_eq_some hselected)
    refine ⟨(Checker.check_ok _ _).mpr (hfindings.trans hclean'), r', _, hselected, hr', ?_,
      hsettled.answers r' hselected⟩
    change (Check.inferPlaced (decls ++ [call]) Checker.initial).1.getLast? = _
    rw [hprogram, List.getLast?_concat]
    rfl

/-- The declaration of a method `size(n: type)`, which answers a text. -/
def sizeMethod (type text : String) : Node :=
  .function .nowhere ⟨⟨"size", .nowhere⟩, [], [⟨⟨"n", .nowhere⟩, some (.named .nowhere type)⟩]⟩
    (.literal .nowhere (.string text))

/-- Two methods for numbers. -/
def sizes : List Node := [sizeMethod "Number" "any number", sizeMethod "Int" "an integer"]

/-- The method for integers is called with an integer, and the checker expects nothing else. -/
theorem sizes_agree : (∀ node ∈ sizes, node.Declares) ∧ Program.KeepsApart sizes ∧
    (Checker.initial.check sizes).1.ok = true ∧ "size" ∈ sizes.flatMap Node.functionNames ∧
    ∃ last s h r, (fresh .dispatch .standard).run .dispatch sizes = (.ok last, s) ∧
      Eval.evalAll (Eval.eval .dispatch 1) [.literal .nowhere (.int 3)] ScopeTree.root s = .ok [.int 3] s ∧
      s.functions.lookup "size" = some h ∧ (h.resolve [.int] s.arena).result = .ok r ∧ r.index = 1 := by
  have hdeclares : ∀ node ∈ sizes, node.Declares :=
    List.forall_mem_cons.mpr ⟨List.forall_mem_singleton.mpr rfl,
      List.forall_mem_singleton.mpr (List.forall_mem_singleton.mpr rfl)⟩
  have hapart : Program.KeepsApart sizes := ⟨by decide, by decide⟩
  have hclean : (Checker.initial.check sizes).1.ok = true := by decide +kernel
  have hfunction : "size" ∈ sizes.flatMap Node.functionNames := by decide
  obtain ⟨last, s, hrun, hagrees⟩ :=
    @static_dispatch_agrees .standard sizes [.literal .nowhere (.int 3)] ⟨"size", .nowhere⟩ .nowhere hdeclares hapart hclean
      hfunction (List.forall_mem_singleton.mpr ⟨_, .literal _ _⟩)
  have hvalues : Eval.evalAll (Eval.eval .dispatch 1) [.literal .nowhere (.int 3)] ScopeTree.root s = .ok [.int 3] s := rfl
  obtain ⟨h, k, hh, hk, -, -, hreported, hresolved⟩ := hagrees hvalues
  refine ⟨hdeclares, hapart, hclean, hfunction, last, s, h, ?_⟩
  have hargument (c : Checker) : (Check.inferPlaced [.literal .nowhere (.int 3)] c).1 = [(.int, .nowhere)] ∧
      (Check.inferPlaced [.literal .nowhere (.int 3)] c).2.arena = c.arena ∧
      (Check.inferPlaced [.literal .nowhere (.int 3)] c).2.functions = c.functions := by
    rw [Check.inferPlaced, Check.infer]
    exact ⟨rfl, rfl, rfl⟩
  -- the checker finds nothing wrong in the call, and types it by the second method
  have haccepted : (Checker.initial.check
      (sizes ++ [.call .nowhere ⟨"size", .nowhere⟩ [.literal .nowhere (.int 3)]] : List Node)).1.findings.isEmpty = true := by
    decide +kernel
  have hselected : ((Check.inferPlaced sizes Checker.initial).2.functions.lookup "size").bind (fun k =>
      (Check.selected (Check.inferPlaced sizes Checker.initial).2.arena k [.int]).map Resolution.index) = some 1 := by
    decide +kernel
  cases hr : (h.resolve [.int] s.arena).result with
  | error e =>
    obtain ⟨finding, hfinding, -⟩ := hreported.mpr ⟨e, hr⟩
    rw [List.isEmpty_iff.mp haccepted] at hfinding
    cases hfinding
  | ok r =>
    obtain ⟨-, r', type, hr', hindex, -⟩ := hresolved r hr
    obtain ⟨hplaced, harena, hfunctions⟩ := hargument (Check.inferPlaced sizes Checker.initial).2
    rw [hfunctions] at hk
    rw [hplaced, harena] at hr'
    rw [hk, Option.bind_some] at hselected
    have hone := hselected.symm.trans (congrArg (Option.map Resolution.index) hr')
    exact ⟨r, hrun, hvalues, hh, rfl, hindex.symm.trans (Option.some.inj hone).symm⟩

end Session

end DispatchLang
