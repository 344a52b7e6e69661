import DispatchLang.Proofs.Eval.Agreement
import DispatchLang.Proofs.Eval.Constraints

/-!
# Functions that are known by their names

The dispatch strategy answers the declaration of a function with its name, and finds what is to be done under
the name when the function is called. `ByName.eval` makes the direct strategy do the same: it notes
declarations, and where a name is called it does what was noted last. Everything else it does as
the direct strategy does it. It gives up on a declaration with a constraint that mentions an unknown type, which
only the dispatch strategy looks at.

So evaluation by name and the dispatch strategy agree on every dialect. A function has as many methods as
there are signatures it was declared with, and there is only one signature without annotations for a
number of parameters; so in a dialect the table always holds what was noted.

## Main definitions

* `ByName.eval`: evaluation by shape in which functions are known by their names.

## Main results

* `Dispatch.typeParams_adds`: type parameters have a meaning if the names in their constraints are known.
* `ByName.eval_agrees`: evaluation by name agrees with the dispatch strategy.
-/

namespace DispatchLang

open TypeArena

/-! ## Known constraints -/

namespace TypeExpr

mutual

def isKnown (known : String → Bool) : TypeExpr → Bool
  | .named _ name => known name
  | .applied _ name args => known name && allKnown known args

/-- Whether all names in several written types are known. -/
def allKnown (known : String → Bool) : List TypeExpr → Bool
  | [] => true
  | type :: types => isKnown known type && allKnown known types

end

end TypeExpr

/-- Whether all names in the constraints of type parameters are known. A constraint may mention the parameters
before it. -/
def constraintsKnown (known : String → Bool) : List TypeParam → Bool
  | [] => true
  | p :: params =>
    p.constraint.all (·.isKnown known) &&
      constraintsKnown (fun name => name == p.name.val || known name) params

/-- Whether the constraints of a declaration have a meaning in a scope. -/
def Session.knowsConstraints (t : Session) (scope : ScopeId) (head : FunctionHead) : Bool :=
  constraintsKnown (fun name => (t.knownTypes scope name).isSome) head.typeParams

/-! ## Evaluation by name -/

def FunctionHead.declaration (head : FunctionHead) (body : Node) (scope : ScopeId) : Declaration :=
  ⟨head.params.map (·.name.val), body, scope⟩

namespace ByName

open Eval

/-- Calls a value. A name of a function leads to what was noted last under it. -/
def callValue (self : NodeEval) (callee : Value) (args : List Value) (scope : ScopeId) :
    Eval Value := do
  match callee with
  | .generic name =>
    match ← noted? name with
    | some d => Eval.callValue .direct self (.function 0 name d.params d.body d.scope) args scope
    | none => Eval.callValue .direct self (.generic name) args scope
  | callee => Eval.callValue .direct self callee args scope

def declareFunction (head : FunctionHead) (body : Node) (scope : ScopeId) : Eval Value := do
  demand ((← get).knowsConstraints scope head)
  note head.name.val (head.declaration body scope)
  define scope head.name.val (.generic head.name.val)
  return .generic head.name.val

def form (self : NodeEval) (node : Node) (scope : ScopeId) : Eval Value := do
  match node with
  | .call _ function args =>
    match ← lookup scope function.val with
    | none => fail (.undefinedVariable function.val)
    | some callee => callValue self callee (← evalAll self args scope) scope
  | .function _ head body => declareFunction head body scope
  | node => evalForm .direct self node scope

/-- Evaluates a node that nests at most the given number of levels. -/
def eval : Nat → NodeEval
  | 0 => fun _ _ => throw .exhausted
  | n + 1 => fun node scope => located node.span (form (eval n) node scope)

end ByName

variable {D : Dialect} {arena arena' arena'' : TypeArena} {t : Session} {scope : ScopeId} {vars : Bindings}

/-! ## Type parameters have a meaning -/

/-- An arena has grown and is tidy. -/
structure TypeArena.Widened (arena arena' : TypeArena) : Prop where
  tidy : arena'.Tidy
  grows : arena.Extends arena'

theorem TypeArena.Widened.trans (h : arena.Widened arena') (h' : arena'.Widened arena'') :
    arena.Widened arena'' := ⟨h'.tidy, h.grows.trans h'.grows⟩

theorem TypeArena.Tidy.widened (h : arena.Tidy) : arena.Widened arena := ⟨h, .refl arena⟩

/-- A computation adds types to a session and answers something, if what it has to know is known, and else
it fails. -/
def AddsTypes {α : Type} (t : Session) (known : Bool) (x : Eval α) (P : TypeArena → α → Prop) : Prop :=
  if known then ∃ a arena, x t = .ok a { t with arena } ∧ t.arena.Widened arena ∧ P arena a
  else x.Fails t

namespace AddsTypes

variable {α β : Type} {known known' : Bool} {x : Eval α} {P : TypeArena → α → Prop}
  {Q : TypeArena → β → Prop}

theorem bind {f : α → Eval β} (h : AddsTypes t known x P)
    (hf : ∀ a arena, t.arena.Widened arena → P arena a →
      AddsTypes { t with arena } known' (f a) Q) :
    AddsTypes t (known && known') (x >>= f) Q := by
  cases known with
  | false => exact Eval.Fails.bind h f
  | true =>
    obtain ⟨a, arena, hx, hw, hp⟩ := h
    have hrun : (x >>= f) t = f a { t with arena } := by
      change EStateM.bind x f t = _
      rw [EStateM.bind, hx]
    have hfa := hf a arena hw hp
    cases known' with
    | false =>
      obtain ⟨e, s, hfail⟩ := hfa
      exact ⟨e, s, hrun.trans hfail⟩
    | true =>
      obtain ⟨b, arena', hb, hw', hq⟩ := hfa
      exact ⟨b, arena', hrun.trans hb, hw.trans hw', hq⟩

theorem pure {a : α} (hw : t.arena.Widened t.arena) (h : P t.arena a) :
    AddsTypes t true (Pure.pure a) P := ⟨a, t.arena, rfl, hw, h⟩

/-- Only what a computation does in the session matters. -/
theorem of_eq {x' : Eval α} (h : AddsTypes t known x' P) (heq : x t = x' t) :
    AddsTypes t known x P := by
  rw [AddsTypes, Eval.Fails, heq]
  exact h

theorem modifyTypes {f : TypeArena → α × TypeArena} (hw : t.arena.Widened (f t.arena).2)
    (h : P (f t.arena).2 (f t.arena).1) : AddsTypes t true (Eval.modifyTypes f) P :=
  ⟨_, _, rfl, hw, h⟩

end AddsTypes

/-- The type variables of a declaration are types of the arena. -/
def VarsThere (vars : Bindings) (arena : TypeArena) : Prop := ∀ v ∈ vars, v.2 < arena.size

theorem VarsThere.grows (h : VarsThere vars arena) (he : arena.Extends arena') : VarsThere vars arena' :=
  fun v hv => he.lt (h v hv)

theorem Session.Sound.within_lt (hs : t.Sound D) (hvars : VarsThere vars t.arena) {name : String}
    {id : TypeId} (h : within (t.knownTypes scope) vars name = some id) : id < t.arena.size := by
  rw [within, Option.or_eq_some_iff] at h
  rcases h with h | ⟨-, h⟩
  · exact hvars (name, id) (Assoc.mem_of_lookup h)
  · rw [knownTypes] at h
    split at h
    · next hget =>
      obtain rfl := Option.some.inj h
      exact hs.grown.lt_size (hs.scopes.get? hget)
    · cases h

namespace Dispatch

section

variable (hs : t.Sound D) (hvars : VarsThere vars t.arena)
include hs hvars

theorem lookupType_adds {α : Type} {f : TypeId → Eval α} {known : Bool} {P : TypeArena → α → Prop}
    (name : String) {fault : Fault} {span : Span}
    (hf : ∀ id, id < t.arena.size → AddsTypes t known (f id) P) :
    AddsTypes t ((within (t.knownTypes scope) vars name).isSome && known)
      (do
        match ← lookupType vars scope name with
        | some id => f id
        | none => Eval.failAt fault span) P := by
  have hrun : ∀ g : Option TypeId → Eval α,
      (lookupType vars scope name >>= g) t = g (within (t.knownTypes scope) vars name) t := fun g => by
    change EStateM.bind _ g t = _
    rw [EStateM.bind, lookupType_eq]
  cases hn : within (t.knownTypes scope) vars name with
  | none => exact ⟨_, _, (hrun _).trans (by rw [hn]; rfl)⟩
  | some id => exact (hf id (hs.within_lt hvars hn)).of_eq ((hrun _).trans (by rw [hn]))

end

def typeIn (arena : TypeArena) (id : TypeId) : Prop := id < arena.size

def typesIn (arena : TypeArena) (ids : List TypeId) : Prop := ∀ id ∈ ids, id < arena.size

mutual

theorem resolveType_adds {t : Session} (hs : t.Sound D) (hvars : VarsThere vars t.arena)
    (type : TypeExpr) :
    AddsTypes t (type.isKnown fun name => (within (t.knownTypes scope) vars name).isSome)
      (resolveType vars scope type) typeIn := by
  cases type with
  | named span name =>
    rw [resolveType, TypeExpr.isKnown, ← Bool.and_true (Option.isSome _)]
    exact lookupType_adds hs hvars name fun id hid => .pure hs.tidy.widened hid
  | applied span name args =>
    rw [resolveType, TypeExpr.isKnown]
    refine lookupType_adds hs hvars name fun base hbase => ?_
    rw [← Bool.and_true (TypeExpr.allKnown _ _)]
    refine (resolveTypes_adds hs hvars args).bind fun ids arena hw hids => ?_
    have hbase' := hw.grows.lt hbase
    obtain ⟨htidy, hext⟩ := hw.tidy.applied hbase' hids
    refine .modifyTypes ⟨htidy, hext⟩ ?_
    exact (htidy.grown.indexed.index (applied_interns arena base ids).interned?_eq).1

/-- Several written types have a meaning if the names in them are known. -/
theorem resolveTypes_adds {t : Session} (hs : t.Sound D) (hvars : VarsThere vars t.arena)
    (types : List TypeExpr) :
    AddsTypes t (TypeExpr.allKnown (fun name => (within (t.knownTypes scope) vars name).isSome) types)
      (resolveTypes vars scope types) typesIn := by
  cases types with
  | nil => exact .pure hs.tidy.widened fun _ hid => absurd hid List.not_mem_nil
  | cons type types =>
    rw [resolveTypes, TypeExpr.allKnown]
    refine (resolveType_adds hs hvars type).bind fun id arena hw hid => ?_
    have hs' := hs.withArena hw.tidy hw.grows
    rw [← Bool.and_true (TypeExpr.allKnown _ _)]
    refine (resolveTypes_adds hs' (hvars.grows hw.grows) types).bind fun ids arena' hw' hids => ?_
    exact .pure hw'.tidy.widened (List.forall_mem_cons.mpr ⟨hw'.grows.lt hid, hids⟩)

end

theorem resolveOption_adds (hs : t.Sound D) (hvars : VarsThere vars t.arena) (type : Option TypeExpr) :
    AddsTypes t (type.all (·.isKnown fun name => (within (t.knownTypes scope) vars name).isSome))
      (resolveOption vars scope type) typeIn := by
  cases type with
  | none => exact .pure hs.tidy.widened (hs.grown.lt_size (by decide))
  | some type => exact resolveType_adds hs hvars type

theorem typeParams_adds (hs : t.Sound D) (hvars : VarsThere vars t.arena) (params : List TypeParam) :
    AddsTypes t
      (constraintsKnown (fun name => (within (t.knownTypes scope) vars name).isSome) params)
      (typeParams scope vars params) fun arena vars => VarsThere vars arena := by
  induction params generalizing t vars with
  | nil => exact .pure hs.tidy.widened hvars
  | cons p params ih =>
    rw [typeParams, constraintsKnown]
    refine (resolveOption_adds hs hvars p.constraint).bind fun constraint arena hw hc => ?_
    obtain ⟨htidy, hext⟩ := hw.tidy.var p.name.val hc
    have hid := (hw.tidy.vars.var p.name.val constraint).2
    rw [← Bool.true_and (constraintsKnown _ _)]
    have hadded : AddsTypes { t with arena } true
        (Eval.modifyTypes (·.var p.name.val constraint)) typeIn := .modifyTypes ⟨htidy, hext⟩ hid
    refine hadded.bind fun id arena' hw' hid => ?_
    have hs' := hs.withArena hw'.tidy (hw.grows.trans hw'.grows)
    have hvars' : VarsThere ((p.name.val, id) :: vars) arena' :=
      List.forall_mem_cons.mpr ⟨hid, hvars.grows (hw.grows.trans hw'.grows)⟩
    have hknown : (fun name => name == p.name.val || (within (t.knownTypes scope) vars name).isSome) =
        fun name => (within (t.knownTypes scope) ((p.name.val, id) :: vars) name).isSome := by
      funext name
      rw [within, within, List.lookup_cons]
      cases name == p.name.val <;> rfl
    rw [hknown]
    exact ih hs' hvars'

end Dispatch

/-! ## Declared functions are called -/

theorem plainChoice_singleton {ι : Type} (r : Resolution ι) : plainChoice [r] = some r := by
  simp [plainChoice, winner?]

theorem GenericFunction.IsDeclared.dispatch {name : String} {f : GenericFunction FunctionBody}
    (h : f.IsDeclared D arena name) (ha : arena.Grown) {types : List TypeId}
    (ht : ∀ x ∈ types, x < arena.size) :
    ∃ d, f.declaration? = some d ∧ D.Declares name d.params d.body ∧
      ((f.dispatch (types.map some) arena).result.toOption.map fun r =>
          (r.method.implementation, r.bindings)) =
        (if types.length = d.params.length then some (.declared d.params d.body d.scope, [])
          else none) ∧
      (f.dispatch (types.map some) arena).arena = arena ∧
      (f.dispatch (types.map some) arena).function.methods = f.methods ∧
      (f.dispatch (types.map some) arena).function.Faithful arena := by
  obtain ⟨typeVars, params, body, scope, hdeclares, hm, hfaithful⟩ := h
  have hplain : ∀ m ∈ f.methods, m.IsPlain := by
    rw [hm, List.forall_mem_singleton]
    exact isPlain_replicate_any params.length rfl
  obtain ⟨hresult, hrest⟩ := hfaithful.dispatch ha hplain ht
  refine ⟨⟨params, body, scope⟩, by rw [declaration?, hm], hdeclares, ?_, hrest⟩
  have hany : ∀ p ∈ List.replicate params.length TypeId.any, p < builtinTypes.length := fun p hp => by
    rw [List.eq_of_mem_replicate hp]
    decide
  rw [hresult, hm, applicable, ha.unifySignature?_eq hany,
    areSubtypes_any fun p => List.eq_of_mem_replicate, List.length_replicate]
  by_cases hlength : types.length = params.length
  · rw [if_pos (beq_iff_eq.mpr hlength), if_pos hlength]
    exact congrArg (Option.map _) (plainChoice_singleton _)
  · rw [if_neg (by rwa [beq_iff_eq]), if_neg hlength]
    rfl

namespace Session.Sound

variable (hs : t.Sound D) {name : String}
include hs

theorem declaration?_of_builtin (hname : name ∈ Direct.functionNames) :
    FunctionTable.declaration? t.untyped.functions name = none :=
  FunctionTable.declaration?_noted_eq_none fun e he heq => hs.builtin e he (heq ▸ hname)

theorem declaration?_of_declared (hname : name ∉ Direct.functionNames) :
    FunctionTable.declaration? t.untyped.functions name =
      FunctionTable.declaration? t.functions name := by
  refine FunctionTable.declaration?_noted fun e he heq => ?_
  obtain ⟨typeVars, params, body, scope, -, hm, -⟩ := hs.declared e he (heq ▸ hname)
  rw [GenericFunction.declaration?, hm]
  rfl

end Session.Sound

theorem Direct.callFunction_fails {name : String} (hname : name ∉ functionNames) (self : NodeEval)
    (args : List Value) (scope : ScopeId) (t : Session) :
    (callFunction self name args scope).Fails t := by
  rw [callFunction]
  · exact ⟨_, _, rfl⟩
  all_goals
    rintro rfl
    exact hname (by decide)

namespace Agree

variable {self self' : NodeEval}

theorem noted_left {name : String} {f : Option Declaration → Eval Value} {y : Eval Value}
    {P : Claim Value} :
    Agree D t (Eval.noted? name >>= f) y P ↔
      Agree D t (f (FunctionTable.declaration? t.untyped.functions name)) y P := Iff.rfl

theorem callDeclared (scope : ScopeId) (hself : SelfAgrees D self self') (hs : t.Sound D) {name : String}
    {f : GenericFunction FunctionBody} (hf : t.functions.lookup name = some f)
    (hname : name ∉ Direct.functionNames) {args : List Value} (hargs : basicValues D t args) :
    ∃ d, f.declaration? = some d ∧
      Agree D t
        (Eval.callValue .direct self (.function 0 name d.params d.body d.scope) args scope)
        (Dispatch.invokeFunction self' name args scope) (basicValue D) := by
  have hlt : ∀ type ∈ args.map (Value.tag t.heap), type < t.arena.size := fun type htype =>
    (tags_isShape hs hargs type htype).lt hs.grown
  obtain ⟨d, hd, hdeclares, hresult, harena, hmethods, hfaithful⟩ :=
    (hs.declared _ (Assoc.mem_of_lookup hf) hname).dispatch hs.grown hlt
  refine ⟨d, hd, ?_⟩
  rw [Dispatch.invokeFunction, get_right, hf]
  dsimp only
  rw [tags_right, get_right]
  rw [List.length_map] at hresult
  generalize f.dispatch ((args.map (Value.tag t.heap)).map some) t.arena = out at *
  have hsound := hs.withFunction hf hmethods hfaithful
  have hnoted := FunctionTable.noted_insert_of_methods hf hmethods
  let t' : Session := { t with
    functions := Assoc.insert name out.function t.functions
    events := out.events.reverse ++ t.events }
  have hargs' : basicValues D t' args := hargs
  refine @settle_right _ _ _ _ _ _ _ _ t' harena rfl ⟨.refl _, .refl _⟩ { hsound with }
    (by simp only [t', Session.untyped, hnoted]) ?_
  cases hr : out.result with
  | error e =>
    rw [hr] at hresult
    have hlength : args.length ≠ d.params.length := fun heq => by
      rw [if_pos heq] at hresult
      cases hresult
    refine fails (.bind ?_ _) ⟨_, _, rfl⟩
    rw [checkArity, if_neg (Ne.symm hlength)]
    exact ⟨_, _, rfl⟩
  | ok r =>
    rw [hr] at hresult
    have hlength : args.length = d.params.length := by
      by_contra hne
      rw [if_neg hne] at hresult
      cases hresult
    rw [if_pos hlength] at hresult
    obtain ⟨himplementation, hbindings⟩ := Prod.mk.inj (Option.some.inj hresult)
    dsimp only
    rw [himplementation, hbindings]
    have henter := enter ("function '" ++ name ++ "'") d.params d.scope hargs' fun inner t =>
      @runBody D t self self' inner hself d.body hdeclares.tree
    rw [checkArity, if_pos hlength.symm] at henter
    rw [Eval.callValue, checkArity, if_pos hlength.symm]
    exact henter

theorem callValue_byName (hD : D.steady = true) (hself : SelfAgrees D self self') {callee : Value}
    (hcallee : callee.Basic D t.heap) {args : List Value} (hargs : basicValues D t args)
    (hlength : args.length ≤ Tables.variadicLimit) :
    Agree D t (ByName.callValue self callee args scope)
      (Eval.callValue .dispatch self' callee args scope) (basicValue D) := by
  refine ofSound fun hs => ?_
  cases callee with
  | generic name =>
    refine noted_left.mpr ?_
    by_cases hname : name ∈ Direct.functionNames
    · rw [hs.declaration?_of_builtin hname]
      exact callValue hself hcallee (fun other heq => by cases heq; exact hname) (.inl hD) hargs hlength
    · rw [hs.declaration?_of_declared hname, FunctionTable.declaration?]
      cases hf : List.lookup name t.functions with
      | none =>
        change Agree D t (Direct.callFunction self name args scope)
          (Dispatch.invokeFunction self' name args scope) (basicValue D)
        rw [Dispatch.invokeFunction, get_right, hf]
        exact fails (Direct.callFunction_fails hname self args scope _) ⟨_, _, rfl⟩
      | some f =>
        obtain ⟨d, hd, hagree⟩ := callDeclared scope hself hs hf hname hargs
        rw [Option.bind_some, hd]
        exact hagree
  | _ => exact callValue hself hcallee (by simp) (.inl hD) hargs hlength

end Agree

namespace Dispatch

/-- Parameters without annotations take any arguments. -/
theorem resolveParams_eq {params : List Param} (h : ∀ p ∈ params, p.annotation = none)
    (t : Session) :
    resolveParams vars scope params t =
      .ok (List.replicate (params.map (·.name.val)).length .any) t := by
  induction params with
  | nil => rfl
  | cons p params ih =>
    obtain ⟨hp, h⟩ := List.forall_mem_cons.mp h
    rw [resolveParams, hp]
    change EStateM.bind (resolveParams vars scope params) _ t = _
    rw [EStateM.bind, ih h]
    rfl

end Dispatch

/-! ## Functions are declared -/

theorem functionTable_lookup_eq_none {name : String} (h : name ∉ Direct.functionNames) :
    functionTable.lookup name = none := by
  have hnames : ∀ e ∈ functionTable, e.1 ∈ Direct.functionNames := by decide
  cases hl : functionTable.lookup name with
  | none => rfl
  | some methods => exact absurd (hnames _ (Assoc.mem_of_lookup hl)) h

theorem Serves.insert_of_ne {ι : Type} {table : List (String × List (Method ι))}
    {functions : List (String × GenericFunction ι)} (h : Serves arena table functions) {name : String}
    (hname : table.lookup name = none) (f : GenericFunction ι) :
    Serves arena table (Assoc.insert name f functions) := by
  intro other methods hl
  have hne : other ≠ name := fun heq => by
    rw [heq, hname] at hl
    cases hl
  rw [Assoc.lookup_insert_of_ne hne]
  exact h other methods hl

/-- The function that a declaration makes of the one that there is. -/
def Session.declaring (t : Session) (name : String) (method : Method FunctionBody) :
    GenericFunction FunctionBody :=
  ((t.functions.lookup name).getD (.empty name t.options.cache)).withMethod method

theorem Session.Sound.declaring_methods (hs : t.Sound D) {name : String} {params : List String}
    {body : Node} (hd : D.Declares name params body) (typeVars : List TypeId) (d : FunctionBody) :
    (t.declaring name ⟨typeVars, List.replicate params.length .any, d⟩).methods =
      [⟨typeVars, List.replicate params.length .any, d⟩] := by
  rw [declaring, GenericFunction.withMethod]
  cases hf : t.functions.lookup name with
  | none => rfl
  | some f =>
    obtain ⟨typeVars', params', body', scope', hd', hm, -⟩ :=
      hs.declared _ (Assoc.mem_of_lookup hf) hd.not_builtin
    obtain ⟨rfl, -⟩ := hd.unique hd'
    rw [Option.getD_some]
    dsimp only at hm ⊢
    rw [hm, GenericFunction.insertMethod, if_pos rfl]

/-- A declared function may be added, and what it comes from is noted. -/
theorem Session.Sound.withDeclaration (hs : t.Sound D) {name : String} {params : List String}
    {body : Node} (hd : D.Declares name params body) (typeVars : List TypeId) (scope : ScopeId) :
    let f := t.declaring name
      ⟨typeVars, List.replicate params.length .any, .declared params body scope⟩
    let t' : Session := { t with functions := Assoc.insert name f t.functions }
    t'.Sound D ∧ t'.untyped.functions =
      Assoc.insert name (.ofDeclaration name ⟨params, body, scope⟩) t.untyped.functions := by
  intro f t'
  have hm : f.methods = _ := hs.declaring_methods hd typeVars (.declared params body scope)
  have hf : f.IsDeclared D t.arena name :=
    ⟨typeVars, params, body, scope, hd, hm, fun _ _ h => by cases h⟩
  have hdeclaration : f.declaration? = some ⟨params, body, scope⟩ := by
    rw [GenericFunction.declaration?, hm]
  have hname := hd.not_builtin
  constructor
  · refine
      { tidy := hs.tidy
        heap := hs.heap
        scopes := hs.scopes
        operators := hs.operators
        functions := hs.functions.insert_of_ne (functionTable_lookup_eq_none hname) f
        methods := hs.methods
        builtin := fun e he hbuiltin => ?_
        declared := fun e he hdeclared => ?_ }
    · rcases Assoc.eq_or_mem_of_mem_insert he with rfl | he
      · exact absurd hbuiltin hname
      · exact hs.builtin e he hbuiltin
    · rcases Assoc.eq_or_mem_of_mem_insert he with rfl | he
      · exact hf
      · exact hs.declared e he hdeclared
  · refine FunctionTable.noted_insert hdeclaration fun e he heq => ?_
    obtain ⟨typeVars', params', body', scope', -, hm', -⟩ := hs.declared e he (heq ▸ hname)
    rw [GenericFunction.declaration?, hm']
    rfl

namespace Agree

/-- If the dispatch strategy fails, the other one may give up. -/
theorem gaveUp {α : Type} {P : Claim α} {x y : Eval α} {s : Session}
    (hx : x t.untyped = .error .exhausted s) (hy : y.Fails t) : Agree D t x y P := by
  obtain ⟨e, s', hy⟩ := hy
  intro _
  rw [hx, hy]
  exact .failed

/-- Declaring a function agrees. -/
theorem declareFunction {span : Span} {head : FunctionHead} {body : Node}
    (h : D.Tree (.function span head body)) :
    Agree D t (ByName.declareFunction head body scope) (Dispatch.declareFunction head body scope)
      (basicValue D) := by
  refine ofSound fun hs => ?_
  have hdeclares : D.Declares head.name.val (head.params.map (·.name.val)) body :=
    ⟨span, head, h, rfl, rfl⟩
  have hplain : ∀ p ∈ head.params, p.annotation = none := fun p hp => by
    have hsimple := D.isSimple h rfl
    rw [Node.isSimple, Bool.and_eq_true, List.all_eq_true] at hsimple
    exact Option.isNone_iff_eq_none.mp (hsimple.2 p hp)
  have hadds := @Dispatch.typeParams_adds D t scope [] hs (List.forall_mem_nil _) head.typeParams
  change AddsTypes t (t.untyped.knowsConstraints scope head) _ _ at hadds
  rw [ByName.declareFunction, Dispatch.declareFunction]
  cases hk : t.untyped.knowsConstraints scope head with
  | false =>
    rw [hk] at hadds
    refine gaveUp (s := t.untyped) ?_ (.bind hadds _)
    change (Eval.demand (t.untyped.knowsConstraints scope head) >>= _) t.untyped = _
    rw [hk]
    rfl
  | true =>
    rw [hk] at hadds
    obtain ⟨vars, arena, hrun, hw, -⟩ := hadds
    let t' : Session := { t with arena }
    let method : Method FunctionBody :=
      ⟨vars.reverse.map Prod.snd, List.replicate (head.params.map (·.name.val)).length .any,
       .declared (head.params.map (·.name.val)) body scope⟩
    have hs' : t'.Sound D := hs.withArena hw.tidy hw.grows
    obtain ⟨hsound, hnoted⟩ := hs'.withDeclaration hdeclares (vars.reverse.map Prod.snd) scope
    -- What is left when the type parameters and the parameters have their types.
    have hstore : Agree D t'
        (do
          Eval.note head.name.val (head.declaration body scope)
          Eval.define scope head.name.val (.generic head.name.val)
          return .generic head.name.val)
        (do
          modify fun s => { s with
            functions := Assoc.insert head.name.val (s.declaring head.name.val method) s.functions }
          Eval.define scope head.name.val (.generic head.name.val)
          return .generic head.name.val) (basicValue D) := by
      have hname (heap : Heap) : (Value.generic head.name.val).Basic D heap := .inr ⟨_, _, hdeclares⟩
      refine (modifyGet ?_ ⟨.refl _, .refl _⟩ (fun _ => hsound) trivial).bind (P := anything)
        fun _ _ _ _ => ?_
      · simp only [Session.untyped, t', method] at hnoted ⊢
        rw [hnoted]
        rfl
      · exact (define scope head.name.val (hname _)).bind fun _ _ _ _ => pure (hname _)
    refine of_eq_left (ahead hstore rfl ⟨.refl _, hw.grows⟩ (fun _ => hs') ?_) ?_
    · change EStateM.bind (Dispatch.typeParams scope [] head.typeParams) _ t = _
      rw [EStateM.bind, hrun]
      change EStateM.bind (Dispatch.resolveParams vars scope head.params) _ t' = _
      rw [EStateM.bind, Dispatch.resolveParams_eq hplain]
      rfl
    · change (Eval.demand (t.untyped.knowsConstraints scope head) >>= _) t.untyped = _
      rw [hk]
      rfl

theorem form_byName (hD : D.steady = true) (hself : SelfAgrees D self self') {node : Node} (h : D.Tree node) :
    Agree D t (ByName.form self node scope) (Eval.evalForm .dispatch self' node scope)
      (basicValue D) := by
  cases node with
  | call span function args =>
    refine evalCall hself function (fun arg ha => D.child h ha)
      fun callee values t hcallee hvalues hlength => callValue_byName hD hself hcallee hvalues ?_
    rw [hlength]
    exact of_decide_eq_true (D.isSimple h rfl)
  | function span head body => exact declareFunction h
  | send span receiver method args => cases D.isSimple_of_steady hD h
  | _ => exact evalForm hself h nofun nofun nofun

end Agree

theorem ByName.eval_agrees {D : Dialect} (hD : D.steady = true) (m n : Nat) :
    SelfAgrees D (ByName.eval n) (Eval.eval .dispatch m) := by
  induction m generalizing n with
  | zero => exact fun node scope _ t _ => .exhausted
  | succ m ih =>
    have hnode : ∀ n, SelfAgrees D (ByName.eval (n + 1)) (Eval.eval .dispatch (m + 1)) :=
      fun n node scope h t => (Agree.form_byName hD (ih n) h).located node.span
    cases n with
    | zero => exact fun node scope h t hs => (hnode 0 node scope h t hs).giveUp _
    | succ n => exact hnode n

end DispatchLang
