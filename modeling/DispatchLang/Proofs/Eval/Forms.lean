import DispatchLang.Proofs.Eval.Natives
import DispatchLang.Proofs.Eval.TypeDeclarations

/-!
# Evaluation finds nothing out about the dispatcher

Every form of a program tree finds nothing out about the dispatcher if its parts do not. The proof follows
the evaluator. What looks at the dispatcher is invoking an operator, a function or a method, and declaring a
function; all else is blind or put together from such steps.

Declaring a function is where sessions that remember resolutions and sessions that do not differ on purpose:
a new function remembers resolutions if the session says so. A function with one more method forgets all
that it remembered, so whatever a call finds afterwards is what the new list of methods decides.

The same induction tells when built-in operations may be replaced by others. So it is done for two evaluators at
a time, which have twins for parts and for built-in operations (`NativesTwins`). Operations are only called with
arguments that have been matched with one of their signatures (`Selects`).

## Main results

* `Twins.callValue`, `Twins.callMethod`: calls are twins.
* `Transparent.addMethod`: adding a method to a function finds nothing out about the dispatcher.
* `Twins.form`: a form has the twin that its parts and the built-in operations make.
-/

namespace DispatchLang

open TypeArena

/-! ## Adding methods -/

namespace FunctionTable

variable {ι : Type} {arena : TypeArena} {table : FunctionTable ι} {name : String} {m : Method ι}

/-- Adds a method to a function, which forgets what it remembers. A function that is new remembers
resolutions if `cache` says so. -/
def declare (cache : Bool) (name : String) (m : Method ι) (table : FunctionTable ι) :
    FunctionTable ι :=
  Assoc.insert name (((table.lookup name).getD (.empty name cache)).withMethod m) table

/-- Whether new functions remember resolutions makes no difference to their methods. -/
theorem plain_declare (cache : Bool) :
    plain (declare cache name m table) = declare false name m (plain table) := by
  have hmethod : ∀ f : GenericFunction ι,
      (f.withMethod m).forgetful = f.forgetful.withMethod m := fun _ => rfl
  rw [declare, declare, plain_insert, plain_lookup, hmethod]
  cases table.lookup name <;> rfl

theorem Recalls.declare (h : Recalls table arena) (cache : Bool) (hm : m.In arena) :
    Recalls (declare cache name m table) arena := by
  refine h.insert (GenericFunction.recalls_of_cache_nil
    (GenericFunction.forall_mem_insertMethod hm ?_) rfl)
  cases hl : table.lookup name with
  | none => exact nofun
  | some f => exact (h _ (Assoc.mem_of_lookup hl)).methods_in

theorem Only.declare {p : Method ι → Prop} (h : Only p table) (cache : Bool) (hm : p m) :
    Only p (declare cache name m table) := by
  refine h.insert (GenericFunction.forall_mem_insertMethod hm ?_)
  cases hl : table.lookup name with
  | none => exact nofun
  | some f => exact h _ (Assoc.mem_of_lookup hl)

end FunctionTable

def Dispatcher.declare (d : Dispatcher) (name : String) (m : Method FunctionBody) : Dispatcher :=
  { d with functions := d.functions.declare d.cache name m }

theorem Dispatcher.plain_declare (d : Dispatcher) (name : String) (m : Method FunctionBody) :
    (d.declare name m).plain = d.plain.declare name m := by
  rw [declare, declare, plain, plain]
  dsimp only
  rw [FunctionTable.plain_declare]

theorem Dispatcher.Recalls.declare {d : Dispatcher} {arena : TypeArena} (h : d.Recalls arena)
    (name : String) {m : Method FunctionBody} (hm : m.In arena) :
    (d.declare name m).Recalls arena :=
  ⟨h.operators, FunctionTable.Recalls.declare h.functions d.cache hm, h.methods⟩

theorem Dispatcher.Native.declare {d : Dispatcher} (h : d.Native) (name : String)
    {m : Method FunctionBody} (hm : m.IsNamed) : (d.declare name m).Native :=
  ⟨h.operators, FunctionTable.Only.declare h.functions d.cache hm, h.methods⟩

namespace Twins

variable {α β γ : Type} {P : Claim α} {Q : Claim β} {t : Session}

/-! ## Callbacks -/

theorem mapM {step step' : γ → Eval Value} {l : List γ}
    (hstep : ∀ c ∈ l, ∀ s, t.arena.size ≤ s.arena.size → Twins s (step c) (step' c) valueIn) :
    Twins t (l.mapM step) (l.mapM step') valuesIn := by
  induction l generalizing t with
  | nil => exact pure nofun
  | cons c l ih =>
    rw [List.mapM_cons, List.mapM_cons]
    obtain ⟨hc, hl⟩ := List.forall_mem_cons.mp hstep
    refine (hc t (Nat.le_refl _)).bind fun v s hn hv => ?_
    refine (ih fun c hmem u hu => hl c hmem u (Nat.le_trans hn hu)).bind fun vs u hu hvs => ?_
    exact pure (List.forall_mem_cons.mpr ⟨hv.later hu, hvs⟩)

theorem filterM {step step' : Value → Eval Bool} {l : List Value} (hl : valuesIn t l)
    (hstep : ∀ v, valueIn t v → ∀ s, t.arena.size ≤ s.arena.size →
      Twins s (step v) (step' v) anything) : Twins t (l.filterM step) (l.filterM step') valuesIn := by
  have haux : ∀ l s, t.arena.size ≤ s.arena.size → valuesIn t l → ∀ done, valuesIn s done →
      Twins s (l.filterAuxM step done) (l.filterAuxM step' done) valuesIn := by
    intro l
    induction l with
    | nil => exact fun s _ _ done hdone => pure hdone
    | cons v l ih =>
      intro s hn hl done hdone
      obtain ⟨hv, hl⟩ := List.forall_mem_cons.mp hl
      refine (hstep v hv s hn).bind fun keep u hu _ => ih u (Nat.le_trans hn hu) hl _ ?_
      cases keep with
      | false => exact hdone.later hu
      | true => exact List.forall_mem_cons.mpr ⟨Value.In.mono hv (Nat.le_trans hn hu), hdone.later hu⟩
  exact (haux l t (Nat.le_refl _) hl [] nofun).bind fun done s _ hdone =>
    pure fun v hv => hdone v (List.mem_reverse.mp hv)

theorem foldlM {step step' : Value → Value → Eval Value} {l : List Value} (hl : valuesIn t l)
    (hstep : ∀ total v s, t.arena.size ≤ s.arena.size → valueIn s total → valueIn s v →
      Twins s (step total v) (step' total v) valueIn) {start : Value} (hstart : valueIn t start) :
    Twins t (l.foldlM step start) (l.foldlM step' start) valueIn := by
  induction l generalizing t start with
  | nil => exact pure hstart
  | cons v l ih =>
    obtain ⟨hv, hl⟩ := List.forall_mem_cons.mp hl
    exact (hstep start v t (Nat.le_refl _) hstart hv).bind fun total s hn htotal =>
      ih (valuesIn.later hn hl) (fun total v u hu => hstep total v u (Nat.le_trans hn hu)) htotal

end Twins

def SelfTwins (self self' : NodeEval) : Prop :=
  ∀ node scope t, Twins t (self node scope) (self' node scope) valueIn

/-- Ways to call a function, with arguments whose types are there, are twins. -/
def CallTwins (call call' : Value → List Value → Eval Value) : Prop :=
  ∀ {t callee args}, valueIn t callee → valuesIn t args → Twins t (call callee args) (call' callee args) valueIn

/-! ## Built-in operations -/

/-- The built-in methods that a session begins with. -/
def Session.nativeEntries : List (TableEntry MethodBody) :=
  Tables.operators.map (fun e => ⟨e.name, e.typeVars, e.signature, .primitive e.body⟩) ++
    Tables.functions.map (fun e => ⟨e.name, e.typeVars, e.signature, .primitive e.body⟩) ++
      Tables.methods Session.freshElement Session.freshArray

/-- A call selects a built-in operation: it is one of those a session begins with, and its signature matches the
types of the arguments. -/
structure Session.Selects (t : Session) (body : MethodBody) (signature : List TypeId) (args : List Value) :
    Prop where
  listed : ∃ e ∈ Session.nativeEntries, e.signature = signature ∧ e.body = body
  values : valuesIn t args
  matched : (t.arena.unifySignature? signature (args.map (Value.tag t.heap))).isSome

namespace TableOf

variable {t : Session} {args : List Value} (h : valuesIn t args)
include h

theorem operators_selects {r : Resolution Primitive} (hr : operators.Finds args t r) :
    t.Selects (.primitive r.method.implementation) r.method.signature args := by
  refine ⟨?_, h, Option.isSome_of_eq_some hr.matched⟩
  obtain ⟨e, he, hsignature, hbody⟩ := hr.known
  exact ⟨_, List.mem_append_left _ (List.mem_append_left _ (List.mem_map_of_mem he)), hsignature,
    congrArg MethodBody.primitive hbody⟩

theorem functionsByName_selects {r : Resolution FunctionBody} (hr : functionsByName.Finds args t r)
    {op : Primitive} (hop : r.method.implementation = .primitive op) :
    t.Selects (.primitive op) r.method.signature args := by
  refine ⟨?_, h, Option.isSome_of_eq_some hr.matched⟩
  rcases hr.known with ⟨params, body, scope, hdeclared⟩ | ⟨e, he, hsignature, hbody⟩
  · rw [hop] at hdeclared
    cases hdeclared
  · obtain ⟨e, he', rfl⟩ := List.mem_map.mp he
    rw [hop] at hbody
    cases hbody
    exact ⟨_, List.mem_append_left _ (List.mem_append_right _ (List.mem_map_of_mem he')), hsignature, rfl⟩

theorem methods_selects {r : Resolution MethodBody} (hr : methods.Finds args t r) :
    t.Selects r.method.implementation r.method.signature args := by
  refine ⟨?_, h, Option.isSome_of_eq_some hr.matched⟩
  obtain ⟨e, he, heq⟩ := hr.known
  exact ⟨e, List.mem_append_right _ he, heq⟩

end TableOf

/-- Built-in operations are twins where calls select them. -/
structure NativesTwins (natives natives' : Natives) : Prop where
  primitive : ∀ {self self' t op signature args}, SelfTwins self self' →
    t.Selects (.primitive op) signature args → ∀ scope, Twins t
      (natives.primitive self op signature args scope) (natives'.primitive self' op signature args scope) valueIn
  callback : ∀ {call call' : Value → List Value → Eval Value} {t op signature args}, CallTwins call call' →
    t.Selects (.callback op) signature args → Twins t
      (natives.callback call op signature args) (natives'.callback call' op signature args) valueIn

namespace Twins

variable {α : Type} {P : Claim α} {t : Session} {self self' : NodeEval} {scope : ScopeId}

section

variable (hself : SelfTwins self self')
include hself

theorem runStatements (scope : ScopeId) (statements : List Node) {last : Value}
    (hlast : valueIn t last) :
    Twins t (Eval.runStatements self scope last statements) (Eval.runStatements self' scope last statements)
      valueIn := by
  induction statements generalizing t last with
  | nil => exact pure hlast
  | cons statement statements ih =>
    exact (hself statement scope t).bind fun value s _ hv => ih hv

theorem runBody (body : Node) (scope : ScopeId) :
    Twins t (Eval.runBody self body scope) (Eval.runBody self' body scope) valueIn := by
  cases body with
  | block span params statements =>
    cases params with
    | nil => exact runStatements hself scope statements (Value.in_of_types_nil rfl)
    | cons _ _ => exact hself _ scope t
  | _ => exact hself _ scope t

theorem operation (op : Primitive) {args : List Value} (h : valuesIn t args) (scope : ScopeId) :
    Twins t (op.run self args scope) (op.run self' args scope) valueIn := by
  by_cases hop : op = .eval
  · subst hop
    rw [Primitive.run, Primitive.run]
    cases args.headD .nothing with
    | quoted body => exact hself body scope t
    | _ => exact (Blind.refuse _ _).transparent
  · have heq : op.run self args scope = op.run self' args scope := by
      cases op with
      | eval => exact absurd rfl hop
      | _ => rfl
    rw [← heq]
    exact (Blind.operation hop h self scope).transparent

end

theorem callback {call call' : Value → List Value → Eval Value} (hcall : CallTwins call call')
    (op : Callback) {args : List Value} (h : valuesIn t args) :
    Twins t (op.run call args) (op.run call' args) valueIn := by
  have ha := h.headD
  have hf := h.getD 1
  cases op with
  | map =>
    refine (Blind.arrayArgument _).transparent.bind fun address s hn _ => ?_
    refine (Blind.items address).transparent.bind fun values s' hn' hvalues => ?_
    refine (mapM fun v hv u hu => ?_).bind fun _ _ _ hresults => (Blind.newArray hresults).transparent
    exact hcall (hf.later (Nat.le_trans hn (Nat.le_trans hn' hu)))
      (List.forall_mem_singleton.mpr ((hvalues v hv).mono hu))
  | filter =>
    refine (Blind.arrayArgument _).transparent.bind fun address s hn _ => ?_
    refine (Blind.items address).transparent.bind fun values s' hn' hvalues => ?_
    refine (filterM hvalues fun v hv u hu => ?_).bind fun _ _ _ hresults =>
      (Blind.newArray hresults).transparent
    refine (hcall (hf.later (Nat.le_trans hn (Nat.le_trans hn' hu)))
      (List.forall_mem_singleton.mpr (hv.later hu))).bind fun answer u' _ _ => ?_
    cases answer with
    | bool b => exact pure trivial
    | _ => exact (Blind.typeText _).transparent.bind fun _ _ _ _ => fail _
  | reduce =>
    refine (Blind.arrayArgument _).transparent.bind fun address s hn _ => ?_
    refine (Blind.items address).transparent.bind fun values s' hn' hvalues => ?_
    have hlater := Nat.le_trans hn hn'
    refine foldlM hvalues (fun total v u hu htotal hv => ?_) ((h.getD 2).later hlater)
    exact hcall (hf.later (Nat.le_trans hlater hu))
      (List.forall_mem_cons.mpr ⟨htotal, List.forall_mem_singleton.mpr hv⟩)
  | call => exact hcall ha fun v hv => h v (List.mem_of_mem_tail hv)

end Twins

/-- The built-in operations find nothing out about the dispatcher if evaluators and calls do not. -/
theorem nativesTwins_builtin : NativesTwins .builtin .builtin where
  primitive hself h scope := Twins.operation hself _ h.values scope
  callback hcall h := Twins.callback hcall _ h.values

namespace Transparent

variable {α β γ : Type} {P : Claim α} {t : Session}

theorem checkField (owner field : String) (expected : TypeId) (value : Value) :
    Transparent t (Eval.checkField owner field expected value) anything := by
  refine Twins.get (fun _ => rfl) ?_
  dsimp only
  split
  · exact Twins.pure trivial
  · exact Twins.fail _

theorem checkFields (owner : String) (fields : FieldTypes) (values : List Value) :
    Transparent t (Eval.checkFields owner fields values) anything := by
  induction fields generalizing t values with
  | nil => exact Twins.pure trivial
  | cons field fields ih =>
    cases values with
    | nil => exact Twins.pure trivial
    | cons value values =>
      exact (checkField owner field.1 field.2 value).bind fun _ _ _ _ => ih values

theorem orderFields (owner : String) (declared : FieldTypes) {given : List (String × Value)}
    (h : entriesIn t given) :
    Transparent t (Eval.orderFields owner declared given) entriesIn := by
  induction declared generalizing t given with
  | nil => exact Twins.pure entriesIn_nil
  | cons field declared ih =>
    obtain ⟨field, expected⟩ := field
    rw [Eval.orderFields]
    cases hl : given.lookup field with
    | none => exact Twins.fail _
    | some value =>
      refine (checkField owner field expected value).bind fun _ s hn _ => ?_
      refine (ih (Assoc.forall_mem_erase (entriesIn.later hn h))).bind fun rest s' hn' hrest => ?_
      exact Twins.pure (List.forall_mem_cons.mpr
        ⟨(h.lookup hl).later (Nat.le_trans hn hn'), hrest⟩)

/-! ### Patterns -/

theorem matchValue (pattern : Node) {value : Value} (h : valueIn t value) :
    Transparent t (Eval.matchValue pattern value)
      fun s found => ∀ bindings, found = some bindings → entriesIn s bindings := by
  rw [Eval.matchValue]
  cases hm : value.matchPattern pattern with
  | error e => exact fun _ => Alike.throw _
  | ok found =>
    refine Twins.pure fun bindings hfound => ?_
    rw [hfound] at hm
    exact Value.matchPattern_in h hm

theorem assignTo (target : Node) {value : Value} (h : valueIn t value) (scope : ScopeId) :
    Transparent t (Eval.assignTo target value scope) anything := by
  cases target with
  | ident span name => exact (Blind.assign scope name h).transparent
  | construct span name fields =>
    refine (matchValue _ h).bind fun found s hn hfound => ?_
    cases found with
    | none => exact (Blind.repr value).transparent.bind fun _ _ _ _ => Twins.failAt _ _
    | some bindings =>
      exact (Blind.forM (fun u e he => Blind.assign scope e.1 he) (hfound bindings rfl)).transparent
  | _ => exact Twins.failAt _ _

/-! ### Declarations of functions -/

/-- A function gets one more method and forgets what it remembered. -/
theorem addMethod (name : String) {m : Method FunctionBody} (hm : m.In t.arena) (hnamed : m.IsNamed) :
    Transparent t (modify fun s =>
      let f := (s.functions.lookup name).getD (.empty name s.options.cache)
      { s with functions := Assoc.insert name (f.withMethod m) s.functions }) anything := by
  intro d hl
  have hlike : (t.equip (t.dispatcher.declare name m)).Like (d.declare name m) :=
    ⟨hl.formed.equip _, hl.native.declare name hnamed, ⟨hl.complete.operators, hl.complete.methods⟩,
      hl.own.declare name hm, hl.other.declare name hm, by
      rw [Session.dispatcher_equip, Dispatcher.plain_declare, Dispatcher.plain_declare, hl.plain]⟩
  exact .given hlike (.refl _) trivial

theorem declareFunction (head : FunctionHead) (body : Node) (scope : ScopeId) :
    Transparent t (Dispatch.declareFunction head body scope) valueIn := by
  have hnone : namedTypesIn t [] := nofun
  refine (Blind.typeParams hnone scope head.typeParams).transparent.bind fun vars s _ hvars => ?_
  refine (Blind.resolveParams hvars scope head.params).transparent.bind fun signature s' _ hs => ?_
  have hm : Method.In (⟨vars.reverse.map Prod.snd, signature,
      .declared (head.params.map (·.name.val)) body scope⟩ : Method FunctionBody) s'.arena := hs
  refine (addMethod head.name.val hm (.inl ⟨_, _, _, rfl⟩)).bind fun _ s'' _ _ => ?_
  have hvalue : valueIn s'' (.generic head.name.val) := Value.in_of_types_nil rfl
  exact (Blind.define scope _ hvalue).transparent.bind fun _ _ _ _ =>
    Twins.pure (Value.in_of_types_nil rfl)

end Transparent

namespace Twins

variable {α : Type} {P : Claim α} {t : Session} {self self' : NodeEval} {scope : ScopeId}
  (hself : SelfTwins self self')
include hself

/-! ## Instances -/

theorem givenFields (declared : FieldTypes) (owner : String) (scope : ScopeId)
    (fields : List (Located String × Node)) {given : List (String × Value)}
    (h : entriesIn t given) :
    Twins t (Eval.givenFields self declared owner scope given fields)
      (Eval.givenFields self' declared owner scope given fields) entriesIn := by
  induction fields generalizing t given with
  | nil => exact pure h
  | cons field fields ih =>
    obtain ⟨field, node⟩ := field
    rw [Eval.givenFields, Eval.givenFields]
    split
    · exact failAt _ _
    · split
      · exact failAt _ _
      · exact (hself node scope t).bind fun value s hn hv => ih (List.forall_mem_append.mpr
          ⟨entriesIn.later hn h, List.forall_mem_singleton.mpr hv⟩)

theorem instance_of {type : TypeId} (htype : declaredTypeIn t type) (typeName : String)
    (variant : Option String) (owner : String) (declared : FieldTypes)
    (fields : List (Located String × Node)) (scope : ScopeId) :
    Twins t
      (do
        let given ← Eval.givenFields self declared owner scope [] fields
        return .inst type typeName variant (← Eval.orderFields owner declared given))
      (do
        let given ← Eval.givenFields self' declared owner scope [] fields
        return .inst type typeName variant (← Eval.orderFields owner declared given)) valueIn := by
  refine (givenFields hself declared owner scope fields entriesIn_nil).bind fun given s hn hgiven => ?_
  refine (Transparent.orderFields owner declared hgiven).bind fun ordered s' hn' hordered => ?_
  exact pure (Value.in_inst.mpr ⟨htype.mono (Nat.le_trans hn hn'), hordered⟩)

theorem construct (name : Located String) (fields : List (Located String × Node))
    (scope : ScopeId) :
    Twins t (Eval.construct .dispatch self name fields scope) (Eval.construct .dispatch self' name fields scope)
      valueIn := by
  refine (Blind.lookup scope name.val).transparent.bind fun found s hn hfound => ?_
  split
  · next id typeName =>
    refine ofFormed fun hs => get (fun _ => rfl) ?_
    split
    · next params declared hk =>
      have hdeclared : declaredTypeIn s id :=
        ⟨hs.regular.builtin_le_of_struct hk, Value.in_typeRef.mp (hfound _ rfl)⟩
      exact instance_of hself hdeclared typeName none typeName _ fields scope
    · exact fail _
  · next id c =>
    exact instance_of hself (Value.in_constructor.mp (hfound _ rfl)).1 c.typeName (some c.variant)
      c.variant c.fields fields scope
  · exact failAt _ _

/-! ## Arms -/

theorem runArms {value : Value} (h : valueIn t value) (scope : ScopeId)
    (arms : List (Node × Node)) :
    Twins t (Eval.runArms self value scope arms) (Eval.runArms self' value scope arms) valueIn := by
  induction arms generalizing t with
  | nil => exact (Blind.repr value).transparent.bind fun _ _ _ _ => fail _
  | cons arm arms ih =>
    obtain ⟨pattern, body⟩ := arm
    refine (Transparent.matchValue pattern h).bind fun found s hn hfound => ?_
    cases found with
    | none => exact ih (h.later hn)
    | some bindings =>
      refine (Blind.newScope scope).transparent.bind fun inner s' hn' _ => ?_
      exact (Blind.defineAll inner (entriesIn.later hn' (hfound bindings rfl))).transparent.bind
        fun _ _ _ _ => runBody hself body inner

/-! ## Lists of nodes -/

theorem evalAll (nodes : List Node) (scope : ScopeId) :
    Twins t (Eval.evalAll self nodes scope) (Eval.evalAll self' nodes scope) valuesIn :=
  mapM fun node _ s _ => hself node scope s

theorem evalEntries (scope : ScopeId) (fields : List (Located String × Node))
    {done : List (String × Value)} (h : entriesIn t done) :
    Twins t (Eval.evalEntries self scope done fields) (Eval.evalEntries self' scope done fields) entriesIn := by
  induction fields generalizing t done with
  | nil => exact pure h
  | cons field fields ih =>
    exact (hself field.2 scope t).bind fun value s hn hv =>
      ih (ScopeTree.forall_mem_insert hv (entriesIn.later hn h))

/-! ## Calls -/

theorem runDeclared (params : List String) (body : Node) (outer : ScopeId) {bindings : Bindings}
    (hb : bindings.In t.arena) {args : List Value} (h : valuesIn t args) :
    Twins t (Dispatch.runDeclared self params body outer bindings args)
      (Dispatch.runDeclared self' params body outer bindings args) valueIn := by
  refine (Blind.newScope outer).transparent.bind fun inner s hn _ => get (fun _ => rfl) ?_
  have htypes : entriesIn s (bindings.map fun b => (b.1, .typeRef b.2 (s.arena.name b.2))) :=
    List.forall_mem_map.mpr fun b hmem => Value.in_typeRef.mpr (Nat.lt_of_lt_of_le (hb b hmem) hn)
  refine (Blind.defineAll inner htypes).transparent.bind fun _ s' hn' _ => ?_
  have hparams : entriesIn s' (params.zip args) := fun e he =>
    (h e.2 (List.of_mem_zip he).2).mono (Nat.le_trans hn hn')
  exact (Blind.defineAll inner hparams).transparent.bind fun _ _ _ _ => runBody hself body inner

variable {natives natives' : Natives} (hnatives : NativesTwins natives natives')
include hnatives

theorem invokeOperator {args : List Value} (h : valuesIn t args) (symbol : String) (scope : ScopeId) :
    Twins t (natives.invokeOperator self symbol args scope) (natives'.invokeOperator self' symbol args scope)
      valueIn := by
  refine invoke TableOf.operators (fun _ => rfl) h (fail _) fun _ result s hn hr => ?_
  cases result with
  | error e => exact fail _
  | ok r =>
    exact hnatives.primitive hself (TableOf.operators_selects (valuesIn.later hn h) (hr r rfl)) scope

theorem invokeFunction {args : List Value} (h : valuesIn t args) (name : String) (scope : ScopeId) :
    Twins t (natives.invokeFunction self name args scope) (natives'.invokeFunction self' name args scope)
      valueIn := by
  refine invoke TableOf.functionsByName (fun _ => rfl) h (fail _) fun _ result s hn hr => ?_
  cases result with
  | error e => exact fail _
  | ok r =>
    have hlater := valuesIn.later hn h
    dsimp only
    cases hbody : r.method.implementation with
    | primitive op =>
      exact hnatives.primitive hself (TableOf.functionsByName_selects hlater (hr r rfl) hbody) scope
    | declared params body outer => exact runDeclared hself params body outer (hr r rfl).bindings_in hlater

theorem invokeMethod {call call' : Value → List Value → Eval Value} (hcall : CallTwins call call')
    {args : List Value} (h : valuesIn t args) (name : String) (scope : ScopeId) :
    Twins t (natives.invokeMethod self call name args scope) (natives'.invokeMethod self' call' name args scope)
      fun s answer => ∀ v, answer = .ok v → valueIn s v := by
  refine invoke TableOf.methods (fun _ => rfl) h (pure nofun) fun _ result s hn hr => ?_
  have answered {u : Session} {v : Value} (hv : valueIn u v) (w : Value)
      (heq : (.ok v : Except (Option DispatchError) Value) = .ok w) : valueIn u w := Except.ok.inj heq ▸ hv
  cases result with
  | error e =>
    cases e with
    | noMethod _ _ => exact pure nofun
    | _ => exact fail _
  | ok r =>
    have hselects := TableOf.methods_selects (valuesIn.later hn h) (hr r rfl)
    dsimp only
    cases hbody : r.method.implementation with
    | primitive op =>
      rw [hbody] at hselects
      exact (hnatives.primitive hself hselects scope).bind fun _ _ _ hv => pure (answered hv)
    | callback op =>
      rw [hbody] at hselects
      exact (hnatives.callback hcall hselects).bind fun _ _ _ hv => pure (answered hv)

theorem callValue {callee : Value} (hcallee : valueIn t callee) {args : List Value}
    (h : valuesIn t args) (scope : ScopeId) :
    Twins t (natives.callValue self callee args scope) (natives'.callValue self' callee args scope) valueIn := by
  have enter : ∀ (who : String) (params : List String) (outer : ScopeId) {rest rest' : ScopeId → Eval Value},
      (∀ inner s, Twins s (rest inner) (rest' inner) valueIn) → Twins t
        (do
          Eval.check (checkArity who params.length args.length)
          let inner ← Eval.newScope outer
          Eval.defineAll inner (params.zip args)
          rest inner)
        (do
          Eval.check (checkArity who params.length args.length)
          let inner ← Eval.newScope outer
          Eval.defineAll inner (params.zip args)
          rest' inner) valueIn := by
    intro who params outer rest rest' hrest
    refine (Blind.check (P := anything) _ fun _ _ => trivial).transparent.bind fun _ s hn _ => ?_
    refine (Blind.newScope outer).transparent.bind fun inner s' hn' _ => ?_
    have hparams : entriesIn s' (params.zip args) := fun e he =>
      (h e.2 (List.of_mem_zip he).2).mono (Nat.le_trans hn hn')
    exact (Blind.defineAll inner hparams).transparent.bind fun _ u _ _ => hrest inner u
  cases callee with
  | closure id params body outer =>
    exact enter _ params outer fun inner s =>
      runStatements hself inner body (Value.in_of_types_nil rfl)
  | function id name params body outer =>
    exact enter _ params outer fun inner s => runBody hself body inner
  | generic name => exact invokeFunction hself hnatives h name scope
  | constructor id c =>
    refine (Blind.check (P := anything) _ fun _ _ => trivial).transparent.bind fun _ s hn _ => ?_
    refine (Transparent.checkFields _ _ _).bind fun _ s' hn' _ =>
      pure (Value.in_inst.mpr ⟨?_, fun e he => ?_⟩)
    · exact (Value.in_constructor.mp hcallee).1.mono (Nat.le_trans hn hn')
    · exact (h e.2 (List.of_mem_zip he).2).mono (Nat.le_trans hn hn')
  | _ => exact (Blind.typeText _).transparent.bind fun _ _ _ _ => fail _

theorem callMember {receiver : Value} (hreceiver : valueIn t receiver) {args : List Value}
    (h : valuesIn t args) (name : String) (scope : ScopeId) (otherwise : Fault) :
    Twins t (natives.callMember self receiver name args scope otherwise)
      (natives'.callMember self' receiver name args scope otherwise) valueIn := by
  refine ofFormed fun hformed => get (fun _ => rfl) ?_
  split
  · next member hmember =>
    obtain ⟨hfield, -⟩ := Option.filter_eq_some_iff.mp hmember
    exact callValue hself hnatives (Value.ownField?_in hformed.heap hreceiver hfield) h scope
  · refine (Blind.lookup scope name).transparent.bind fun found s hn hfound => ?_
    split
    · next f hf =>
      obtain ⟨hf, -⟩ := Option.filter_eq_some_iff.mp hf
      exact callValue hself hnatives (hfound f hf)
        (List.forall_mem_cons.mpr ⟨hreceiver.later hn, valuesIn.later hn h⟩) scope
    · exact fail _

theorem callMethod {receiver : Value} (hreceiver : valueIn t receiver) {args : List Value}
    (h : valuesIn t args) (name : String) (scope : ScopeId) :
    Twins t (natives.callMethod self receiver name args scope)
      (natives'.callMethod self' receiver name args scope) valueIn := by
  have hcall : CallTwins (fun callee args => natives.callValue self callee args scope)
      fun callee args => natives'.callValue self' callee args scope :=
    fun hc ha => callValue hself hnatives hc ha scope
  refine (invokeMethod hself hnatives hcall (List.forall_mem_cons.mpr ⟨hreceiver, h⟩) name scope).bind
    fun answer s hn hanswer => ?_
  cases answer with
  | ok v => exact pure (hanswer v rfl)
  | error e =>
    cases e with
    | some e => exact callMember hself hnatives (hreceiver.later hn) (valuesIn.later hn h) name scope _
    | none =>
      exact (Blind.typeText receiver).transparent.bind fun _ s' hn' _ =>
        callMember hself hnatives (hreceiver.later (Nat.le_trans hn hn'))
          (valuesIn.later (Nat.le_trans hn hn') h) name scope _

/-! ## Forms -/

theorem binaryNode (op : BinaryOp) (left right : Node) (scope : ScopeId) :
    Twins t (natives.binaryNode self op left right scope) (natives'.binaryNode self' op left right scope)
      valueIn := by
  refine (hself left scope t).bind fun l s hn hl => ?_
  split
  · exact pure hl
  · exact pure hl
  · exact (hself right scope s).bind fun r s' hn' hr => invokeOperator hself hnatives
      (List.forall_mem_cons.mpr ⟨hl.later hn', List.forall_mem_singleton.mpr hr⟩) _ scope

theorem unary (op : UnaryOp) {operand : Value} (h : valueIn t operand) (scope : ScopeId) :
    Twins t (natives.unary self op operand scope) (natives'.unary self' op operand scope) valueIn := by
  cases op <;> exact invokeOperator hself hnatives (List.forall_mem_singleton.mpr h) _ scope

/-- What a form does is twins if its parts and the built-in operations are. -/
theorem form (node : Node) (scope : ScopeId) :
    Twins t (natives.form self node scope) (natives'.form self' node scope) valueIn := by
  cases node with
  | literal span value => exact pure (Value.in_ofLiteral value)
  | ident span name =>
    refine (Blind.lookup scope name).transparent.bind fun found s _ hfound => ?_
    cases found with
    | none => exact fail _
    | some value => exact pure (hfound value rfl)
  | binary span op left right => exact binaryNode hself hnatives op left right scope
  | unary span op operand =>
    exact (hself operand scope t).bind fun v s _ hv => unary hself hnatives op hv scope
  | assign span target value =>
    exact (hself value scope t).bind fun v s _ hv => (Transparent.assignTo target hv scope).bind
      fun _ s' hn' _ => pure (hv.later hn')
  | field span subject member =>
    exact (hself subject scope t).bind fun receiver s _ hr =>
      (Blind.fieldOf hr member.val).transparent
  | call span function args =>
    refine (Blind.lookup scope function.val).transparent.bind fun found s _ hfound => ?_
    cases found with
    | none => exact fail _
    | some callee =>
      exact (evalAll hself args scope).bind fun values s' hn' hvalues =>
        callValue hself hnatives ((hfound callee rfl).mono hn') hvalues scope
  | send span receiver method args =>
    exact (hself receiver scope t).bind fun r s _ hr => (evalAll hself args scope).bind
      fun values s' hn' hvalues => callMethod hself hnatives (hr.later hn') hvalues method.val scope
  | block span params body =>
    exact Blind.newId.transparent.bind fun _ _ _ _ => pure (Value.in_of_types_nil rfl)
  | cases span scrutinee arms =>
    exact (hself scrutinee scope t).bind fun value s _ hv => runArms hself hv scope arms
  | construct span name fields => exact construct hself name fields scope
  | typeDecl span decl => exact (Blind.declareType decl scope).transparent
  | function span head body => exact Transparent.declareFunction head body scope
  | capture span name => exact fail _
  | refine span name pattern => exact fail _
  | quoted span body => exact pure (Value.in_of_types_nil rfl)
  | array span elements =>
    exact (evalAll hself elements scope).bind fun values s _ hvalues =>
      (Blind.newArray hvalues).transparent
  | object span fields =>
    exact (evalEntries hself scope fields entriesIn_nil).bind fun values s _ hvalues =>
      (Blind.newObject hvalues).transparent
  | pair span key value => exact fail _

end Twins

end DispatchLang
