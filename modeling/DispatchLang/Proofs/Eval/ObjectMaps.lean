import DispatchLang.Proofs.Eval.HeedingForms
import DispatchLang.Proofs.Eval.Unambiguous

/-!
# Objects are maps that keep the order of insertion

An object is made by a literal, and `set` stores things in it, whichever name or value the call gets the object from. A
session has a record of an object (`Session.Recorded`) if these are the things that the literal and the calls of `set` have
stored in it, one after the other. What a program then finds out about the object is what the record says, under both
strategies and in every state that a session gets into (`Session.Shows`): the methods `at`, `has`, `keys` and `values`,
access to fields, and the function `len` all agree.

Two things have to be known for this. A method call with an object finds the built-in method, although user-declared types and
functions are around: by shape there is nothing else to find, and by type the signature of the method is the only one that
matches. And nothing else is stored in the object, which is what evaluation under a rule says.

## Main definitions

* `Session.Occurs`: the states that a session gets into.
* `Session.Recorded`: what has been stored in an object.
* `Session.Shows`: what a program finds out about an object.

## Main results

* `Session.Recorded.evaluated`: a record remains the same where nothing is stored in the object.
* `Session.Occurs.objects`: keys are distinct, and objects show what has been recorded.
-/

namespace DispatchLang

open TypeArena

/-! ## Evaluation without a rule -/

namespace Heeds

variable {rule : StorageRule} {strategy : Strategy} {self : NodeEval}

theorem forbids_eq_false (h : ∀ key value, rule.permits key value = true) (receiver : Value) (method : String)
    (args : List Value) : rule.forbids receiver method args = false := by
  unfold StorageRule.forbids
  split
  · rw [h, Bool.not_true, Bool.and_false]
  · rfl

/-- If everything may be stored, what a node does heeds the rule if the parts do. -/
theorem node (h : ∀ key value, rule.permits key value = true) (hself : ∀ node scope, Heeds rule (self node scope))
    (node : Node) (scope : ScopeId) : Heeds rule (Eval.evalNode strategy self node scope) := by
  refine located ?_ _
  by_cases hsend : ∃ span receiver method args, node = .send span receiver method args
  · obtain ⟨span, receiver, method, args, rfl⟩ := hsend
    exact (hself receiver scope).bind fun _ => (evalAll hself scope args).bind fun _ =>
      callMethod hself scope (forbids_eq_false h _ _ _)
  · exact form hself scope fun span receiver method args heq => hsend ⟨span, receiver, method, args, heq⟩

variable (h : ∀ key value, rule.permits key value = true)
include h

theorem eval (n : Nat) (node : Node) (scope : ScopeId) : Heeds rule (Eval.eval strategy n node scope) := by
  induction n generalizing node scope with
  | zero => exact throw _
  | succ n ih => exact Heeds.node h ih node scope

theorem directUntil (stop : Node → ScopeId → Session → Bool) (n : Nat) (node : Node) (scope : ScopeId) :
    Heeds rule (Direct.evalUntil stop n node scope) := by
  induction n generalizing node scope with
  | zero => exact throw _
  | succ n ih =>
    refine (Heeds.node h ih node scope).bind fun value => get fun s => ?_
    split
    · exact throw _
    · exact pure _

theorem dispatchUntil (stop : Node → ScopeId → Session → Bool) (n : Nat) (node : Node) (scope : ScopeId) :
    Heeds rule (Eval.evalUntil stop n node scope) := by
  induction n generalizing node scope with
  | zero => exact throw _
  | succ n ih =>
    intro s t hs hends
    have hrun : Eval.evalUntil stop (n + 1) node scope s =
        if stop node scope (s.equip ⟨false, [], [], [], []⟩) then .error .exhausted s
        else Eval.evalNode .dispatch (Eval.evalUntil stop n) node scope s := rfl
    by_cases hstop : stop node scope (s.equip ⟨false, [], [], [], []⟩) = true
    · rw [if_pos hstop] at hrun
      refine throw (α := Value) .exhausted s t hs ?_
      rcases hends with h | h
      · exact .ok (hrun ▸ h)
      · exact .error (hrun ▸ h)
    · rw [if_neg hstop] at hrun
      have hnode : Heeds rule (Eval.evalNode .dispatch (Eval.evalUntil stop n) node scope) := Heeds.node h ih node scope
      refine hnode s t hs ?_
      rcases hends with h | h
      · exact .ok (hrun ▸ h)
      · exact .error (hrun ▸ h)

end Heeds

/-! ## States -/

/-- Whether a method of a function stores something in an object. -/
def FunctionBody.sets : FunctionBody → Bool
  | .primitive .set => true
  | _ => false

namespace Session

variable {strategy : Strategy} {options : Options} {s t : Session}

/-- A state that a session gets into under a strategy. Under the dispatch strategy it may also be looked at after a node has
been evaluated, as it is when a method is called. -/
def Occurs (strategy : Strategy) (options : Options) (s : Session) : Prop :=
  match strategy with
  | .direct => (fresh .direct options).Reaches s
  | .dispatch => (fresh .dispatch options).GoesThrough s

theorem keeps_built {ι : Type} {functions : FunctionTable ι} (p : String → Method ι → Prop)
    (h : ∀ e ∈ functions, e.2.cache.isEmpty = true ∧ ∀ m ∈ e.2.methods, p e.1 m) : ∀ e ∈ functions, e.2.Keeps (p e.1) :=
  fun e he => ⟨(h e he).2, (List.isEmpty_iff.mp (h e he).1).symm ▸ List.forall_mem_nil _⟩

theorem setsOnly_freshDispatcher (assignment : AssignmentScope) (cache : Bool) :
    ((freshState assignment).equip (freshDispatcher cache)).SetsOnly := by
  have hoperators : ∀ e ∈ Tables.build cache Tables.operators,
      e.2.cache.isEmpty = true ∧ ∀ m ∈ e.2.methods, m.implementation ≠ .set := by cases cache <;> decide
  have hfunctions : ∀ e ∈ Tables.build cache namedEntries, e.2.cache.isEmpty = true ∧
      ∀ m ∈ e.2.methods, m.implementation.sets = false := by cases cache <;> decide
  have hmethods : ∀ e ∈ Tables.build cache (Tables.methods freshElement freshArray), e.2.cache.isEmpty = true ∧
      ∀ m ∈ e.2.methods, m.implementation = .primitive .set → e.1 = "set" ∧ m.signature.length = 3 := by
    cases cache <;> decide
  have hoperators := keeps_built (fun _ (m : Method Primitive) => m.implementation ≠ .set) hoperators
  have hfunctions := keeps_built (fun _ (m : Method FunctionBody) => m.implementation.sets = false) hfunctions
  have hmethods := keeps_built
    (fun name (m : Method MethodBody) => m.implementation = .primitive .set → name = "set" ∧ m.signature.length = 3) hmethods
  rw [freshDispatcher]
  refine ⟨?_, ?_, ?_⟩ <;> rw [equip] <;> dsimp only
  · exact hoperators
  · refine fun e he => (hfunctions e he).mono fun m hm himpl => ?_
    rw [himpl] at hm
    cases hm
  · exact hmethods

theorem setsOnly_fresh (strategy : Strategy) (options : Options) : (fresh strategy options).SetsOnly := by
  cases strategy with
  | direct => exact ⟨nofun, nofun, nofun⟩
  | dispatch =>
    obtain ⟨assignment, cache⟩ := options
    rw [fresh_eq]
    exact setsOnly_freshDispatcher assignment cache

/-- Whatever a program does, the tables stay as they should be. -/
theorem SetsOnly.ran {x : Eval Value} (h : ∀ rule : StorageRule, (∀ key value, rule.permits key value = true) → Heeds rule x)
    (hs : s.SetsOnly) : SetsOnly (match x s with
      | .ok _ t => t
      | .error _ t => t) := by
  have hleads := h ⟨0, fun _ _ => true⟩ (fun _ _ => rfl) s
  cases hrun : x s with
  | ok value t => exact (hleads t hs (.ok hrun)).tables hs
  | error halt t => exact (hleads t hs (.error hrun)).tables hs

theorem SetsOnly.fed (hs : s.SetsOnly) (source : String) : (s.feed strategy source).2.SetsOnly := by
  rw [feed]
  cases Program.parse source with
  | error e => exact hs
  | ok program =>
    have hran := hs.ran fun rule h =>
      show Heeds rule (Eval.runStatements (Eval.eval strategy depthLimit) ScopeTree.root .nothing program) from
        Heeds.runStatements (Heeds.eval h depthLimit) ScopeTree.root .nothing program
    dsimp only
    rw [run]
    revert hran
    cases Eval.runStatements (Eval.eval strategy depthLimit) ScopeTree.root .nothing program s with
    | ok value t => exact id
    | error halt t => cases halt <;> exact id

theorem Occurs.setsOnly (h : s.Occurs strategy options) : s.SetsOnly := by
  cases strategy with
  | direct =>
    replace h : (fresh .direct options).Reaches s := h
    induction h with
    | refl => exact setsOnly_fresh .direct options
    | fed _ source ih => exact ih.fed source
    | stopped _ stop depth program ih =>
      exact ih.ran fun rule hr => Heeds.runStatements (Heeds.directUntil hr stop depth) ScopeTree.root .nothing program
  | dispatch =>
    have hbefore {s : Session} (h : (fresh .dispatch options).LeadsTo s) : s.SetsOnly := by
      induction h with
      | refl => exact setsOnly_fresh .dispatch options
      | fed _ source ih => exact ih.fed source
      | stopped _ stop depth program ih =>
        exact ih.ran fun rule hr => Heeds.runStatements (Heeds.dispatchUntil hr stop depth) ScopeTree.root .nothing program
      | cleared _ ih => exact ⟨ih.operators, ih.functions, ih.methods⟩
    replace h : (fresh .dispatch options).GoesThrough s := h
    induction h with
    | before h => exact hbefore h
    | after _ depth node scope ih => exact ih.ran fun rule hr => Heeds.eval hr depth node scope

/-- In every state the heap is in order. -/
theorem Occurs.tidy (h : s.Occurs strategy options) : s.Tidy strategy := by
  cases strategy with
  | direct => exact (Reaches.orderly h (orderly_fresh .lax _ _)).tidy
  | dispatch =>
    replace h : (fresh .dispatch options).GoesThrough s := h
    suffices horderly : s.Orderly .lax .dispatch from horderly.tidy
    induction h with
    | before h => exact LeadsTo.orderly h (orderly_fresh .lax _ _)
    | after _ depth node scope ih =>
      obtain ⟨-, hrun⟩ := Obeys.eval .lax .dispatch depth node scope _ trivial ih
      rw [evaluated]
      generalize Eval.eval .dispatch depth node scope _ = result at hrun
      cases result with
      | ok value t => exact hrun.2.1
      | error halt t => exact hrun.1

/-- In every state of the dispatch strategy the tables have the built-in methods, and remember nothing wrong. -/
theorem Occurs.like (h : s.Occurs .dispatch options) : ∃ d, s.Like d :=
  GoesThrough.formed h (fresh_like options.assignment options.cache options.cache)

end Session

/-! ## Calls by type -/

/-- Where no two signatures can be compared, a method with built-in types that the arguments match is found. -/
theorem GenericFunction.resolve_of_apart {ι : Type} {f : GenericFunction ι} {arena : TypeArena} (h : arena.Regular)
    (hf : f.Recalls arena)
    (hfresh : arena.interned? (.applied .array [Session.freshElement]) = some Session.freshArray)
    (ht : Apart f.methods) {args : List TypeId} (ha : ∀ x ∈ args, x < arena.size) {m : Method ι} (hmem : m ∈ f.methods)
    (hplain : m.IsPlain) (hmatch : arena.areSubtypes args m.signature = true) :
    ∃ r : Resolution ι, (f.resolve args arena).result = .ok r ∧ r.method = m := by
  have hgrown : arena.Grown := ⟨h.indexed, h.extends_initial⟩
  have hcall : Callable arena args f.methods := ⟨h.indexed, ha, hf.methods_in, ht.distinct⟩
  have hunifies : arena.unifySignature? m.signature args = some [] := by
    rw [hgrown.unifySignature?_eq hplain, if_pos hmatch]
  have hwins := Wins.of_apart h hfresh ha ht.params ht.apart hmem hunifies
  rw [(hf.resolve_eq_choose args).1]
  rcases choose_of_wins hcall f.name fun _ _ _ => ⟨m, [], hwins⟩ with ⟨-, hnone⟩ | ⟨r, heq, hr⟩
  · rw [hnone m hmem] at hunifies
    cases hunifies
  · exact ⟨r, heq, (hr.unique hcall hwins).1⟩

theorem TypeArena.Grown.isSubtype_object {arena : TypeArena} (h : arena.Grown) :
    arena.isSubtype .object .object = true :=
  (h.isSubtype_eq (by decide) (by decide)).trans (by decide)

theorem TypeArena.Grown.isSubtype_string {arena : TypeArena} (h : arena.Grown) :
    arena.isSubtype .string .string = true :=
  (h.isSubtype_eq (by decide) (by decide)).trans (by decide)

def objectMethods : List (String × List TypeId × Primitive) :=
  [("keys", [.object], .keys), ("values", [.object], .values), ("at", [.object, .string], .objectAt),
    ("has", [.object, .string], .has), ("set", [.object, .string, .any], .set)]

theorem objectMethods_named : ∀ entry ∈ objectMethods,
    ((Tables.build false (Tables.methods Session.freshElement Session.freshArray)).lookup entry.1).isSome = true := by
  decide

theorem objectMethods_built : ∀ entry ∈ objectMethods,
    ∀ e ∈ Tables.build false (Tables.methods Session.freshElement Session.freshArray), e.1 = entry.1 →
      ∃ m ∈ e.2.methods, m.signature = entry.2.1 ∧ m.implementation = .primitive entry.2.2 ∧
        ∀ p ∈ m.signature, p < builtinTypes.length := by
  decide

namespace Session

variable {s : Session} {d : Dispatcher} {self : NodeEval} {call : Value → List Value → Eval Value} {args : List Value}
  {scope : ScopeId}

theorem Like.invokeMethod (hl : s.Like d) {name : String} {signature : List TypeId} {operation : Primitive}
    (hentry : (name, signature, operation) ∈ objectMethods)
    (ha : ∀ v ∈ args, v.tag s.heap < s.arena.size)
    (hmatch : s.arena.areSubtypes (args.map (Value.tag s.heap)) signature = true) :
    ∃ t, t.heap = s.heap ∧ Dispatch.invokeMethod self call name args scope s =
      (do return .ok (← operation.run self args scope) : Eval (Except (Option DispatchError) Value)) t := by
  obtain ⟨f, hf, g, hg, hname, hmethods⟩ := FunctionTable.exists_lookup hl.complete.methods (objectMethods_named _ hentry)
  obtain ⟨m, hmem, hsignature, himpl, hplain⟩ := objectMethods_built _ hentry g hg hname
  dsimp only at hf hsignature himpl
  rw [← hsignature] at hmatch
  have hapart : Apart f.methods := hmethods ▸ methods_apart g hg
  have hrecalls := hl.own.methods _ (Assoc.mem_of_lookup hf)
  obtain ⟨r, hresult, rfl⟩ := GenericFunction.resolve_of_apart hl.formed.regular hrecalls hl.formed.elements hapart
    (List.forall_mem_map.mpr ha) (hmethods ▸ hmem) hplain hmatch
  refine ⟨TableOf.methods.called name (f.resolve (args.map (Value.tag s.heap)) s.arena) s, rfl, ?_⟩
  rw [Dispatch.invokeMethod_eq, TableOf.methods.invoke_of_lookup hf, hresult]
  dsimp only
  rw [himpl]

theorem Occurs.callMethod {strategy : Strategy} {options : Options} (hs : s.Occurs strategy options) {address : Nat}
    (action : Strategy → Eval Value) {name : String} {signature : List TypeId} {operation : Primitive}
    (hentry : (name, signature, operation) ∈ objectMethods)
    (ha : s.arena.Grown → ∀ v ∈ args, v.tag s.heap < s.arena.size)
    (hmatch : s.arena.Grown → s.arena.areSubtypes (.object :: args.map (Value.tag s.heap)) signature = true)
    (hdirect : ∀ call, ∃ x, Direct.method? call (.object address) name args = some x ∧ ∀ t, x t = action .direct t)
    (hdispatch : ∀ t, operation.run self (.object address :: args) scope t = action .dispatch t) :
    ∃ t, t.heap = s.heap ∧ Eval.callMethod strategy self (.object address) name args scope s = action strategy t := by
  cases strategy with
  | direct =>
    obtain ⟨x, hx, hrun⟩ := hdirect fun callee args => Eval.callValue .direct self callee args scope
    refine ⟨s, rfl, ?_⟩
    rw [← hrun, Eval.callMethod]
    dsimp only
    rw [hx]
  | dispatch =>
    obtain ⟨d, hl⟩ := hs.like
    have hgrown := hl.formed.grown
    have hobject : Value.tag s.heap (.object address) < s.arena.size := hgrown.lt_size (show TypeId.object < _ by decide)
    obtain ⟨t, ht, hrun⟩ : ∃ t, t.heap = s.heap ∧
        Dispatch.invokeMethod self (fun callee args => Eval.callValue .dispatch self callee args scope) name
            (.object address :: args) scope s =
          (do return .ok (← operation.run self (.object address :: args) scope) :
            Eval (Except (Option DispatchError) Value)) t :=
      hl.invokeMethod hentry (List.forall_mem_cons.mpr ⟨hobject, ha hgrown⟩) (hmatch hgrown)
    refine ⟨t, ht, ?_⟩
    rw [← hdispatch]
    cases hop : operation.run self (.object address :: args) scope t with
    | ok value u => exact Eval.bind_of_ok (hrun.trans (Eval.bind_of_ok hop))
    | error halt u => exact Eval.bind_of_error (hrun.trans (Eval.bind_of_error hop))

section

variable {strategy : Strategy} {options : Options} (hs : s.Occurs strategy options) (address : Nat) (self : NodeEval)
  (scope : ScopeId)
include hs

theorem Occurs.callMethod_keys : ∃ t, t.heap = s.heap ∧
    Eval.callMethod strategy self (.object address) "keys" [] scope s = Eval.objectKeys strategy address t :=
  hs.callMethod (Eval.objectKeys · address) (show ("keys", [.object], Primitive.keys) ∈ objectMethods by decide)
    (fun _ => List.forall_mem_nil _) (fun h => by simp [areSubtypes, h.isSubtype_object])
    (fun call => ⟨_, rfl, fun _ => rfl⟩) fun _ => rfl

theorem Occurs.callMethod_values : ∃ t, t.heap = s.heap ∧
    Eval.callMethod strategy self (.object address) "values" [] scope s = Eval.objectValues strategy address t :=
  hs.callMethod (Eval.objectValues · address) (show ("values", [.object], Primitive.values) ∈ objectMethods by decide)
    (fun _ => List.forall_mem_nil _) (fun h => by simp [areSubtypes, h.isSubtype_object])
    (fun call => ⟨_, rfl, fun _ => rfl⟩) fun _ => rfl

theorem Occurs.callMethod_at (key : String) : ∃ t, t.heap = s.heap ∧
    Eval.callMethod strategy self (.object address) "at" [.string key] scope s = Eval.objectAt address key t :=
  hs.callMethod (fun _ => Eval.objectAt address key)
    (show ("at", [.object, .string], Primitive.objectAt) ∈ objectMethods by decide)
    (fun h => List.forall_mem_singleton.mpr (h.lt_size (show TypeId.string < _ by decide)))
    (fun h => by simp [areSubtypes, Value.tag, h.isSubtype_object, h.isSubtype_string])
    (fun call => ⟨_, rfl, fun _ => rfl⟩) fun _ => rfl

theorem Occurs.callMethod_has (key : String) : ∃ t, t.heap = s.heap ∧
    Eval.callMethod strategy self (.object address) "has" [.string key] scope s = Eval.objectHas address key t :=
  hs.callMethod (fun _ => Eval.objectHas address key)
    (show ("has", [.object, .string], Primitive.has) ∈ objectMethods by decide)
    (fun h => List.forall_mem_singleton.mpr (h.lt_size (show TypeId.string < _ by decide)))
    (fun h => by simp [areSubtypes, Value.tag, h.isSubtype_object, h.isSubtype_string])
    (fun call => ⟨_, rfl, fun _ => rfl⟩) fun _ => rfl

theorem Occurs.callMethod_set (key : String) {value : Value} (hv : value.tag s.heap < s.arena.size) :
    ∃ t, t.heap = s.heap ∧ Eval.callMethod strategy self (.object address) "set" [.string key, value] scope s =
      Eval.objectSet address key value t :=
  hs.callMethod (fun _ => Eval.objectSet address key value)
    (show ("set", [.object, .string, .any], Primitive.set) ∈ objectMethods by decide)
    (fun h => List.forall_mem_cons.mpr
      ⟨h.lt_size (show TypeId.string < _ by decide), List.forall_mem_singleton.mpr hv⟩)
    (fun h => by simp [areSubtypes, Value.tag, h.isSubtype_object, h.isSubtype_string, isSubtype_any])
    (fun call => ⟨_, rfl, fun _ => rfl⟩) fun _ => rfl

/-- What the built-in function `len` can be called with. -/
def lenMethods : List (Method FunctionBody) :=
  [.array, .string, .object].map fun type => ⟨[], [type], .primitive .len⟩

omit hs in
theorem lenMethods_fresh (options : Options) :
    ((fresh .dispatch options).functions.lookup "len").map GenericFunction.methods = some lenMethods := by
  rw [functions_fresh]
  cases options.cache <;> rfl

/-- If a program has not declared a function of that name, `len` counts the entries of an object. -/
theorem Occurs.callValue_len (hlen : (s.functions.lookup "len").map GenericFunction.methods =
      ((fresh strategy options).functions.lookup "len").map GenericFunction.methods) :
    ∃ t, t.heap = s.heap ∧ Eval.callValue strategy self (.generic "len") [.object address] scope s =
      .ok (.ofCount (s.heap.entries address).length) t := by
  cases strategy with
  | direct => exact ⟨s, rfl, rfl⟩
  | dispatch =>
    obtain ⟨d, hl⟩ := hs.like
    have hgrown := hl.formed.grown
    rw [lenMethods_fresh] at hlen
    obtain ⟨f, hf, hmethods⟩ := Option.map_eq_some_iff.mp hlen
    have hapart : Apart f.methods := by
      rw [hmethods]
      exact ⟨by decide, by decide, by decide⟩
    have hplain : ∀ m ∈ lenMethods, m.IsPlain := by
      have h : ∀ m ∈ lenMethods, ∀ p ∈ m.signature, p < builtinTypes.length := by decide
      exact h
    have hmem : ⟨[], [.object], .primitive .len⟩ ∈ lenMethods := by simp [lenMethods]
    have hobject : Value.tag s.heap (.object address) < s.arena.size := hgrown.lt_size (show TypeId.object < _ by decide)
    obtain ⟨r, hresult, hr⟩ := GenericFunction.resolve_of_apart hl.formed.regular
      (hl.own.functions _ (Assoc.mem_of_lookup hf)) hl.formed.elements hapart
      (List.forall_mem_singleton.mpr hobject) (hmethods ▸ hmem) (hplain _ hmem)
      (by simp [areSubtypes, Value.tag, hgrown.isSubtype_object])
    refine ⟨TableOf.functionsByName.called "len" (f.resolve [Value.tag s.heap (.object address)] s.arena) s, rfl, ?_⟩
    change Dispatch.invokeFunction self "len" [.object address] scope s = _
    rw [Dispatch.invokeFunction_eq, TableOf.functionsByName.invoke_of_lookup hf, List.map_singleton, hresult]
    dsimp only
    rw [hr]
    rfl

end

end Session

/-! ## Object literals -/

namespace Eval

variable {self : NodeEval} {scope : ScopeId} {s t : Session}

/-- The entries of an object literal are evaluated in order, and stored under their keys one after the other. -/
theorem evalEntries_eq (entries : List (Located String × Node)) {done : List (String × Value)} {values : List Value}
    (h : evalAll self (entries.map Prod.snd) scope s = .ok values t) :
    evalEntries self scope done entries s =
      .ok (Assoc.insertAll ((entries.map (·.1.val)).zip values) done) t := by
  induction entries generalizing done values s with
  | nil =>
    obtain ⟨rfl, rfl⟩ := pure_ok.mp h
    rfl
  | cons entry entries ih =>
    rw [List.map_cons, evalAll, List.mapM_cons] at h
    obtain ⟨value, u, hvalue, h⟩ := bind_ok.mp h
    obtain ⟨rest, v, hrest, h⟩ := bind_ok.mp h
    obtain ⟨rfl, rfl⟩ := pure_ok.mp h
    exact (bind_of_ok hvalue).trans (ih hrest)

theorem newArray_eq (strategy : Strategy) (values : List Value) (s : Session) :
    ∃ t, newArray strategy values s = .ok (.array s.heap.size) t ∧ (t.heap.items s.heap.size).toList = values := by
  have hitems (heap : Heap) (type : TypeId) :
      ((heap.alloc (.array values.toArray type)).2.items heap.size).toList = values := by
    rw [Heap.alloc, Heap.items, Heap.size]
    simp
  cases strategy with
  | direct => exact ⟨_, rfl, hitems ..⟩
  | dispatch => exact ⟨_, rfl, hitems ..⟩

end Eval

/-! ## Records -/

namespace Session

variable {strategy : Strategy} {options : Options} {s t : Session} {address : Nat} {stores : List (String × Value)}

/-- In a state an object is one in which these things have been stored, one after the other: first the entries of the
literal that made it, in the order in which they are written, and then what `set` was called with. What else happens in
between is of no account as long as it leaves the object as it is. -/
inductive Recorded (strategy : Strategy) (options : Options) (address : Nat) : List (String × Value) → Session → Prop
  | made {s t u : Session} {self : NodeEval} {span : Span} {scope : ScopeId} {entries : List (Located String × Node)}
      {values : List Value} (hvalues : Eval.evalAll self (entries.map Prod.snd) scope s = .ok values u)
      (hmade : Eval.evalForm strategy self (.object span entries) scope s = .ok (.object address) t) :
      Recorded strategy options address ((entries.map (·.1.val)).zip values) t
  | set {s t : Session} {stores : List (String × Value)} (h : Recorded strategy options address stores s)
      (hs : s.Occurs strategy options) {self : NodeEval} {scope : ScopeId} {key : String} {value answer : Value}
      (hvalue : value.tag s.heap < s.arena.size)
      (hset : Eval.callMethod strategy self (.object address) "set" [.string key, value] scope s = .ok answer t) :
      Recorded strategy options address (stores ++ [(key, value)]) t
  | other {s t : Session} {stores : List (String × Value)} (h : Recorded strategy options address stores s)
      (hsame : t.heap.cells[address]? = s.heap.cells[address]?) : Recorded strategy options address stores t

theorem Recorded.entries (h : Recorded strategy options address stores s) :
    s.heap.cells[address]? = some (.object (Assoc.insertAll stores [])) := by
  induction h with
  | @made s t u self span scope entries values hvalues hmade =>
    have hentries : Eval.evalEntries self scope [] entries s =
        .ok (Assoc.insertAll ((entries.map (·.1.val)).zip values) []) u := Eval.evalEntries_eq entries hvalues
    have hform : Eval.evalForm strategy self (.object span entries) scope s =
        Eval.newObject (Assoc.insertAll ((entries.map (·.1.val)).zip values) []) u := Eval.bind_of_ok hentries
    rw [hform] at hmade
    cases hmade
    exact Array.getElem?_push_size
  | @set s t stores _ hs self scope key value answer hvalue hset ih =>
    obtain ⟨u, hheap, hcall⟩ := hs.callMethod_set address self scope key hvalue
    rw [hcall] at hset
    cases hset
    show (u.heap.setEntry address key value).cells[address]? = _
    rw [hheap, Heap.setEntry, Array.getElem?_modify, if_pos rfl, ih, Assoc.insertAll_concat]
    rfl
  | other _ hsame ih => rw [hsame, ih]

/-- Evaluation in which nothing is stored in an object leaves it as it is. -/
theorem Recorded.evaluated (h : Recorded strategy options address stores s) (hs : s.Occurs strategy options)
    {depth : Nat} {node : Node} {scope : ScopeId}
    (hends : Eval.Ends (StorageRule.eval ⟨address, fun _ _ => false⟩ strategy depth node scope) s t) :
    Recorded strategy options address stores t := by
  have hentries := h.entries
  obtain ⟨none, hnone, hsame⟩ := (StorageRule.eval_heeds _ strategy depth node scope s t hs.setsOnly hends).heap _ hentries
  obtain rfl : none = [] := List.eq_nil_iff_forall_not_mem.mpr fun store hstore => Bool.false_ne_true (hnone store hstore)
  exact h.other (hsame.trans hentries.symm)

/-- What a program can find out about an object is what has been stored in it: under each key what was stored there last,
and the keys in the order in which they were first used. -/
structure Shows (strategy : Strategy) (options : Options) (address : Nat) (stores : List (String × Value)) (s : Session) :
    Prop where
  /-- `at` answers what was stored last under the key, or nothing. -/
  get : ∀ self scope key, ∃ t, t.heap = s.heap ∧
    Eval.callMethod strategy self (.object address) "at" [.string key] scope s =
      .ok ((Assoc.last? stores key).getD .nothing) t
  /-- `has` answers whether anything was stored under the key. -/
  has : ∀ self scope key, ∃ t, t.heap = s.heap ∧
    Eval.callMethod strategy self (.object address) "has" [.string key] scope s =
      .ok (.bool (Assoc.last? stores key).isSome) t
  /-- `keys` makes an array of the keys in order. -/
  keys : ∀ self scope, ∃ array t, Eval.callMethod strategy self (.object address) "keys" [] scope s = .ok (.array array) t ∧
    (t.heap.items array).toList = (Assoc.keysOf stores).map .string
  /-- `values` makes an array of what was stored last under each of them. -/
  values : ∀ self scope, ∃ array t,
    Eval.callMethod strategy self (.object address) "values" [] scope s = .ok (.array array) t ∧
      (t.heap.items array).toList = (Assoc.keysOf stores).filterMap (Assoc.last? stores)
  /-- A field is what was stored last under its name, and fails if there is nothing. -/
  field : ∀ key, key ≠ "length" → Eval.fieldOf strategy (.object address) key s =
    match Assoc.last? stores key with
    | some value => .ok value s
    | none => .error (.error ⟨.field (.absent key (s.typeText strategy (.object address))), none⟩) s
  /-- The field `length` is the number of keys, also if there is something under that name. -/
  length : Eval.fieldOf strategy (.object address) "length" s = .ok (.ofCount (Assoc.keysOf stores).length) s
  /-- `len` answers the number of keys, unless the program has declared a function of that name. -/
  len : (s.functions.lookup "len").map GenericFunction.methods =
      ((fresh strategy options).functions.lookup "len").map GenericFunction.methods →
    ∀ self scope, ∃ t, t.heap = s.heap ∧ Eval.callValue strategy self (.generic "len") [.object address] scope s =
      .ok (.ofCount (Assoc.keysOf stores).length) t

theorem Recorded.shows (h : Recorded strategy options address stores s) (hs : s.Occurs strategy options) :
    s.Shows strategy options address stores := by
  have hentries : s.heap.entries address = Assoc.insertAll stores [] := by rw [Heap.entries, h.entries]
  have hlookup (key : String) : (s.heap.entries address).lookup key = Assoc.last? stores key := by
    rw [hentries, Assoc.lookup_insertAll_nil]
  have hkeys : (s.heap.entries address).map Prod.fst = Assoc.keysOf stores := by rw [hentries, Assoc.names_insertAll]
  have hlength : (s.heap.entries address).length = (Assoc.keysOf stores).length := by rw [← hkeys, List.length_map]
  constructor
  case get =>
    intro self scope key
    obtain ⟨t, ht, hcall⟩ := hs.callMethod_at address self scope key
    rw [← hlookup, ← ht]
    exact ⟨t, rfl, hcall⟩
  case has =>
    intro self scope key
    obtain ⟨t, ht, hcall⟩ := hs.callMethod_has address self scope key
    rw [← hlookup, ← ht]
    exact ⟨t, rfl, hcall⟩
  case keys =>
    intro self scope
    obtain ⟨t, ht, hcall⟩ := hs.callMethod_keys address self scope
    obtain ⟨u, hu, hitems⟩ := Eval.newArray_eq strategy ((t.heap.entries address).map fun entry => .string entry.1) t
    refine ⟨_, u, hcall.trans hu, hitems.trans ?_⟩
    rw [ht, ← hkeys, List.map_map]
    rfl
  case values =>
    intro self scope
    obtain ⟨t, ht, hcall⟩ := hs.callMethod_values address self scope
    obtain ⟨u, hu, hitems⟩ := Eval.newArray_eq strategy ((t.heap.entries address).map Prod.snd) t
    exact ⟨_, u, hcall.trans hu, hitems.trans (by rw [ht, hentries, Assoc.values_insertAll])⟩
  case field =>
    intro key hkey
    rw [← hlookup]
    unfold Eval.fieldOf
    rw [Dispatch.get_bind]
    dsimp only
    rw [if_neg hkey]
    dsimp only [Value.ownField?]
    cases (s.heap.entries address).lookup key with
    | some value => rfl
    | none => cases strategy <;> rfl
  case length =>
    rw [← hlength]
    rfl
  case len =>
    intro hlen self scope
    rw [← hlength]
    exact hs.callValue_len address self scope hlen

/-- Objects are maps that keep the order of insertion. In every state that a session gets into, the keys of an object are
distinct, and an object shows what has been stored in it, whatever names and other values refer to it. Nothing else is
ever stored in it: an evaluation under any rule about the object is evaluation, unless it gives up before a call of `set` that
the rule does not permit, and only what the rule permits has then been stored. -/
theorem Occurs.objects (hs : s.Occurs strategy options) :
    (∀ address, DistinctKeys (s.heap.entries address)) ∧
    (∀ address stores, Recorded strategy options address stores s → s.Shows strategy options address stores) ∧
    ∀ (rule : StorageRule) depth node scope,
      Eval.Approximates (rule.eval strategy depth node scope) (Eval.eval strategy depth node scope) ∧
      ∀ t, Eval.Ends (rule.eval strategy depth node scope) s t → rule.Follows s.heap t.heap :=
  ⟨fun address => hs.tidy.heap.distinctKeys address, fun _ _ h => h.shows hs, fun rule depth node scope =>
    ⟨rule.eval_approximates strategy depth node scope, fun t hends =>
      (rule.eval_heeds strategy depth node scope s t hs.setsOnly hends).heap⟩⟩

/-- The entries of a literal that gives two values for the key `b`. -/
def pairEntries : List (Located String × Node) :=
  [("b", 1), ("a", 2), ("b", 3)].map fun e => (⟨e.1, .nowhere⟩, .literal .nowhere (.int e.2))

/-- A program that makes an object of them and stores one more thing in it. -/
def pairProgram : Program :=
  [.send .nowhere (.object .nowhere pairEntries) ⟨"set", .nowhere⟩
    [.literal .nowhere (.string "c"), .literal .nowhere (.int 4)]]

/-- Afterwards there are three keys in the object, and what is under `b` is what the literal gave last. -/
theorem pairProgram_objects :
    let t := (fresh .direct .standard).stopped (fun _ _ _ => false) 3 pairProgram
    let stores : List (String × Value) := [("b", .int 1), ("a", .int 2), ("b", .int 3), ("c", .int 4)]
    DistinctKeys (t.heap.entries 0) ∧ t.Shows .direct .standard 0 stores ∧
      Assoc.keysOf stores = ["b", "a", "c"] ∧ Assoc.last? stores "b" = some (.int 3) := by
  let s := (fresh .direct .standard).stopped (fun _ _ _ => false) 2 [.object .nowhere pairEntries]
  let t := (fresh .direct .standard).stopped (fun _ _ _ => false) 3 pairProgram
  have hs : s.Occurs .direct .standard := .stopped .refl ..
  have ht : t.Occurs .direct .standard := .stopped .refl ..
  have hvalues : Eval.evalAll (Eval.eval .direct 1) (pairEntries.map Prod.snd) ScopeTree.root (fresh .direct .standard) =
    .ok [.int 1, .int 2, .int 3] (fresh .direct .standard) := rfl
  have hmade : Eval.evalForm .direct (Eval.eval .direct 1) (.object .nowhere pairEntries) ScopeTree.root
    (fresh .direct .standard) = .ok (.object 0) s := rfl
  have hset : Eval.callMethod .direct (Eval.eval .direct 1) (.object 0) "set" [.string "c", .int 4] ScopeTree.root s =
    .ok (.object 0) t := rfl
  have hrecorded : Recorded .direct .standard 0 [("b", .int 1), ("a", .int 2), ("b", .int 3), ("c", .int 4)] t :=
    .set (.made hvalues hmade) hs (by decide) hset
  obtain ⟨hkeys, hshows, -⟩ := ht.objects
  exact ⟨hkeys 0, hshows 0 _ hrecorded, by decide, rfl⟩

end Session

end DispatchLang
