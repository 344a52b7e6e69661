import DispatchLang.Proofs.Eval.Resolution
import DispatchLang.Proofs.Eval.Transparency

/-!
# Calls find nothing out about the dispatcher

Operators, functions and methods are invoked in one way: the generic function is looked up in one of three
tables, the call is resolved by the types of its arguments, the function with what it remembers now goes back
into the table, and then something is done with what was found. `TableOf.invoke` is that way, for any of the
tables, and `GenericFunction.resolve_alike` the reason why the dispatcher does not matter: whether a function
remembers the call or not, what it finds and the arena it leaves behind are what its methods decide.

## Main results

* `Twins.invoke`: invocations are twins if what follows them is.
-/

namespace DispatchLang

open TypeArena

/-! ## What a call finds -/

theorem instantiate_regular {ι : Type} {rs : List (Resolution ι)} {arena : TypeArena} (h : arena.Regular)
    (hrs : ∀ r ∈ rs, r.method.In arena ∧ r.bindings.In arena) : (instantiate rs arena).2.Regular := by
  induction rs generalizing arena with
  | nil => exact h
  | cons r rs ih =>
    obtain ⟨hr, hrs⟩ := List.forall_mem_cons.mp hrs
    have hext := (instances_grows h.indexed hr.2 hr.1).extension
    rw [instantiate_cons]
    exact ih (h.instances hr.2 hr.1) fun r' hmem =>
      ⟨fun x hx => hext.lt ((hrs r' hmem).1 x hx), (hrs r' hmem).2.grown hext⟩

theorem CallIn.choose_regular {ι : Type} {arena : TypeArena} {args : List TypeId} {methods : List (Method ι)}
    (h : CallIn arena args methods) (hr : arena.Regular) (name : String) :
    (choose name methods args arena).2.Regular := by
  by_cases hne : applicable arena args 0 methods = []
  · rw [choose_of_nil name hne]
    exact hr
  · rw [choose_of_ne_nil name hne]
    exact instantiate_regular hr (matching_in h.indexed.toOrdered h.args_lt h.methods_in)

/-- What a call finds is a method whose signature matches the types of the arguments. -/
structure GenericFunction.Finds {ι : Type} (f : GenericFunction ι) (args : List TypeId) (arena : TypeArena)
    (r : Resolution ι) : Prop where
  mem : r.method ∈ f.methods
  bindings_in : r.bindings.In arena
  matched : arena.unifySignature? r.method.signature args = some r.bindings

theorem CallIn.chosen {ι : Type} {arena : TypeArena} {args : List TypeId} {f : GenericFunction ι}
    (h : CallIn arena args f.methods) {name : String} {r : Resolution ι}
    (hr : (choose name f.methods args arena).1 = .ok r) :
    f.Finds args (choose name f.methods args arena).2 r := by
  obtain ⟨hext, hindexed⟩ := h.choose_grows name
  have hin := matching_in h.indexed.toOrdered h.args_lt h.methods_in
  by_cases hne : applicable arena args 0 f.methods = []
  · rw [choose_of_nil name hne] at hr
    cases hr
  · have hmem : r ∈ applicable arena args 0 f.methods := by
      rw [choose_of_ne_nil name hne, decision] at hr
      cases hw : winner? (candidates arena args f.methods).2 (candidates arena args f.methods).1 with
      | none => rw [hw] at hr; cases hr
      | some c =>
        rw [hw] at hr
        cases hr
        exact toResolution_mem (List.mem_of_find?_eq_some hw)
    obtain ⟨i, -, hm, hb⟩ := mem_applicable.mp hmem
    refine ⟨List.mem_of_getElem? hm, (hin r hmem).2.grown hext, ?_⟩
    rw [hext.unifySignature?_eq h.indexed.toOrdered hindexed.toOrdered (hin r hmem).1 h.args_lt]
    exact hb

/-! ## The tables -/

/-- One of the three tables of a dispatcher. -/
structure TableOf (ι : Type) where
  /-- The functions of the table. -/
  functions : Dispatcher → FunctionTable ι
  /-- Replaces them. -/
  replace : FunctionTable ι → Dispatcher → Dispatcher
  plain_functions : ∀ d, functions d.plain = (functions d).plain
  plain_replace : ∀ table d, (replace table d).plain = replace table.plain d.plain
  recalls_functions : ∀ {d arena}, d.Recalls arena → (functions d).Recalls arena
  recalls_replace : ∀ {d arena table}, d.Recalls arena → table.Recalls arena →
    (replace table d).Recalls arena
  /-- The methods that functions of the table may have. -/
  Known : Method ι → Prop
  native_functions : ∀ {d}, d.Native → (functions d).Only Known
  native_replace : ∀ {d table}, d.Native → table.Only Known → (replace table d).Native

namespace TableOf

/-- The generic functions behind the operators. -/
def operators : TableOf Primitive where
  functions := Dispatcher.operators
  replace table d := { d with operators := table }
  plain_functions _ := rfl
  plain_replace _ _ := rfl
  recalls_functions h := h.operators
  recalls_replace h ht := { h with operators := ht }
  Known := Method.IsFrom Tables.operators
  native_functions h := h.operators
  native_replace h ht := { h with operators := ht }

def functionsByName : TableOf FunctionBody where
  functions := Dispatcher.functions
  replace table d := { d with functions := table }
  plain_functions _ := rfl
  plain_replace _ _ := rfl
  recalls_functions h := h.functions
  recalls_replace h ht := { h with functions := ht }
  Known := Method.IsNamed
  native_functions h := h.functions
  native_replace h ht := { h with functions := ht }

/-- The generic functions behind the methods. -/
def methods : TableOf MethodBody where
  functions := Dispatcher.methods
  replace table d := { d with methods := table }
  plain_functions _ := rfl
  plain_replace _ _ := rfl
  recalls_functions h := h.methods
  recalls_replace h ht := { h with methods := ht }
  Known := Method.IsFrom (Tables.methods Session.freshElement Session.freshArray)
  native_functions h := h.methods
  native_replace h ht := { h with methods := ht }

variable {ι α : Type} (table : TableOf ι) {name : String} {args : List Value} {t : Session}
  {d d' : Dispatcher} {arena : TypeArena}

/-- The dispatcher after a function has been replaced by what it has become in a call. -/
def after (name : String) (out : Outcome ι) (d : Dispatcher) : Dispatcher :=
  { table.replace (Assoc.insert name out.function (table.functions d)) d with
    events := out.events.reverse ++ d.events }

def called (name : String) (out : Outcome ι) (t : Session) : Session :=
  ({ t with arena := out.arena } : Session).equip (table.after name out t.dispatcher)

/-- Invokes a function: `absent` is done if there is none, and `answer` with what the call resolves to. -/
def invoke (name : String) (args : List Value) (absent : Eval α)
    (answer : GenericFunction ι → Except DispatchError (Resolution ι) → Eval α) : Eval α := fun t =>
  match (table.functions t.dispatcher).lookup name with
  | none => absent t
  | some f =>
    let out := f.resolve (args.map (Value.tag t.heap)) t.arena
    answer f.forgetful out.result (table.called name out t)

theorem invoke_of_lookup {absent : Eval α}
    {answer : GenericFunction ι → Except DispatchError (Resolution ι) → Eval α}
    {f : GenericFunction ι} (hf : (table.functions t.dispatcher).lookup name = some f) :
    table.invoke name args absent answer t =
      answer f.forgetful (f.resolve (args.map (Value.tag t.heap)) t.arena).result
        (table.called name (f.resolve (args.map (Value.tag t.heap)) t.arena) t) := by
  rw [invoke, hf]

theorem called_equip (name : String) (out : Outcome ι) (t : Session) (d : Dispatcher) :
    table.called name out (t.equip d) =
      ({ t with arena := out.arena } : Session).equip (table.after name out d) := rfl

theorem plain_after (name : String) (out : Outcome ι) (d : Dispatcher) :
    (table.after name out d).plain =
      table.replace (Assoc.insert name out.function.forgetful (table.functions d.plain)) d.plain := by
  have hevents : (table.after name out d).plain =
      (table.replace (Assoc.insert name out.function (table.functions d)) d).plain := rfl
  rw [hevents, table.plain_replace, FunctionTable.plain_insert, table.plain_functions]

/-- If a function is replaced by what it has become in a call then the methods are those of before. -/
theorem plain_after_of_lookup (hreplace : ∀ d, table.replace (table.functions d) d = d) {f : GenericFunction ι}
    (hf : (table.functions d).lookup name = some f) {out : Outcome ι} (hout : out.function.forgetful = f.forgetful) :
    (table.after name out d).plain = d.plain := by
  have hlookup : (table.functions d.plain).lookup name = some f.forgetful := by
    rw [table.plain_functions, FunctionTable.plain_lookup, hf]
    rfl
  rw [table.plain_after, hout, Assoc.insert_eq_self hlookup, hreplace]

theorem recalls_after {out : Outcome ι} (hd : d.Recalls arena) (hf : out.function.Recalls arena) :
    (table.after name out d).Recalls arena := by
  have ht : FunctionTable.Recalls (Assoc.insert name out.function (table.functions d)) arena :=
    (table.recalls_functions hd).insert hf
  have h := table.recalls_replace hd ht
  exact ⟨h.operators, h.functions, h.methods⟩

/-- A call leaves the methods of a function as they are. -/
theorem native_after {out : Outcome ι} (hd : d.Native)
    (hf : ∀ m ∈ out.function.methods, table.Known m) : (table.after name out d).Native := by
  have ht : FunctionTable.Only table.Known (Assoc.insert name out.function (table.functions d)) :=
    (table.native_functions hd).insert hf
  have h := table.native_replace hd ht
  exact ⟨h.operators, h.functions, h.methods⟩

/-- A dispatcher that is alike has a function with the same methods. -/
theorem lookup_of_plain (h : d'.plain = d.plain) (name : String) :
    ((table.functions d').lookup name).map GenericFunction.forgetful =
      ((table.functions d).lookup name).map GenericFunction.forgetful := by
  rw [← FunctionTable.plain_lookup, ← FunctionTable.plain_lookup, ← table.plain_functions,
    ← table.plain_functions, h]

end TableOf

namespace GenericFunction

variable {ι : Type} {f f' : GenericFunction ι} {arena : TypeArena} {args : List TypeId}

theorem forgetful_resolve (f : GenericFunction ι) (args : List TypeId) (arena : TypeArena) :
    (f.resolve args arena).function.forgetful = f.forgetful := by
  obtain ⟨hname, hmethods, -⟩ := f.resolve_same args arena
  rw [forgetful, forgetful, hname, hmethods]

/-- Functions with the same methods find the same and leave the same arena behind, whatever they
remember. -/
theorem resolve_alike (h : f.Recalls arena) (h' : f'.Recalls arena) (hf : f'.forgetful = f.forgetful)
    (args : List TypeId) : (f'.resolve args arena).result = (f.resolve args arena).result ∧
      (f'.resolve args arena).arena = (f.resolve args arena).arena := by
  have hname : f'.forgetful.name = f.forgetful.name := by rw [hf]
  have hmethods : f'.forgetful.methods = f.forgetful.methods := by rw [hf]
  obtain ⟨hresult, harena⟩ := h.resolve_eq_choose args
  obtain ⟨hresult', harena'⟩ := h'.resolve_eq_choose args
  rw [hresult, harena, hresult', harena']
  rw [forgetful, forgetful] at hname hmethods
  dsimp only at hname hmethods
  rw [hname, hmethods]
  exact ⟨rfl, rfl⟩

/-- A call extends the arena and keeps it regular, and what it finds matches the types of the arguments. -/
theorem Recalls.resolve_grows (h : f.Recalls arena) (hr : arena.Regular)
    (ha : ∀ x ∈ args, x < arena.size) :
    arena.Extends (f.resolve args arena).arena ∧ (f.resolve args arena).arena.Regular ∧
      ∀ r, (f.resolve args arena).result = .ok r → f.Finds args (f.resolve args arena).arena r := by
  have hcall : CallIn arena args f.methods := ⟨hr.indexed, ha, h.methods_in⟩
  obtain ⟨hresult, harena⟩ := h.resolve_eq_choose args
  rw [hresult, harena]
  exact ⟨(hcall.choose_grows f.name).1, hcall.choose_regular hr f.name, fun r => hcall.chosen⟩

end GenericFunction

/-! ## Invoking -/

/-- The types that some values mention are there. -/
def valuesIn : Claim (List Value) := fun t values => ∀ v ∈ values, v.In t.arena.size

/-- What an invocation finds for some values is a method that functions of the table may have, and its signature
matches the types of the values. -/
structure TableOf.Finds {ι : Type} (table : TableOf ι) (args : List Value) (t : Session) (r : Resolution ι) :
    Prop where
  known : table.Known r.method
  bindings_in : r.bindings.In t.arena
  matched : t.arena.unifySignature? r.method.signature (args.map (Value.tag t.heap)) = some r.bindings

namespace Twins

variable {ι α : Type} {P : Claim α} {name : String} {args : List Value} {t : Session}

/-- Invocations are twins if what follows them is. -/
theorem invoke (table : TableOf ι) (hreplace : ∀ d, table.replace (table.functions d) d = d) {absent absent' : Eval α}
    {answer answer' : GenericFunction ι → Except DispatchError (Resolution ι) → Eval α}
    (hargs : valuesIn t args) (habsent : Twins t absent absent' P)
    (hanswer : ∀ f result s, t.arena.size ≤ s.arena.size → (∀ r, result = .ok r → table.Finds args s r) →
      Twins s (answer f result) (answer' f result) P) :
    Twins t (table.invoke name args absent answer) (table.invoke name args absent' answer') P := by
  intro d hl
  have hsame := table.lookup_of_plain hl.plain name
  cases hf : (table.functions t.dispatcher).lookup name with
  | none =>
    rw [hf, Option.map_none, Option.map_eq_none_iff] at hsame
    rw [TableOf.invoke, TableOf.invoke, Session.dispatcher_equip, hf, hsame]
    exact habsent d hl
  | some f =>
    rw [hf, Option.map_some] at hsame
    obtain ⟨f', hf', hforget⟩ := Option.map_eq_some_iff.mp hsame
    rw [table.invoke_of_lookup hf, table.invoke_of_lookup hf', TableOf.called_equip]
    have htags : ∀ x ∈ args.map (Value.tag t.heap), x < t.arena.size :=
      List.forall_mem_map.mpr fun v hv => Value.tag_lt hl.formed.builtin hl.formed.heap (hargs v hv)
    have hrec : f.Recalls t.arena := table.recalls_functions hl.own _ (Assoc.mem_of_lookup hf)
    have hrec' : f'.Recalls t.arena := table.recalls_functions hl.other _ (Assoc.mem_of_lookup hf')
    have hknown : ∀ m ∈ f.methods, table.Known m :=
      table.native_functions hl.native _ (Assoc.mem_of_lookup hf)
    have hmethods := (f.resolve_same (args.map (Value.tag t.heap)) t.arena).2.1
    have heap : (t.equip d).heap = t.heap := rfl
    have arena : (t.equip d).arena = t.arena := rfl
    rw [heap, arena]
    have hi := hl.formed.indexed
    obtain ⟨hext, hregular, hfinds⟩ := hrec.resolve_grows hl.formed.regular htags
    have hanswer := hanswer f.forgetful (f.resolve (args.map (Value.tag t.heap)) t.arena).result
      (table.called name (f.resolve (args.map (Value.tag t.heap)) t.arena) t) hext.size_le fun r hr =>
        ⟨hknown _ (hfinds r hr).mem, (hfinds r hr).bindings_in, (hfinds r hr).matched⟩
    clear hfinds
    generalize args.map (Value.tag t.heap) = tags at *
    obtain ⟨hresult, harena⟩ := GenericFunction.resolve_alike hrec hrec' hforget tags
    have hafter := hrec.resolve hi htags
    have hafter' := hrec'.resolve hi htags
    have hforget' := (f'.forgetful_resolve tags t.arena).trans
      (hforget.trans (f.forgetful_resolve tags t.arena).symm)
    rw [harena] at hafter' ⊢
    have hown := f.forgetful_resolve tags t.arena
    rw [hforget, hresult]
    generalize f.resolve tags t.arena = out at *
    generalize f'.resolve tags t.arena = out' at *
    have hformed := hl.formed.withExtension hregular hext
    have hlike : (({ t with arena := out.arena } : Session).equip
        (table.after name out t.dispatcher)).Like (table.after name out' d) := by
      refine ⟨hformed.self.equip _, ?_, ?_, ?_, ?_, ?_⟩
      · exact table.native_after hl.native (hmethods ▸ hknown)
      · have hplain := table.plain_after_of_lookup hreplace hf hown
        exact ⟨hplain ▸ hl.complete.operators, hplain ▸ hl.complete.methods⟩
      · exact table.recalls_after (hl.own.grown hi hext hregular.indexed) hafter
      · exact table.recalls_after (hl.other.grown hi hext hregular.indexed) hafter'
      · rw [Session.dispatcher_equip, table.plain_after, table.plain_after, hforget', hl.plain]
    exact (hanswer _ hlike).after hext

end Twins

end DispatchLang
