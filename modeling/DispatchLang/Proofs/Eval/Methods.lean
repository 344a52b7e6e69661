import DispatchLang.Proofs.Eval.Resolution

/-!
# What method calls resolve to

The methods of arrays are generic in the type of the elements, so resolving a call of one is not just a matter of
base types, as it is for operators and functions: the type of the elements is found by matching, and put into
the signature in the place of its variable. But nothing comes of it. Whatever the elements are, the signature matches
(`unify?_freshArray`), and what is put together again is the type of the receiver, which the arena has
(`substitute_freshArray`).

Nor does it ever have to be decided which of two methods is more specific. Two built-in methods of one name differ in
the type of the receiver or in the number of parameters (`methodTable_apart`), and no value is a receiver for two of
the types, so at most one method matches (`applicable_lone`).

So a call resolves to the first method in the table that fits the base types of its arguments (`builtinMethod?`).

## Main definitions

* `builtinMethod?`: the built-in method of a name that takes a receiver and arguments.

## Main results

* `ServesMethods.resolve`: resolving a call finds that method and adds no types.
* `Agree.invokeMethod`: the rule for method calls, which only one of the strategies resolves.
-/

namespace DispatchLang

open TypeArena

variable {ι : Type} {arena : TypeArena}

/-! ## Methods that exclude each other -/

section

variable {args : List TypeId} {methods : List (Method ι)} {fits : Method ι → Bool}
  (hfits : ∀ m ∈ methods, (arena.unifySignature? m.signature args).isSome = fits m)
include hfits

theorem applicable_eq_nil (hnone : methods.find? fits = none) (start : Nat) :
    applicable arena args start methods = [] := by
  refine List.eq_nil_iff_forall_not_mem.mpr fun r hr => ?_
  obtain ⟨i, -, hi, hu⟩ := mem_applicable.mp hr
  have hm := List.mem_of_getElem? hi
  have hfit := hfits _ hm
  rw [hu, Option.isSome_some] at hfit
  exact List.find?_eq_none.mp hnone _ hm hfit.symm

/-- Where no two methods match, the only one that does is the first one that fits. -/
theorem applicable_lone (hlone : methods.Pairwise fun m m' => fits m = false ∨ fits m' = false) {m : Method ι}
    (hm : methods.find? fits = some m) (start : Nat) :
    ∃ index bindings, applicable arena args start methods = [⟨index, m, bindings⟩] ∧
      arena.unifySignature? m.signature args = some bindings := by
  induction methods generalizing start with
  | nil => cases hm
  | cons m' ms ih =>
    obtain ⟨hfit, hrest⟩ := List.forall_mem_cons.mp hfits
    obtain ⟨hapart, hlone⟩ := List.pairwise_cons.mp hlone
    rw [applicable]
    cases hu : arena.unifySignature? m'.signature args with
    | none =>
      rw [hu, Option.isSome_none] at hfit
      rw [List.find?_cons_of_neg (Bool.eq_false_iff.mp hfit.symm)] at hm
      exact ih hrest hlone hm (start + 1)
    | some bindings =>
      rw [hu, Option.isSome_some] at hfit
      rw [List.find?_cons_of_pos hfit.symm] at hm
      cases hm
      have hnone : ms.find? fits = none := List.find?_eq_none.mpr fun m' hm' hfit' => by
        rcases hapart m' hm' with hno | hno
        · exact Bool.false_ne_true (hno.symm.trans hfit.symm)
        · exact Bool.false_ne_true (hno.symm.trans hfit')
      rw [applicable_eq_nil hrest hnone]
      exact ⟨start, bindings, rfl, hu⟩

end

/-- The only method that matches is chosen. -/
theorem choose_lone {methods : List (Method ι)} {args : List TypeId} {r : Resolution ι} (name : String)
    (h : applicable arena args 0 methods = [r])
    (harena : (instances r.bindings r.method.signature arena).2 = arena) :
    choose name methods args arena = (.ok r, arena) := by
  rw [choose, h]
  dsimp only
  rw [instantiate_cons, harena]
  simp [instantiate, winner?]

/-! ## The type of arrays in a signature -/

open Session (freshArray freshElement freshArena)

theorem freshArena_grown : freshArena.Grown :=
  ((TypeArena.Grown.initial.var "T" (by decide)).1.applied (by decide) (by decide)).1

section

variable (ha : arena.Grown) (hext : freshArena.Extends arena) {element type : TypeId}
include hext

theorem freshArray_kind : (arena.get freshArray).kind = .applied .array [freshElement] := by
  rw [hext.get_eq (by decide)]
  rfl

theorem freshElement_kind : (arena.get freshElement).kind = .var .any := by
  rw [hext.get_eq (by decide)]
  rfl

theorem freshElement_name : arena.name freshElement = "T" := hext.name_eq (by decide)

theorem size_pos_of_fresh : ∃ n, arena.size = n + 1 :=
  Nat.exists_eq_succ_of_ne_zero (Nat.ne_of_gt (Nat.lt_of_lt_of_le (by decide) hext.size_le))

theorem hasVars_freshArray : arena.hasVars freshArray = true := by
  obtain ⟨n, hn⟩ := size_pos_of_fresh hext
  rw [hasVars, hasVarsWithin, freshArray_kind hext, hn]
  simp [hasVarsWithin, freshElement_kind hext]

/-- With its variable replaced it is the type of arrays that it has matched. -/
theorem substitute_freshArray (h : arena.interned? (.applied .array [element]) = some type) :
    arena.substitute [("T", element)] freshArray = (type, arena) := by
  obtain ⟨n, hn⟩ := size_pos_of_fresh hext
  have helement : substituteWithin [("T", element)] arena.size freshElement arena = (element, arena) := by
    rw [hn, substituteWithin, freshElement_kind hext, freshElement_name hext]
    rfl
  have hmap : mapTypes (substituteWithin [("T", element)] arena.size) [freshElement] arena = ([element], arena) := by
    rw [mapTypes_cons, helement]
    rfl
  have hl : arena.appliedIndex.lookup (.array, [element]) = some type := h
  rw [substitute, substituteWithin, freshArray_kind hext]
  dsimp only
  rw [hmap, applied, hl]

include ha

theorem unify?_freshArray (h : arena.interned? (.applied .array [element]) = some type) :
    arena.unify? [] freshArray type = some [("T", element)] := by
  have hmatch : arena.matchExactly (arena.size + 1) [] freshElement element = some [("T", element)] := by
    rw [matchExactly, freshElement_kind hext, freshElement_name hext]
    dsimp only
    rw [bind?, isSubtype_any]
    rfl
  rw [unify?, freshArray_kind hext]
  dsimp only
  rw [hasVars_freshArray hext, if_pos rfl, ancestors, chain, List.findSome?_cons, (ha.indexed.index h).2.1]
  dsimp only
  rw [if_pos rfl, matchAll, hmatch]
  rfl

/-- It matches no other type. -/
theorem unify?_freshArray_builtin (h : type < builtinTypes.length) : arena.unify? [] freshArray type = none := by
  have hnone : ∀ type < builtinTypes.length, freshArena.unifySignature? [freshArray] [type] = none := by
    decide
  have hsignature : arena.unifySignature? [freshArray] [type] = none := by
    rw [hext.unifySignature?_eq freshArena_grown.indexed.toOrdered ha.indexed.toOrdered
      (List.forall_mem_singleton.mpr (by decide))
      (List.forall_mem_singleton.mpr (freshArena_grown.lt_size h)), hnone type h]
  rw [unifySignature?, matchAll] at hsignature
  cases hu : arena.unify? [] freshArray type with
  | none => rfl
  | some bindings =>
    rw [hu] at hsignature
    cases hsignature

end

/-! ## Signatures of built-in methods -/

/-- A method with a receiver and parameters of built-in types. -/
structure Method.IsBuiltin (m : Method ι) : Prop where
  receiver : m.signature.headD .any ∈ [freshArray, .string, .object, .function]
  params : ∀ p ∈ m.signature.tail, p < builtinTypes.length

theorem methodTable_builtin : ∀ e ∈ methodTable, ∀ m ∈ e.2, m.IsBuiltin := by
  have h : ∀ e ∈ methodTable, ∀ m ∈ e.2, m.signature.headD .any ∈ [freshArray, .string, .object, .function] ∧
      ∀ p ∈ m.signature.tail, p < builtinTypes.length := by decide
  exact fun e he m hm => ⟨(h e he m hm).1, (h e he m hm).2⟩

/-- Two methods of one name differ in the receiver or in the number of parameters. -/
theorem methodTable_apart : ∀ e ∈ methodTable, e.2.Pairwise fun m m' =>
    (m.signature.headD .any, m.signature.length) ≠ (m'.signature.headD .any, m'.signature.length) := by
  decide

/-- Whether a method takes a receiver and arguments of these base types. -/
def Method.fits (types : List TypeId) (m : Method ι) : Bool :=
  TypeArena.initial.areSubtypes types (m.signature.map baseType)

/-- Nothing built-in but a type itself is below the type of a receiver. -/
theorem isSubtype_receiver : ∀ head ∈ [freshArray, .string, .object, .function], ∀ type < builtinTypes.length,
    TypeArena.initial.isSubtype type (baseType head) = (type == baseType head) := by
  decide

theorem baseType_of_lt {type : TypeId} (h : type < builtinTypes.length) : baseType type = type := if_pos h

/-- The type of a value: the type of some arrays, or a built-in one other than that of all arrays. -/
def IsTag (arena : TypeArena) (type : TypeId) : Prop := IsShape arena type ∧ type ≠ .array

theorem Heap.Sound.tag_isTag {D : Dialect} {heap : Heap} (hs : heap.Sound D arena) (ha : arena.Grown) {value : Value}
    (h : value.Basic D heap) : IsTag arena (value.tag heap) := by
  refine ⟨hs.tag_isShape h, fun htag => ?_⟩
  cases value with
  | array address =>
    obtain ⟨items, type, hc⟩ := h
    obtain ⟨element, -, hindex⟩ := (hs address _ hc).2.1
    rw [Value.tag, Heap.arrayType_eq hc] at htag
    exact not_lt_of_interned? ha hindex (htag ▸ by decide)
  | inst _ _ _ _ => exact h.elim
  | _ => cases htag

section

variable (ha : arena.Grown) (hext : freshArena.Extends arena)
include ha hext

/-- A receiver matches if its base type fits, and then replacing variables adds no types. -/
theorem unify?_receiver {head type : TypeId} (hhead : head ∈ [freshArray, .string, .object, .function])
    (htype : IsTag arena type) :
    if TypeArena.initial.isSubtype (baseType type) (baseType head) then
      ∃ bindings image, arena.unify? [] head type = some bindings ∧ arena.substitute bindings head = (image, arena)
    else arena.unify? [] head type = none := by
  have hbuiltin : head ≠ freshArray → head < builtinTypes.length := by
    intro hne
    have hlt : ∀ head ∈ [freshArray, .string, .object, .function], head ≠ freshArray → head < builtinTypes.length := by
      decide
    exact hlt head hhead hne
  by_cases hne : head = freshArray
  · subst hne
    have hbase : baseType freshArray = .array := by decide
    rcases htype with ⟨hlt | ⟨_, hindex⟩, harray⟩
    · rw [baseType_of_lt hlt, isSubtype_receiver _ hhead _ hlt, hbase, beq_eq_false_iff_ne.mpr harray,
        if_neg Bool.false_ne_true]
      exact unify?_freshArray_builtin ha hext hlt
    · rw [baseType, if_neg (not_lt_of_interned? ha hindex), isSubtype_receiver _ hhead _ (by decide), hbase,
        if_pos (beq_self_eq_true _)]
      exact ⟨_, _, unify?_freshArray ha hext hindex, substitute_freshArray hext hindex⟩
  · have hlt := hbuiltin hne
    rw [ha.unify?_eq hlt, isSubtype_baseType ha htype.1 hlt, baseType_of_lt hlt]
    by_cases hsub : TypeArena.initial.isSubtype (baseType type) head = true
    · rw [if_pos hsub, if_pos hsub]
      exact ⟨_, _, rfl, ha.substitute_eq hlt⟩
    · rw [if_neg hsub, if_neg hsub]

/-- A built-in method matches if the base types fit, and then replacing variables adds no types. -/
theorem Method.IsBuiltin.unifySignature? {m : Method ι} (hm : m.IsBuiltin) {types : List TypeId}
    (htypes : ∀ x ∈ types, IsTag arena x) :
    if m.fits (types.map baseType) then
      ∃ bindings, arena.unifySignature? m.signature types = some bindings ∧
        (instances bindings m.signature arena).2 = arena
    else arena.unifySignature? m.signature types = none := by
  obtain ⟨hreceiver, hparams⟩ := hm
  rw [Method.fits]
  cases hsignature : m.signature with
  | nil =>
    rw [hsignature] at hreceiver
    exact absurd hreceiver (by decide)
  | cons head params =>
    rw [hsignature] at hreceiver hparams
    rw [List.headD_cons] at hreceiver
    rw [List.tail_cons] at hparams
    cases types with
    | nil => exact rfl
    | cons type types =>
      obtain ⟨htype, htypes⟩ := List.forall_mem_cons.mp htypes
      have hfirst := unify?_receiver ha hext hreceiver htype
      have hbases : params.map baseType = params :=
        (List.map_congr_left fun p hp => baseType_of_lt (hparams p hp)).trans (List.map_id' params)
      have hrest : ∀ bindings, matchAll arena.unify? bindings params types =
          if TypeArena.initial.areSubtypes (types.map baseType) params then some bindings else none := by
        intro bindings
        rw [ha.matchAll_unify?_eq hparams, areSubtypes_baseType ha (fun x hx => (htypes x hx).1) hparams]
      rw [List.map_cons, List.map_cons, areSubtypes, hbases, TypeArena.unifySignature?, matchAll]
      by_cases hsub : TypeArena.initial.isSubtype (baseType type) (baseType head) = true
      · rw [if_pos hsub] at hfirst
        obtain ⟨bindings, image, hu, hsubstitute⟩ := hfirst
        rw [hsub, hu, Bool.true_and]
        by_cases hfit : TypeArena.initial.areSubtypes (types.map baseType) params = true
        · rw [if_pos hfit]
          refine ⟨bindings, (hrest bindings).trans (if_pos hfit), ?_⟩
          have hplain : instances bindings params arena = (params, arena) := ha.instances_eq hparams
          rw [instances] at hplain
          rw [instances, mapTypes_cons, hsubstitute, hplain]
        · rw [if_neg hfit]
          exact (hrest bindings).trans (if_neg hfit)
      · rw [if_neg hsub] at hfirst
        rw [Bool.eq_false_iff.mpr hsub, hfirst, Bool.false_and, if_neg Bool.false_ne_true]
        rfl

end

/-- A method that fits has as many parameters as there are types, and the first of them is its receiver. -/
theorem Method.IsBuiltin.of_fits {m : Method ι} (hm : m.IsBuiltin) {types : List TypeId}
    (htypes : ∀ x ∈ types, x < builtinTypes.length) (hfits : m.fits types = true) :
    types.head? = some (baseType (m.signature.headD .any)) ∧ m.signature.length = types.length := by
  have hlength : m.signature.length = types.length := by
    by_contra hne
    rw [Method.fits, areSubtypes_length (by rwa [List.length_map])] at hfits
    cases hfits
  refine ⟨?_, hlength⟩
  obtain ⟨hreceiver, -⟩ := hm
  rw [Method.fits] at hfits
  cases hsignature : m.signature with
  | nil =>
    rw [hsignature] at hreceiver
    exact absurd hreceiver (by decide)
  | cons head params =>
    rw [hsignature] at hreceiver hfits hlength
    rw [List.headD_cons] at hreceiver
    cases types with
    | nil => cases hlength
    | cons type types =>
      rw [List.map_cons, areSubtypes, Bool.and_eq_true,
        isSubtype_receiver _ hreceiver _ (htypes type List.mem_cons_self)] at hfits
      exact congrArg some (eq_of_beq hfits.1)

/-- No two built-in methods of one name fit the same types. -/
theorem methodTable_lone {e : String × List (Method MethodBody)} (he : e ∈ methodTable) {types : List TypeId}
    (htypes : ∀ x ∈ types, x < builtinTypes.length) :
    e.2.Pairwise fun m m' => m.fits types = false ∨ m'.fits types = false := by
  have hinj : ∀ a ∈ [freshArray, .string, .object, .function], ∀ b ∈ [freshArray, .string, .object, .function],
      baseType a = baseType b → a = b := by decide
  refine (methodTable_apart e he).imp_of_mem fun {m m'} hm hm' hapart => ?_
  by_contra hboth
  rw [not_or, Bool.not_eq_false, Bool.not_eq_false] at hboth
  have hbuiltin := methodTable_builtin e he m hm
  have hbuiltin' := methodTable_builtin e he m' hm'
  obtain ⟨hhead, hlength⟩ := hbuiltin.of_fits htypes hboth.1
  obtain ⟨hhead', hlength'⟩ := hbuiltin'.of_fits htypes hboth.2
  refine hapart (Prod.ext ?_ (hlength.trans hlength'.symm))
  exact hinj _ hbuiltin.receiver _ hbuiltin'.receiver (Option.some.inj (hhead.symm.trans hhead'))

/-! ## Resolution -/

/-- The built-in method of a name that takes a receiver and arguments of these base types. -/
def builtinMethod? (name : String) (types : List TypeId) : Option MethodBody :=
  ((methodTable.lookup name).bind (·.find? (Method.fits types))).map Method.implementation

theorem baseType_lt {type : TypeId} : baseType type < builtinTypes.length := by
  rw [baseType]
  split
  · assumption
  · decide

/-- Choosing a method finds the one that fits and adds no types. -/
theorem choose_builtin {methods : List (Method MethodBody)} {name : String}
    (hl : methodTable.lookup name = some methods) (ha : arena.Grown) (hext : freshArena.Extends arena)
    {types : List TypeId} (htypes : ∀ x ∈ types, IsTag arena x) (function : String) :
    (choose function methods types arena).2 = arena ∧
      match builtinMethod? name (types.map baseType) with
      | some body => ∃ r, (choose function methods types arena).1 = .ok r ∧ r.method.implementation = body
      | none => ∃ shown, (choose function methods types arena).1 = .error (.noMethod function shown) := by
  have hmem := Assoc.mem_of_lookup hl
  have hmatch : ∀ m ∈ methods, if m.fits (types.map baseType) then
        ∃ bindings, arena.unifySignature? m.signature types = some bindings ∧
          (instances bindings m.signature arena).2 = arena
      else arena.unifySignature? m.signature types = none := fun m hm =>
    (methodTable_builtin _ hmem m hm).unifySignature? ha hext htypes
  have hfits : ∀ m ∈ methods,
      (arena.unifySignature? m.signature types).isSome = m.fits (types.map baseType) := fun m hm => by
    have h := hmatch m hm
    cases hfit : m.fits (types.map baseType) with
    | true =>
      rw [hfit, if_pos rfl] at h
      obtain ⟨bindings, hu, -⟩ := h
      rw [hu, Option.isSome_some]
    | false =>
      rw [hfit, if_neg Bool.false_ne_true] at h
      rw [h, Option.isSome_none]
  rw [builtinMethod?, hl, Option.bind_some]
  cases hfind : methods.find? (Method.fits (types.map baseType)) with
  | none =>
    rw [choose_of_nil function (applicable_eq_nil hfits hfind 0)]
    exact ⟨rfl, _, rfl⟩
  | some m =>
    have hbases : ∀ x ∈ types.map baseType, x < builtinTypes.length :=
      List.forall_mem_map.mpr fun _ _ => baseType_lt
    obtain ⟨index, bindings, happ, hu⟩ := applicable_lone hfits (methodTable_lone hmem hbases) hfind 0
    have hm := hmatch m (List.mem_of_find?_eq_some hfind)
    rw [if_pos (List.find?_some hfind)] at hm
    obtain ⟨bindings', hu', harena⟩ := hm
    obtain rfl := Option.some.inj (hu.symm.trans hu')
    rw [choose_lone function happ harena]
    exact ⟨rfl, _, rfl, rfl⟩

/-- Resolving a call of a built-in method finds the one that fits and adds no types, whatever has been remembered. -/
theorem ServesMethods.resolve {functions : FunctionTable MethodBody} (h : ServesMethods arena functions)
    (ha : arena.Grown) {name : String} {f : GenericFunction MethodBody} (hf : functions.lookup name = some f)
    {types : List TypeId} (htypes : ∀ x ∈ types, IsTag arena x) :
    (f.resolve types arena).arena = arena ∧
      (match builtinMethod? name (types.map baseType) with
        | some body => ∃ r, (f.resolve types arena).result = .ok r ∧ r.method.implementation = body
        | none => ∃ shown, (f.resolve types arena).result = .error (.noMethod f.name shown)) ∧
      ServesMethods arena (Assoc.insert name (f.resolve types arena).function functions) := by
  have hl : methodTable.lookup name = some f.methods := by
    rw [← h.listed, Assoc.lookup_map GenericFunction.methods, hf]
    rfl
  have hrecalls : f.Recalls arena := h.recalls _ (Assoc.mem_of_lookup hf)
  obtain ⟨hresult, harena⟩ := hrecalls.resolve_eq_choose types
  obtain ⟨hsame, hchoice⟩ := choose_builtin hl ha h.extension htypes f.name
  have hafter := hrecalls.resolve ha.indexed fun x hx => (htypes x hx).1.lt ha
  rw [hresult, harena, hsame]
  rw [harena, hsame] at hafter
  refine ⟨rfl, hchoice, h.extension, ?_, h.recalls.insert hafter⟩
  rw [FunctionTable.methods_insert hf (f.resolve_same types arena).2.1]
  exact h.listed

/-! ## Invoking -/

/-- Does what a built-in method does. The function `call` calls a value. -/
def MethodBody.run (self : NodeEval) (call : Value → List Value → Eval Value) (body : MethodBody)
    (args : List Value) (scope : ScopeId) : Eval Value :=
  match body with
  | .primitive operation => operation.run self args scope
  | .callback operation => operation.run call args

namespace Agree

variable {D : Dialect} {t : Session} {self : NodeEval} {call : Value → List Value → Eval Value} {scope : ScopeId}
  {P : Claim Value}

theorem invokeMethod {x : Eval Value} {name : String} {args : List Value} (hargs : basicValues D t args)
    {g : Except (Option DispatchError) Value → Eval Value}
    (hfound : ∀ body, builtinMethod? name (args.map Value.base) = some body → ∀ t', t'.heap = t.heap →
      Agree D t' x (do g (.ok (← body.run self call args scope))) P)
    (hnone : builtinMethod? name (args.map Value.base) = none → ∀ t' e, t'.heap = t.heap →
      Agree D t' x (g (.error e)) P) :
    Agree D t x (Dispatch.invokeMethod self call name args scope >>= g) P := by
  refine ofSound fun hs => ?_
  have htags : ∀ type ∈ args.map (Value.tag t.heap), IsTag t.arena type :=
    List.forall_mem_map.mpr fun v hv => hs.heap.tag_isTag hs.grown (hargs v hv)
  have hbases := tags_baseType hs hargs
  rw [Dispatch.invokeMethod]
  simp only [bind_assoc]
  rw [get_right]
  cases hf : t.methods.lookup name with
  | none =>
    have hl : methodTable.lookup name = none := by
      rw [← hs.methods.listed, Assoc.lookup_map GenericFunction.methods, hf]
      rfl
    exact hnone (by rw [builtinMethod?, hl]; rfl) t none rfl
  | some f =>
    dsimp only
    simp only [bind_assoc]
    have hdispatch : f.dispatch ((args.map (Value.tag t.heap)).map some) t.arena =
        f.resolve (args.map (Value.tag t.heap)) t.arena := by
      rw [GenericFunction.dispatch, f.tags_some]
    obtain ⟨harena, hchoice, hserves⟩ := hs.methods.resolve hs.grown hf htags
    rw [hbases] at hchoice
    rw [tags_right, get_right, hdispatch]
    generalize f.resolve (args.map (Value.tag t.heap)) t.arena = out at *
    refine settle_right harena rfl ⟨.refl _, .refl _⟩ { hs with methods := hserves } rfl ?_
    cases hbody : builtinMethod? name (args.map Value.base) with
    | none =>
      rw [hbody] at hchoice
      obtain ⟨shown, hresult⟩ := hchoice
      rw [hresult]
      exact hnone hbody _ _ rfl
    | some body =>
      rw [hbody] at hchoice
      obtain ⟨r, hresult, hr⟩ := hchoice
      rw [hresult]
      dsimp only
      rw [← hr] at hbody
      have hgo := hfound _ hbody
      cases himplementation : r.method.implementation with
      | primitive operation | callback operation =>
        rw [himplementation, MethodBody.run] at hgo
        simp only [bind_assoc, pure_bind]
        exact hgo _ rfl

end Agree

end DispatchLang
