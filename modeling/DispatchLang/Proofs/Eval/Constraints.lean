import DispatchLang.Eval.Run
import DispatchLang.Proofs.Arena.Written
import DispatchLang.Proofs.Eval.Runs
import DispatchLang.Typing.Infer

/-!
# Constraints of declared functions

A function is declared with type parameters, and a type parameter with a constraint that may mention the
parameters before it. When a call is matched against the signature, by the evaluator or by the checker, a
type parameter takes the type of an argument if that is below the constraint as it is written.

What the two make of a declaration is what `typeVarsOf` and `paramsOf` say, for the evaluator in the scope
of the declaration and for the checker inside the declarations around it. So in both every type parameter
that a call binds is bound to a type below its constraint (`constraints_respected`), and if nothing in the
constraint stands for anything, it is also the constraint after replacing variables.

In a constraint that mentions another type parameter of the call this is not so: the argument is compared
with the constraint of that parameter instead of what it stands for (`dependent_constraint_missed`).

All this is said of declarations where names stand for types without type variables (`TypeArena.Environment`). They do in
a new session and for a checker that knows nothing but the built-in types; what keeps it so is proved with
`Checker.environment_kept` and `Eval.declaration_environment`.

## Main results

* `constraints_respected`: what a call binds type parameters to is below their constraints as written.
-/

namespace DispatchLang

open TypeArena

/-! ## Declarations that are evaluated -/

namespace Session

def knownTypes (t : Session) (scope : ScopeId) (name : String) : Option TypeId :=
  match t.scopes.get? scope name with
  | some (.typeRef id _) => some id
  | _ => none

end Session

theorem GenericFunction.mem_insertMethod {ι : Type} (m : Method ι) (methods : List (Method ι)) :
    m ∈ insertMethod m methods := by
  induction methods with
  | nil => exact List.mem_singleton_self m
  | cons m' methods ih =>
    rw [insertMethod]
    split
    · exact List.mem_cons_self
    · exact List.mem_cons_of_mem _ ih

namespace Dispatch

variable {vars : Bindings} {scope : ScopeId} {t s : Session} {id : TypeId} {ids : List TypeId}

theorem lookupType_eq (name : String) :
    lookupType vars scope name t = .ok (within (t.knownTypes scope) vars name) t := by
  rw [lookupType, within]
  cases vars.lookup name with
  | some id => rfl
  | none =>
    rw [Option.none_or, Session.knownTypes]
    change (match t.scopes.get? scope name with
      | some (.typeRef id _) => Pure.pure (some id)
      | _ => Pure.pure none : Eval (Option TypeId)) t = _
    cases t.scopes.get? scope name with
    | none => rfl
    | some value => cases value <;> rfl

mutual

/-- If a written type means something, it is what `typeOf` says. -/
theorem resolveType_ok {t s : Session} {id : TypeId} (type : TypeExpr)
    (h : resolveType vars scope type t = .ok id s) :
    (id, s) = ((typeOf (within (t.knownTypes scope) vars) type t.arena).1,
      { t with arena := (typeOf (within (t.knownTypes scope) vars) type t.arena).2 }) := by
  cases type with
  | named span name =>
    rw [resolveType, Eval.bind_ok] at h
    obtain ⟨found, u, hl, h⟩ := h
    rw [lookupType_eq] at hl
    obtain ⟨rfl, rfl⟩ := EStateM.Result.ok.inj hl
    rw [typeOf]
    cases hn : within (t.knownTypes scope) vars name with
    | none => rw [hn] at h; cases h
    | some x =>
      rw [hn] at h
      obtain ⟨rfl, rfl⟩ := Eval.pure_ok.mp h
      rfl
  | applied span name args =>
    rw [resolveType, Eval.bind_ok] at h
    obtain ⟨found, u, hl, h⟩ := h
    rw [lookupType_eq] at hl
    obtain ⟨rfl, rfl⟩ := EStateM.Result.ok.inj hl
    rw [typeOf]
    cases hn : within (t.knownTypes scope) vars name with
    | none => rw [hn] at h; cases h
    | some base =>
      rw [hn] at h
      obtain ⟨ids, u, hargs, h⟩ := Eval.bind_ok.mp h
      obtain ⟨rfl, rfl⟩ := Prod.mk.inj (resolveTypes_ok args hargs)
      obtain ⟨rfl, rfl⟩ := EStateM.Result.ok.inj h
      rfl

theorem resolveTypes_ok {t s : Session} {ids : List TypeId} (types : List TypeExpr)
    (h : resolveTypes vars scope types t = .ok ids s) :
    (ids, s) = ((typesOf (within (t.knownTypes scope) vars) types t.arena).1,
      { t with arena := (typesOf (within (t.knownTypes scope) vars) types t.arena).2 }) := by
  cases types with
  | nil =>
    obtain ⟨rfl, rfl⟩ := Eval.pure_ok.mp h
    rfl
  | cons type types =>
    rw [resolveTypes] at h
    obtain ⟨id, u, hfirst, h⟩ := Eval.bind_ok.mp h
    obtain ⟨rest, u', hrest, h⟩ := Eval.bind_ok.mp h
    obtain ⟨rfl, rfl⟩ := Eval.pure_ok.mp h
    obtain ⟨rfl, rfl⟩ := Prod.mk.inj (resolveType_ok type hfirst)
    obtain ⟨rfl, rfl⟩ := Prod.mk.inj (resolveTypes_ok types hrest)
    rfl

end

theorem resolveOption_ok (type : Option TypeExpr)
    (h : resolveOption vars scope type t = .ok id s) :
    (id, s) = ((optionOf (within (t.knownTypes scope) vars) type t.arena).1,
      { t with arena := (optionOf (within (t.knownTypes scope) vars) type t.arena).2 }) := by
  cases type with
  | none =>
    obtain ⟨rfl, rfl⟩ := Eval.pure_ok.mp h
    rfl
  | some type => exact resolveType_ok type h

theorem resolveParams_ok (params : List Param)
    (h : resolveParams vars scope params t = .ok ids s) :
    (ids, s) = ((paramsOf (within (t.knownTypes scope) vars) params t.arena).1,
      { t with arena := (paramsOf (within (t.knownTypes scope) vars) params t.arena).2 }) := by
  induction params generalizing t ids s with
  | nil =>
    obtain ⟨rfl, rfl⟩ := Eval.pure_ok.mp h
    rfl
  | cons p params ih =>
    rw [resolveParams] at h
    obtain ⟨id, u, hfirst, h⟩ := Eval.bind_ok.mp h
    obtain ⟨rest, u', hrest, h⟩ := Eval.bind_ok.mp h
    obtain ⟨rfl, rfl⟩ := Eval.pure_ok.mp h
    obtain ⟨rfl, rfl⟩ := Prod.mk.inj (resolveOption_ok p.annotation hfirst)
    obtain ⟨rfl, rfl⟩ := Prod.mk.inj (ih hrest)
    rfl

theorem typeParams_ok {vars' : Bindings} (params : List TypeParam)
    (h : typeParams scope vars params t = .ok vars' s) :
    (vars', s) = ((typeVarsOf (t.knownTypes scope) vars params t.arena).1,
      { t with arena := (typeVarsOf (t.knownTypes scope) vars params t.arena).2 }) := by
  induction params generalizing t vars with
  | nil =>
    obtain ⟨rfl, rfl⟩ := Eval.pure_ok.mp h
    rfl
  | cons p params ih =>
    rw [typeParams] at h
    obtain ⟨constraint, u, hc, h⟩ := Eval.bind_ok.mp h
    obtain ⟨id, u', hv, h⟩ := Eval.bind_ok.mp h
    obtain ⟨rfl, rfl⟩ := Prod.mk.inj (resolveOption_ok p.constraint hc)
    obtain ⟨rfl, rfl⟩ := EStateM.Result.ok.inj hv
    exact ih h

/-- A declaration that is evaluated adds a method whose type variables and signature are those that are
written, and to the arena no more than these. -/
theorem declareFunction_ok {head : FunctionHead} {body : Node} {value : Value}
    (h : declareFunction head body scope t = .ok value s) :
    ∃ vars signature f,
      typeVarsOf (t.knownTypes scope) [] head.typeParams t.arena =
        (vars, (typeVarsOf (t.knownTypes scope) [] head.typeParams t.arena).2) ∧
      paramsOf (within (t.knownTypes scope) vars) head.params
        (typeVarsOf (t.knownTypes scope) [] head.typeParams t.arena).2 = (signature, s.arena) ∧
      s.functions.lookup head.name.val = some f ∧
      ⟨vars.reverse.map Prod.snd, signature, .declared (head.params.map (·.name.val)) body scope⟩ ∈
        f.methods := by
  rw [declareFunction] at h
  obtain ⟨vars, u, hvars, h⟩ := Eval.bind_ok.mp h
  obtain ⟨signature, u', hsignature, h⟩ := Eval.bind_ok.mp h
  obtain ⟨rfl, rfl⟩ := Prod.mk.inj (typeParams_ok head.typeParams hvars)
  obtain ⟨rfl, rfl⟩ := Prod.mk.inj (resolveParams_ok head.params hsignature)
  obtain ⟨-, rfl⟩ := EStateM.Result.ok.inj h
  exact ⟨_, _, _, rfl, rfl, Assoc.lookup_insert_self _ _ _,
    GenericFunction.mem_insertMethod _ _⟩

end Dispatch

/-! ## Declarations that are checked -/

namespace Check

variable {types : String → Option TypeId} {c : Checker}

/-- A step of the checker has answered something and left behind an arena, and knows the same types. -/
structure Gives {α : Type} (c : Checker) (result : α × Checker) (out : α × TypeArena) : Prop where
  answer : result.1 = out.1
  arena : result.2.arena = out.2
  types : result.2.types = c.types
  typeVars : result.2.typeVars = c.typeVars

def names (c : Checker) : String → Option TypeId := within (c.types.lookup ·) c.typeVars

theorem bind_run {α β : Type} (x : Check α) (f : α → Check β) (c : Checker) :
    (x >>= f) c = f (x c).1 (x c).2 := rfl

theorem headType_eq (name : String) : headType name c = (names c name, c) := by
  rw [headType, names, within, bind_run]
  dsimp only [MonadState.get, getThe, MonadStateOf.get, StateT.get, Pure.pure]
  cases c.typeVars.lookup name <;> rfl

theorem Gives.names_eq {α : Type} {result : α × Checker} {out : α × TypeArena}
    (h : Gives c result out) : names result.2 = names c := by
  rw [names, names, h.types, h.typeVars]

mutual

/-- A written type means to the checker what `typeOf` says. -/
theorem resolveType_gives {c : Checker} (type : TypeExpr) :
    Gives c (resolveType type c) (typeOf (names c) type c.arena) := by
  cases type with
  | named span name =>
    rw [resolveType, typeOf, bind_run, headType_eq]
    cases names c name <;> exact ⟨rfl, rfl, rfl, rfl⟩
  | applied span name args =>
    rw [resolveType, typeOf, bind_run, headType_eq]
    cases names c name with
    | none => exact ⟨rfl, rfl, rfl, rfl⟩
    | some base =>
      have hargs := resolveTypes_gives (c := c) args
      refine ⟨?_, ?_, hargs.types, hargs.typeVars⟩
      · change ((resolveTypes args c).2.arena.applied base (resolveTypes args c).1).1 = _
        rw [hargs.answer, hargs.arena]
      · change ((resolveTypes args c).2.arena.applied base (resolveTypes args c).1).2 = _
        rw [hargs.answer, hargs.arena]

theorem resolveTypes_gives {c : Checker} (exprs : List TypeExpr) :
    Gives c (resolveTypes exprs c) (typesOf (names c) exprs c.arena) := by
  cases exprs with
  | nil => exact ⟨rfl, rfl, rfl, rfl⟩
  | cons type exprs =>
    have hfirst := resolveType_gives (c := c) type
    have hrest := resolveTypes_gives (c := (resolveType type c).2) exprs
    rw [hfirst.names_eq, hfirst.arena] at hrest
    rw [resolveTypes, typesOf]
    exact ⟨congrArg₂ List.cons hfirst.answer hrest.answer, hrest.arena,
      hrest.types.trans hfirst.types, hrest.typeVars.trans hfirst.typeVars⟩

end

theorem resolveOption_gives (type : Option TypeExpr) :
    Gives c (resolveOption type c) (optionOf (names c) type c.arena) := by
  cases type with
  | none => exact ⟨rfl, rfl, rfl, rfl⟩
  | some type => exact resolveType_gives type

theorem resolveParams_gives (params : List Param) :
    Gives c (resolveParams params c) (paramsOf (names c) params c.arena) := by
  induction params generalizing c with
  | nil => exact ⟨rfl, rfl, rfl, rfl⟩
  | cons p params ih =>
    have hfirst := resolveOption_gives (c := c) p.annotation
    have hrest := ih (c := (resolveOption p.annotation c).2)
    rw [hfirst.names_eq, hfirst.arena] at hrest
    rw [resolveParams, paramsOf]
    exact ⟨congrArg₂ List.cons hfirst.answer hrest.answer, hrest.arena,
      hrest.types.trans hfirst.types, hrest.typeVars.trans hfirst.typeVars⟩

/-- What the checker enters for a declaration are the type variables that `typeVarsOf` says, except that
it keeps one entry for each name. -/
theorem enterTypeParams_gives {vars : Bindings} (params : List TypeParam)
    (hvars : ∀ name, c.typeVars.lookup name = vars.lookup name) :
    let out := typeVarsOf (c.types.lookup ·) vars params c.arena
    let c' := (enterTypeParams params c).2
    c'.arena = out.2 ∧ c'.types = c.types ∧ ∀ name, c'.typeVars.lookup name = out.1.lookup name := by
  induction params generalizing c vars with
  | nil => exact ⟨rfl, rfl, hvars⟩
  | cons p params ih =>
    have hnames : names c = within (c.types.lookup ·) vars := by
      funext name
      rw [names, within, within, hvars]
    have hc := resolveOption_gives (c := c) p.constraint
    rw [hnames] at hc
    -- The checker after the constraint, with the new variable.
    let next := (resolveOption p.constraint c).2
    let var := next.arena.var p.name.val (resolveOption p.constraint c).1
    have hentered : ∀ name, (Assoc.insert p.name.val var.1 next.typeVars).lookup name =
        ((p.name.val, var.1) :: vars).lookup name := fun name => by
      rw [List.lookup_cons]
      by_cases hname : name = p.name.val
      · rw [hname, Assoc.lookup_insert_self, beq_self_eq_true]
      · rw [Assoc.lookup_insert_of_ne hname, beq_eq_false_iff_ne.mpr hname, hc.typeVars, hvars]
    have hrest := ih (c := { next with
      arena := var.2, typeVars := Assoc.insert p.name.val var.1 next.typeVars }) hentered
    have hout : optionOf (within (c.types.lookup ·) vars) p.constraint c.arena =
        ((resolveOption p.constraint c).1, next.arena) := Prod.ext hc.answer.symm hc.arena.symm
    have htypes : (fun name => next.types.lookup name) = fun name => c.types.lookup name := by
      rw [hc.types]
    dsimp only at hrest ⊢
    rw [htypes] at hrest
    rw [typeVarsOf, hout]
    exact ⟨hrest.1, hrest.2.1.trans hc.types, hrest.2.2⟩

end Check

/-! ## Constraints are respected as they are written -/

/-- A declared function is called with bindings that respect the constraints of its type parameters as
they are written, both when the declaration was evaluated and when it was checked. For the checker the
constraints of the declarations around it are among them. -/
theorem constraints_respected (head : FunctionHead) :
    (∀ (t s : Session) (scope : ScopeId) (body : Node) (value : Value),
      Environment (t.knownTypes scope) [] t.arena →
      Dispatch.declareFunction head body scope t = .ok value s →
      ∃ (f : GenericFunction FunctionBody) (method : Method FunctionBody) (vars : Bindings),
        s.functions.lookup head.name.val = some f ∧ method ∈ f.methods ∧
        method.implementation = .declared (head.params.map (·.name.val)) body scope ∧
        vars.map Prod.fst = head.typeParams.map (·.name.val) ∧ vars.map Prod.snd = method.typeVars ∧
        s.arena.Regular ∧
        ∀ (later : TypeArena) (args : List TypeId) (bindings : Bindings),
          s.arena.Extends later → later.Regular →
          later.unifySignature? method.signature args = some bindings →
          later.Respects vars.reverse bindings) ∧
    (∀ c : Checker, Environment (c.types.lookup ·) c.typeVars c.arena →
      let entered := (Check.enterTypeParams head.typeParams c).2
      let (signature, resolved) := Check.resolveParams head.params entered
      resolved.arena.Regular ∧
      ∀ (later : TypeArena) (args : List TypeId) (bindings : Bindings),
        resolved.arena.Extends later → later.Regular →
        later.unifySignature? signature args = some bindings →
        later.Respects entered.typeVars bindings) := by
  refine ⟨fun t s scope body value henv h => ?_, fun c henv => ?_⟩
  · obtain ⟨vars, signature, f, hvars, hsignature, hf, hmethod⟩ := Dispatch.declareFunction_ok h
    obtain ⟨-, henv⟩ := typeVarsOf_environment henv head.typeParams
    rw [hvars] at henv
    have hparams := paramsOf_over henv head.params
    rw [hsignature] at hparams
    refine ⟨f, _, vars.reverse, hf, hmethod, rfl, ?_, rfl, hparams.regular,
      fun later args bindings he hr hb => ?_⟩
    · have hnames := typeVarsOf_names (t.knownTypes scope) [] head.typeParams t.arena
      rw [hvars] at hnames
      rw [List.map_reverse, hnames, List.map_nil, List.append_nil, List.reverse_reverse]
    · rw [List.reverse_reverse]
      exact ((henv.grown hparams.extension hparams.regular).grown he hr).respects
        (fun p hp => (hparams.answers p hp).grown he hparams.regular.canonical.toOrdered) hb
  · obtain ⟨harena, htypes, hlookup⟩ := Check.enterTypeParams_gives head.typeParams fun _ => rfl
    obtain ⟨-, hentered⟩ := typeVarsOf_environment henv head.typeParams
    replace hentered := hentered.congr hlookup
    rw [← harena, ← htypes] at hentered
    have hgives :=
      Check.resolveParams_gives (c := (Check.enterTypeParams head.typeParams c).2) head.params
    have hparams := paramsOf_over hentered head.params
    intro entered
    refine ⟨hgives.arena ▸ hparams.regular, fun later args bindings he hr hb => ?_⟩
    rw [hgives.arena] at he
    rw [hgives.answer] at hb
    exact ((hentered.grown hparams.extension hparams.regular).grown he hr).respects
      (fun p hp => (hparams.answers p hp).grown he hparams.regular.canonical.toOrdered) hb

/-! ## A constraint that mentions another type parameter -/

namespace FunctionHead

/-- A name that is written nowhere in particular. -/
def unplaced (name : String) : Located String := ⟨name, .nowhere⟩

/-- The function `f[T, U <: bound](x: T, y: U)`. -/
def pair (bound : String) : FunctionHead where
  name := unplaced "f"
  typeParams := [⟨unplaced "T", none⟩, ⟨unplaced "U", some (.named .nowhere bound)⟩]
  params := [⟨unplaced "x", some (.named .nowhere "T")⟩, ⟨unplaced "y", some (.named .nowhere "U")⟩]

/-- What is left of a new session when the function has been declared with the body `x`. -/
def declaredIn (head : FunctionHead) : Session :=
  match Dispatch.declareFunction head (.ident .nowhere "x") ScopeTree.root
    (Session.fresh .dispatch .standard) with
  | .ok _ s | .error _ s => s

theorem declaredIn_ok (bound : String) (hbound : bound = "T" ∨ bound = "Number") :
    Dispatch.declareFunction (pair bound) (.ident .nowhere "x") ScopeTree.root
      (Session.fresh .dispatch .standard) = .ok (.generic "f") (pair bound).declaredIn := by
  rcases hbound with rfl | rfl <;> rfl

end FunctionHead

/-- The function `f[T, U <: T](x: T, y: U)` takes an integer and a string. Its type parameters are `T`
(type 12) and `U` (type 14), and the call binds them to `Int` and `String`; but a string is no integer. -/
theorem dependent_constraint_missed :
    let s := (FunctionHead.pair "T").declaredIn
    let bindings : Bindings := [("U", .string), ("T", .int)]
    Dispatch.declareFunction (.pair "T") (.ident .nowhere "x") ScopeTree.root
        (Session.fresh .dispatch .standard) = .ok (.generic "f") s ∧
      (s.functions.lookup "f").map (fun f => f.methods.map fun m => (m.typeVars, m.signature)) =
        some [([12, 14], [12, 14])] ∧
      s.arena.get 14 = ⟨"U", .var 12, none⟩ ∧
      s.arena.unifySignature? [12, 14] [.int, .string] = some bindings ∧
      (s.arena.substitute bindings 12).1 = .int ∧
      s.arena.isSubtype .string .int = false := by
  refine ⟨FunctionHead.declaredIn_ok "T" (.inl rfl), ?_⟩
  decide

/-! ## The types of a new session -/

/-- The built-in types are made of no others. -/
theorem TypeArena.over_builtin {arena : TypeArena} (h : arena.Regular)
    (hall : ∀ id < builtinTypes.length, ∀ x ∈ arena.constituents id,
      (arena.get x).kind.name ∉ ["typevar", "function"]) {id : TypeId}
    (hid : id < builtinTypes.length) : arena.Over [] id := by
  refine ⟨Nat.lt_of_lt_of_le hid h.canonical.builtin, fun x hx params result hk => ?_, ?_⟩
  · refine absurd ?_ (hall id hid x hx)
    rw [hk]
    exact .tail _ (.head _)
  · rintro name constraint ⟨x, hx, hk, -⟩
    refine absurd ?_ (hall id hid x hx)
    rw [hk]
    exact .head _

/-- Whether a value, if it is a type, is one of the built-in ones. -/
def Value.namesBuiltin : Value → Bool
  | .typeRef id _ => decide (id < builtinTypes.length)
  | _ => true

namespace Session

/-- The names of a new session mean the built-in types. -/
theorem fresh_knownTypes {options : Options} {name : String} {id : TypeId}
    (h : (fresh .dispatch options).knownTypes ScopeTree.root name = some id) :
    id < builtinTypes.length := by
  have hall : ((rootBinding builtinBindings).frame ScopeTree.root).vars.all (·.2.namesBuiltin) = true := by
    decide
  rw [knownTypes] at h
  split at h
  · next id' shown hget =>
    obtain rfl := Option.some.inj h
    obtain ⟨s, hs, hlookup⟩ := List.exists_of_findSome?_eq_some hget
    have hroot : (fresh .dispatch options).scopes.chain ScopeTree.root = [ScopeTree.root] := rfl
    rw [hroot] at hs
    rw [List.mem_singleton.mp hs] at hlookup
    exact of_decide_eq_true (List.all_eq_true.mp hall _ (Assoc.mem_of_lookup hlookup))
  · cases h

theorem fresh_regular (options : Options) : (fresh .dispatch options).arena.Regular :=
  .applied .array [12] (.var "T" .any .initial (by decide)) (by decide) (by decide)

theorem fresh_environment (options : Options) :
    Environment ((fresh .dispatch options).knownTypes ScopeTree.root) []
      (fresh .dispatch options).arena where
  regular := fresh_regular options
  types h := over_builtin (fresh_regular options)
    (show ∀ id < builtinTypes.length, ∀ x ∈ (fresh .dispatch .standard).arena.constituents id,
      ((fresh .dispatch .standard).arena.get x).kind.name ∉ ["typevar", "function"] by
        decide) (fresh_knownTypes h)
  vars h := nomatch h

end Session

theorem Checker.bare_environment :
    Environment (Checker.bare.types.lookup ·) Checker.bare.typeVars Checker.bare.arena where
  regular := .initial
  types h := by
    have hall : ∀ entry ∈ Checker.bare.types, entry.2 < builtinTypes.length := by decide
    exact over_builtin .initial (by decide) (hall _ (Assoc.mem_of_lookup h))
  vars h := nomatch h

/-- With the constraint `Number` on `U`, a call of `f[T, U <: Number](x: T, y: U)` with a string and an
integer binds `U` to a type below `Number`, in the evaluator and in the checker. -/
theorem number_constraint_respected :
    (∃ vars : Bindings, vars.map Prod.fst = ["T", "U"] ∧
      (FunctionHead.pair "Number").declaredIn.arena.Respects vars.reverse
        [("U", .int), ("T", .string)]) ∧
    (Check.resolveParams (FunctionHead.pair "Number").params
      (Check.enterTypeParams (FunctionHead.pair "Number").typeParams Checker.bare).2).2.arena.Respects
        (Check.enterTypeParams (FunctionHead.pair "Number").typeParams Checker.bare).2.typeVars
        [("U", .int), ("T", .string)] := by
  constructor
  · obtain ⟨f, method, vars, hf, hmethod, -, hnames, -, hregular, hrespects⟩ :=
      (constraints_respected (.pair "Number")).1 _ _ _ _ _ (Session.fresh_environment .standard)
        (FunctionHead.declaredIn_ok "Number" (.inr rfl))
    have hsignature : method.signature = [12, 14] := by
      have hall : ((FunctionHead.pair "Number").declaredIn.functions.lookup "f").all (fun f =>
          f.methods.all fun m => m.signature = [12, 14]) = true := by decide
      change (FunctionHead.pair "Number").declaredIn.functions.lookup "f" = some f at hf
      rw [hf] at hall
      exact of_decide_eq_true (List.all_eq_true.mp hall method hmethod)
    refine ⟨vars, hnames, hrespects _ [.string, .int] _ (.refl _) hregular ?_⟩
    rw [hsignature]
    decide
  · obtain ⟨hregular, hrespects⟩ := (constraints_respected (.pair "Number")).2 Checker.bare
      Checker.bare_environment
    exact hrespects _ [.string, .int] _ (.refl _) hregular (by decide)

end DispatchLang
