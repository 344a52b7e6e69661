import DispatchLang.Proofs.Eval.Operations
import DispatchLang.Proofs.Eval.Signatures

/-!
# Built-in methods

The direct strategy settles for a built-in method as soon as the receiver has one of the name, and then looks at the
arguments by hand. The dispatch strategy takes a built-in method only if its signature matches. Where it does, both do
the same; where it does not, the direct strategy fails (`Answers`). There is one way out of this: the direct strategy
never looks at the function that it is to call for all elements of an array if there are none, so `map`, `filter` and
`reduce` make something of an empty array even if they are given nothing to call (`Session.idles`).

The methods are of few shapes, by what they take: no arguments (`Answers.none`), one argument of any kind
(`Answers.any`), an integer (`Answers.int`) or a string (`Answers.string`), a function (`Answers.function`), and two
arguments (`Answers.pair`).

## Main definitions

* `Session.idles`: whether a method of an empty array has nothing to call.
* `Answers`: what is done for a method call is right, compared with the built-in method that fits.

## Main results

* `Agree.method?_answers`: built-in methods of the direct strategy answer.
-/

namespace DispatchLang

/-! ## What is done for a method call -/

/-- Whether a method of an empty array is to call something for all of its elements, which are none. -/
def Session.idles (s : Session) (receiver : Value) (name : String) (args : List Value) : Bool :=
  match receiver, name, args with
  | .array address, "map", [_] | .array address, "filter", [_] | .array address, "reduce", [_, _] =>
    (s.heap.items address).isEmpty
  | _, _, _ => false

section

variable {D : Dialect} {t : Session} {self' : NodeEval} {call' : Value → List Value → Eval Value} {scope : ScopeId}
  {name : String} {receiver : Value} {args : List Value} {body : MethodBody}

/-- What is done for a method call agrees with the built-in method that fits, and fails if none does, unless it is
idle. -/
def Answers (D : Dialect) (t : Session) (self' : NodeEval) (call' : Value → List Value → Eval Value) (scope : ScopeId)
    (name : String) (receiver : Value) (args : List Value) (x : Eval Value) : Prop :=
  match builtinMethod? name (receiver.base :: args.map Value.base) with
  | some body => Agree D t x (body.run self' call' (receiver :: args) scope) (basicValue D)
  | none => t.idles receiver name args = false → x.Fails t.untyped

theorem isCallable_eq {heap : Heap} {v : Value} (h : v.Basic D heap) :
    v.isCallable = decide (v.base = .function) := by
  cases v with
  | inst _ _ _ _ | function _ _ _ _ _ | constructor _ _ => exact h.elim
  | _ => rfl

namespace Answers

theorem fits {x : Eval Value} (hbody : builtinMethod? name (receiver.base :: args.map Value.base) = some body)
    (h : Agree D t x (body.run self' call' (receiver :: args) scope) (basicValue D)) :
    Answers D t self' call' scope name receiver args x := by
  rw [Answers, hbody]
  exact h

theorem fails {x : Eval Value} (hnone : builtinMethod? name (receiver.base :: args.map Value.base) = none)
    (h : x.Fails t.untyped) : Answers D t self' call' scope name receiver args x := by
  rw [Answers, hnone]
  exact fun _ => h

theorem bases_lt (hr : receiver.Basic D t.heap) (hargs : basicValues D t args) :
    ∀ x ∈ receiver.base :: args.map Value.base, x < builtinTypes.length :=
  basesOf_lt (List.forall_mem_cons.mpr ⟨hr, hargs⟩)

theorem idle {x : Eval Value} (hnone : builtinMethod? name (receiver.base :: args.map Value.base) = none)
    (h : t.idles receiver name args = false → x.Fails t.untyped) :
    Answers D t self' call' scope name receiver args x := by
  rw [Answers, hnone]
  exact h

variable (hr : receiver.Basic D t.heap) (hargs : basicValues D t args)
include hr hargs

/-- A wrong number of arguments is refused. -/
theorem arity {x : Eval Value} {counts : List Nat} (hcounts : arities name receiver.base = counts)
    (hlength : args.length ∉ counts) (h : x.Fails t.untyped) : Answers D t self' call' scope name receiver args x := by
  refine fails (builtinMethod?_eq_none (bases_lt hr hargs) ?_) h
  rwa [hcounts, List.length_map]

theorem none {action : Eval Value} (hbody : (name, receiver.base, body) ∈ plainMethods)
    (h : Agree D t action (body.run self' call' [receiver] scope) (basicValue D)) :
    Answers D t self' call' scope name receiver args (Direct.withNone name args action) := by
  obtain ⟨hcounts, hfound⟩ := plainMethods_take _ hbody
  cases args with
  | nil => exact fits hfound h
  | cons v args => exact arity hr hargs hcounts (by simp) ⟨_, _, rfl⟩

theorem one {action : Value → Eval Value} {param : TypeId} (hbody : (name, receiver.base, param, body) ∈ unaryMethods)
    (h : ∀ v, v.Basic D t.heap → param = .any ∨ v.base = param →
      Agree D t (action v) (body.run self' call' [receiver, v] scope) (basicValue D))
    (hfails : ∀ v, v.Basic D t.heap → param ≠ .any → v.base ≠ param → t.idles receiver name [v] = false →
      (action v).Fails t.untyped) :
    Answers D t self' call' scope name receiver args (Direct.withOne name args action) := by
  obtain ⟨hcounts, hfound⟩ := unaryMethods_take _ hbody
  match args, hargs with
  | [], hargs => exact arity hr hargs hcounts (by simp) ⟨_, _, rfl⟩
  | [v], hargs =>
    have hv := hargs v List.mem_cons_self
    by_cases hparam : param = .any ∨ v.base = param
    · exact fits ((hfound _ hv.base_mem).trans (if_pos hparam)) (h v hv hparam)
    · obtain ⟨hany, hbase⟩ := not_or.mp hparam
      exact idle ((hfound _ hv.base_mem).trans (if_neg hparam)) (hfails v hv hany hbase)
  | _ :: _ :: _, hargs => exact arity hr hargs hcounts (by simp) ⟨_, _, rfl⟩

theorem any {action : Value → Eval Value} (hbody : (name, receiver.base, .any, body) ∈ unaryMethods)
    (h : ∀ v, v.Basic D t.heap → Agree D t (action v) (body.run self' call' [receiver, v] scope) (basicValue D)) :
    Answers D t self' call' scope name receiver args (Direct.withOne name args action) :=
  one hr hargs hbody (fun v hv _ => h v hv) fun _ _ hany => absurd rfl hany

theorem int {action : Value → Eval Value} (hbody : (name, receiver.base, .int, body) ∈ unaryMethods)
    (h : ∀ n, Agree D t (action (.int n)) (body.run self' call' [receiver, .int n] scope) (basicValue D))
    (hfails : ∀ v, v.base ≠ .int → (action v).Fails t.untyped) :
    Answers D t self' call' scope name receiver args (Direct.withOne name args action) := by
  refine one hr hargs hbody (fun v hv hint => ?_) fun v _ _ hint _ => hfails v hint
  obtain ⟨n, rfl⟩ := hv.toldByBase.int (hint.resolve_left (by decide))
  exact h n

theorem string {action : Value → Eval Value} (hbody : (name, receiver.base, .string, body) ∈ unaryMethods)
    (h : ∀ text, Agree D t (action (.string text)) (body.run self' call' [receiver, .string text] scope) (basicValue D))
    (hfails : ∀ v, v.base ≠ .string → (action v).Fails t.untyped) :
    Answers D t self' call' scope name receiver args (Direct.withOne name args action) := by
  refine one hr hargs hbody (fun v hv hstring => ?_) fun v _ _ hstring _ => hfails v hstring
  obtain ⟨text, rfl⟩ := hv.toldByBase.string (hstring.resolve_left (by decide))
  exact h text

/-- A method with a function for an argument, which fails for anything else unless it is idle. -/
theorem function {action : Value → Eval Value} (hbody : (name, receiver.base, .function, body) ∈ unaryMethods)
    (h : ∀ f, f.Basic D t.heap → Agree D t (action f) (body.run self' call' [receiver, f] scope) (basicValue D))
    (hfails : ∀ f, f.isCallable = false → t.idles receiver name [f] = false → (action f).Fails t.untyped) :
    Answers D t self' call' scope name receiver args (Direct.withOne name args action) :=
  one hr hargs hbody (fun f hf _ => h f hf) fun f hf _ hfunction =>
    hfails f ((isCallable_eq hf).trans (decide_eq_false hfunction))

theorem pair {action : Value → Value → Eval Value} {param : TypeId}
    (hbody : (name, receiver.base, param, body) ∈ binaryMethods)
    (h : ∀ v w, v.Basic D t.heap → w.Basic D t.heap → v.base = param →
      Agree D t (action v w) (body.run self' call' [receiver, v, w] scope) (basicValue D))
    (hfails : ∀ v w, v.Basic D t.heap → v.base ≠ param → t.idles receiver name [v, w] = false →
      (action v w).Fails t.untyped) :
    Answers D t self' call' scope name receiver args (Direct.withTwo name args action) := by
  obtain ⟨hcounts, hfound⟩ := binaryMethods_take _ hbody
  match args, hargs with
  | [], hargs => exact arity hr hargs hcounts (by simp) ⟨_, _, rfl⟩
  | [_], hargs => exact arity hr hargs hcounts (by simp) ⟨_, _, rfl⟩
  | [v, w], hargs =>
    have hv := hargs v List.mem_cons_self
    have hw := hargs w (List.mem_cons_of_mem _ List.mem_cons_self)
    have hchoice := hfound _ hv.base_mem _ hw.base_mem
    by_cases hparam : v.base = param
    · exact fits (hchoice.trans (if_pos hparam)) (h v w hv hw hparam)
    · exact idle (hchoice.trans (if_neg hparam)) (hfails v w hv hparam)
  | _ :: _ :: _ :: _, hargs => exact arity hr hargs hcounts (by simp) ⟨_, _, rfl⟩

omit hr in
/-- A method with any number of arguments, up to as many as its signatures have. -/
theorem variadic {x : Eval Value} (hr : receiver.Basic D t.heap) (hbody : (name, receiver.base, body) ∈ variadicMethods)
    (hlength : args.length ≤ Tables.variadicLimit)
    (h : Agree D t x (body.run self' call' (receiver :: args) scope) (basicValue D)) :
    Answers D t self' call' scope name receiver args x := by
  obtain ⟨hcounted, hany⟩ := variadicMethods_take _ hbody
  refine fits ?_ h
  rw [builtinMethod?_eq_of_length hany (bases_lt hr hargs), List.length_map]
  exact hcounted _ hlength

end Answers

namespace Agree

/-! ## Refusals -/

theorem intArgument_fails {v : Value} (h : v.base ≠ .int) (method : String) (s : Session) :
    (Direct.intArgument method v).Fails s := by
  cases v with
  | int n => exact absurd rfl h
  | _ => exact ⟨_, _, rfl⟩

theorem stringArgument_fails {v : Value} (h : v.base ≠ .string) (method : String) (s : Session) :
    (Direct.stringArgument method v).Fails s := by
  cases v with
  | string text => exact absurd rfl h
  | _ => exact ⟨_, _, rfl⟩

/-- Two ways to call a value agree, for no more arguments than a built-in function takes. -/
def CallAgrees (D : Dialect) (call call' : Value → List Value → Eval Value) : Prop :=
  ∀ {t callee args}, callee.Basic D t.heap → basicValues D t args → args.length ≤ Tables.variadicLimit →
    Agree D t (call callee args) (call' callee args) (basicValue D)

def RefusesOthers (call : Value → List Value → Eval Value) : Prop :=
  ∀ callee args s, callee.isCallable = false → (call callee args).Fails s

/-- An array that is not empty has a first element. -/
theorem items_cons {heap : Heap} {address : Nat} (h : (heap.items address).isEmpty = false) :
    ∃ v vs, (heap.untyped.items address).toList = v :: vs := by
  rw [Heap.items_untyped]
  refine List.exists_cons_of_ne_nil fun hnil => ?_
  rw [Array.isEmpty_toList.symm, hnil] at h
  cases h

section

variable {address : Nat} (hne : (t.heap.items address).isEmpty = false)
include hne

theorem mapArray_fails {f : Value → Eval Value} (hf : ∀ x s, (f x).Fails s) :
    (Eval.mapArray .direct f address).Fails t.untyped := by
  obtain ⟨v, vs, hitems⟩ := items_cons hne
  have hmap : ((t.heap.untyped.items address).toList.mapM f).Fails t.untyped := by
    rw [hitems, List.mapM_cons]
    exact (hf v _).bind _
  exact hmap.bind _

theorem filterArray_fails {f : Value → Eval Value} (hf : ∀ x s, (f x).Fails s) :
    (Eval.filterArray .direct f address).Fails t.untyped := by
  obtain ⟨v, vs, hitems⟩ := items_cons hne
  have hfilter : ((t.heap.untyped.items address).toList.filterM fun item => do
      Eval.callbackResult .direct "filter" (← f item)).Fails t.untyped := by
    rw [hitems]
    exact (((hf v _).bind _).bind _).bind _
  exact hfilter.bind _

theorem reduceArray_fails {f : Value → Value → Eval Value} (hf : ∀ total x s, (f total x).Fails s) (start : Value) :
    (Eval.reduceArray f address start).Fails t.untyped := by
  obtain ⟨v, vs, hitems⟩ := items_cons hne
  have hfold : ((t.heap.untyped.items address).toList.foldlM f start).Fails t.untyped := by
    rw [hitems, List.foldlM_cons]
    exact (hf start v _).bind _
  exact hfold

end

/-! ## Arrays -/

section

variable {address : Nat} (ha : (Value.array address).Basic D t.heap) (hargs : basicValues D t args)
include ha hargs

/-- The elements of an array are joined with commas unless there is a separator. -/
theorem joinMethod {call : Value → List Value → Eval Value} {action : Eval Value}
    (h : Direct.arrayMethod? call address "join" args = some action) :
    Answers D t self' call' scope "join" (.array address) args action := by
  obtain ⟨hcounts, hnone, hone⟩ := join_takes
  match args, hargs with
  | [], _ =>
    cases h
    exact .fits hnone (joinArray address ",")
  | [v], hargs =>
    cases h
    have hv := hargs v List.mem_cons_self
    by_cases hstring : v.base = .string
    · obtain ⟨text, rfl⟩ := hv.toldByBase.string hstring
      exact .fits ((hone _ hv.base_mem).trans (if_pos rfl)) (joinArray address text)
    · exact .fails ((hone _ hv.base_mem).trans (if_neg hstring)) ((stringArgument_fails hstring _ _).bind _)
  | _ :: _ :: _, hargs =>
    cases h
    exact .arity ha hargs hcounts (by simp) ⟨_, t.untyped, rfl⟩

variable {call : Value → List Value → Eval Value} (hcall : CallAgrees D call call') (hrefuses : RefusesOthers call)
include hcall hrefuses

theorem mapMethod :
    Answers D t self' call' scope "map" (.array address) args
      (Direct.withOne "map" args fun f => Eval.mapArray .direct (fun x => call f [x]) address) := by
  have hmember : ("map", TypeId.array, TypeId.function, MethodBody.callback .map) ∈ unaryMethods := by
    simp [unaryMethods]
  refine .function ha hargs hmember (fun f hf => ?_) fun f hnot hidle => ?_
  · refine mapArray (fun v t' hg hv => ?_) address
    exact hcall (hf.grows hg) (List.forall_mem_singleton.mpr hv) (by simp [Tables.variadicLimit])
  · exact mapArray_fails hidle fun x s => hrefuses f [x] s hnot

theorem filterMethod :
    Answers D t self' call' scope "filter" (.array address) args
      (Direct.withOne "filter" args fun f => Eval.filterArray .direct (fun x => call f [x]) address) := by
  have hmember : ("filter", TypeId.array, TypeId.function, MethodBody.callback .filter) ∈ unaryMethods := by
    simp [unaryMethods]
  refine .function ha hargs hmember (fun f hf => ?_) fun f hnot hidle => ?_
  · refine filterArray (fun v t' hg hv => ?_) address
    exact hcall (hf.grows hg) (List.forall_mem_singleton.mpr hv) (by simp [Tables.variadicLimit])
  · exact filterArray_fails hidle fun x s => hrefuses f [x] s hnot

theorem reduceMethod :
    Answers D t self' call' scope "reduce" (.array address) args
      (Direct.withTwo "reduce" args fun f start =>
        Eval.reduceArray (fun total x => call f [total, x]) address start) := by
  have hmember : ("reduce", TypeId.array, TypeId.function, MethodBody.callback .reduce) ∈ binaryMethods := by
    simp [binaryMethods]
  refine .pair ha hargs hmember (fun f start hf hstart _ => ?_) fun f start hf hfunction hidle => ?_
  · refine reduceArray (fun total v t' hg htotal hv => ?_) address hstart
    exact hcall (hf.grows hg) (List.forall_mem_cons.mpr ⟨htotal, List.forall_mem_singleton.mpr hv⟩)
      (by simp [Tables.variadicLimit])
  · have hnot : f.isCallable = false := (isCallable_eq hf).trans (decide_eq_false hfunction)
    exact reduceArray_fails hidle (fun total x s => hrefuses f [total, x] s hnot) start

theorem arrayMethod?_answers (hD : D.steady = false) {name : String} {action : Eval Value}
    (h : Direct.arrayMethod? call address name args = some action) :
    Answers D t self' call' scope name (.array address) args action := by
  have hjoin (hname : name = "join") : Answers D t self' call' scope name (.array address) args action := by
    subst hname
    exact joinMethod ha hargs h
  unfold Direct.arrayMethod? at h
  split at h <;> cases h
  case h_1 => exact mapMethod ha hargs hcall hrefuses
  case h_2 => exact filterMethod ha hargs hcall hrefuses
  case h_3 => exact reduceMethod ha hargs hcall hrefuses
  case h_4 => exact hjoin rfl
  case h_5 =>
    have hmember : ("push", TypeId.array, TypeId.any, MethodBody.primitive .push) ∈ unaryMethods := by
      simp [unaryMethods]
    exact .any ha hargs hmember fun _ hv => pushItem hD ha hv
  case h_6 =>
    have hmember : ("pop", TypeId.array, MethodBody.primitive .pop) ∈ plainMethods := by simp [plainMethods]
    exact .none ha hargs hmember (popItem hD address)
  case h_7 =>
    have hmember : ("format", TypeId.array, TypeId.string, MethodBody.primitive .formatArray) ∈ unaryMethods := by
      simp [unaryMethods]
    refine .string ha hargs hmember (fun text => ?_) fun _ hv => (stringArgument_fails hv _ _).bind _
    exact (items address).bind fun values _ _ _ => formatTemplate text values
  case h_8 =>
    have hmember : ("at", TypeId.array, TypeId.int, MethodBody.primitive .arrayAt) ∈ unaryMethods := by
      simp [unaryMethods]
    refine .int ha hargs hmember (fun n => ?_) fun _ hv => (intArgument_fails hv _ t.untyped).bind _
    exact (items address).bind fun _ _ _ hvalues => itemAt hvalues n
  case h_9 =>
    have hmember : ("contains", TypeId.array, TypeId.any, MethodBody.primitive .arrayContains) ∈ unaryMethods := by
      simp [unaryMethods]
    exact .any ha hargs hmember fun v _ => arrayContains address v
  case h_10 =>
    have hmember : ("reverse", TypeId.array, MethodBody.primitive .reverse) ∈ plainMethods := by
      simp [plainMethods]
    exact .none ha hargs hmember (reverseArray address)
  case h_11 =>
    have hmember : ("sum", TypeId.array, MethodBody.primitive .sum) ∈ plainMethods := by simp [plainMethods]
    exact .none ha hargs hmember (sumArray address)

end

/-! ## Strings -/

theorem stringMethod?_answers (hargs : basicValues D t args) (text : String)
    (hlength : args.length ≤ Tables.variadicLimit) {name : String} {action : Eval Value}
    (h : Direct.stringMethod? text name args = some action) :
    Answers D t self' call' scope name (.string text) args action := by
  have hr : (Value.string text).Basic D t.heap := trivial
  unfold Direct.stringMethod? at h
  split at h <;> cases h
  case h_1 =>
    have hmember : ("upper", TypeId.string, MethodBody.primitive .upper) ∈ plainMethods := by simp [plainMethods]
    exact .none hr hargs hmember (pure trivial)
  case h_2 =>
    have hmember : ("lower", TypeId.string, MethodBody.primitive .lower) ∈ plainMethods := by simp [plainMethods]
    exact .none hr hargs hmember (pure trivial)
  case h_3 =>
    have hmember : ("trim", TypeId.string, MethodBody.primitive .trim) ∈ plainMethods := by simp [plainMethods]
    exact .none hr hargs hmember (pure trivial)
  case h_4 =>
    have hmember : ("split", TypeId.string, TypeId.string, MethodBody.primitive .split) ∈ unaryMethods := by
      simp [unaryMethods]
    refine .string hr hargs hmember (fun separator => ?_) fun _ hv => (stringArgument_fails hv _ _).bind _
    exact splitString text separator
  case h_5 =>
    have hmember :
        ("contains", TypeId.string, TypeId.string, MethodBody.primitive .stringContains) ∈ unaryMethods := by
      simp [unaryMethods]
    refine .string hr hargs hmember (fun needle => ?_) fun _ hv => (stringArgument_fails hv _ _).bind _
    exact pure trivial
  case h_6 =>
    have hmember : ("format", TypeId.string, MethodBody.primitive .formatString) ∈ variadicMethods := by
      simp [variadicMethods]
    exact .variadic hargs hr hmember hlength (formatTemplate text args)
  case h_7 =>
    have hmember : ("at", TypeId.string, TypeId.int, MethodBody.primitive .stringAt) ∈ unaryMethods := by
      simp [unaryMethods]
    refine .int hr hargs hmember (fun n => ?_) fun _ hv => (intArgument_fails hv _ t.untyped).bind _
    exact itemAt (characters_basic text) n

/-! ## Objects -/

theorem objectMethod?_answers (hargs : basicValues D t args) (address : Nat) {name : String} {action : Eval Value}
    (h : Direct.objectMethod? address name args = some action) :
    Answers D t self' call' scope name (.object address) args action := by
  have hr : (Value.object address).Basic D t.heap := trivial
  unfold Direct.objectMethod? at h
  split at h <;> cases h
  case h_1 =>
    have hmember : ("keys", TypeId.object, MethodBody.primitive .keys) ∈ plainMethods := by simp [plainMethods]
    exact .none hr hargs hmember (objectKeys address)
  case h_2 =>
    have hmember : ("values", TypeId.object, MethodBody.primitive .values) ∈ plainMethods := by simp [plainMethods]
    exact .none hr hargs hmember (objectValues address)
  case h_3 =>
    have hmember : ("at", TypeId.object, TypeId.string, MethodBody.primitive .objectAt) ∈ unaryMethods := by
      simp [unaryMethods]
    refine .string hr hargs hmember (fun key => ?_) fun _ hv => (stringArgument_fails hv _ _).bind _
    exact objectAt address key
  case h_4 =>
    have hmember : ("has", TypeId.object, TypeId.string, MethodBody.primitive .has) ∈ unaryMethods := by
      simp [unaryMethods]
    refine .string hr hargs hmember (fun key => ?_) fun _ hv => (stringArgument_fails hv _ _).bind _
    exact objectHas address key
  case h_5 =>
    have hmember : ("set", TypeId.object, TypeId.string, MethodBody.primitive .set) ∈ binaryMethods := by
      simp [binaryMethods]
    refine .pair hr hargs hmember (fun key value hkey hvalue hstring => ?_) fun key value _ hstring _ =>
      (stringArgument_fails hstring _ _).bind _
    obtain ⟨text, rfl⟩ := hkey.toldByBase.string hstring
    exact objectSet address text hvalue

/-! ## All built-in methods -/

theorem method?_answers (hD : D.steady = false) {call : Value → List Value → Eval Value}
    (hcall : CallAgrees D call call') (hrefuses : RefusesOthers call) (hr : receiver.Basic D t.heap)
    (hargs : basicValues D t args) (hlength : args.length ≤ Tables.variadicLimit) {action : Eval Value}
    (h : Direct.method? call receiver name args = some action) :
    Answers D t self' call' scope name receiver args action := by
  cases receiver with
  | array address => exact arrayMethod?_answers hr hargs hcall hrefuses hD h
  | string text => exact stringMethod?_answers hargs text hlength h
  | object address => exact objectMethod?_answers hargs address h
  | inst _ _ _ _ | function _ _ _ _ _ | constructor _ _ => exact hr.elim
  | closure _ _ _ _ | generic _ =>
    by_cases hname : name = "call"
    · subst hname
      have hmember : ("call", TypeId.function, MethodBody.callback .call) ∈ variadicMethods := by
        simp [variadicMethods]
      rw [← Option.some.inj h]
      exact .variadic hargs hr hmember hlength (hcall hr hargs hlength)
    · simp [Direct.method?, Value.isCallable, hname] at h
  | _ => cases h

end Agree

end

end DispatchLang
