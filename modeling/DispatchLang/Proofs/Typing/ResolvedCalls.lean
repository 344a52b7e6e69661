import DispatchLang.Proofs.Eval.Constraints
import DispatchLang.Proofs.Eval.Seeing
import DispatchLang.Proofs.Method.Choice
import DispatchLang.Proofs.Method.Exact
import DispatchLang.Proofs.Typing.Silence

/-!
# How the checker resolves calls

If enough is known about the arguments of a call, the checker decides which method is called. Mostly it does so like a
session does, by choosing the most specific method. But if only one method takes as many arguments and has no type
variables, it compares the arguments with the parameters one by one, so that it can say which of them is wrong. Both ways
lead to the same method: no other method can match, and a method without type variables matches what is below it.

Which method is chosen is decided by the descriptors of the types of the arguments and of the signatures, and not by the
indices under which an arena keeps them. So two functions whose methods have the same signatures up to a renaming resolve
a call to the method at the same place, or neither resolves it. What the methods do plays no part, so the methods of a
session and of a checker may be compared. The proof goes through what a call decides (`Decides`) rather than through how it
is resolved: all that has to be compared are the methods that win, and these are told by matching and by `Overrides`, which
instantiates two signatures at a time.

## Main definitions

* `Check.selected`: the method by which the checker types a call.

## Main results

* `TypeArena.Embeds.overrides_eq`: one method overrides another exactly if it does after a renaming.
* `TypeArena.Embeds.choose_index`: a call resolves to the method at the same place after a renaming.
* `Check.callType_settled`: a call for which there is such a method gets its type from it, and any other one is reported.
* `Check.selected_index`: the method is the one that is chosen.
-/

namespace DispatchLang

open TypeArena

/-! ## Calls after a renaming -/

section

variable {ι κ : Type}

/-- The place of the method that a call resolved to. -/
def chosenIndex (result : Except DispatchError (Resolution ι)) : Option Nat := result.toOption.map Resolution.index

theorem chosenIndex_eq_some {result : Except DispatchError (Resolution ι)} {i : Nat} :
    chosenIndex result = some i ↔ ∃ r, result = .ok r ∧ r.index = i := by
  cases result <;> simp [chosenIndex, Except.toOption]

theorem chosenIndex_eq_none {result : Except DispatchError (Resolution ι)} :
    chosenIndex result = none ↔ ∃ e, result = .error e := by
  cases result <;> simp [chosenIndex, Except.toOption]

def Method.Renamed (f : TypeId → TypeId) (m : Method ι) (m' : Method κ) : Prop := m'.signature = m.signature.map f

variable {A B : TypeArena} {f : TypeId → TypeId} {args : List TypeId} {methods : List (Method ι)}
  {methods' : List (Method κ)}

/-- A call resolves to a method exactly if the method wins it. -/
theorem Callable.chosenIndex_iff (h : Callable A args methods) (name : String) (i : Nat) :
    chosenIndex (choose name methods args A).1 = some i ↔ ∃ m bindings, methods[i]? = some m ∧
      Wins A methods args m bindings := by
  rw [chosenIndex_eq_some]
  constructor
  · rintro ⟨r, hr, rfl⟩
    exact ⟨r.method, r.bindings, ((h.choose_decides name).ok_iff h r).mp hr⟩
  · rintro ⟨m, bindings, hwins⟩
    exact ⟨⟨i, m, bindings⟩, ((h.choose_decides name).ok_iff h ⟨i, m, bindings⟩).mpr hwins, rfl⟩

/-- What stands in one of two lists that are related one by one is related to something in the other. -/
theorem exists_of_forall₂ {α β : Type} {R : α → β → Prop} {l : List α} {l' : List β} (h : List.Forall₂ R l l') :
    ∀ a ∈ l, ∃ b ∈ l', R a b := by
  induction h with
  | nil => exact List.forall_mem_nil _
  | cons hab _ ih =>
    refine List.forall_mem_cons.mpr ⟨⟨_, List.mem_cons_self, hab⟩, fun a ha => ?_⟩
    obtain ⟨b, hb, hr⟩ := ih a ha
    exact ⟨b, List.mem_cons_of_mem _ hb, hr⟩

namespace TypeArena.Embeds

section

variable (h : Embeds f A B) (hi : A.Indexed) (hi' : B.Indexed)
include h hi hi'

theorem overrides_eq {a b : Method ι} {a' b' : Method κ} {as bs : Bindings} (ha : a.In A) (has : as.In A)
    (hb : b.In A) (hbs : bs.In A) (ha' : a.Renamed f a') (hb' : b.Renamed f b') :
    Overrides B (a', as.rename f) (b', bs.rename f) = Overrides A (a, as) (b, bs) := by
  have hgrow := instances_grows hi has ha
  have hgrow' := instances_grows hi' (h.rename_in has) (List.forall_mem_map.mpr fun x hx => h.lt (ha x hx))
  have hb₁ : ∀ x ∈ b.signature, x < (TypeArena.instances as a.signature A).2.size := fun x hx => hgrow.extension.lt (hb x hx)
  have hbs₁ : bs.In (TypeArena.instances as a.signature A).2 := hbs.grown hgrow.extension
  have hgrow₂ := instances_grows hgrow.indexed hbs₁ hb₁
  -- the renaming extends to what the first signature becomes, and then to what the second does
  obtain ⟨g, hg, hfirst, hembeds⟩ := h.instances hi hi' has ha
  have hgrow₂' := instances_grows hgrow'.indexed (hembeds.rename_in hbs₁)
    (List.forall_mem_map.mpr fun x hx => hembeds.lt (hb₁ x hx))
  obtain ⟨k, hk, hsecond, hembeds'⟩ := hembeds.instances hgrow.indexed hgrow'.indexed hbs₁ hb₁
  have hmap {ids : List TypeId} (hids : ∀ x ∈ ids, x < A.size) : ids.map g = ids.map f :=
    List.map_congr_left fun x hx => hg x (hids x hx)
  have hmap' {ids : List TypeId} (hids : ∀ x ∈ ids, x < A.size) : ids.map k = ids.map f :=
    (List.map_congr_left fun x hx => hk x (hgrow.extension.lt (hids x hx))).trans (hmap hids)
  have hfirst' : (TypeArena.instances as a.signature A).1.map k =
      (TypeArena.instances (as.rename f) (a.signature.map f) B).1 :=
    (List.map_congr_left fun x hx => hk x (hgrow.lt x hx)).trans hfirst
  rw [rename_congr hbs hg, hmap hb] at hsecond hembeds' hgrow₂'
  have hi₂ := hgrow₂.indexed.toOrdered
  have hi₂' := hgrow₂'.indexed.toOrdered
  have hlt : ∀ x ∈ (TypeArena.instances as a.signature A).1,
      x < (TypeArena.instances bs b.signature (TypeArena.instances as a.signature A).2).2.size :=
    fun x hx => hgrow₂.extension.lt (hgrow.lt x hx)
  have hext := hgrow.extension.trans hgrow₂.extension
  have hunify {p q : List TypeId} (hp : ∀ x ∈ p, x < A.size) (hq : ∀ x ∈ q, x < A.size) :
      (TypeArena.instances (bs.rename f) (b.signature.map f)
          (TypeArena.instances (as.rename f) (a.signature.map f) B).2).2.unifySignature? (p.map f) (q.map f) =
        ((TypeArena.instances bs b.signature (TypeArena.instances as a.signature A).2).2.unifySignature? p q).map
          (Bindings.rename k) := by
    rw [← hmap' hp, ← hmap' hq]
    exact hembeds'.unifySignature?_eq hi₂ hi₂' (fun x hx => hext.lt (hp x hx)) fun x hx => hext.lt (hq x hx)
  rw [Method.Renamed] at ha' hb'
  dsimp only [Overrides, Candidate.dominates]
  rw [ha', hb', hunify hb ha, hunify ha hb, ← hfirst', ← hsecond, hembeds'.areSubtypes_eq hi₂ hi₂' hlt hgrow₂.lt,
    hembeds'.areSubtypes_eq hi₂ hi₂' hgrow₂.lt hlt, Option.isSome_map, Option.isNone_map]

theorem wins_iff (hm : ∀ m ∈ methods, m.In A) (ha : ∀ x ∈ args, x < A.size)
    (hms : List.Forall₂ (Method.Renamed f) methods methods') {m : Method ι} {m' : Method κ} (hmem : m ∈ methods)
    (hmem' : m' ∈ methods') (hsig : m.Renamed f m') :
    (∃ bindings', Wins B methods' (args.map f) m' bindings') ↔ ∃ bindings, Wins A methods args m bindings := by
  have hunify {m : Method ι} {m' : Method κ} (hin : m.In A) (hsig : m.Renamed f m') :
      B.unifySignature? m'.signature (args.map f) = (A.unifySignature? m.signature args).map (Bindings.rename f) := by
    rw [hsig]
    exact h.unifySignature?_eq hi.toOrdered hi'.toOrdered hin ha
  have hin {m : Method ι} {bindings : Bindings} (hb : A.unifySignature? m.signature args = some bindings) :
      bindings.In A := unifySignature?_in hi.toOrdered ha hb
  have hother {m : Method ι} {m' : Method κ} {p : Method ι} {p' : Method κ} (hp : p ∈ methods) (hm' : m ∈ methods)
      (hsig : m.Renamed f m') (hsig' : p.Renamed f p') : p'.signature = m'.signature ↔ p.signature = m.signature := by
    rw [hsig, hsig']
    exact ⟨h.map_inj (hm p hp) (hm m hm'), congrArg (List.map f)⟩
  constructor
  · rintro ⟨bindings', hw⟩
    have hb := hw.unifies
    rw [hunify (hm m hmem) hsig] at hb
    obtain ⟨bindings, hb₀, rfl⟩ := Option.map_eq_some_iff.mp hb
    refine ⟨bindings, hmem, hb₀, fun p hp hne pb hpb => ?_⟩
    obtain ⟨p', hp', hpp⟩ := exists_of_forall₂ hms p hp
    have hover := hw.overrides p' hp' (fun heq => hne ((hother hp hmem hsig hpp).mp heq)) (pb.rename f)
      (by rw [hunify (hm p hp) hpp, hpb, Option.map_some])
    rwa [h.overrides_eq hi hi' (hm m hmem) (hin hb₀) (hm p hp) (hin hpb) hsig hpp] at hover
  · rintro ⟨bindings, hw⟩
    have hb := hw.unifies
    refine ⟨bindings.rename f, hmem', by rw [hunify (hm m hmem) hsig, hb, Option.map_some], fun p' hp' hne pb' hpb' => ?_⟩
    obtain ⟨p, hp, hpp⟩ := exists_of_forall₂ hms.flip p' hp'
    rw [hunify (hm p hp) hpp] at hpb'
    obtain ⟨pb, hpb, rfl⟩ := Option.map_eq_some_iff.mp hpb'
    rw [h.overrides_eq hi hi' (hm m hmem) (hin hb) (hm p hp) (hin hpb) hsig hpp]
    exact hw.overrides p hp (fun heq => hne ((hother hp hmem hsig hpp).mpr heq)) pb hpb

end

/-- A call of renamed methods is as good as the call of the methods. -/
theorem callable (h : Embeds f A B) (hi' : B.Indexed) (hc : Callable A args methods)
    (hms : List.Forall₂ (Method.Renamed f) methods methods') : Callable B (args.map f) methods' := by
  obtain ⟨hlen, hget⟩ := List.forall₂_iff_get.mp hms
  refine ⟨hi', List.forall_mem_map.mpr fun x hx => h.lt (hc.args_lt x hx), fun m' hm' => ?_,
    List.pairwise_iff_getElem.mpr fun i j hi hj hij => ?_⟩
  · obtain ⟨n, hn, rfl⟩ := List.getElem_of_mem hm'
    have hsig : (methods[n]).Renamed f methods'[n] := hget n (hlen ▸ hn) hn
    rw [Method.In, hsig]
    exact List.forall_mem_map.mpr fun x hx => h.lt (hc.methods_in _ (List.getElem_mem _) x hx)
  · have hsig : (methods[i]).Renamed f methods'[i] := hget i (hlen ▸ hi) hi
    have hsig' : (methods[j]).Renamed f methods'[j] := hget j (hlen ▸ hj) hj
    rw [hsig, hsig']
    exact fun heq => List.pairwise_iff_getElem.mp hc.distinct i j (hlen ▸ hi) (hlen ▸ hj) hij
      (h.map_inj (hc.methods_in _ (List.getElem_mem _)) (hc.methods_in _ (List.getElem_mem _)) heq)

/-- **A call resolves to the method at the same place after a renaming**, or to none. -/
theorem choose_index (h : Embeds f A B) (hi' : B.Indexed) (hc : Callable A args methods)
    (hms : List.Forall₂ (Method.Renamed f) methods methods') (name name' : String) :
    chosenIndex (choose name' methods' (args.map f) B).1 = chosenIndex (choose name methods args A).1 := by
  obtain ⟨hlen, hget⟩ := List.forall₂_iff_get.mp hms
  refine Option.ext fun i => ?_
  rw [(h.callable hi' hc hms).chosenIndex_iff, hc.chosenIndex_iff]
  by_cases hlt : i < methods.length
  · have hlt' : i < methods'.length := hlen ▸ hlt
    have hwins := h.wins_iff hc.indexed hi' hc.methods_in hc.args_lt hms (List.getElem_mem hlt) (List.getElem_mem hlt')
      (hget i hlt hlt')
    simp only [List.getElem?_eq_getElem hlt, List.getElem?_eq_getElem hlt', Option.some.injEq, exists_and_left,
      exists_eq_left']
    exact hwins
  · rw [List.getElem?_eq_none (Nat.le_of_not_lt hlt), List.getElem?_eq_none (hlen ▸ Nat.le_of_not_lt hlt)]
    simp

end TypeArena.Embeds

end

/-! ## Calls in the checker -/

variable {arena : TypeArena} {f : GenericFunction TypeId} {args : List TypeId} {c : Checker}

def FindingKind.ofCalls : List FindingKind := [.arity, .typeMismatch, .noMatchingMethod, .ambiguousCall]

theorem Callable.takes_of_chosen {ι : Type} {methods : List (Method ι)} (h : Callable arena args methods) {name : String}
    {r : Resolution ι} (hr : (choose name methods args arena).1 = .ok r) :
    r.method ∈ methods ∧ r.method.signature.length = args.length := by
  obtain ⟨-, hwins⟩ := ((h.choose_decides name).ok_iff h r).mp hr
  exact ⟨hwins.mem, length_of_matchAll hwins.unifies⟩

/-- The methods that take a number of arguments. -/
def GenericFunction.ofArity {ι : Type} (f : GenericFunction ι) (n : Nat) : List (Method ι) :=
  f.methods.filter (·.signature.length = n)

theorem GenericFunction.mem_ofArity {ι : Type} {f : GenericFunction ι} {n : Nat} {m : Method ι} :
    m ∈ f.ofArity n ↔ m ∈ f.methods ∧ m.signature.length = n := by
  rw [ofArity, List.mem_filter, decide_eq_true_iff]

namespace Check

/-- The method by which the checker types a call about whose arguments enough is known: if only one method takes as many
arguments and has no type variables, it is this one, provided that the arguments are of the types of its parameters, and
else it is the method that is chosen. -/
def selected (arena : TypeArena) (f : GenericFunction TypeId) (args : List TypeId) : Option (Resolution TypeId) :=
  match f.ofArity args.length with
  | [only] =>
    if only.typeVars.isEmpty then
      if arena.areSubtypes args only.signature then
        some ⟨f.methods.findIdx (·.signature.length = args.length), only, []⟩
      else none
    else (choose f.name f.methods args arena).1.toOption
  | _ => (choose f.name f.methods args arena).1.toOption

/-- The type of a call is the type of the result of a method, in which type variables have been replaced. -/
def Answers (arena : TypeArena) (r : Resolution TypeId) (type : TypeId) : Prop :=
  type = resultOf arena r.method.implementation ∨ ∃ later, arena.Extends later ∧
    let result := later.substitute r.bindings (resultOf later r.method.implementation)
    type = withoutVars result.2 result.1

/-! ## Arguments that are checked one by one -/

theorem checkArguments_cons (function : String) (position : Nat) (actual expected : TypeId) (span : Span)
    (args : List (TypeId × Span)) (params : List TypeId) (c : Checker) :
    checkArguments function position ((actual, span) :: args) (expected :: params) c =
      checkArguments function (position + 1) args params
        (if compatible c.arena actual expected then c
        else (report (.mismatch (.argument position function) (c.arena.name expected) (c.arena.name actual)) span c).2) := by
  rw [checkArguments]
  change (if (!compatible c.arena actual expected) = true then
      report _ _ >>= fun _ => checkArguments function (position + 1) args params
    else checkArguments function (position + 1) args params : Check Unit) c = _
  cases compatible c.arena actual expected <;> rfl

/-- If enough is known about the arguments, nothing is found exactly if they are of the types of the parameters. What is
found is that an argument is of another type. -/
theorem checkArguments_findings (function : String) (position : Nat) {args : List (TypeId × Span)} {params : List TypeId}
    (hknown : ∀ id ∈ args.map Prod.fst, isKnown c.arena id = true) (hlength : params.length = args.length) :
    ∃ new, checkArguments function position args params c = ((), { c with findings := new ++ c.findings }) ∧
      (∀ finding ∈ new, finding.kind = .typeMismatch) ∧
      (new = [] ↔ c.arena.areSubtypes (args.map Prod.fst) params = true) := by
  induction args generalizing position params c with
  | nil =>
    obtain rfl := List.length_eq_zero_iff.mp hlength
    exact ⟨[], rfl, List.forall_mem_nil _, iff_of_true rfl rfl⟩
  | cons arg args ih =>
    obtain ⟨actual, span⟩ := arg
    cases params with
    | nil => cases hlength
    | cons expected params =>
      obtain ⟨hfirst, hrest⟩ := List.forall_mem_cons.mp hknown
      have hlength := Nat.succ.inj hlength
      have hcompatible : compatible c.arena actual expected = c.arena.isSubtype actual expected := by
        rw [compatible, hfirst]
        rfl
      rw [checkArguments_cons, hcompatible, List.map_cons, areSubtypes]
      cases c.arena.isSubtype actual expected with
      | true => exact ih (position + 1) hrest hlength
      | false =>
        let finding : Finding :=
          ⟨.mismatch (.argument position function) (c.arena.name expected) (c.arena.name actual), span⟩
        obtain ⟨new, hrun, hkinds, -⟩ :=
          ih (position + 1) (c := { c with findings := finding :: c.findings }) hrest hlength
        refine ⟨new ++ [finding], hrun.trans ?_, List.forall_mem_append.mpr ⟨hkinds, List.forall_mem_singleton.mpr rfl⟩,
          iff_of_false (List.append_ne_nil_of_right_ne_nil _ (List.cons_ne_nil _ _)) Bool.false_ne_true⟩
        rw [List.append_assoc]
        rfl

/-! ## Calls -/

section

variable {args : List (TypeId × Span)}

theorem callType_eq (hknown : ∀ id ∈ args.map Prod.fst, isKnown c.arena id = true) (span : Span) :
    callType f args span c =
      (match f.ofArity args.length with
      | [] => do
        report (arityCause f args.length) span
        return .any
      | [only] =>
        if only.typeVars.isEmpty then do
          checkArguments f.name 1 args only.signature
          return resultOf c.arena only.implementation
        else resolvedType f (args.map Prod.fst) span
      | _ => resolvedType f (args.map Prod.fst) span : Check TypeId) c := by
  have hall : (args.map Prod.fst).all (isKnown c.arena) = true := List.all_eq_true.mpr hknown
  have hget : (MonadState.get : Check Checker) c = (c, c) := rfl
  rw [callType, bind_run, hget]
  simp only [if_pos hall]
  rfl

/-- What typing a call comes to: either it is typed by a method and nothing is found, or it is reported. -/
structure Settled (c : Checker) (selection : Option (Resolution TypeId)) (out : TypeId × Checker) (new : List Finding) :
    Prop where
  findings : out.2.findings = new ++ c.findings
  kinds : ∀ finding ∈ new, finding.kind ∈ FindingKind.ofCalls
  clean : new = [] ↔ selection.isSome = true
  answers : ∀ r, selection = some r → Answers c.arena r out.1

theorem Settled.unselected {out : TypeId × Checker} {new : List Finding} (hfindings : out.2.findings = new ++ c.findings)
    (hkinds : ∀ finding ∈ new, finding.kind ∈ FindingKind.ofCalls) (hne : new ≠ []) : Settled c none out new :=
  ⟨hfindings, hkinds, iff_of_false hne Bool.false_ne_true, fun r hr => absurd hr.symm (Option.some_ne_none r)⟩

/-- A call that is typed by a method and not reported. -/
theorem Settled.of_selected {out : TypeId × Checker} {r : Resolution TypeId} (hfindings : out.2.findings = c.findings)
    (h : Answers c.arena r out.1) : Settled c (some r) out [] :=
  ⟨hfindings, List.forall_mem_nil _, iff_of_true rfl rfl, fun _ hr => Option.some.inj hr ▸ h⟩

/-- A call is reported if there is no method by which it could be typed. -/
theorem Settled.reported_iff {selection : Option (Resolution TypeId)} {out : TypeId × Checker} {new : List Finding}
    (h : Settled c selection out new) : (∃ finding ∈ new, finding.kind ∈ FindingKind.ofCalls) ↔ selection = none := by
  rw [← Option.not_isSome_iff_eq_none, ← h.clean]
  constructor
  · rintro ⟨finding, hfinding, -⟩ rfl
    cases hfinding
  · intro hne
    obtain ⟨finding, hfinding⟩ := List.exists_mem_of_ne_nil new hne
    exact ⟨finding, hfinding, h.kinds finding hfinding⟩

theorem resolvedType_settled {types : List TypeId} (h : Callable c.arena types f.methods) (span : Span) :
    ∃ new, Settled c (choose f.name f.methods types c.arena).1.toOption (resolvedType f types span c) new := by
  have hext := (CallIn.choose_grows ⟨h.indexed, h.args_lt, h.methods_in⟩ f.name).1
  have hrun : modifyTypes (choose f.name f.methods types) c =
      ((choose f.name f.methods types c.arena).1, { c with arena := (choose f.name f.methods types c.arena).2 }) := rfl
  rw [resolvedType, bind_run, hrun]
  generalize choose f.name f.methods types c.arena = out at hext ⊢
  obtain ⟨result, later⟩ := out
  cases result with
  | error e =>
    refine ⟨[⟨.unresolved e, span⟩], .unselected rfl (List.forall_mem_singleton.mpr ?_) (List.cons_ne_nil _ _)⟩
    cases e with
    | ambiguous _ _ _ => exact (by decide : FindingKind.ambiguousCall ∈ FindingKind.ofCalls)
    | _ => exact (by decide : FindingKind.noMatchingMethod ∈ FindingKind.ofCalls)
  | ok r => exact ⟨[], .of_selected rfl (.inr ⟨later, hext, rfl⟩)⟩

/-- **The checker types a call by the method that it selects**, and reports the call if there is none. -/
theorem callType_settled (h : Callable c.arena (args.map Prod.fst) f.methods)
    (hknown : ∀ id ∈ args.map Prod.fst, isKnown c.arena id = true) (span : Span) :
    ∃ new, Settled c (selected c.arena f (args.map Prod.fst)) (callType f args span c) new := by
  have hchoice := resolvedType_settled h span
  rw [callType_eq hknown, selected, List.length_map]
  rcases htakes : f.ofArity args.length with _ | ⟨only, _ | ⟨second, rest⟩⟩
  · -- no method takes as many arguments
    have hnone : (choose f.name f.methods (args.map Prod.fst) c.arena).1.toOption = none := by
      cases hresult : (choose f.name f.methods (args.map Prod.fst) c.arena).1 with
      | error e => rfl
      | ok r =>
        obtain ⟨hmem, hlength⟩ := h.takes_of_chosen hresult
        have hmem' := GenericFunction.mem_ofArity.mpr ⟨hmem, hlength.trans (List.length_map _)⟩
        rw [htakes] at hmem'
        cases hmem'
    rw [hnone]
    refine ⟨[⟨arityCause f args.length, span⟩], .unselected rfl (List.forall_mem_singleton.mpr ?_) (List.cons_ne_nil _ _)⟩
    have hkind : (arityCause f args.length).kind = .arity := by
      rw [arityCause]
      split
      · rfl
      · split <;> rfl
    rw [Finding.kind, hkind]
    decide
  · dsimp only
    split
    · have honly : only.signature.length = args.length :=
        (GenericFunction.mem_ofArity.mp (htakes ▸ List.mem_singleton_self only)).2
      obtain ⟨new, hrun, hkinds, hclean⟩ := checkArguments_findings f.name 1 hknown honly
      rw [bind_run, hrun]
      split
      · next hsub =>
        obtain rfl := hclean.mpr hsub
        exact ⟨[], .of_selected rfl (.inl rfl)⟩
      · next hsub =>
        refine ⟨new, .unselected rfl (fun finding hfinding => ?_) fun hnil => hsub (hclean.mp hnil)⟩
        rw [hkinds finding hfinding]
        decide
    · exact hchoice
  · exact hchoice

end

/-! ## Both ways lead to the same method -/

section

variable {only : Method TypeId} (honly : f.ofArity args.length = [only])
include honly

/-- If only one method takes as many arguments, no other one matches. -/
theorem eq_only {m : Method TypeId} (hm : m ∈ f.methods) {bindings : Bindings}
    (hb : arena.unifySignature? m.signature args = some bindings) : m = only := by
  have hmem := GenericFunction.mem_ofArity.mpr ⟨hm, length_of_matchAll hb⟩
  rw [honly] at hmem
  exact List.mem_singleton.mp hmem

/-- If this method has no type variables, it wins a call exactly if the arguments are of the types of its parameters. -/
theorem wins_only (hplain : ∀ p ∈ only.signature, arena.hasVars p = false) {m : Method TypeId} :
    (∃ bindings, Wins arena f.methods args m bindings) ↔ m = only ∧ arena.areSubtypes args only.signature = true := by
  have hunifies : arena.unifySignature? only.signature args =
      if arena.areSubtypes args only.signature then some [] else none := unifySignature?_of_plain hplain
  constructor
  · rintro ⟨bindings, hwins⟩
    obtain rfl := eq_only honly hwins.mem hwins.unifies
    refine ⟨rfl, ?_⟩
    have hb := hwins.unifies
    rw [hunifies] at hb
    split at hb
    · next hsub => exact hsub
    · cases hb
  · rintro ⟨rfl, hsub⟩
    refine ⟨[], (GenericFunction.mem_ofArity.mp (honly ▸ List.mem_singleton_self m)).1, by rw [hunifies, if_pos hsub],
      fun m' hm' hne bindings' hb' => absurd ?_ hne⟩
    rw [eq_only honly hm' hb']

/-- This method stands at the first place at which as many arguments are taken. -/
theorem getElem?_only (h : Callable arena args f.methods) (i : Nat) :
    f.methods[i]? = some only ↔ f.methods.findIdx (·.signature.length = args.length) = i := by
  obtain ⟨hmem, hlength⟩ := GenericFunction.mem_ofArity.mp (honly ▸ List.mem_singleton_self only)
  have hlt : f.methods.findIdx (·.signature.length = args.length) < f.methods.length :=
    List.findIdx_lt_length.mpr ⟨only, hmem, decide_eq_true hlength⟩
  have hfound : f.methods[f.methods.findIdx (·.signature.length = args.length)]? = some only := by
    have htakes := List.findIdx_getElem (w := hlt)
    rw [List.getElem?_eq_getElem hlt, Option.some.injEq]
    have hmem' := GenericFunction.mem_ofArity.mpr ⟨List.getElem_mem hlt, of_decide_eq_true htakes⟩
    rw [honly] at hmem'
    exact List.mem_singleton.mp hmem'
  exact ⟨fun hi => h.index_eq hfound hi rfl, fun heq => heq ▸ hfound⟩

end

/-- **The checker types a call by the method that is chosen**, on whichever way it gets there. -/
theorem selected_index (h : Callable arena args f.methods)
    (hplain : ∀ m ∈ f.methods, m.typeVars = [] → ∀ p ∈ m.signature, arena.hasVars p = false) :
    (selected arena f args).map Resolution.index = chosenIndex (choose f.name f.methods args arena).1 := by
  rw [selected]
  split
  · next only honly =>
    split
    · next hnone =>
      have hmem := (GenericFunction.mem_ofArity.mp (honly ▸ List.mem_singleton_self only)).1
      have hwins {m : Method TypeId} := wins_only honly (m := m) (hplain only hmem (List.isEmpty_iff.mp hnone))
      refine Option.ext fun i => ?_
      rw [h.chosenIndex_iff]
      have hiff : (∃ m bindings, f.methods[i]? = some m ∧ Wins arena f.methods args m bindings) ↔
          f.methods[i]? = some only ∧ arena.areSubtypes args only.signature = true := by
        constructor
        · rintro ⟨m, bindings, hi, hw⟩
          obtain ⟨rfl, hsub⟩ := hwins.mp ⟨bindings, hw⟩
          exact ⟨hi, hsub⟩
        · rintro ⟨hi, hsub⟩
          obtain ⟨bindings, hw⟩ := hwins.mpr ⟨rfl, hsub⟩
          exact ⟨only, bindings, hi, hw⟩
      rw [hiff, getElem?_only honly h]
      cases arena.areSubtypes args only.signature <;> simp
    · rfl
  · rfl

theorem getElem?_selected (h : Callable arena args f.methods) {r : Resolution TypeId}
    (hr : selected arena f args = some r) : f.methods[r.index]? = some r.method := by
  have hchosen (hr : (choose f.name f.methods args arena).1.toOption = some r) : f.methods[r.index]? = some r.method := by
    cases hresult : (choose f.name f.methods args arena).1 with
    | error e =>
      rw [hresult] at hr
      cases hr
    | ok r' =>
      rw [hresult] at hr
      cases hr
      exact (((h.choose_decides f.name).ok_iff h r).mp hresult).1
  rw [selected] at hr
  split at hr
  · next only honly =>
    split at hr
    · split at hr
      · cases hr
        exact (getElem?_only honly h _).mpr rfl
      · cases hr
    · exact hchosen hr
  · exact hchosen hr

end Check

end DispatchLang
