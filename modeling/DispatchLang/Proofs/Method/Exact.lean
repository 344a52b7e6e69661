import DispatchLang.Proofs.Arena.Instances
import DispatchLang.Proofs.Method.Memory

/-!
# Methods for exactly the types of the arguments

A call may have arguments of exactly the types that a method is declared for. One would expect such a method to be chosen
whatever other methods there are. It is, unless another matching method *rivals* it, and there are two ways to do so.

Types may be below each other without being the same: two structs with the same fields, say. If all types of another
signature are below those of the arguments and the other way round, no method is more specific and the call is ambiguous.

And what a signature becomes in the call need not be above the arguments, if a function type in it mentions a type
variable that another parameter binds. Then the other method may even be the more specific one. If no function type in
another signature mentions type variables, this cannot happen, and the call either chooses the exact method or is ambiguous.

## Main definitions

* `Rivals`: a matching method keeps a method for exactly the types of the arguments from being chosen.

## Main results

* `GenericFunction.resolve_exact`: when a method for exactly the types of the arguments is chosen.
* `GenericFunction.exact_not_chosen`: it need not be.
-/

namespace DispatchLang

open TypeArena

variable {ι : Type} {arena : TypeArena} {args signature : List TypeId} {methods : List (Method ι)} {m m' : Method ι}
  {bindings : Bindings}

/-! ## Comparing types one by one -/

namespace TypeArena

theorem areSubtypes_iff {children parents : List TypeId} :
    arena.areSubtypes children parents = true ↔
      List.Forall₂ (fun child parent => arena.isSubtype child parent = true) children parents := by
  induction children generalizing parents with
  | nil =>
    cases parents with
    | nil => exact iff_of_true rfl .nil
    | cons parent parents => exact iff_of_false Bool.false_ne_true (nomatch ·)
  | cons child children ih =>
    cases parents with
    | nil => exact iff_of_false Bool.false_ne_true (nomatch ·)
    | cons parent parents => rw [areSubtypes, Bool.and_eq_true, List.forall₂_cons, ih]

theorem Ordered.areSubtypes_refl (h : arena.Ordered) (ha : ∀ x ∈ args, x < arena.size) :
    arena.areSubtypes args args = true :=
  areSubtypes_iff.mpr (List.forall₂_same.mpr fun x hx => (h.isSubtype_iff_below (ha x hx) (ha x hx)).mpr (.refl x))

/-- A type without variables matches what is below it, and binds nothing. -/
theorem unify?_of_plain {param arg : TypeId} (hv : arena.hasVars param = false) :
    arena.unify? bindings param arg = if arena.isSubtype arg param then some bindings else none := by
  have hvar := isVar_of_hasVars hv
  rw [unify?]
  cases hk : (arena.get param).kind with
  | var constraint => rw [hk] at hvar; cases hvar
  | applied base params =>
    dsimp only
    rw [hv]
    rfl
  | _ => rfl

/-- Types without variables match what is below them one by one, and bind nothing. -/
theorem unifySignature?_of_plain (hv : ∀ p ∈ args, arena.hasVars p = false) :
    arena.unifySignature? args signature = if arena.areSubtypes signature args then some [] else none := by
  rw [unifySignature?]
  generalize ([] : Bindings) = bindings
  induction args generalizing signature with
  | nil => cases signature <;> rfl
  | cons p args ih =>
    obtain ⟨hp, hvs⟩ := List.forall_mem_cons.mp hv
    cases signature with
    | nil => rfl
    | cons x signature =>
      rw [matchAll, areSubtypes, unify?_of_plain hp]
      cases arena.isSubtype x p with
      | false => rfl
      | true => exact ih hvs

end TypeArena

/-! ## Rivals -/

/-- A method that matches a call keeps the method for exactly the types of the arguments from being chosen: its types, with
their variables replaced, are not all above those of the arguments, or they are all below, and so are its declared types. -/
def Rivals (arena : TypeArena) (args : List TypeId) (m' : Method ι) (bindings : Bindings) : Prop :=
  (instances bindings m'.signature arena).2.areSubtypes args (instances bindings m'.signature arena).1 = false ∨
    (instances bindings m'.signature arena).2.areSubtypes (instances bindings m'.signature arena).1 args = true ∧
      arena.areSubtypes m'.signature args = true

section

variable (h : arena.Regular) (ha : ∀ x ∈ args, x < arena.size ∧ arena.hasVars x = false)
include h ha

theorem unifySignature?_exact : arena.unifySignature? args args = some [] := by
  rw [unifySignature?_of_plain fun p hp => (ha p hp).2, if_pos]
  exact h.indexed.toOrdered.areSubtypes_refl fun x hx => (ha x hx).1

/-- The exact method overrides the matching methods that are no rivals. -/
theorem overrides_exact (hm : m.signature = args) (hm' : m'.In arena)
    (hu : arena.unifySignature? m'.signature args = some bindings) :
    Overrides arena (m, []) (m', bindings) = true ↔ ¬Rivals arena args m' bindings := by
  have hi := h.indexed
  have harg : ∀ x ∈ args, x < arena.size := fun x hx => (ha x hx).1
  have hgrow := instances_grows hi (unifySignature?_in hi.toOrdered harg hu) hm'
  have hback := hgrow.extension.unifySignature?_eq hi.toOrdered hgrow.indexed.toOrdered hm' harg
  have hforth := hgrow.extension.unifySignature?_eq hi.toOrdered hgrow.indexed.toOrdered harg hm'
  rw [hu] at hback
  rw [unifySignature?_of_plain fun p hp => (ha p hp).2] at hforth
  rw [Overrides, Rivals]
  dsimp only [Candidate.dominates]
  rw [hm, h.instances_of_plain ha]
  dsimp only
  rw [hback, hforth]
  cases (instances bindings m'.signature arena).2.areSubtypes args (instances bindings m'.signature arena).1 <;>
    cases (instances bindings m'.signature arena).2.areSubtypes (instances bindings m'.signature arena).1 args <;>
    cases arena.areSubtypes m'.signature args <;> simp

/-- A firm method that matches a call is no rival, unless all its types are below those of the arguments, both as they
are declared and with their variables replaced. -/
theorem rivals_iff_of_firm (hm' : ∀ p ∈ m'.signature, p < arena.size ∧ arena.Firm p)
    (hu : arena.unifySignature? m'.signature args = some bindings) :
    ∃ images, instances bindings m'.signature arena = (images, arena) ∧
      List.Forall₂ (fun p image => arena.substitute bindings p = (image, arena)) m'.signature images ∧
      List.Forall₂ (fun arg image => image < arena.size ∧ arena.isSubtype arg image = true) args images ∧
      (Rivals arena args m' bindings ↔
        arena.areSubtypes images args = true ∧ arena.areSubtypes m'.signature args = true) := by
  obtain ⟨images, himages, hsubst, habove⟩ := h.instances_above hm' (fun x hx => (ha x hx).1) hu
  have hbelow : arena.areSubtypes args images = true := areSubtypes_iff.mpr (habove.imp fun _ _ hx => hx.2)
  refine ⟨images, himages, hsubst, habove, ?_⟩
  rw [Rivals, himages]
  dsimp only
  rw [hbelow, or_iff_right Bool.true_eq_false.mp]

end

/-! ## Resolving a call -/

namespace GenericFunction

variable {f : GenericFunction ι} {k : Nat}

/-- A call is not remembered, or what is remembered is right. -/
def Trusts (f : GenericFunction ι) (args : List TypeId) (arena : TypeArena) : Prop :=
  f.remembers = false ∨ f.cache.lookup args = none ∨ f.Recalls arena

theorem Trusts.result_eq (h : f.Trusts args arena) :
    (f.resolve args arena).result = (choose f.name f.methods args arena).1 := by
  rcases h with h | h | h
  · exact resolve_result (.inl h)
  · exact resolve_result (.inr h)
  · exact (h.resolve_eq_choose args).1

def Settled (arena : TypeArena) (args : List TypeId) : Prop :=
  ∀ arg ∈ args, arg ≠ .any ∧
    ∀ x < arena.size, arena.isSubtype x arg = true → arena.isSubtype arg x = true → x = arg

section

variable (h : arena.Regular) (ha : ∀ x ∈ args, x < arena.size ∧ arena.hasVars x = false)
include h ha

/-- A firm method for other types than those of the arguments is no rival, if no other types are as specific. -/
theorem not_rivals_of_settled (hs : Settled arena args) (hm' : ∀ p ∈ m'.signature, p < arena.size ∧ arena.Firm p)
    (hne : m'.signature ≠ args) (hu : arena.unifySignature? m'.signature args = some bindings) :
    ¬Rivals arena args m' bindings := by
  obtain ⟨images, -, hsubst, habove, hiff⟩ := rivals_iff_of_firm h ha hm' hu
  rw [hiff, areSubtypes_iff, areSubtypes_iff]
  rintro ⟨hbelow, hdeclared⟩
  refine hne ?_
  clear hiff hu hne
  generalize m'.signature = signature at hm' hsubst hdeclared ⊢
  induction habove generalizing signature with
  | nil =>
    cases hdeclared
    rfl
  | cons harg _ ih =>
    cases hdeclared with
    | cons hp hps =>
      cases hsubst with
      | cons hsub hsubs =>
        cases hbelow with
        | cons hb hbs =>
          obtain ⟨hplain, hplains⟩ := List.forall_mem_cons.mp ha
          obtain ⟨⟨hany, hone⟩, hrest⟩ := List.forall_mem_cons.mp hs
          obtain ⟨hin, hins⟩ := List.forall_mem_cons.mp hm'
          obtain rfl := hone _ harg.1 hb harg.2
          rw [h.eq_of_image hin.1 hplain.1 hin.2 hsub hplain.2 hany hp, ih hplains hrest hbs _ hins hsubs hps]

theorem signature_of_wins (hm : m ∈ f.methods) (hexact : m.signature = args)
    (hfirm : ∀ m' ∈ f.methods, m'.signature ≠ args → ∀ p ∈ m'.signature, p < arena.size ∧ arena.Firm p)
    (hw : Wins arena f.methods args m' bindings) : m'.signature = args := by
  by_contra hne
  obtain ⟨images, himages, -, habove, -⟩ := rivals_iff_of_firm h ha (hfirm m' hw.mem hne) hw.unifies
  have hover := hw.overrides m hm (fun heq => hne (heq.symm.trans hexact)) []
    (by rw [hexact]; exact unifySignature?_exact h ha)
  -- What the other signature becomes is above the arguments, so it would have to match less.
  have hbelow : arena.areSubtypes args images = true := areSubtypes_iff.mpr (habove.imp fun _ _ hx => hx.2)
  rw [Overrides] at hover
  dsimp only [Candidate.dominates] at hover
  rw [himages] at hover
  dsimp only at hover
  rw [hexact, h.instances_of_plain ha] at hover
  dsimp only at hover
  rw [hbelow, hw.unifies] at hover
  simp at hover

end

/-- Called with exactly the types that one of its methods is declared for, a function chooses that method unless another
matching one is its rival. It chooses no other one if those that are declared for other types are firm; and it does choose
it if, besides, no other types are as specific as those of the arguments. -/
theorem resolve_exact (h : arena.Regular) (ha : ∀ x ∈ args, x < arena.size ∧ arena.hasVars x = false)
    (hm : ∀ m ∈ f.methods, ∀ x ∈ m.signature, x < arena.size)
    (hd : f.methods.Pairwise fun m m' => m.signature ≠ m'.signature) (hf : f.Trusts args arena)
    (hk : f.methods[k]? = some m) (hexact : m.signature = args) :
    ((f.resolve args arena).result = .ok ⟨k, m, []⟩ ↔
      ∀ m' ∈ f.methods, m'.signature ≠ args → ∀ bindings, arena.unifySignature? m'.signature args = some bindings →
        ¬Rivals arena args m' bindings) ∧
    ((∀ m' ∈ f.methods, m'.signature ≠ args → ∀ p ∈ m'.signature, arena.Firm p) →
      ((f.resolve args arena).result = .ok ⟨k, m, []⟩ ∨
        ∃ named, (f.resolve args arena).result = .error (.ambiguous f.name (arena.names args) named)) ∧
      (Settled arena args → (f.resolve args arena).result = .ok ⟨k, m, []⟩)) := by
  have hmem := List.mem_of_getElem? hk
  have hcall : Callable arena args f.methods := ⟨h.indexed, fun x hx => (ha x hx).1, hm, hd⟩
  have hdec := hcall.choose_decides f.name
  have hunify : arena.unifySignature? m.signature args = some [] := by
    rw [hexact]
    exact unifySignature?_exact h ha
  have hiff : (f.resolve args arena).result = .ok ⟨k, m, []⟩ ↔
      ∀ m' ∈ f.methods, m'.signature ≠ args → ∀ bindings,
        arena.unifySignature? m'.signature args = some bindings → ¬Rivals arena args m' bindings := by
    rw [hf.result_eq, hdec.ok_iff hcall, and_iff_right hk]
    constructor
    · intro hw m' hmem' hne bindings hu
      exact (overrides_exact h ha hexact (hm m' hmem') hu).mp (hw.overrides m' hmem' (hexact ▸ hne) bindings hu)
    · intro hall
      refine ⟨hmem, hunify, fun m' hmem' hne bindings hu => ?_⟩
      exact (overrides_exact h ha hexact (hm m' hmem') hu).mpr (hall m' hmem' (hexact ▸ hne) bindings hu)
  refine ⟨hiff, fun hfirm => ?_⟩
  have hfirm : ∀ m' ∈ f.methods, m'.signature ≠ args → ∀ p ∈ m'.signature, p < arena.size ∧ arena.Firm p :=
    fun m' hmem' hne p hp => ⟨hm m' hmem' p hp, hfirm m' hmem' hne p hp⟩
  refine ⟨?_, fun hs => hiff.mpr fun m' hmem' hne bindings hu =>
    not_rivals_of_settled h ha hs (hfirm m' hmem' hne) hne hu⟩
  rw [hf.result_eq]
  generalize (choose f.name f.methods args arena).1 = result at hdec
  cases hdec with
  | noMethod hno =>
    have hnone := hno m hmem
    rw [hunify] at hnone
    cases hnone
  | ambiguous _ _ => exact .inr ⟨_, rfl⟩
  | method r hr hw =>
    have hsame := signature_of_wins h ha hmem hexact hfirm hw
    obtain ⟨index, method, bindings⟩ := r
    obtain rfl := hcall.index_eq hk hr (hexact.trans hsame.symm)
    obtain rfl := Option.some.inj (hk.symm.trans hr)
    have hbindings := hw.unifies
    rw [hunify] at hbindings
    cases hbindings
    exact .inl rfl

/-- A struct, its arrays and functions on it, and a type variable with its arrays. -/
def kennel : TypeArena :=
  (((((TypeArena.initial.var "T" .any).2.applied .array [12]).2.add
    ⟨"Dog", .struct [] [("name", .string)], some .any⟩).2.applied .array [14]).2.function [14] .string).2

theorem kennel_regular : kennel.Regular :=
  .function _ _ (.applied _ _ (.add _ (.applied _ _ (.var _ _ .initial (by decide)) (by decide) (by decide)) rfl
    (by decide)) (by decide) (by decide)) (by decide) (by decide)

/-- A function that shows things in other ways if it is given an array of dogs and a function on dogs. -/
def showing : GenericFunction String :=
  ⟨"show", [⟨[12], [12, .function], "anything"⟩, ⟨[12], [13, .any], "an array"⟩, ⟨[], [15, 16], "dogs"⟩], [], false⟩

theorem showing_dogs :
    showing.methods[2]? = some ⟨[], [15, 16], "dogs"⟩ ∧ Settled kennel [15, 16] ∧
      (showing.resolve [15, 16] kennel).result = .ok ⟨2, ⟨[], [15, 16], "dogs"⟩, []⟩ := by
  have hs : Settled kennel [15, 16] := by
    unfold Settled
    decide
  have hfirm : ∀ m' ∈ showing.methods, m'.signature ≠ [15, 16] → ∀ p ∈ m'.signature, kennel.Firm p := by
    unfold Firm
    decide
  have hplain : ∀ x ∈ [15, 16], x < kennel.size ∧ kennel.hasVars x = false := by decide
  have hin : ∀ m ∈ showing.methods, ∀ x ∈ m.signature, x < kennel.size := by decide
  have hdistinct : showing.methods.Pairwise fun m m' => m.signature ≠ m'.signature := by decide
  exact ⟨rfl, hs, ((resolve_exact kennel_regular hplain hin hdistinct (.inl rfl) rfl rfl).2 hfirm).2 hs⟩

/-! ## Rivals that are not overridden -/

/-- Two structs with the same field. -/
def twins : TypeArena :=
  ((TypeArena.initial.add ⟨"Left", .struct [] [("x", .int)], some .any⟩).2.add
    ⟨"Right", .struct [] [("x", .int)], some .any⟩).2

/-- A type of numbers, and functions that give one of them, any number, or an integer. -/
def givers : TypeArena :=
  (((TypeArena.initial.var "T" .number).2.function [] 12).2.function [] .number).2

/-- A function with a method for each of the two structs. -/
def telling : GenericFunction String := ⟨"tell", [⟨[], [12], "left"⟩, ⟨[], [13], "right"⟩], [], false⟩

/-- A function with a method for an integer and a function that gives numbers, and one for a number and a function that
gives numbers of the same type. -/
def taking : GenericFunction String :=
  ⟨"take", [⟨[], [TypeId.int, 14], "exact"⟩, ⟨[12], [12, 13], "same"⟩], [], false⟩

/-- Of two methods for structs with the same fields neither is chosen for one of them. And a method for an integer and
a function that gives numbers is not chosen for just these, as the other method is more specific: in the call it is one
for an integer and a function that gives integers. -/
theorem exact_not_chosen :
    (twins.Regular ∧ (∀ x ∈ [12], x < twins.size ∧ x ≠ TypeId.any ∧ twins.hasVars x = false) ∧
      telling.methods[0]? = some ⟨[], [12], "left"⟩ ∧ (telling.resolve [12] twins).result.isOk = false) ∧
    givers.Regular ∧ (∀ x ∈ [TypeId.int, 14], x < givers.size ∧ x ≠ TypeId.any ∧ givers.hasVars x = false) ∧
      taking.methods[0]? = some ⟨[], [TypeId.int, 14], "exact"⟩ ∧
      (taking.resolve [TypeId.int, 14] givers).result.toOption.map Resolution.index = some 1 := by
  have htwins : twins.Regular := .add _ (.add _ .initial rfl (by decide)) rfl (by decide)
  have hgivers : givers.Regular :=
    .function _ _ (.function _ _ (.var _ _ .initial (by decide)) (by decide) (by decide)) (by decide) (by decide)
  exact ⟨⟨htwins, by decide, rfl, by decide⟩, hgivers, by decide, rfl, by decide⟩

end GenericFunction

end DispatchLang
