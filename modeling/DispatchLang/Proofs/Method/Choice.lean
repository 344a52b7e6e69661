import DispatchLang.Method.Resolve
import DispatchLang.Proofs.Arena.Matching

/-!
# Which method a call resolves to

A call picks, of the methods whose signatures match, the one that overrides all others. Whether one method
overrides another is decided while the signatures of all matching methods are instantiated in turn, and
every instantiation may add types to the arena. `Overrides` is what this decision comes down to: only the
two methods at hand are instantiated, in the arena the call began with. It is the same decision because
instantiating again changes nothing (`instances_again`), and because the arena in which only two
signatures are instantiated is found, under other indices, in the one in which all are
(`Embeds.instances`).

Stated with `Overrides`, what a call resolves to does not mention the order of the methods any more. That
there is at most one method that overrides all others only needs that no two methods override each other:
the relation is not transitive.

## Main results

* `choose_decides`: a call without a matching method fails as such, a call with a method that overrides
  all other matching ones resolves to it, and any other call is ambiguous.
* `resolve_spec`: the same for a call that is not remembered, and the outcome does not depend on the order in
  which the methods were added.
-/

namespace DispatchLang

open TypeArena

variable {ι : Type} {arena arena' : TypeArena} {args : List TypeId} {methods : List (Method ι)}

/-! ## Methods that match, and methods that override others -/

/-- The methods that match a call, with what their variables stand for. -/
def matching (arena : TypeArena) (args : List TypeId) (methods : List (Method ι)) :
    List (Method ι × Bindings) :=
  methods.filterMap fun m => (arena.unifySignature? m.signature args).map fun b => (m, b)

/-- Whether a matching method is more specific than another one, in an arena where the signatures of just
these two have been instantiated. -/
def Overrides (arena : TypeArena) (a b : Method ι × Bindings) : Bool :=
  let as := instances a.2 a.1.signature arena
  let bs := instances b.2 b.1.signature as.2
  Candidate.dominates bs.2 ⟨⟨0, a.1, a.2⟩, as.1⟩ ⟨⟨0, b.1, b.2⟩, bs.1⟩

/-- A matching method wins a call if it overrides all other matching ones. -/
structure Wins (arena : TypeArena) (methods : List (Method ι)) (args : List TypeId) (m : Method ι)
    (bindings : Bindings) : Prop where
  mem : m ∈ methods
  unifies : arena.unifySignature? m.signature args = some bindings
  overrides : ∀ m' ∈ methods, m'.signature ≠ m.signature → ∀ bindings',
    arena.unifySignature? m'.signature args = some bindings' →
      Overrides arena (m, bindings) (m', bindings') = true

/-- The methods an ambiguous call is reported with: the matching ones that no other one overrides, or all
matching ones if that leaves fewer than two. -/
def reported (arena : TypeArena) (args : List TypeId) (methods : List (Method ι)) :
    List (Method ι × Bindings) :=
  let all := matching arena args methods
  let best := all.filter fun c => all.all fun other => !Overrides arena other c
  if best.length < 2 then all else best

def Method.shown (arena : TypeArena) (m : Method ι) : String :=
  "(" ++ ", ".intercalate (arena.names m.signature) ++ ")"

/-- What a call decides, without regard to how it is decided. -/
inductive Decides (arena : TypeArena) (name : String) (methods : List (Method ι))
    (args : List TypeId) : Except DispatchError (Resolution ι) → Prop where
  /-- No signature matches. -/
  | noMethod (h : ∀ m ∈ methods, arena.unifySignature? m.signature args = none) :
      Decides arena name methods args (.error (.noMethod name (arena.names args)))
  /-- A method overrides all others that match. -/
  | method (r : Resolution ι) (hr : methods[r.index]? = some r.method)
      (hw : Wins arena methods args r.method r.bindings) : Decides arena name methods args (.ok r)
  /-- Some signature matches, but no method overrides all others. -/
  | ambiguous (h : ∃ m ∈ methods, arena.unifySignature? m.signature args ≠ none)
      (hw : ∀ m bindings, ¬ Wins arena methods args m bindings) :
      Decides arena name methods args (.error (.ambiguous name (arena.names args)
        ((reported arena args methods).map fun c => c.1.shown arena)))

theorem mem_matching {m : Method ι} {bindings : Bindings} :
    (m, bindings) ∈ matching arena args methods ↔
      m ∈ methods ∧ arena.unifySignature? m.signature args = some bindings := by
  rw [matching, List.mem_filterMap]
  constructor
  · rintro ⟨m', hm, heq⟩
    obtain ⟨bindings', hb, heq⟩ := Option.map_eq_some_iff.mp heq
    cases heq
    exact ⟨hm, hb⟩
  · rintro ⟨hm, hb⟩
    exact ⟨m, hm, by rw [hb, Option.map_some]⟩

/-! ## Overriding is asymmetric -/

/-- No two methods override each other. -/
theorem Candidate.dominates_asymm {a b : Candidate ι} (h : a.dominates arena b = true) :
    b.dominates arena a = false := by
  rw [Candidate.dominates] at h ⊢
  revert h
  cases arena.areSubtypes a.inst b.inst <;> cases arena.areSubtypes b.inst a.inst <;>
    cases arena.unifySignature? a.method.signature b.method.signature <;>
    cases arena.unifySignature? b.method.signature a.method.signature <;> simp

/-! ## Instantiating signatures -/

def Method.In (m : Method ι) (arena : TypeArena) : Prop := ∀ x ∈ m.signature, x < arena.size

theorem instantiate_cons (r : Resolution ι) (rs : List (Resolution ι)) (arena : TypeArena) :
    instantiate (r :: rs) arena =
      (⟨r, (instances r.bindings r.method.signature arena).1⟩ ::
          (instantiate rs (instances r.bindings r.method.signature arena).2).1,
        (instantiate rs (instances r.bindings r.method.signature arena).2).2) := rfl

theorem instantiate_toResolution (rs : List (Resolution ι)) (arena : TypeArena) :
    (instantiate rs arena).1.map Candidate.toResolution = rs := by
  induction rs generalizing arena with
  | nil => rfl
  | cons r rs ih => rw [instantiate_cons, List.map_cons, ih]

theorem instantiate_grows {rs : List (Resolution ι)} (hi : arena.Indexed)
    (hrs : ∀ r ∈ rs, r.method.In arena ∧ r.bindings.In arena) :
    arena.Extends (instantiate rs arena).2 ∧ (instantiate rs arena).2.Indexed := by
  induction rs generalizing arena with
  | nil => exact ⟨.refl _, hi⟩
  | cons r rs ih =>
    obtain ⟨hr, hrs⟩ := List.forall_mem_cons.mp hrs
    have hgrow := instances_grows hi hr.2 hr.1
    obtain ⟨hext, hindexed⟩ := ih hgrow.indexed fun r' hmem =>
      ⟨fun x hx => hgrow.extension.lt ((hrs r' hmem).1 x hx), (hrs r' hmem).2.grown hgrow.extension⟩
    rw [instantiate_cons]
    exact ⟨hgrow.extension.trans hext, hindexed⟩

/-- In the arena in which all signatures are instantiated, each of them may be instantiated again. -/
theorem instances_of_mem_instantiate {rs : List (Resolution ι)} (hi : arena.Indexed)
    (hrs : ∀ r ∈ rs, r.method.In arena ∧ r.bindings.In arena) :
    ∀ c ∈ (instantiate rs arena).1,
      instances c.bindings c.method.signature (instantiate rs arena).2 =
        (c.inst, (instantiate rs arena).2) := by
  induction rs generalizing arena with
  | nil => exact nofun
  | cons r rs ih =>
    obtain ⟨hr, hrs⟩ := List.forall_mem_cons.mp hrs
    have hgrow := instances_grows hi hr.2 hr.1
    have hrs' : ∀ r' ∈ rs, r'.method.In (instances r.bindings r.method.signature arena).2 ∧
        r'.bindings.In (instances r.bindings r.method.signature arena).2 := fun r' hmem =>
      ⟨fun x hx => hgrow.extension.lt ((hrs r' hmem).1 x hx), (hrs r' hmem).2.grown hgrow.extension⟩
    obtain ⟨hext, hindexed⟩ := instantiate_grows hgrow.indexed hrs'
    rw [instantiate_cons]
    refine List.forall_mem_cons.mpr ⟨?_, ih hgrow.indexed hrs'⟩
    exact instances_again hi hr.2 hr.1 hext hindexed

/-! ## Overriding does not depend on the other methods -/

theorem overrides_eq (he : arena.Extends arena') (hi : arena.Indexed) (hi' : arena'.Indexed)
    {a b : Method ι × Bindings} (ha : a.1.In arena) (hba : a.2.In arena) (hb : b.1.In arena)
    (hbb : b.2.In arena) : Overrides arena' a b = Overrides arena a b := by
  have hgrow := instances_grows hi hba ha
  have hgrow' := instances_grows hi' (hba.grown he) fun x hx => he.lt (ha x hx)
  have hb₁ : ∀ x ∈ b.1.signature, x < (instances a.2 a.1.signature arena).2.size :=
    fun x hx => hgrow.extension.lt (hb x hx)
  have hb₁' : ∀ x ∈ b.1.signature, x < (instances a.2 a.1.signature arena').2.size :=
    fun x hx => hgrow'.extension.lt (he.lt (hb x hx))
  have hgrow₂ := instances_grows hgrow.indexed (hbb.grown hgrow.extension) hb₁
  have hgrow₂' := instances_grows hgrow'.indexed ((hbb.grown he).grown hgrow'.extension) hb₁'
  -- The types that the first instantiation adds are renamed, then those that the second one adds.
  obtain ⟨f, hf, has, hembeds⟩ := he.embeds.instances hi hi' hba ha
  have hfix : ∀ x < arena.size, f x = x := hf
  have hrename : a.2.rename (fun x => x) = a.2 := Bindings.rename_eq hba fun _ _ => rfl
  have hmap : a.1.signature.map (fun x => x) = a.1.signature := signature_map_eq ha fun _ _ => rfl
  rw [hrename, hmap] at has hembeds
  obtain ⟨g, hg, hbs, hembeds'⟩ := hembeds.instances hgrow.indexed hgrow'.indexed
    (hbb.grown hgrow.extension) hb₁
  rw [Bindings.rename_eq hbb hfix, signature_map_eq hb hfix] at hbs hembeds'
  have has' : (instances a.2 a.1.signature arena).1.map g =
      (instances a.2 a.1.signature arena').1 := by
    rw [← has]
    exact List.map_congr_left fun x hx => hg x (hgrow.lt x hx)
  have hext := hgrow.extension.trans hgrow₂.extension
  have hext' := (he.trans hgrow'.extension).trans hgrow₂'.extension
  have hlt : ∀ x ∈ (instances a.2 a.1.signature arena).1, _ :=
    fun x hx => hgrow₂.extension.lt (hgrow.lt x hx)
  have hi₂ := hgrow₂.indexed.toOrdered
  have hi₂' := hgrow₂'.indexed.toOrdered
  dsimp only [Overrides, Candidate.dominates]
  rw [← has', ← hbs, hembeds'.areSubtypes_eq hi₂ hi₂' hlt hgrow₂.lt,
    hembeds'.areSubtypes_eq hi₂ hi₂' hgrow₂.lt hlt,
    hext.unifySignature?_eq hi.toOrdered hi₂ hb ha, hext.unifySignature?_eq hi.toOrdered hi₂ ha hb,
    hext'.unifySignature?_eq hi.toOrdered hi₂' hb ha,
    hext'.unifySignature?_eq hi.toOrdered hi₂' ha hb]

/-! ## The methods that match a call -/

theorem mem_applicable {r : Resolution ι} {start : Nat} :
    r ∈ applicable arena args start methods ↔
      ∃ i, r.index = start + i ∧ methods[i]? = some r.method ∧
        arena.unifySignature? r.method.signature args = some r.bindings := by
  induction methods generalizing start with
  | nil => simp [applicable]
  | cons m ms ih =>
    have hlater : (∃ i, r.index = start + i ∧ (m :: ms)[i]? = some r.method ∧
          arena.unifySignature? r.method.signature args = some r.bindings) ↔
        (r.index = start ∧ m = r.method ∧
          arena.unifySignature? r.method.signature args = some r.bindings) ∨
        r ∈ applicable arena args (start + 1) ms := by
      rw [ih]
      constructor
      · rintro ⟨i, hindex, hm, hb⟩
        cases i with
        | zero => exact .inl ⟨hindex, Option.some.inj hm, hb⟩
        | succ i => exact .inr ⟨i, by omega, hm, hb⟩
      · rintro (⟨hindex, hm, hb⟩ | ⟨i, hindex, hm, hb⟩)
        · exact ⟨0, hindex, congrArg some hm, hb⟩
        · exact ⟨i + 1, by omega, hm, hb⟩
    rw [hlater, applicable]
    cases hu : arena.unifySignature? m.signature args with
    | none =>
      rw [or_iff_right]
      rintro ⟨-, rfl, hb⟩
      rw [hu] at hb
      cases hb
    | some bindings =>
      rw [List.mem_cons]
      refine or_congr_left ⟨?_, ?_⟩
      · rintro rfl
        exact ⟨rfl, rfl, hu⟩
      · rintro ⟨hindex, rfl, hb⟩
        rw [hu] at hb
        obtain ⟨index, method, bindings'⟩ := r
        cases hindex
        cases hb
        rfl

theorem applicable_map (start : Nat) :
    (applicable arena args start methods).map (fun r => (r.method, r.bindings)) =
      matching arena args methods := by
  induction methods generalizing start with
  | nil => rfl
  | cons m ms ih =>
    rw [applicable, matching, List.filterMap_cons]
    cases arena.unifySignature? m.signature args with
    | none => exact ih (start + 1)
    | some bindings =>
      rw [List.map_cons, ih (start + 1)]
      rfl

/-- The types of the methods that match a call, and what their variables stand for, are types of the arena. -/
theorem matching_in (hi : arena.Ordered) (ha : ∀ x ∈ args, x < arena.size)
    (hm : ∀ m ∈ methods, m.In arena) :
    ∀ r ∈ applicable arena args 0 methods, r.method.In arena ∧ r.bindings.In arena := by
  intro r hr
  obtain ⟨i, -, hmem, hb⟩ := mem_applicable.mp hr
  exact ⟨hm _ (List.mem_of_getElem? hmem), unifySignature?_in hi ha hb⟩

/-- A call in an arena whose index is right, with arguments and signatures of types of the arena and no
two methods of one signature. -/
structure Callable (arena : TypeArena) (args : List TypeId) (methods : List (Method ι)) : Prop where
  indexed : arena.Indexed
  args_lt : ∀ x ∈ args, x < arena.size
  methods_in : ∀ m ∈ methods, m.In arena
  distinct : methods.Pairwise fun m m' => m.signature ≠ m'.signature

/-! ## The candidates of a call -/

/-- The candidates of a call, and the arena in which they are compared. -/
def candidates (arena : TypeArena) (args : List TypeId) (methods : List (Method ι)) :
    List (Candidate ι) × TypeArena :=
  instantiate (applicable arena args 0 methods) arena

theorem toResolution_mem {rs : List (Resolution ι)} {c : Candidate ι}
    (hc : c ∈ (instantiate rs arena).1) : c.toResolution ∈ rs := by
  rw [← instantiate_toResolution rs arena]
  exact List.mem_map_of_mem hc

theorem mem_candidates {c : Candidate ι}
    (hc : c ∈ (candidates arena args methods).1) :
    methods[c.index]? = some c.method ∧
      arena.unifySignature? c.method.signature args = some c.bindings := by
  obtain ⟨i, hindex, hm, hb⟩ := mem_applicable.mp (toResolution_mem hc)
  rw [Nat.zero_add] at hindex
  exact ⟨hindex ▸ hm, hb⟩

theorem exists_candidate {m : Method ι} {bindings : Bindings} (hm : m ∈ methods)
    (hb : arena.unifySignature? m.signature args = some bindings) :
    ∃ c ∈ (candidates arena args methods).1,
      c.method = m ∧ c.bindings = bindings := by
  obtain ⟨i, hi⟩ := List.mem_iff_getElem?.mp hm
  have hmem : (⟨i, m, bindings⟩ : Resolution ι) ∈ applicable arena args 0 methods :=
    mem_applicable.mpr ⟨i, (Nat.zero_add i).symm, hi, hb⟩
  rw [← instantiate_toResolution (applicable arena args 0 methods) arena] at hmem
  obtain ⟨c, hc, heq⟩ := List.mem_map.mp hmem
  exact ⟨c, hc, congrArg Resolution.method heq, congrArg Resolution.bindings heq⟩

theorem choose_eq (name : String) (hne : applicable arena args 0 methods ≠ []) :
    (choose name methods args arena).1 =
      match winner? (candidates arena args methods).2 (candidates arena args methods).1 with
      | some c => .ok c.toResolution
      | none => .error (.ambiguous name ((candidates arena args methods).2.names args)
          ((undominated (candidates arena args methods).2 (candidates arena args methods).1).map
            fun c => c.method.shown (candidates arena args methods).2)) := by
  rw [choose]
  cases hrs : applicable arena args 0 methods with
  | nil => exact absurd hrs hne
  | cons r rs =>
    dsimp only
    rw [← hrs, ← candidates]
    cases winner? (candidates arena args methods).2 (candidates arena args methods).1 <;> rfl

namespace Callable

variable (h : Callable arena args methods)
include h

theorem applicable_in : ∀ r ∈ applicable arena args 0 methods,
    r.method.In arena ∧ r.bindings.In arena :=
  matching_in h.indexed.toOrdered h.args_lt h.methods_in

/-- Methods of one signature stand at one place. -/
theorem index_eq {i j : Nat} {m m' : Method ι} (hi : methods[i]? = some m)
    (hj : methods[j]? = some m') (hs : m.signature = m'.signature) : i = j := by
  obtain ⟨hlti, rfl⟩ := List.getElem?_eq_some_iff.mp hi
  obtain ⟨hltj, rfl⟩ := List.getElem?_eq_some_iff.mp hj
  rcases Nat.lt_trichotomy i j with hlt | heq | hlt
  · exact absurd hs (List.pairwise_iff_getElem.mp h.distinct i j hlti hltj hlt)
  · exact heq
  · exact absurd hs.symm (List.pairwise_iff_getElem.mp h.distinct j i hltj hlti hlt)

/-- While a call is resolved, one candidate is more specific than another exactly if its method overrides
the other's. -/
theorem dominates_eq {c d : Candidate ι}
    (hc : c ∈ (candidates arena args methods).1)
    (hd : d ∈ (candidates arena args methods).1) :
    c.dominates (candidates arena args methods).2 d =
      Overrides arena (c.method, c.bindings) (d.method, d.bindings) := by
  have hin := h.applicable_in
  obtain ⟨hext, hindexed⟩ := instantiate_grows h.indexed hin
  have hagain := instances_of_mem_instantiate h.indexed hin
  obtain ⟨hcm, hcb⟩ := hin _ (toResolution_mem hc)
  obtain ⟨hdm, hdb⟩ := hin _ (toResolution_mem hd)
  rw [← overrides_eq hext h.indexed hindexed hcm hcb hdm hdb]
  dsimp only [Overrides]
  rw [hagain c hc, hagain d hd]
  rfl

/-- The candidate that passes the test for the most specific one is the one whose method wins. -/
theorem wins_iff {c : Candidate ι}
    (hc : c ∈ (candidates arena args methods).1) :
    ((candidates arena args methods).1.all fun other =>
        other.index = c.index ||
          c.dominates (candidates arena args methods).2 other) = true ↔
      Wins arena methods args c.method c.bindings := by
  obtain ⟨hm, hb⟩ := mem_candidates hc
  rw [List.all_eq_true]
  constructor
  · intro hall
    refine ⟨List.mem_of_getElem? hm, hb, fun m' hm' hne bindings' hb' => ?_⟩
    obtain ⟨d, hd, rfl, rfl⟩ := exists_candidate hm' hb'
    rw [← h.dominates_eq hc hd]
    have hd' := hall d hd
    rw [Bool.or_eq_true, decide_eq_true_iff] at hd'
    refine hd'.resolve_left fun hindex => hne ?_
    rw [← hindex, (mem_candidates hd).1] at hm
    rw [Option.some.inj hm]
  · intro hw d hd
    obtain ⟨hm', hb'⟩ := mem_candidates hd
    rw [Bool.or_eq_true, decide_eq_true_iff]
    by_cases hs : d.method.signature = c.method.signature
    · exact .inl (h.index_eq hm' hm hs)
    · rw [h.dominates_eq hc hd]
      exact .inr (hw.overrides _ (List.mem_of_getElem? hm') hs _ hb')

theorem winner?_eq_some {c : Candidate ι}
    (hc : winner? (candidates arena args methods).2
      (candidates arena args methods).1 = some c) :
    methods[c.index]? = some c.method ∧ Wins arena methods args c.method c.bindings := by
  have hmem := List.mem_of_find?_eq_some hc
  rw [winner?, List.find?_eq_some_iff_append] at hc
  exact ⟨(mem_candidates hmem).1, (h.wins_iff hmem).mp hc.1⟩

theorem winner?_eq_none
    (hnone : winner? (candidates arena args methods).2
      (candidates arena args methods).1 = none) (m : Method ι)
    (bindings : Bindings) : ¬ Wins arena methods args m bindings := by
  intro hw
  obtain ⟨c, hc, rfl, rfl⟩ := exists_candidate hw.mem hw.unifies
  exact List.find?_eq_none.mp hnone c hc ((h.wins_iff hc).mpr hw)

/-- The candidates of an ambiguous call are the reported methods. -/
theorem undominated_map :
    (undominated (candidates arena args methods).2
        (candidates arena args methods).1).map
        (fun c => (c.method, c.bindings)) = reported arena args methods := by
  have hmap : (candidates arena args methods).1.map
      (fun c => (c.method, c.bindings)) = matching arena args methods := by
    have hrs := instantiate_toResolution (applicable arena args 0 methods) arena
    rw [← applicable_map 0, ← hrs, List.map_map]
    rfl
  have hbest : ((candidates arena args methods).1.filter fun c =>
        (candidates arena args methods).1.all fun other =>
          !other.dominates (candidates arena args methods).2 c).map
        (fun c => (c.method, c.bindings)) =
      (matching arena args methods).filter fun c =>
        (matching arena args methods).all fun other => !Overrides arena other c := by
    rw [← hmap, List.filter_map]
    refine congrArg _ (List.filter_congr fun c hc => ?_)
    rw [Function.comp_apply, List.all_map, Bool.eq_iff_iff, List.all_eq_true, List.all_eq_true]
    refine forall₂_congr fun d hd => ?_
    rw [h.dominates_eq hd hc, Function.comp_apply]
  rw [undominated, reported, ← hbest, List.length_map]
  split
  · exact hmap
  · rfl

theorem shown_undominated :
    (undominated (candidates arena args methods).2 (candidates arena args methods).1).map
        (fun c => c.method.shown (candidates arena args methods).2) =
      (reported arena args methods).map fun c => c.1.shown arena := by
  rw [← h.undominated_map, List.map_map]
  refine List.map_congr_left fun c hc => ?_
  have hmem : c ∈ (candidates arena args methods).1 := by
    rw [undominated] at hc
    split at hc
    · exact hc
    · exact List.mem_of_mem_filter hc
  have hext := (instantiate_grows h.indexed h.applicable_in).1
  have hin := (h.applicable_in _ (toResolution_mem hmem)).1
  rw [Function.comp_apply, Method.shown, Method.shown]
  exact congrArg (fun names => "(" ++ ", ".intercalate names ++ ")") (hext.names_eq hin)

/-- A call decides for the method that overrides all others that match. -/
theorem choose_decides (name : String) :
    Decides arena name methods args (choose name methods args arena).1 := by
  by_cases hrs : applicable arena args 0 methods = []
  · rw [choose, hrs]
    refine .noMethod fun m hm => Option.eq_none_iff_forall_ne_some.mpr fun bindings hb => ?_
    have hmem := mem_matching.mpr ⟨hm, hb⟩
    rw [← applicable_map 0, hrs] at hmem
    cases hmem
  · rw [choose_eq name hrs]
    cases hw : winner? (candidates arena args methods).2 (candidates arena args methods).1 with
    | some c =>
      obtain ⟨hm, hwins⟩ := h.winner?_eq_some hw
      exact .method c.toResolution hm hwins
    | none =>
      obtain ⟨r, hr⟩ := List.exists_mem_of_ne_nil _ hrs
      obtain ⟨i, -, hm, hb⟩ := mem_applicable.mp hr
      have hext := (instantiate_grows h.indexed h.applicable_in).1
      dsimp only
      rw [h.shown_undominated, candidates, hext.names_eq h.args_lt]
      exact .ambiguous ⟨r.method, List.mem_of_getElem? hm, hb ▸ Option.some_ne_none _⟩
        (h.winner?_eq_none hw)

end Callable

/-! ## What a call resolves to -/

variable {name : String} {methods' : List (Method ι)} {result : Except DispatchError (Resolution ι)}

/-- At most one method wins a call. -/
theorem Wins.unique (h : Callable arena args methods) {m m' : Method ι} {b b' : Bindings}
    (hw : Wins arena methods args m b) (hw' : Wins arena methods args m' b') :
    m = m' ∧ b = b' := by
  obtain ⟨c, hc, rfl, rfl⟩ := exists_candidate hw.mem hw.unifies
  obtain ⟨d, hd, rfl, rfl⟩ := exists_candidate hw'.mem hw'.unifies
  by_cases hs : c.method.signature = d.method.signature
  · have hindex := h.index_eq (mem_candidates hc).1 (mem_candidates hd).1 hs
    have hm := (mem_candidates hc).1
    rw [hindex, (mem_candidates hd).1] at hm
    have hb := hw.unifies
    rw [hs, hw'.unifies] at hb
    exact ⟨(Option.some.inj hm).symm, (Option.some.inj hb).symm⟩
  · have hcd := hw.overrides _ hw'.mem (Ne.symm hs) _ hw'.unifies
    have hdc := hw'.overrides _ hw.mem hs _ hw.unifies
    rw [← h.dominates_eq hc hd] at hcd
    rw [← h.dominates_eq hd hc, Candidate.dominates_asymm hcd] at hdc
    cases hdc

/-- The methods that an ambiguous call is reported with are methods of the function that match. -/
theorem reported_sublist :
    ((reported arena args methods).map Prod.fst).Sublist methods ∧
      ∀ c ∈ reported arena args methods, c ∈ matching arena args methods := by
  have hall : ((matching arena args methods).map Prod.fst).Sublist methods := by
    induction methods with
    | nil => exact .slnil
    | cons m ms ih =>
      rw [matching, List.filterMap_cons]
      cases arena.unifySignature? m.signature args with
      | none => exact ih.cons m
      | some bindings => exact ih.cons_cons m
  rw [reported]
  split
  · exact ⟨hall, fun _ hc => hc⟩
  · exact ⟨(List.filter_sublist.map Prod.fst).trans hall, fun _ hc => List.mem_of_mem_filter hc⟩

/-- An ambiguous call has at least two matching methods. -/
theorem two_le_length_reported (hm : ∃ m ∈ methods, arena.unifySignature? m.signature args ≠ none)
    (hw : ∀ m bindings, ¬ Wins arena methods args m bindings) :
    2 ≤ (reported arena args methods).length := by
  rw [reported]
  split
  · -- A single matching method overrides all others that match.
    obtain ⟨m, hmem, hne⟩ := hm
    obtain ⟨bindings, hb⟩ := Option.ne_none_iff_exists'.mp hne
    have hin := mem_matching.mpr ⟨hmem, hb⟩
    by_contra hlt
    obtain ⟨c, hc⟩ : ∃ c, matching arena args methods = [c] := by
      refine List.length_eq_one_iff.mp ?_
      have hpos := List.length_pos_of_mem hin
      omega
    refine hw m bindings ⟨hmem, hb, fun m' hmem' hs bindings' hb' => absurd ?_ hs⟩
    have hin' := mem_matching.mpr ⟨hmem', hb'⟩
    rw [hc, List.mem_singleton] at hin hin'
    rw [congrArg (fun c => c.1.signature) (hin'.trans hin.symm)]
  · omega

/-! ## The order of the methods -/

theorem Wins.perm (hp : methods.Perm methods') {m : Method ι} {b : Bindings}
    (hw : Wins arena methods args m b) : Wins arena methods' args m b :=
  ⟨hp.subset hw.mem, hw.unifies, fun m' hm' => hw.overrides m' (hp.symm.subset hm')⟩

theorem reported_perm (hp : methods.Perm methods') :
    (reported arena args methods).Perm (reported arena args methods') := by
  have hall : (matching arena args methods).Perm (matching arena args methods') := hp.filterMap _
  have hbest : ((matching arena args methods).filter fun c =>
        (matching arena args methods).all fun other => !Overrides arena other c).Perm
      ((matching arena args methods').filter fun c =>
        (matching arena args methods').all fun other => !Overrides arena other c) := by
    refine (hall.filter _).trans (.of_eq (List.filter_congr fun c _ => ?_))
    exact hall.all_eq
  rw [reported, reported, hbest.length_eq]
  split
  · exact hall
  · exact hbest

/-- Two outcomes of a call are the same up to the order of the methods: the same method with the same
types for its variables, or errors of the same kind with the same candidates. -/
def SameOutcome : Except DispatchError (Resolution ι) → Except DispatchError (Resolution ι) → Prop
  | .ok r, .ok r' => r.method = r'.method ∧ r.bindings = r'.bindings
  | .error (.noMethod name args), .error (.noMethod name' args') => name = name' ∧ args = args'
  | .error (.ambiguous name args candidates), .error (.ambiguous name' args' candidates') =>
    name = name' ∧ args = args' ∧ candidates.Perm candidates'
  | _, _ => False

theorem Decides.perm (hp : methods.Perm methods') (h : Callable arena args methods)
    {result' : Except DispatchError (Resolution ι)} (hd : Decides arena name methods args result)
    (hd' : Decides arena name methods' args result') : SameOutcome result result' := by
  cases hd with
  | noMethod hno =>
    cases hd' with
    | noMethod _ => exact ⟨rfl, rfl⟩
    | method r hr hw =>
      have hb := hno _ (hp.symm.subset hw.mem)
      rw [hw.unifies] at hb
      cases hb
    | ambiguous hm _ =>
      obtain ⟨m, hmem, hne⟩ := hm
      exact absurd (hno m (hp.symm.subset hmem)) hne
  | method r hr hw =>
    cases hd' with
    | noMethod hno =>
      have hb := hno _ (hp.subset hw.mem)
      rw [hw.unifies] at hb
      cases hb
    | method r' hr' hw' => exact hw.unique h (hw'.perm hp.symm)
    | ambiguous _ hno => exact absurd (hw.perm hp) (hno _ _)
  | ambiguous hm hno =>
    cases hd' with
    | noMethod hnone =>
      obtain ⟨m, hmem, hne⟩ := hm
      exact absurd (hnone m (hp.subset hmem)) hne
    | method r' hr' hw' => exact absurd (hw'.perm hp.symm) (hno _ _)
    | ambiguous _ _ => exact ⟨rfl, rfl, (reported_perm hp).map _⟩

/-! ### Reading a decision -/

namespace Decides

variable (hd : Decides arena name methods args result)
include hd

theorem noMethod_iff : (∃ name shown, result = .error (.noMethod name shown)) ↔
    ∀ m ∈ methods, arena.unifySignature? m.signature args = none := by
  cases hd with
  | noMethod hnone => exact iff_of_true ⟨_, _, rfl⟩ hnone
  | method r hr hw =>
    refine iff_of_false (fun ⟨_, _, heq⟩ => nomatch heq) fun hnone => ?_
    have hb := hnone _ hw.mem
    rw [hw.unifies] at hb
    cases hb
  | ambiguous hmatch _ =>
    obtain ⟨m, hmem, hne⟩ := hmatch
    exact iff_of_false (fun ⟨_, _, heq⟩ => nomatch heq) fun hnone => hne (hnone m hmem)

theorem ok_iff (h : Callable arena args methods) (r : Resolution ι) :
    result = .ok r ↔ methods[r.index]? = some r.method ∧
      Wins arena methods args r.method r.bindings := by
  cases hd with
  | noMethod hnone =>
    refine iff_of_false nofun fun ⟨_, hw⟩ => ?_
    have hb := hnone _ hw.mem
    rw [hw.unifies] at hb
    cases hb
  | method r' hr' hw' =>
    rw [Except.ok.injEq]
    constructor
    · rintro rfl
      exact ⟨hr', hw'⟩
    · rintro ⟨hr, hw⟩
      obtain ⟨heq, hbindings⟩ := hw'.unique h hw
      have hindex := h.index_eq hr' hr (congrArg Method.signature heq)
      obtain ⟨index, method, bindings⟩ := r
      obtain ⟨index', method', bindings'⟩ := r'
      cases hindex
      cases heq
      cases hbindings
      rfl
  | ambiguous _ hno => exact iff_of_false nofun fun ⟨_, hw⟩ => hno _ _ hw

theorem eq_ambiguous (hmatch : ∃ m ∈ methods, arena.unifySignature? m.signature args ≠ none)
    (hno : ∀ m b, ¬ Wins arena methods args m b) :
    ∃ named : List (Method ι), named.Sublist methods ∧ 2 ≤ named.length ∧
      (∀ m ∈ named, arena.unifySignature? m.signature args ≠ none) ∧
      result = .error (.ambiguous name (arena.names args) (named.map (Method.shown arena))) := by
  refine ⟨(reported arena args methods).map Prod.fst, reported_sublist.1, ?_, ?_, ?_⟩
  · rw [List.length_map]
    exact two_le_length_reported hmatch hno
  · intro m hmem
    obtain ⟨c, hc, rfl⟩ := List.mem_map.mp hmem
    rw [(mem_matching.mp (reported_sublist.2 c hc)).2]
    exact Option.some_ne_none _
  · rw [List.map_map]
    cases hd with
    | noMethod hnone =>
      obtain ⟨m, hmem, hne⟩ := hmatch
      exact absurd (hnone m hmem) hne
    | method r hr hw => exact absurd hw (hno _ _)
    | ambiguous _ _ => rfl

end Decides

namespace GenericFunction

variable {f g : GenericFunction ι}

/-- A call that is not remembered chooses among the methods of the function. -/
theorem resolve_result (hu : f.remembers = false ∨ f.cache.lookup args = none) :
    (f.resolve args arena).result = (choose f.name f.methods args arena).1 := by
  have hafresh : ∀ before, (f.resolveAfresh args arena before).result =
      (choose f.name f.methods args arena).1 := by
    intro before
    rw [resolveAfresh]
    rcases choose f.name f.methods args arena with ⟨_ | _, _⟩ <;> rfl
  rw [resolve]
  split
  · rename_i hremembers
    rw [hu.resolve_left (by rw [hremembers]; exact Bool.true_eq_false.mp)]
    exact hafresh _
  · exact hafresh _

/-- What a call that is not remembered resolves to: nothing if no signature matches; the method that
overrides all others that match, of which there is at most one; and otherwise an error with at least two
methods of the function that match. All of this is the same for any order of the methods. -/
theorem resolve_most_specific (h : arena.WellBuilt) (ha : ∀ x ∈ args, x < arena.size)
    (hm : ∀ m ∈ f.methods, ∀ x ∈ m.signature, x < arena.size)
    (hd : f.methods.Pairwise fun m m' => m.signature ≠ m'.signature)
    (hu : f.remembers = false ∨ f.cache.lookup args = none) :
    ((∃ name shown, (f.resolve args arena).result = .error (.noMethod name shown)) ↔
      ∀ m ∈ f.methods, arena.unifySignature? m.signature args = none) ∧
    (∀ r, (f.resolve args arena).result = .ok r ↔
      f.methods[r.index]? = some r.method ∧ Wins arena f.methods args r.method r.bindings) ∧
    (∀ m m' b b', Wins arena f.methods args m b → Wins arena f.methods args m' b' →
      m = m' ∧ b = b') ∧
    ((∃ m ∈ f.methods, arena.unifySignature? m.signature args ≠ none) →
      (∀ m b, ¬ Wins arena f.methods args m b) →
      ∃ named : List (Method ι), named.Sublist f.methods ∧ 2 ≤ named.length ∧
        (∀ m ∈ named, arena.unifySignature? m.signature args ≠ none) ∧
        (f.resolve args arena).result =
          .error (.ambiguous f.name (arena.names args) (named.map (Method.shown arena)))) ∧
    (∀ g : GenericFunction ι, g.name = f.name → f.methods.Perm g.methods →
      (g.remembers = false ∨ g.cache.lookup args = none) →
      SameOutcome (f.resolve args arena).result (g.resolve args arena).result) := by
  have hcall : Callable arena args f.methods := ⟨h.indexed, ha, hm, hd⟩
  have hdec := hcall.choose_decides f.name
  rw [resolve_result hu]
  refine ⟨hdec.noMethod_iff, hdec.ok_iff hcall, fun m m' b b' hw hw' => hw.unique hcall hw',
    hdec.eq_ambiguous, fun g hname hp hg => ?_⟩
  have hcall' : Callable arena args g.methods :=
    ⟨h.indexed, ha, fun m hmem => hm m (hp.symm.subset hmem),
      (hp.pairwise_iff fun hne => Ne.symm hne).mp hd⟩
  rw [resolve_result hg, hname]
  exact hdec.perm hp hcall (hcall'.choose_decides f.name)

/-- A function with a method for any number and one for integers. -/
def numeric : GenericFunction String :=
  ⟨"size", [⟨[], [TypeId.number], "number"⟩, ⟨[], [TypeId.int], "int"⟩], [], false⟩

/-- Called with an integer, the method for integers is chosen, also if it is added first. -/
theorem numeric_int :
    (numeric.resolve [TypeId.int] .initial).result = .ok ⟨1, ⟨[], [TypeId.int], "int"⟩, []⟩ ∧
      SameOutcome (numeric.resolve [TypeId.int] .initial).result
        ((GenericFunction.mk numeric.name numeric.methods.reverse [] false).resolve
          [TypeId.int] .initial).result := by
  have h := @resolve_most_specific String .initial [TypeId.int] numeric .initial (by decide)
    (by decide) (by decide) (.inl rfl)
  refine ⟨(h.2.1 _).mpr ⟨rfl, .tail _ (.head _), by decide, ?_⟩, ?_⟩
  · intro m hm hs bindings hb
    rcases List.mem_cons.mp hm with rfl | hm
    · have hnone : TypeArena.initial.unifySignature? [TypeId.number] [TypeId.int] = some [] := by
        decide
      rw [hnone] at hb
      cases hb
      decide
    · rw [List.mem_singleton.mp hm] at hs
      exact absurd rfl hs
  · exact h.2.2.2.2 _ rfl (List.reverse_perm _).symm (.inl rfl)

end GenericFunction

end DispatchLang
