import DispatchLang.Proofs.Scope.Growth

/-!
# Writing names

A write of a name touches one scope, and there one name (`lookup_frame_define`). Which scope that is depends on the kind
of the write: a definition binds in the scope it is made in, and an assignment changes the nearest binding on the chain
or, where there is none, binds in the scope itself or in the root (`target`).

Scopes share the scopes around them, so one write may be seen from many places. It is seen from exactly those scopes
for which the written one now is the nearest that binds the name; all others see what they saw. A definition may put a
scope in front of an older binding, but an assignment to a name that is seen never makes a second binding of it.

Trees are those that `Arises` lists, from the initial one by adding scopes and writing names. The chain of each of their
scopes ends in the root (`Rooted.getLast?_chain`), which is why an assignment that finds no binding reaches it.

## Main definitions

* `ScopeTree.Write`: the kinds of writes.
* `ScopeTree.target`: the scope that a write changes.
* `ScopeTree.Arises`: the trees that there are.

## Main results

* `ScopeTree.Arises.write_effect`: what a write changes, and from where it is seen.
-/

namespace DispatchLang

namespace ScopeTree

variable {α : Type} {t t' : ScopeTree α} {s parent : ScopeId} {name other : String} {value : α}

/-! ## Rooted trees -/

/-- The first scope is the only one without a scope around it, and the others are younger than the scopes around
them. -/
structure Rooted (t : ScopeTree α) : Prop where
  /-- There is a root. -/
  size_pos : 0 < t.frames.size
  /-- Nothing is around the root. -/
  parent_root : (t.frame root).parent = none
  /-- Every other scope is inside an older one. -/
  exists_parent : ∀ s, s < t.frames.size → s ≠ root → ∃ parent, (t.frame s).parent = some parent ∧ parent < s

theorem rooted_initial : (initial : ScopeTree α).Rooted where
  size_pos := Nat.zero_lt_one
  parent_root := rfl
  exists_parent _ hs hne := absurd (Nat.lt_one_iff.mp hs) hne

theorem Rooted.getLast?_chain (h : t.Rooted) (hs : s < t.frames.size) : (t.chain s).getLast? = some root := by
  have hwithin : ∀ n s, s < n → s < t.frames.size → (t.chainWithin n s).getLast? = some root := by
    intro n
    induction n with
    | zero => exact fun s hn => absurd hn (Nat.not_lt_zero s)
    | succ n ih =>
      intro s hn hs
      by_cases hroot : s = root
      · subst hroot
        rw [chainWithin, h.parent_root]
        rfl
      · obtain ⟨parent, hparent, hlt⟩ := h.exists_parent s hs hroot
        rw [chainWithin_of_parent hparent, List.getLast?_cons, ih parent (Nat.lt_of_lt_of_le hlt (Nat.le_of_lt_succ hn)) (hlt.trans hs), Option.getD_some]
  exact hwithin (s + 1) s (Nat.lt_succ_self s) hs

/-! ## One scope after a definition -/

theorem frame_define (hs : s < t.frames.size) (i : ScopeId) :
    (t.define s name value).frame i = if i = s then (t.frame i).define name value else t.frame i := by
  rw [frame, frame, define, Array.getElem?_modify]
  by_cases h : i = s
  · rw [if_pos h.symm, if_pos h, h, Array.getElem?_eq_getElem hs]
    rfl
  · rw [if_neg (Ne.symm h), if_neg h]

theorem parent_frame_define (hs : s < t.frames.size) (i : ScopeId) :
    ((t.define s name value).frame i).parent = (t.frame i).parent := by
  rw [frame_define hs]
  split <;> rfl

/-- A definition changes what one scope binds one name to. -/
theorem lookup_frame_define (hs : s < t.frames.size) (i : ScopeId) (other : String) :
    ((t.define s name value).frame i).vars.lookup other =
      if i = s ∧ other = name then some value else (t.frame i).vars.lookup other := by
  rw [frame_define hs]
  by_cases hi : i = s
  · rw [if_pos hi]
    by_cases hname : other = name
    · rw [if_pos ⟨hi, hname⟩, hname]
      exact Assoc.lookup_insert_self ..
    · rw [if_neg fun h => hname h.2]
      exact Assoc.lookup_insert_of_ne hname ..
  · rw [if_neg hi, if_neg fun h => hi h.1]

theorem size_define (t : ScopeTree α) (s : ScopeId) (name : String) (value : α) :
    (t.define s name value).frames.size = t.frames.size := Array.size_modify

theorem Rooted.define (h : t.Rooted) (hs : s < t.frames.size) : (t.define s name value).Rooted where
  size_pos := size_define t s name value ▸ h.size_pos
  parent_root := (parent_frame_define hs root).trans h.parent_root
  exists_parent i hi hne := by
    rw [parent_frame_define hs]
    exact h.exists_parent i (size_define t s name value ▸ hi) hne

theorem frame_child (t : ScopeTree α) (parent i : ScopeId) :
    (t.child parent).2.frame i = if i = t.frames.size then ⟨[], some parent⟩ else t.frame i := by
  rw [frame, frame, child, Array.getElem?_push]
  by_cases h : i = t.frames.size
  · rw [if_pos h, if_pos h]
    rfl
  · rw [if_neg h, if_neg h]

theorem Rooted.child (h : t.Rooted) (hp : parent < t.frames.size) : (t.child parent).2.Rooted where
  size_pos := Nat.zero_lt_of_lt (child_lt t parent)
  parent_root := by
    rw [frame_child, if_neg (show root ≠ t.frames.size from Nat.ne_of_lt h.size_pos)]
    exact h.parent_root
  exists_parent i hi hne := by
    rw [frame_child]
    by_cases hnew : i = t.frames.size
    · rw [if_pos hnew]
      exact ⟨parent, rfl, hnew ▸ hp⟩
    · rw [if_neg hnew]
      refine h.exists_parent i ?_ hne
      rw [ScopeTree.child, Array.size_push] at hi
      omega

/-! ## Chains after a definition -/

theorem chainWithin_congr (h : ∀ i, (t'.frame i).parent = (t.frame i).parent) (n : Nat) (s : ScopeId) :
    t'.chainWithin n s = t.chainWithin n s := by
  induction n generalizing s with
  | zero => rfl
  | succ n ih =>
    rw [chainWithin, chainWithin, h s]
    cases (t.frame s).parent with
    | none => rfl
    | some parent => exact congrArg (s :: ·) (ih parent)

theorem chain_define (hs : s < t.frames.size) (i : ScopeId) : (t.define s name value).chain i = t.chain i :=
  chainWithin_congr (parent_frame_define hs) _ _

/-- The nearest binding along some scopes, before and after a definition: the new value is found where the defined scope
is the first that binds the name. -/
theorem findSome?_define (hs : s < t.frames.size) (scopes : List ScopeId) :
    (scopes.findSome? fun i => ((t.define s name value).frame i).vars.lookup name) =
      if (scopes.find? fun i => ((t.define s name value).frame i).binds name) = some s then some value
      else scopes.findSome? fun i => (t.frame i).vars.lookup name := by
  induction scopes with
  | nil => rfl
  | cons i scopes ih =>
    rw [List.findSome?_cons, List.find?_cons, List.findSome?_cons, Frame.binds, lookup_frame_define hs]
    by_cases hi : i = s
    · rw [if_pos ⟨hi, rfl⟩, hi]
      exact (if_pos rfl).symm
    · rw [if_neg fun h => hi h.1]
      cases (t.frame i).vars.lookup name with
      | none => exact ih
      | some old => exact (if_neg fun h => hi (Option.some.inj h)).symm

/-- A definition is seen from the scopes for which the defined one is the nearest that binds the name. -/
theorem get?_define (hs : s < t.frames.size) (i : ScopeId) (other : String) :
    (t.define s name value).get? i other =
      if other = name ∧ (t.define s name value).binder? i name = some s then some value else t.get? i other := by
  rw [get?, get?, binder?, chain_define hs]
  by_cases hname : other = name
  · subst hname
    rw [findSome?_define hs]
    simp only [true_and]
  · rw [if_neg fun h => hname h.1]
    refine congrArg (List.findSome? · _) (funext fun j => ?_)
    rw [lookup_frame_define hs, if_neg fun h => hname h.2]

/-- A definition where the name is bound already makes no new binding. -/
theorem binds_frame_define (hs : s < t.frames.size) (hbound : (t.frame s).binds name = true) (i : ScopeId)
    (other : String) : ((t.define s name value).frame i).binds other = (t.frame i).binds other := by
  rw [Frame.binds, lookup_frame_define hs]
  split
  · next h =>
    rw [h.1, h.2, hbound]
    rfl
  · rfl

/-! ## Writes -/

/-- The kinds of writes. -/
inductive Write where
  /-- A definition. -/
  | define
  /-- An assignment, with the rule for names without a binding. -/
  | assign (rule : AssignmentScope)

def write (t : ScopeTree α) (kind : Write) (s : ScopeId) (name : String) (value : α) : ScopeTree α :=
  match kind with
  | .define => t.define s name value
  | .assign rule => t.assign rule s name value

/-- The scope that a write changes: for a definition the scope it is made in, and for an assignment the nearest scope on
the chain that binds the name or, if there is none, the scope itself or the root. -/
def target (t : ScopeTree α) (kind : Write) (s : ScopeId) (name : String) : ScopeId :=
  match kind with
  | .define => s
  | .assign .local => (t.binder? s name).getD s
  | .assign .global => (t.binder? s name).getD root

/-- The trees that there are: scopes are added inside those that are there, and names are written from them. -/
inductive Arises : ScopeTree α → Prop where
  /-- The tree with only a root. -/
  | initial : Arises initial
  /-- A tree with one more scope. -/
  | child {t : ScopeTree α} {parent : ScopeId} (h : Arises t) (hp : parent < t.frames.size) : Arises (t.child parent).2
  /-- A tree after a write. -/
  | write {t : ScopeTree α} {s : ScopeId} (h : Arises t) (hs : s < t.frames.size) (kind : Write) (name : String)
    (value : α) : Arises (t.write kind s name value)

theorem Rooted.write_eq_define (h : t.Rooted) (hs : s < t.frames.size) (kind : Write) (name : String) (value : α) :
    t.write kind s name value = t.define (t.target kind s name) name value := by
  rcases kind with _ | _ | _
  · rfl
  · rfl
  · rw [write, assign, assignGlobal, h.getLast?_chain hs, Option.getD_some, target]

theorem binder?_eq_some {i : ScopeId} (h : t.binder? s name = some i) :
    (t.frame i).binds name = true ∧ i < t.frames.size := by
  have hbinds : (t.frame i).binds name = true := by simpa using List.find?_some h
  exact ⟨hbinds, (Array.getElem?_eq_some_iff.mp (frames_of_binds hbinds)).1⟩

theorem Rooted.target_lt (h : t.Rooted) (hs : s < t.frames.size) (kind : Write) (name : String) :
    t.target kind s name < t.frames.size := by
  rcases kind with _ | _ | _
  · exact hs
  all_goals
    rw [target]
    cases hb : t.binder? s name with
    | none => first | exact hs | exact h.size_pos
    | some i => exact (binder?_eq_some hb).2

theorem binds_target (h : t.contains s name = true) (rule : AssignmentScope) :
    (t.frame (t.target (.assign rule) s name)).binds name = true := by
  obtain ⟨i, hi⟩ := Option.isSome_iff_exists.mp h
  cases rule <;> rw [target, hi] <;> exact (binder?_eq_some hi).1

theorem Rooted.write (h : t.Rooted) (hs : s < t.frames.size) (kind : Write) (name : String) (value : α) :
    (t.write kind s name value).Rooted := by
  rw [h.write_eq_define hs]
  exact h.define (h.target_lt hs kind name)

theorem Arises.rooted (h : t.Arises) : t.Rooted := by
  induction h with
  | initial => exact rooted_initial
  | child _ hp ih => exact ih.child hp
  | write _ hs kind name value ih => exact ih.write hs kind name value

/-- A write of a name from a scope changes one scope, and there one name only. Every scope for which this is now the
nearest that binds the name sees the new value; otherwise all scopes see what they saw, of this name and of all others.
An assignment to a name that is seen makes no new binding. -/
theorem Arises.write_effect (h : t.Arises) (hs : s < t.frames.size) (kind : Write) (name : String) (value : α) :
    t.target kind s name < t.frames.size ∧
      (t.write kind s name value).frames.size = t.frames.size ∧
      (∀ i, ((t.write kind s name value).frame i).parent = (t.frame i).parent) ∧
      (∀ i other, ((t.write kind s name value).frame i).vars.lookup other =
        if i = t.target kind s name ∧ other = name then some value else (t.frame i).vars.lookup other) ∧
      (∀ i other, (t.write kind s name value).get? i other =
        if other = name ∧ (t.write kind s name value).binder? i name = some (t.target kind s name) then some value
        else t.get? i other) ∧
      ((∃ rule, kind = .assign rule) → t.contains s name = true →
        ∀ i other, ((t.write kind s name value).frame i).binds other = (t.frame i).binds other) := by
  have htarget := h.rooted.target_lt hs kind name
  rw [h.rooted.write_eq_define hs]
  refine ⟨htarget, size_define .., parent_frame_define htarget, lookup_frame_define htarget, get?_define htarget, ?_⟩
  rintro ⟨rule, rfl⟩ hseen
  exact binds_frame_define htarget (binds_target hseen rule)

/-- An assignment inside a scope to a name of the root is seen from the root. -/
theorem inner_assignment_seen : ∃ t : ScopeTree Nat, t.Arises ∧ 1 < t.frames.size ∧ t.contains 1 "x" = true ∧
    t.get? root "x" = some 1 ∧ (t.write (.assign .local) 1 "x" 2).get? root "x" = some 2 ∧
    ((t.write (.assign .local) 1 "x" 2).frame 1).binds "x" = false := by
  have harises : (((initial : ScopeTree Nat).child root).2.write .define root "x" 1).Arises :=
    (Arises.initial.child Nat.zero_lt_one).write (by decide) .define "x" 1
  obtain ⟨-, -, -, -, hget, hbinds⟩ := harises.write_effect (s := 1) (by decide) (.assign .local) "x" 2
  refine ⟨_, harises, by decide, by decide, by decide, (hget root "x").trans (if_pos (by decide)), ?_⟩
  exact (hbinds ⟨.local, rfl⟩ (by decide) 1 "x").trans (by decide)

end ScopeTree

end DispatchLang
