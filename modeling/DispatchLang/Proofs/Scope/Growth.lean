import DispatchLang.Scope
import Mathlib

/-!
# Growing trees of scopes

While a program runs scopes are added and names are bound, but no scope goes away and no binding is taken back
(`ScopeTree.Grows`). So what a scope sees it goes on seeing.

## Main results

* `ScopeTree.Grows.contains`: what a scope sees it goes on seeing.
* `ScopeTree.grows_define`, `ScopeTree.grows_assign`, `ScopeTree.grows_child`: trees only grow.
-/

namespace DispatchLang

namespace ScopeTree

variable {α : Type} {t t' t'' : ScopeTree α} {s parent : ScopeId} {name other : String} {value : α}

/-- The scopes of one tree are still there in another one, where they and the scopes around them bind what they did. -/
def Grows (t t' : ScopeTree α) : Prop :=
  ∀ (i : Nat) (frame : Frame α), t.frames[i]? = some frame → ∃ frame', t'.frames[i]? = some frame' ∧
    frame'.parent = frame.parent ∧ ∀ name, frame.binds name = true → frame'.binds name = true

theorem Grows.refl (t : ScopeTree α) : t.Grows t := fun _ frame hf => ⟨frame, hf, rfl, fun _ => id⟩

theorem Grows.trans (h : t.Grows t') (h' : t'.Grows t'') : t.Grows t'' := by
  intro i frame hf
  obtain ⟨frame', hf', hparent, hbinds⟩ := h i frame hf
  obtain ⟨frame'', hf'', hparent', hbinds'⟩ := h' i frame' hf'
  exact ⟨frame'', hf'', hparent'.trans hparent, fun name hn => hbinds' name (hbinds name hn)⟩

theorem Grows.size_le (h : t.Grows t') : t.frames.size ≤ t'.frames.size := by
  refine Nat.le_of_not_lt fun hlt => ?_
  obtain ⟨_, hf, -⟩ := h _ _ (Array.getElem?_eq_getElem hlt)
  rw [Array.getElem?_eq_none (Nat.le_refl _)] at hf
  cases hf

theorem binds_define_self (frame : Frame α) (name : String) (value : α) : (frame.define name value).binds name = true := by
  rw [Frame.binds, Frame.define, Assoc.lookup_insert_self]
  rfl

theorem grows_define (t : ScopeTree α) (s : ScopeId) (name : String) (value : α) :
    t.Grows (t.define s name value) := by
  intro i frame hf
  rw [define, Array.getElem?_modify]
  split
  · rw [hf]
    refine ⟨frame.define name value, rfl, rfl, fun other hother => ?_⟩
    by_cases hne : other = name
    · rw [hne]
      exact binds_define_self ..
    · rwa [Frame.binds, Frame.define, Assoc.lookup_insert_of_ne hne]
  · exact ⟨frame, hf, rfl, fun _ => id⟩

theorem grows_child (t : ScopeTree α) (parent : ScopeId) : t.Grows (t.child parent).2 := by
  intro i frame hf
  refine ⟨frame, ?_, rfl, fun _ => id⟩
  obtain ⟨hlt, hf⟩ := Array.getElem?_eq_some_iff.mp hf
  rw [child, Array.getElem?_push_lt hlt, hf]

/-! ### Chains -/

theorem frames_of_parent (h : (t.frame s).parent = some parent) : t.frames[s]? = some (t.frame s) := by
  rw [frame] at h ⊢
  cases hf : t.frames[s]? with
  | none => rw [hf] at h; cases h
  | some frame => rfl

theorem frames_of_binds (h : (t.frame s).binds name = true) : t.frames[s]? = some (t.frame s) := by
  rw [frame] at h ⊢
  cases hf : t.frames[s]? with
  | none => rw [hf] at h; cases h
  | some frame => rfl

theorem frame_of_getElem? {frame : Frame α} (h : t.frames[s]? = some frame) : t.frame s = frame := by
  rw [ScopeTree.frame, h, Option.getD_some]

theorem chainWithin_of_parent {n : Nat} (h : (t.frame s).parent = some parent) :
    t.chainWithin (n + 1) s = s :: t.chainWithin n parent := by rw [chainWithin, h]

theorem chainWithin_subset {m n : Nat} (h : m ≤ n) : t.chainWithin m s ⊆ t.chainWithin n s := by
  induction m generalizing n s with
  | zero => exact List.nil_subset _
  | succ m ih =>
    obtain ⟨n, rfl⟩ := Nat.exists_eq_add_of_lt h
    cases hp : (t.frame s).parent with
    | none =>
      rw [chainWithin, hp, chainWithin]
      exact List.cons_subset_cons _ (List.nil_subset _)
    | some parent =>
      rw [chainWithin_of_parent hp, chainWithin_of_parent hp]
      exact List.cons_subset_cons _ (ih (Nat.le_add_right m n))

theorem Grows.mem_chainWithin (h : t.Grows t') {n : Nat} {i : ScopeId} (hi : i ∈ t.chainWithin n s) :
    i ∈ t'.chainWithin n s := by
  induction n generalizing s with
  | zero => cases hi
  | succ n ih =>
    cases hp : (t.frame s).parent with
    | none =>
      rw [chainWithin, hp] at hi
      exact List.mem_cons.mpr (.inl (List.mem_singleton.mp hi))
    | some parent =>
      rw [chainWithin_of_parent hp] at hi
      obtain ⟨frame', hf', hparent, -⟩ := h _ _ (frames_of_parent hp)
      rw [← frame_of_getElem? hf', hp] at hparent
      rw [chainWithin_of_parent hparent]
      exact List.mem_cons.mpr ((List.mem_cons.mp hi).imp_right ih)

theorem contains_iff : t.contains s name = true ↔ ∃ i ∈ t.chain s, (t.frame i).binds name = true := by
  rw [contains, binder?, List.find?_isSome]

theorem contains_self (h : (t.frame s).binds name = true) : t.contains s name = true :=
  contains_iff.mpr ⟨s, by rw [chain, chainWithin]; exact List.mem_cons_self, h⟩

/-- What a scope sees it goes on seeing. -/
theorem Grows.contains (h : t.Grows t') (hc : t.contains s name = true) : t'.contains s name = true := by
  obtain ⟨i, hi, hbinds⟩ := contains_iff.mp hc
  obtain ⟨frame', hf', -, hbinds'⟩ := h _ _ (frames_of_binds hbinds)
  refine contains_iff.mpr ⟨i, h.mem_chainWithin hi, ?_⟩
  rw [frame_of_getElem? hf']
  exact hbinds' name hbinds

/-- A name that a scope sees means something there. -/
theorem isSome_get? (h : t.contains s name = true) : (t.get? s name).isSome = true := by
  obtain ⟨i, hi, hbinds⟩ := contains_iff.mp h
  rw [get?, List.findSome?_isSome_iff]
  exact ⟨i, hi, hbinds⟩

theorem contains_define (h : s < t.frames.size) (name : String) (value : α) :
    (t.define s name value).contains s name = true := by
  refine contains_self ?_
  have hf : (t.define s name value).frames[s]? = some ((t.frames[s]).define name value) := by
    rw [define, Array.getElem?_modify, if_pos rfl, Array.getElem?_eq_getElem h, Option.map_some]
  rw [frame_of_getElem? hf]
  exact binds_define_self ..

theorem grows_assign (t : ScopeTree α) (rule : AssignmentScope) (s : ScopeId) (name : String) (value : α) :
    t.Grows (t.assign rule s name value) := by
  cases rule <;> exact grows_define _ _ name value

/-- An assignment changes a binding that is seen, or binds the name in the scope. -/
theorem contains_assign (h : s < t.frames.size) (name : String) (value : α) :
    (t.assign .local s name value).contains s name = true := by
  rw [assign, assignLocal]
  cases hb : t.binder? s name with
  | none => exact contains_define h name value
  | some i =>
    refine (grows_define t i name value).contains ?_
    rw [contains, hb]
    rfl

/-- A new scope sees what the scope around it does. -/
theorem contains_child (hs : s < t.frames.size) (h : t.contains s name = true) :
    (t.child s).2.contains (t.child s).1 name = true := by
  obtain ⟨i, hi, hbinds⟩ := contains_iff.mp ((grows_child t s).contains h)
  have hparent : ((t.child s).2.frame (t.child s).1).parent = some s := by
    have hf : (t.child s).2.frames[(t.child s).1]? = some ⟨[], some s⟩ := by rw [child, Array.getElem?_push_size]
    rw [frame_of_getElem? hf]
  refine contains_iff.mpr ⟨i, ?_, hbinds⟩
  rw [chain, chainWithin_of_parent hparent]
  exact List.mem_cons_of_mem _ (chainWithin_subset hs hi)

theorem child_lt (t : ScopeTree α) (s : ScopeId) : (t.child s).1 < (t.child s).2.frames.size := by
  rw [child, Array.size_push]
  exact Nat.lt_succ_self _

end ScopeTree

end DispatchLang
