import DispatchLang.Proofs.Eval.Views

/-!
# One run tracks another one

Two runs of the direct strategy side by side, the second of which has other numbers for closures and functions
than the first. What the second session looks like is determined by the first session and a view
(`View.session`), so what has to be carried through a run is an invariant of the first session and of the
view (`Session.Traced`).

`Tracks D φ s x y R` means that the computation `y`, begun in the session that `φ` shows, tracks the
computation `x`, begun in `s`: where `x` gives something, `y` gives something that is related to it by `R`
under a view that has come out of `φ`, and where `x` fails, `y` fails. If `x` gives up nothing is
said about `y`. The second run may know functions by their names alone; then it notes the same declarations
as the first one, and otherwise none.

## Main results

* `Tracks.bind`: computations that track each other may be sequenced.
* The rules for reading, binding names, making values and storing them.
-/

namespace DispatchLang

variable {D : Dialect} {named : Bool} {φ φ' : View named} {s s' : Session}

/-! ## Sessions under a view -/

def View.session (φ : View named) (s : Session) : Session :=
  { s with
    scopes := s.scopes.map φ.value
    heap := φ.heap s.heap
    nextId := φ.next
    functions := if named then s.functions else [] }

/-- The invariant of a session that is seen under a view. -/
structure Session.Traced (D : Dialect) (φ : View named) (s : Session) : Prop where
  /-- Different numbers stand for different numbers. -/
  injective : φ.Injective
  /-- The numbers that stand for something have been handed out. -/
  used {n m : Nat} (h : φ.ids n = some m) : n < s.nextId ∧ m < φ.next
  /-- There are only built-in types. -/
  arena : s.arena = .initial
  /-- Names are bound to traced values. -/
  scopes : s.scopes.All (Value.Traced D φ)
  /-- Cells hold traced values. -/
  heap : s.heap.Traced D φ
  /-- The functions are declarations of the dialect. -/
  noted : ∀ e ∈ s.functions, ∃ d, e.2.declaration? = some d ∧ D.Declares e.1 d.params d.body

/-- A value may get a new number in both runs. -/
theorem Session.Traced.extends_adding (hs : s.Traced D φ) : φ.Extends (φ.adding s.nextId) := by
  intro n m h
  have hne : n ≠ s.nextId := Nat.ne_of_lt (hs.used h).1
  rw [View.ids_adding, if_neg hne]
  exact h

theorem Session.Traced.adding (hs : s.Traced D φ) :
    ({ s with nextId := s.nextId + 1 } : Session).Traced D (φ.adding s.nextId) where
  injective a b n ha hb := by
    rw [View.ids_adding] at ha hb
    split at ha <;> split at hb
    · next ha' hb' => rw [ha', hb']
    · cases ha
      exact absurd (hs.used hb).2 (Nat.lt_irrefl _)
    · cases hb
      exact absurd (hs.used ha).2 (Nat.lt_irrefl _)
    · exact hs.injective ha hb
  used {n m} h := by
    rw [View.ids_adding] at h
    split at h
    · next hn =>
      cases h
      exact ⟨hn ▸ Nat.lt_succ_self _, Nat.lt_succ_self _⟩
    · exact ⟨Nat.lt_succ_of_lt (hs.used h).1, Nat.lt_succ_of_lt (hs.used h).2⟩
  arena := hs.arena
  scopes := hs.scopes.mono fun _ hv => hv.mono hs.extends_adding
  heap := hs.heap.mono hs.extends_adding
  noted := hs.noted

/-- What the two runs see when they take a new number. -/
theorem Session.Traced.session_adding (hs : s.Traced D φ) :
    (φ.adding s.nextId).session { s with nextId := s.nextId + 1 } =
      { φ.session s with nextId := φ.next + 1 } := by
  rw [View.session, View.session, hs.extends_adding.heap_eq hs.heap,
    hs.extends_adding.scopes_eq hs.scopes]
  rfl

/-- A declaration may be noted. -/
theorem Session.Traced.note (hs : s.Traced D φ) {name : String} {d : Declaration}
    (hd : D.Declares name d.params d.body) :
    ({ s with functions := Assoc.insert name (.ofDeclaration name d) s.functions } : Session).Traced
      D φ :=
  { hs with
    noted := fun e he => by
      rcases Assoc.eq_or_mem_of_mem_insert he with rfl | he
      · exact ⟨d, rfl, hd⟩
      · exact hs.noted e he }

/-- The values that an array holds are traced. -/
theorem Heap.Traced.items {heap : Heap} (h : heap.Traced D φ) {address : Nat} :
    ∀ v ∈ (heap.items address).toList, v.Traced D φ := by
  intro v hv
  rw [Heap.items] at hv
  split at hv
  · next hc => exact h address _ hc v hv
  · cases hv

/-- The values that an object holds are traced. -/
theorem Heap.Traced.entries {heap : Heap} (h : heap.Traced D φ) {address : Nat} :
    ∀ e ∈ heap.entries address, e.2.Traced D φ := by
  intro e he
  rw [Heap.entries] at he
  split at he
  · next hc => exact h address _ hc e he
  · cases he

/-! ## Tracking -/

variable {α β γ δ : Type} {R : View named → α → β → Prop} {Q : View named → γ → δ → Prop}

/-- The outcome of one computation tracks the outcome of another one. -/
inductive Tracked (D : Dialect) (φ : View named) (R : View named → α → β → Prop) :
    EStateM.Result Halt Session α → EStateM.Result Halt Session β → Prop where
  /-- Both give something. -/
  | given {a : α} {b : β} {φ' : View named} {s : Session} (he : φ.Extends φ') (hs : s.Traced D φ')
      (hr : R φ' a b) : Tracked D φ R (.ok a s) (.ok b (φ'.session s))
  /-- Both fail. -/
  | failed {e e' : RuntimeError} {s m : Session} :
      Tracked D φ R (.error (.error e) s) (.error (.error e') m)
  /-- The first one gives up. -/
  | gaveUp {s : Session} {r : EStateM.Result Halt Session β} :
      Tracked D φ R (.error .exhausted s) r

/-- One computation tracks another one when they are begun in two sessions of which one is seen as the other. -/
def Tracks (D : Dialect) (φ : View named) (s : Session) (x : Eval α) (y : Eval β)
    (R : View named → α → β → Prop) : Prop :=
  s.Traced D φ → Tracked D φ R (x s) (y (φ.session s))

theorem Tracked.after {r : EStateM.Result Halt Session α} {r' : EStateM.Result Halt Session β}
    (he : φ.Extends φ') (h : Tracked D φ' R r r') : Tracked D φ R r r' := by
  cases h with
  | given he' hs hr => exact .given (he.trans he') hs hr
  | failed => exact .failed
  | gaveUp => exact .gaveUp

namespace Tracks

/-- Something may be shown for traced sessions only. -/
theorem ofTraced {x : Eval α} {y : Eval β} (h : s.Traced D φ → Tracks D φ s x y R) :
    Tracks D φ s x y R := fun hs => h hs hs

theorem pure {a : α} {b : β} (h : R φ a b) : Tracks D φ s (Pure.pure a) (Pure.pure b) R :=
  fun hs => .given (.refl φ) hs h

/-- Computations that track each other may be sequenced. -/
theorem bind {x : Eval α} {y : Eval β} {f : α → Eval γ} {g : β → Eval δ} (h : Tracks D φ s x y R)
    (hfg : ∀ a b φ' s', φ.Extends φ' → R φ' a b → Tracks D φ' s' (f a) (g b) Q) :
    Tracks D φ s (x >>= f) (y >>= g) Q := by
  intro hs
  have hxy := h hs
  change Tracked D φ Q (EStateM.bind x f s) (EStateM.bind y g (φ.session s))
  rw [EStateM.bind, EStateM.bind]
  generalize x s = r, y (φ.session s) = r' at hxy
  cases hxy with
  | given he hs hr => exact (hfg _ _ _ _ he hr hs).after he
  | failed => exact .failed
  | gaveUp => exact .gaveUp

theorem fails {x : Eval α} {y : Eval β} (hx : x.Fails s) (hy : y.Fails (φ.session s)) :
    Tracks D φ s x y R := by
  intro _
  obtain ⟨e, s', hx⟩ := hx
  obtain ⟨e', m, hy⟩ := hy
  rw [hx, hy]
  exact .failed

theorem located {x : Eval α} {y : Eval β} (h : Tracks D φ s x y R) (span : Span) :
    Tracks D φ s (Eval.located span x) (Eval.located span y) R := by
  intro hs
  have hxy := h hs
  rw [Eval.located, Eval.located]
  generalize x s = r, y (φ.session s) = r' at hxy ⊢
  cases hxy with
  | given he hs hr => exact .given he hs hr
  | failed => exact .failed
  | gaveUp => exact .gaveUp

/-- Both look at their sessions and go on. -/
theorem get {f : Session → Eval α} {g : Session → Eval β}
    (h : Tracks D φ s (f s) (g (φ.session s)) R) :
    Tracks D φ s (MonadState.get >>= f) (MonadState.get >>= g) R := h

/-- The first one looks at its session and goes on. -/
theorem get_left {f : Session → Eval α} {y : Eval β} :
    Tracks D φ s (MonadState.get >>= f) y R ↔ Tracks D φ s (f s) y R := Iff.rfl

/-- The first one looks up what is noted and goes on. -/
theorem noted_left {name : String} {f : Option Declaration → Eval α} {y : Eval β} :
    Tracks D φ s (Eval.noted? name >>= f) y R ↔
      Tracks D φ s (f (FunctionTable.declaration? s.functions name)) y R := Iff.rfl

/-- The second one looks up what is noted and goes on. -/
theorem noted_right {name : String} {x : Eval α} {g : Option Declaration → Eval β} :
    Tracks D φ s x (Eval.noted? name >>= g) R ↔
      Tracks D φ s x (g (FunctionTable.declaration? (φ.session s).functions name)) R := Iff.rfl

/-- The first one gives up unless something is so. -/
theorem demand {condition : Bool} {f : Unit → Eval α} {y : Eval β}
    (h : condition = true → Tracks D φ s (f ()) y R) :
    Tracks D φ s (Eval.demand condition >>= f) y R := by
  cases condition with
  | false => exact fun _ => .gaveUp
  | true => exact h rfl

/-- Both change their sessions. -/
theorem modifyGet {f : Session → α × Session} {g : Session → β × Session} {b : β} (φ' : View named)
    (hg : g (φ.session s) = (b, φ'.session (f s).2)) (he : φ.Extends φ')
    (hs : s.Traced D φ → (f s).2.Traced D φ') (hr : R φ' (f s).1 b) :
    Tracks D φ s (MonadStateOf.modifyGet f) (MonadStateOf.modifyGet g) R := by
  intro hs'
  change Tracked D φ R (.ok (f s).1 (f s).2) (.ok (g (φ.session s)).1 (g (φ.session s)).2)
  rw [hg]
  exact .given he (hs hs') hr

end Tracks

/-! ## How results are related -/

/-- Both runs have the same. -/
def same {α : Type} : View named → α → α → Prop := fun _ a b => b = a

/-- The second run has the value as it is seen. -/
def seen (D : Dialect) : View named → Value → Value → Prop := fun φ v w =>
  v.Traced D φ ∧ w = φ.value v

/-- The second run has the values as they are seen. -/
def seenAll (D : Dialect) : View named → List Value → List Value → Prop := fun φ vs ws =>
  (∀ v ∈ vs, v.Traced D φ) ∧ ws = vs.map φ.value

/-- The second run has the values under names as they are seen. -/
def seenEntries (D : Dialect) : View named → List (String × Value) → List (String × Value) → Prop :=
  fun φ es fs => (∀ e ∈ es, e.2.Traced D φ) ∧ fs = φ.entries es

/-- Both runs have something, or none of them. -/
def optional (R : View named → α → β → Prop) : View named → Option α → Option β → Prop := fun φ =>
  Option.Rel (R φ)

theorem seen.mono {v w : Value} (h : seen D φ v w) (he : φ.Extends φ') : seen D φ' v w :=
  ⟨h.1.mono he, by rw [he.value_eq h.1, h.2]⟩

theorem seenAll.mono {vs ws : List Value} (h : seenAll D φ vs ws) (he : φ.Extends φ') :
    seenAll D φ' vs ws :=
  ⟨fun v hv => (h.1 v hv).mono he, by
    rw [h.2]
    exact List.map_congr_left fun v hv => (he.value_eq (h.1 v hv)).symm⟩

theorem seenEntries.mono {es fs : List (String × Value)} (h : seenEntries D φ es fs)
    (he : φ.Extends φ') : seenEntries D φ' es fs :=
  ⟨fun e hmem => (h.1 e hmem).mono he, by rw [he.entries_eq h.1, h.2]⟩

theorem seenAll.cons {v w : Value} {vs ws : List Value} (h : seen D φ v w) (hs : seenAll D φ vs ws) :
    seenAll D φ (v :: vs) (w :: ws) :=
  ⟨List.forall_mem_cons.mpr ⟨h.1, hs.1⟩, by rw [List.map_cons, h.2, hs.2]⟩

theorem seenAll.append {vs ws vs' ws' : List Value} (h : seenAll D φ vs ws)
    (h' : seenAll D φ vs' ws') : seenAll D φ (vs ++ vs') (ws ++ ws') :=
  ⟨List.forall_mem_append.mpr ⟨h.1, h'.1⟩, by rw [List.map_append, h.2, h'.2]⟩

theorem seenAll.zip {vs ws : List Value} (h : seenAll D φ vs ws) (names : List String) :
    seenEntries D φ (names.zip vs) (names.zip ws) := by
  refine ⟨fun e he => h.1 e.2 (List.of_mem_zip he).2, ?_⟩
  rw [h.2, List.zip_map_right]
  rfl

theorem seenEntries.insert {es fs : List (String × Value)} {v w : Value} (h : seenEntries D φ es fs)
    (name : String) (hv : seen D φ v w) :
    seenEntries D φ (Assoc.insert name v es) (Assoc.insert name w fs) := by
  refine ⟨fun e he => ?_, ?_⟩
  · rcases Assoc.eq_or_mem_of_mem_insert he with rfl | he
    · exact hv.1
    · exact h.1 e he
  · rw [h.2, hv.2]
    exact Assoc.insert_map φ.value name v es

/-! ## Rules -/

namespace Tracks

variable {v w : Value}

theorem read {f g : Session → α} (h : g (φ.session s) = f s) :
    Tracks D φ s (do return f (← MonadState.get)) (do return g (← MonadState.get)) same :=
  get (pure h)

theorem lookup (scope : ScopeId) (name : String) :
    Tracks D φ s (Eval.lookup scope name) (Eval.lookup scope name) (optional (seen D)) := by
  refine ofTraced fun hs => get (pure ?_)
  have hget : (φ.session s).scopes.get? scope name = (s.scopes.get? scope name).map φ.value :=
    ScopeTree.get?_map _ _ _ _
  rw [hget]
  cases hv : s.scopes.get? scope name with
  | none => exact .none
  | some v => exact .some ⟨hs.scopes.get? hv, rfl⟩

theorem define (scope : ScopeId) (name : String) (h : seen D φ v w) :
    Tracks D φ s (Eval.define scope name v) (Eval.define scope name w) same := by
  obtain ⟨hv, rfl⟩ := h
  refine modifyGet φ ?_ (.refl φ) (fun hs => { hs with scopes := hs.scopes.define hv }) rfl
  dsimp only [View.session]
  rw [ScopeTree.define_map]

theorem assign (scope : ScopeId) (name : String) (h : seen D φ v w) :
    Tracks D φ s (Eval.assign scope name v) (Eval.assign scope name w) same := by
  obtain ⟨hv, rfl⟩ := h
  refine modifyGet φ ?_ (.refl φ) (fun hs => { hs with scopes := hs.scopes.assign hv }) rfl
  dsimp only [View.session]
  rw [ScopeTree.assign_map]

/-- Doing something with one binding after the other. -/
theorem forBindings {act : String → Value → Eval PUnit}
    (hact : ∀ (φ : View named) s name v w, seen D φ v w →
      Tracks D φ s (act name v) (act name w) same)
    {es fs : List (String × Value)} (h : seenEntries D φ es fs) :
    Tracks D φ s (es.forM fun (name, v) => act name v) (fs.forM fun (name, v) => act name v) same := by
  obtain ⟨hes, rfl⟩ := h
  induction es generalizing φ s with
  | nil => exact pure rfl
  | cons e es ih =>
    obtain ⟨he, hes⟩ := List.forall_mem_cons.mp hes
    refine (hact φ s e.1 e.2 (φ.value e.2) ⟨he, rfl⟩).bind fun _ _ φ' s' hext _ => ?_
    have hrest := @ih φ' s' fun e hmem => (hes e hmem).mono hext
    rwa [hext.entries_eq hes] at hrest

theorem defineAll (scope : ScopeId) {es fs : List (String × Value)} (h : seenEntries D φ es fs) :
    Tracks D φ s (Eval.defineAll scope es) (Eval.defineAll scope fs) same :=
  forBindings (fun _ _ name _ _ hv => define scope name hv) h

theorem assignAll (scope : ScopeId) {es fs : List (String × Value)} (h : seenEntries D φ es fs) :
    Tracks D φ s (es.forM fun (name, bound) => Eval.assign scope name bound)
      (fs.forM fun (name, bound) => Eval.assign scope name bound) same :=
  forBindings (fun _ _ name _ _ hv => assign scope name hv) h

theorem newScope (parent : ScopeId) :
    Tracks D φ s (Eval.newScope parent) (Eval.newScope parent) same := by
  refine modifyGet φ ?_ (.refl φ) (fun hs => { hs with scopes := hs.scopes.child parent }) rfl
  dsimp only [View.session]
  rw [ScopeTree.child_map]

/-- Both take a number, and from then on the one stands for the other. -/
theorem newId : Tracks D φ s Eval.newId Eval.newId fun φ n m => φ.ids n = some m := by
  refine ofTraced fun hs => modifyGet (b := φ.next) (φ.adding s.nextId) ?_ hs.extends_adding
    Session.Traced.adding (if_pos rfl)
  rw [hs.session_adding]
  rfl

/-- A number that only the first one takes stands for nothing. -/
theorem newId_left {f : Nat → Eval α} {y : Eval β}
    (h : Tracks D φ { s with nextId := s.nextId + 1 } (f s.nextId) y R) :
    Tracks D φ s (Eval.newId >>= f) y R := fun hs =>
  h { hs with used := fun hn => ⟨Nat.lt_succ_of_lt (hs.used hn).1, (hs.used hn).2⟩ }

/-- Both note a declaration, if functions are known by their names. -/
theorem note {φ : View true} {name : String} {d : Declaration} (hd : D.Declares name d.params d.body) :
    Tracks D φ s (Eval.note name d) (Eval.note name d) same :=
  modifyGet φ rfl (.refl φ) (fun hs => hs.note hd) rfl

theorem printLine (line : String) :
    Tracks D φ s (Eval.printLine line) (Eval.printLine line) same := by
  refine modifyGet φ ?_ (.refl φ) (fun hs => ?_) rfl
  · dsimp only [View.session]
    split <;> rfl
  · dsimp only
    split
    · exact { hs with }
    · exact hs

theorem text (v : Value) : Tracks D φ s (Eval.text v) (Eval.text (φ.value v)) same :=
  read φ.text_value

theorem texts (vs : List Value) :
    Tracks D φ s (Eval.texts vs) (Eval.texts (vs.map φ.value)) same := by
  refine read ?_
  rw [List.map_map]
  exact List.map_congr_left fun v _ => φ.text_value

theorem typeText (v : Value) :
    Tracks D φ s (Eval.typeText .direct v) (Eval.typeText .direct (φ.value v)) same :=
  read φ.shapeName_value

theorem check (result : Except Fault α) :
    Tracks D φ s (Eval.check result) (Eval.check result) same := by
  cases result with
  | ok a => exact pure rfl
  | error e => exact fails ⟨_, _, rfl⟩ ⟨_, _, rfl⟩

theorem checkNumber (result : Except NumberFault α) :
    Tracks D φ s (Eval.checkNumber result) (Eval.checkNumber result) same := by
  cases result with
  | ok a => exact pure rfl
  | error e => exact fails ⟨_, _, rfl⟩ ⟨_, _, rfl⟩

theorem items (address : Nat) :
    Tracks D φ s (Eval.items address) (Eval.items address) (seenAll D) := by
  have hitems : (φ.session s).heap.items address = (s.heap.items address).map φ.value :=
    φ.items_heap address
  refine ofTraced fun hs => get (pure ⟨hs.heap.items, ?_⟩)
  rw [hitems, Array.toList_map]

theorem alloc {cell : Cell} (h : cell.Traced D φ) :
    Tracks D φ s (Eval.alloc cell) (Eval.alloc (φ.cell cell)) same := by
  refine modifyGet φ ?_ (.refl φ)
    (fun hs => { hs with heap := fun address found hc => ?_ }) rfl
  · simp [View.session, View.heap, Heap.alloc, Heap.size]
  · rw [Heap.alloc, Array.getElem?_push] at hc
    split at hc
    · exact Option.some.inj hc ▸ h
    · exact hs.heap address found hc

theorem newArray {vs ws : List Value} (h : seenAll D φ vs ws) :
    Tracks D φ s (Eval.newArray .direct vs) (Eval.newArray .direct ws) (seen D) := by
  obtain ⟨hvs, rfl⟩ := h
  have hcell : φ.cell (.array vs.toArray .any) = .array (vs.map φ.value).toArray .any := by
    rw [View.cell, List.map_toArray]
  have hstore : Tracks D φ s (Eval.alloc (.array vs.toArray .any))
      (Eval.alloc (φ.cell (.array vs.toArray .any))) same := alloc hvs
  rw [hcell] at hstore
  -- The direct strategy gives no type to an array.
  change Tracks D φ s (do return .array (← Eval.alloc (.array vs.toArray .any)))
    (do return .array (← Eval.alloc (.array (vs.map φ.value).toArray .any))) (seen D)
  refine hstore.bind fun address _ φ' _ _ heq => ?_
  obtain rfl := heq
  exact pure ⟨trivial, rfl⟩

theorem newObject {es fs : List (String × Value)} (h : seenEntries D φ es fs) :
    Tracks D φ s (Eval.newObject es) (Eval.newObject fs) (seen D) := by
  obtain ⟨hes, rfl⟩ := h
  have hstore : Tracks D φ s (Eval.alloc (.object es)) (Eval.alloc (φ.cell (.object es))) same :=
    alloc hes
  refine hstore.bind fun address _ φ' _ _ heq => ?_
  obtain rfl := heq
  exact pure ⟨trivial, rfl⟩

end Tracks

end DispatchLang
