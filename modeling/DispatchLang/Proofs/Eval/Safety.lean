import DispatchLang.Proofs.Eval.Natives
import DispatchLang.Proofs.Eval.Seeing

/-!
# Computations that meet no name without a meaning

A computation is *safe* in a session if, provided the session is closed, it does not halt at a watched name without a
meaning, and leaves a closed session behind in which scopes still see what they saw. `Safe strategy watched s x P` says
so of `x` and also that `P` holds of the value that it answers.

Steps that only read, that print or that add types are safe, whatever they do otherwise. Steps that bind or store
values are if these are closed. So is what the built-in functions and methods do once their arguments are known to be of
the right kind.

## Main definitions

* `Safe`: a computation is safe.

## Main results

* `Safe.bind`: safe computations may be sequenced.
* `Safe.mapArray`, `Safe.filterArray`, `Safe.reduceArray`: operations are safe that call values, if the calls are.
-/

namespace DispatchLang

/-! ## Halting -/

/-- A fault is that a watched name has no meaning. -/
def Fault.isUndefined (watched : String → Bool) : Fault → Bool
  | .undefinedVariable name => watched name
  | _ => false

/-- An evaluation does not halt at a watched name without a meaning. -/
def Halt.IsSafe (watched : String → Bool) : Halt → Prop
  | .error e => e.fault.isUndefined watched = false
  | .exhausted => True

theorem Fault.exists_name_of_kind {fault : Fault} (h : fault.kind = .undefinedVariable) :
    ∃ name, fault = .undefinedVariable name := by
  cases fault with
  | undefinedVariable name => exact ⟨name, rfl⟩
  | dispatch e => cases e <;> cases h
  | number e => cases e <;> cases h
  | _ => cases h

/-! ## Safe computations -/

/-- A computation meets no watched name without a meaning, if all functions of the session are closed. They still are in
the session that it leaves behind, of which `P` holds and the value that is answered. -/
def Safe {α : Type} (strategy : Strategy) (watched : String → Bool) (s : Session) (x : Eval α) (P : Claim α) : Prop :=
  s.Closed strategy watched →
    match x s with
    | .ok a t => s.Precedes t ∧ t.Closed strategy watched ∧ P t a
    | .error halt _ => halt.IsSafe watched

def valuesClosed (strategy : Strategy) (watched : String → Bool) : Claim (List Value) := fun t values =>
  ∀ v ∈ values, v.Closed strategy watched t

def entriesClosed (strategy : Strategy) (watched : String → Bool) : Claim (List (String × Value)) := fun t entries =>
  ∀ e ∈ entries, e.2.Closed strategy watched t

def foundClosed (strategy : Strategy) (watched : String → Bool) : Claim (Option Value) := fun t found =>
  ∀ v, found = some v → v.Closed strategy watched t

section

variable {strategy : Strategy} {watched : String → Bool} {s t : Session} {values : List Value}

theorem valuesClosed.later (h : valuesClosed strategy watched s values) (g : s.Precedes t) :
    valuesClosed strategy watched t values :=
  fun v hv => (h v hv).later g

theorem entriesClosed.later {entries : List (String × Value)} (h : entriesClosed strategy watched s entries)
    (g : s.Precedes t) : entriesClosed strategy watched t entries := fun e he => (h e he).later g

theorem closed_nothing : Value.Closed strategy watched s .nothing := (Value.closed_iff rfl).mpr trivial

theorem valuesClosed.getD (h : valuesClosed strategy watched s values) (i : Nat) :
    (values.getD i .nothing).Closed strategy watched s := by
  rw [List.getD_eq_getElem?_getD]
  cases hi : values[i]? with
  | none => exact closed_nothing
  | some v => exact h v (List.mem_of_getElem? hi)

theorem valuesClosed.headD (h : valuesClosed strategy watched s values) :
    (values.headD .nothing).Closed strategy watched s := by
  cases values with
  | nil => exact closed_nothing
  | cons v values => exact h v List.mem_cons_self

end

namespace Safe

variable {α β : Type} {strategy : Strategy} {watched : String → Bool} {s : Session} {P : Claim α} {Q : Claim β}

theorem pure {a : α} (h : P s a) : Safe strategy watched s (Pure.pure a) P := fun hs => ⟨.refl s, hs, h⟩

/-- Safe computations may be sequenced. -/
theorem bind {x : Eval α} {f : α → Eval β} (hx : Safe strategy watched s x P)
    (hf : ∀ a t, s.Precedes t → P t a → Safe strategy watched t (f a) Q) : Safe strategy watched s (x >>= f) Q := by
  intro hs
  have hx := hx hs
  change match EStateM.bind x f s with
    | .ok a t => s.Precedes t ∧ t.Closed strategy watched ∧ Q t a
    | .error halt _ => halt.IsSafe watched
  rw [EStateM.bind]
  cases hrun : x s with
  | error halt t =>
    rw [hrun] at hx
    exact hx
  | ok a t =>
    rw [hrun] at hx
    obtain ⟨hst, ht, ha⟩ := hx
    have hf := hf a t hst ha ht
    dsimp only
    cases hrest : f a t with
    | error halt u =>
      rw [hrest] at hf
      exact hf
    | ok b u =>
      rw [hrest] at hf
      exact ⟨hst.trans hf.1, hf.2⟩

/-- The session is closed where this matters. -/
theorem ofClosed {x : Eval α} (h : s.Closed strategy watched → Safe strategy watched s x P) :
    Safe strategy watched s x P :=
  fun hs => h hs hs

theorem mono {P' : Claim α} {x : Eval α} (h : Safe strategy watched s x P)
    (hP : ∀ t a, s.Precedes t → P t a → P' t a) : Safe strategy watched s x P' := by
  intro hs
  have h := h hs
  cases hrun : x s with
  | error halt t =>
    rw [hrun] at h
    exact h
  | ok a t =>
    rw [hrun] at h
    exact ⟨h.1, h.2.1, hP t a h.1 h.2.2⟩

theorem fail {fault : Fault} (h : fault.isUndefined watched = false) :
    Safe strategy watched s (Eval.fail fault) P := fun _ => h

theorem failAt {fault : Fault} {span : Span} (h : fault.isUndefined watched = false) :
    Safe strategy watched s (Eval.failAt fault span) P := fun _ => h

theorem get {f : Session → Eval α} (h : Safe strategy watched s (f s) P) :
    Safe strategy watched s (MonadState.get >>= f) P := h

theorem read (f : Session → α) (h : P s (f s)) : Safe strategy watched s (do return f (← MonadState.get)) P := pure h

theorem located {x : Eval α} (span : Span) (h : Safe strategy watched s x P) :
    Safe strategy watched s (Eval.located span x) P := by
  intro hs
  have h := h hs
  rw [Eval.located]
  cases hrun : x s with
  | ok a t =>
    rw [hrun] at h
    exact h
  | error halt t =>
    rw [hrun] at h
    cases halt <;> exact h

/-- A step that changes the session is safe if it only adds to what scopes see and keeps all functions closed. -/
theorem modifyGet {f : Session → α × Session} (hg : s.Precedes (f s).2)
    (hc : s.Closed strategy watched → (f s).2.Closed strategy watched) (hp : P (f s).2 (f s).1) :
    Safe strategy watched s (MonadStateOf.modifyGet f) P := fun hs => ⟨hg, hc hs, hp⟩

/-- A step that leaves scopes, cells and functions as they are is safe. -/
theorem inert {f : Session → α × Session} (hscopes : (f s).2.scopes = s.scopes) (hheap : (f s).2.heap = s.heap)
    (hfunctions : (f s).2.functions = s.functions) (hoptions : (f s).2.options = s.options) (hp : P (f s).2 (f s).1) :
    Safe strategy watched s (MonadStateOf.modifyGet f) P := by
  have hg : s.Precedes (f s).2 := ⟨hscopes ▸ .refl _, fun name hn => hfunctions ▸ hn⟩
  refine modifyGet hg (fun hs => ?_) hp
  obtain ⟨h₁, h₂, h₃⟩ := hs.later hg
  exact ⟨hoptions ▸ hs.assignment, hscopes ▸ h₁, hheap ▸ h₂, hfunctions ▸ h₃⟩

/-- As many arguments are given as there are parameters, or that is what is wrong. -/
theorem checkArity (who : String) (expected given : Nat) :
    Safe strategy watched s (Eval.check (DispatchLang.checkArity who expected given)) fun _ _ => expected = given := by
  rw [DispatchLang.checkArity]
  split
  · next h => exact pure h
  · exact fail rfl

theorem checkNumber (result : Except NumberFault α) : Safe strategy watched s (Eval.checkNumber result) anything := by
  cases result with
  | ok a => exact pure trivial
  | error e => exact fail rfl

/-! ### Names -/

theorem lookup (scope : ScopeId) (name : String) :
    Safe strategy watched s (Eval.lookup scope name) (foundClosed strategy watched) :=
  ofClosed fun hs => read (fun s => s.scopes.get? scope name) fun _ hv => hs.scopes.get? hv

/-- A name that may be read has a meaning, unless it is not watched. -/
theorem lookup_seen {scope : ScopeId} {visible : List String} (hs : s.Sees scope visible) {name : String}
    (hname : Node.sees watched visible name = true) :
    Safe strategy watched s (Eval.lookup scope name) fun t found =>
      foundClosed strategy watched t found ∧ (found = none → watched name = false) := by
  refine ofClosed fun hc => read (fun s => s.scopes.get? scope name) ⟨fun _ hv => hc.scopes.get? hv, fun hnone => ?_⟩
  rw [Node.sees, Bool.or_eq_true, Bool.not_eq_true'] at hname
  refine hname.resolve_right fun hvisible => ?_
  have hsome := ScopeTree.isSome_get? (hs.contains name (List.contains_iff_mem.mp hvisible))
  rw [hnone] at hsome
  cases hsome

theorem modifyScopes {f : Session → α × ScopeTree Value} (hg : s.scopes.Grows (f s).2)
    (hc : ∀ p, s.scopes.All p → (∀ v, v.Closed strategy watched s → p v) → (f s).2.All p)
    (hp : P { s with scopes := (f s).2 } (f s).1) :
    Safe strategy watched s (MonadStateOf.modifyGet fun s => ((f s).1, { s with scopes := (f s).2 })) P := by
  have hw : s.Precedes { s with scopes := (f s).2 } := ⟨hg, fun _ => id⟩
  refine modifyGet hw (fun hs => ?_) hp
  obtain ⟨h₁, h₂, h₃⟩ := hs.later hw
  exact ⟨hs.assignment, hc _ h₁ fun v hv => hv.later hw, h₂, h₃⟩

theorem define {scope : ScopeId} (hscope : scope < s.scopes.frames.size) (name : String) {value : Value}
    (hv : value.Closed strategy watched s) :
    Safe strategy watched s (Eval.define scope name value) fun t _ => t.Sees scope [name] := by
  refine modifyScopes (f := fun s => ((), s.scopes.define scope name value)) (ScopeTree.grows_define _ scope name value)
    (fun p hall hp => hall.define (hp _ hv)) ⟨?_, List.forall_mem_singleton.mpr ?_⟩
  · exact Nat.lt_of_lt_of_le hscope (ScopeTree.grows_define _ scope name value).size_le
  · exact ScopeTree.contains_define hscope name value

theorem assign {scope : ScopeId} (hscope : scope < s.scopes.frames.size) (name : String) {value : Value}
    (hv : value.Closed strategy watched s) :
    Safe strategy watched s (Eval.assign scope name value) fun t _ => t.Sees scope [name] := by
  refine ofClosed fun hs => modifyScopes
    (f := fun s => ((), s.scopes.assign s.options.assignment scope name value)) (ScopeTree.grows_assign _ _ scope name value)
    (fun p hall hp => hall.assign (hp _ hv)) ⟨?_, List.forall_mem_singleton.mpr ?_⟩
  · exact Nat.lt_of_lt_of_le hscope (ScopeTree.grows_assign _ _ scope name value).size_le
  · dsimp only
    rw [hs.assignment]
    exact ScopeTree.contains_assign hscope name value

theorem newScope {parent : ScopeId} {visible : List String} (h : s.Sees parent visible) :
    Safe strategy watched s (Eval.newScope parent) fun t inner => t.Sees inner visible :=
  modifyScopes (f := fun s => s.scopes.child parent) (ScopeTree.grows_child _ parent) (fun _ hall _ => hall.child parent)
    ⟨ScopeTree.child_lt .., fun name hn => ScopeTree.contains_child h.there (h.contains name hn)⟩

/-- After names have been bound one after the other by steps that each bind one, the scope sees them all. -/
theorem forM {step : String × Value → Eval PUnit} {scope : ScopeId} {bindings : List (String × Value)}
    (hstep : ∀ t e, scope < t.scopes.frames.size → e.2.Closed strategy watched t →
      Safe strategy watched t (step e) fun u _ => u.Sees scope [e.1])
    (hscope : scope < s.scopes.frames.size) (h : entriesClosed strategy watched s bindings) :
    Safe strategy watched s (bindings.forM step) fun t _ => t.Sees scope (bindings.map Prod.fst) := by
  induction bindings generalizing s with
  | nil => exact pure ⟨hscope, List.forall_mem_nil _⟩
  | cons binding bindings ih =>
    obtain ⟨hb, hbs⟩ := List.forall_mem_cons.mp h
    refine (hstep s binding hscope hb).bind fun _ t hst hbound => ?_
    refine (ih hbound.there (entriesClosed.later hbs hst)).mono fun u _ htu hseen => ?_
    exact (hbound.later htu).append hseen

theorem defineAll {scope : ScopeId} (hscope : scope < s.scopes.frames.size) {bindings : List (String × Value)}
    (h : entriesClosed strategy watched s bindings) :
    Safe strategy watched s (Eval.defineAll scope bindings) fun t _ => t.Sees scope (bindings.map Prod.fst) :=
  forM (fun _ e hscope he => define hscope e.1 he) hscope h

theorem newId : Safe strategy watched s Eval.newId anything := inert rfl rfl rfl rfl trivial

/-! ### Reading and printing -/

theorem text (value : Value) : Safe strategy watched s (Eval.text value) anything := read (value.text ·.heap) trivial

theorem repr (value : Value) : Safe strategy watched s (Eval.repr value) anything := read (value.repr ·.heap) trivial

theorem texts (values : List Value) : Safe strategy watched s (Eval.texts values) anything :=
  read (fun s => values.map (·.text s.heap)) trivial

theorem typeText (via : Strategy) (value : Value) : Safe strategy watched s (Eval.typeText via value) anything :=
  get (pure trivial)

theorem equal (a b : Value) :
    Safe strategy watched s (Eval.equal a b) anything := read (fun s => a.equal s.heap b) trivial

theorem items (address : Nat) : Safe strategy watched s (Eval.items address) (valuesClosed strategy watched) :=
  ofClosed fun hs => read (fun s => (s.heap.items address).toList) (hs.heap.items address)

theorem entries (address : Nat) : Safe strategy watched s (Eval.entries address) (entriesClosed strategy watched) :=
  ofClosed fun hs => read (·.heap.entries address) (hs.heap.entries address)

theorem printLine (line : String) : Safe strategy watched s (Eval.printLine line) anything := by
  have hsame (s : Session) : let t := if s.printing then { s with output := s.output ++ line ++ "\n" } else s
      t.scopes = s.scopes ∧ t.heap = s.heap ∧ t.functions = s.functions ∧ t.options = s.options := by
    dsimp only
    split <;> exact ⟨rfl, rfl, rfl, rfl⟩
  obtain ⟨h₁, h₂, h₃, h₄⟩ := hsame s
  exact inert h₁ h₂ h₃ h₄ trivial

theorem modifyTypes (f : TypeArena → α × TypeArena) : Safe strategy watched s (Eval.modifyTypes f) anything :=
  inert rfl rfl rfl rfl trivial

/-! ### Storing -/

theorem modifyHeap {f : Session → α × Heap}
    (hf : s.Closed strategy watched → (f s).2.All (Value.Closed strategy watched s) fun _ => True)
    (hp : s.Closed strategy watched → P s (f s).1)
    (hlater : ∀ a, P s a → P { s with heap := (f s).2 } a) :
    Safe strategy watched s (MonadStateOf.modifyGet fun s => ((f s).1, { s with heap := (f s).2 })) P := by
  have hw : s.Precedes { s with heap := (f s).2 } := ⟨.refl _, fun _ => id⟩
  refine ofClosed fun hs => modifyGet hw (fun _ => ?_) (hlater _ (hp hs))
  obtain ⟨h₁, -, h₃⟩ := hs.later hw
  exact ⟨hs.assignment, h₁, (hf hs).mono (fun v hv => hv.later hw) fun _ => id, h₃⟩

theorem alloc (cell : Cell) (h : cell.All (Value.Closed strategy watched s) fun _ => True) :
    Safe strategy watched s (Eval.alloc cell) anything :=
  modifyHeap (f := fun s => s.heap.alloc cell) (fun hs => hs.heap.alloc h) (fun _ => trivial) fun _ => id

theorem arrayType (via : Strategy) (values : List Value) :
    Safe strategy watched s (Eval.arrayType via values) anything := by
  cases via with
  | direct => exact pure trivial
  | dispatch => exact get (modifyTypes _)

/-- A value with no parts that is neither a function nor a quoted tree may be answered. -/
theorem answer {value : Value} (h : value.leaves = [value]) (hv : value.IsClosed strategy watched s) :
    Safe strategy watched s (Pure.pure value) (Value.Closed strategy watched) := pure ((Value.closed_iff h).mpr hv)

theorem newArray (via : Strategy) {values : List Value} (h : valuesClosed strategy watched s values) :
    Safe strategy watched s (Eval.newArray via values) (Value.Closed strategy watched) :=
  (arrayType via values).bind fun _ _ hst _ =>
    (alloc (.array values.toArray _) ⟨h.later hst, trivial⟩).bind fun _ _ _ _ => answer rfl trivial

theorem newObject {entries : List (String × Value)} (h : entriesClosed strategy watched s entries) :
    Safe strategy watched s (Eval.newObject entries) (Value.Closed strategy watched) :=
  (alloc (.object entries) h).bind fun _ _ _ _ => answer rfl trivial

/-! ### Lists -/

section

variable {γ δ : Type}

theorem mapM {f : γ → Eval Value} {cs : List γ}
    (hf : ∀ t, s.Precedes t → ∀ c ∈ cs, Safe strategy watched t (f c) (Value.Closed strategy watched)) :
    Safe strategy watched s (cs.mapM f) (valuesClosed strategy watched) := by
  induction cs generalizing s with
  | nil => exact pure (List.forall_mem_nil _)
  | cons c cs ih =>
    rw [List.mapM_cons]
    refine (hf s (.refl s) c List.mem_cons_self).bind fun v t hst hv => ?_
    refine (ih fun u htu c hc => hf u (hst.trans htu) c (List.mem_cons_of_mem _ hc)).bind fun vs u htu hvs => ?_
    exact pure (List.forall_mem_cons.mpr ⟨hv.later htu, hvs⟩)

theorem foldlM {Q : Claim δ} {step : δ → γ → Eval δ} {cs : List γ}
    (hstep : ∀ t, s.Precedes t → ∀ d c, c ∈ cs → Q t d → Safe strategy watched t (step d c) Q)
    {start : δ} (hstart : Q s start) :
    Safe strategy watched s (cs.foldlM step start) Q := by
  induction cs generalizing s start with
  | nil => exact pure hstart
  | cons c cs ih =>
    rw [List.foldlM_cons]
    refine (hstep s (.refl s) start c List.mem_cons_self hstart).bind fun d t hst hd => ?_
    exact ih (fun u htu d c hc => hstep u (hst.trans htu) d c (List.mem_cons_of_mem _ hc)) hd

theorem filterM {f : Value → Eval Bool} {values : List Value} (h : valuesClosed strategy watched s values)
    (hf : ∀ t, s.Precedes t → ∀ v ∈ values, Safe strategy watched t (f v) anything) :
    Safe strategy watched s (values.filterM f) (valuesClosed strategy watched) := by
  have haux : ∀ values t, s.Precedes t → valuesClosed strategy watched t values →
      (∀ u, t.Precedes u → ∀ v ∈ values, Safe strategy watched u (f v) anything) →
      ∀ done, valuesClosed strategy watched t done →
      Safe strategy watched t (values.filterAuxM f done) (valuesClosed strategy watched) := by
    intro values
    induction values with
    | nil => exact fun t _ _ _ done hdone => pure hdone
    | cons v values ih =>
      intro t hst hvalues hf done hdone
      obtain ⟨hv, hvalues⟩ := List.forall_mem_cons.mp hvalues
      refine (hf t (.refl t) v List.mem_cons_self).bind fun keep u htu _ => ih u (hst.trans htu) (valuesClosed.later hvalues htu)
        (fun w huw v hv => hf w (htu.trans huw) v (List.mem_cons_of_mem _ hv)) _ ?_
      cases keep with
      | false => exact hdone.later htu
      | true => exact List.forall_mem_cons.mpr ⟨hv.later htu, hdone.later htu⟩
  exact (haux values s (.refl s) h hf [] (List.forall_mem_nil _)).bind fun done t _ hdone =>
    pure fun v hv => hdone v (List.mem_reverse.mp hv)

end

/-! ## Operations -/

theorem printValues (values : List Value) :
    Safe strategy watched s (Eval.printValues values) (Value.Closed strategy watched) :=
  (texts values).bind fun _ _ _ _ => (printLine _).bind fun _ _ _ _ => answer rfl trivial

section

variable (via : Strategy)

theorem rangeArray (start stop : Int64) :
    Safe strategy watched s (Eval.rangeArray via start stop) (Value.Closed strategy watched) :=
  (checkNumber _).bind fun range _ _ _ => newArray via fun v hv => by
    obtain ⟨n, -, rfl⟩ := List.mem_map.mp hv
    exact (Value.closed_iff rfl).mpr trivial

theorem sumArray (address : Nat) :
    Safe strategy watched s (Eval.sumArray via address) (Value.Closed strategy watched) := by
  refine (items address).bind fun values t _ _ =>
    (foldlM (Q := anything) (fun u _ total value _ _ => ?_) trivial).bind fun n _ _ _ => pure (Value.closed_ofNumber n)
  split
  · exact checkNumber _
  · exact (typeText via value).bind fun _ _ _ _ => fail rfl

theorem reverseArray (address : Nat) :
    Safe strategy watched s (Eval.reverseArray via address) (Value.Closed strategy watched) :=
  (items address).bind fun _ _ _ h => newArray via fun v hv => h v (List.mem_reverse.mp hv)

theorem concatArrays (a b : Nat) :
    Safe strategy watched s (Eval.concatArrays via a b) (Value.Closed strategy watched) :=
  (items a).bind fun _ _ _ ha => (items b).bind fun _ _ hst hb =>
    newArray via (List.forall_mem_append.mpr ⟨ha.later hst, hb⟩)

theorem splitString (text separator : String) :
    Safe strategy watched s (Eval.splitString via text separator) (Value.Closed strategy watched) :=
  newArray via (List.forall_mem_map.mpr fun _ _ => (Value.closed_iff rfl).mpr trivial)

theorem objectKeys (address : Nat) :
    Safe strategy watched s (Eval.objectKeys via address) (Value.Closed strategy watched) :=
  (entries address).bind fun _ _ _ _ =>
    newArray via (List.forall_mem_map.mpr fun _ _ => (Value.closed_iff rfl).mpr trivial)

theorem objectValues (address : Nat) :
    Safe strategy watched s (Eval.objectValues via address) (Value.Closed strategy watched) :=
  (entries address).bind fun _ _ _ h => newArray via (List.forall_mem_map.mpr h)

theorem fieldOf {receiver : Value} (h : receiver.Closed strategy watched s) (field : String) :
    Safe strategy watched s (Eval.fieldOf via receiver field) (Value.Closed strategy watched) := by
  have mismatch {fault : String → Fault} (hf : ∀ text, (fault text).isUndefined watched = false) :
      Safe strategy watched s (do Eval.fail (fault (← Eval.typeText via receiver))) (Value.Closed strategy watched) :=
    (typeText via receiver).bind fun _ _ _ _ => fail (hf _)
  refine ofClosed fun hs => get ?_
  dsimp only
  have hmember : foundClosed strategy watched s (receiver.ownField? s.heap field) :=
    fun _ hv => Value.inherited_closed.ownField? hs.heap h hv
  generalize receiver.ownField? s.heap field = member at *
  split
  · exact answer rfl trivial
  · split
    · split
      · exact pure (hmember _ rfl)
      · exact mismatch fun _ => rfl
    · split
      · exact pure (hmember _ rfl)
      · exact mismatch fun _ => rfl
    · exact mismatch fun _ => rfl

end

theorem joinArray (address : Nat) (separator : String) :
    Safe strategy watched s (Eval.joinArray address separator) (Value.Closed strategy watched) :=
  (items address).bind fun _ _ _ _ => (texts _).bind fun _ _ _ _ => answer rfl trivial

theorem pushItem (address : Nat) {item : Value} (h : item.Closed strategy watched s) :
    Safe strategy watched s (Eval.pushItem address item) (Value.Closed strategy watched) := by
  refine bind (P := anything) (modifyHeap (f := fun s => ((), s.heap.modifyItems address (·.push item)))
    (fun hs => hs.heap.modifyItems address fun items hitems => ?_) (fun _ => trivial) fun _ => id)
    fun _ _ _ _ => answer rfl trivial
  rw [Array.toList_push]
  exact List.forall_mem_append.mpr ⟨hitems, List.forall_mem_singleton.mpr h⟩

theorem popItem (address : Nat) : Safe strategy watched s (Eval.popItem address) (Value.Closed strategy watched) := by
  refine modifyHeap
    (f := fun s => (((s.heap.items address).back?).getD .nothing, s.heap.modifyItems address Array.pop))
    (fun hs => hs.heap.modifyItems address fun items hitems v hv => hitems v ?_) (fun hs => ?_)
    fun a ha => ha.later ⟨.refl _, fun _ => id⟩
  · rw [Array.toList_pop] at hv
    exact List.mem_of_mem_dropLast hv
  · dsimp only
    cases hb : (s.heap.items address).back? with
    | none => exact closed_nothing
    | some v => exact hs.heap.items address v (Array.mem_toList_iff.mpr (Array.mem_of_back? hb))

theorem formatTemplate (template : String) (values : List Value) :
    Safe strategy watched s (Eval.formatTemplate template values) (Value.Closed strategy watched) := by
  refine (texts values).bind fun filled _ _ _ => ?_
  split
  · exact answer rfl trivial
  · exact fail rfl

theorem itemAt {sequence : List Value} (h : valuesClosed strategy watched s sequence) (index : Int64) :
    Safe strategy watched s (Eval.itemAt sequence index) (Value.Closed strategy watched) := by
  rw [Eval.itemAt]
  split
  · next item hitem =>
    obtain ⟨i, -, hi⟩ := Option.bind_eq_some_iff.mp hitem
    exact pure (h item (List.mem_of_getElem? hi))
  · exact fail rfl

theorem characters (text : String) : valuesClosed strategy watched s (Eval.characters text) :=
  List.forall_mem_map.mpr fun _ _ => (Value.closed_iff rfl).mpr trivial

theorem arrayContains (address : Nat) (value : Value) :
    Safe strategy watched s (Eval.arrayContains address value) (Value.Closed strategy watched) :=
  get (answer rfl trivial)

theorem objectAt (address : Nat) (key : String) :
    Safe strategy watched s (Eval.objectAt address key) (Value.Closed strategy watched) := by
  refine (entries address).bind fun es _ _ h => pure ?_
  cases hl : es.lookup key with
  | none => exact closed_nothing
  | some v => exact h _ (Assoc.mem_of_lookup hl)

theorem objectHas (address : Nat) (key : String) :
    Safe strategy watched s (Eval.objectHas address key) (Value.Closed strategy watched) :=
  (entries address).bind fun _ _ _ _ => answer rfl trivial

theorem objectSet (address : Nat) (key : String) {value : Value} (h : value.Closed strategy watched s) :
    Safe strategy watched s (Eval.objectSet address key value) (Value.Closed strategy watched) :=
  bind (P := anything) (modifyHeap (f := fun s => ((), s.heap.setEntry address key value))
    (fun hs => hs.heap.setEntry address key h) (fun _ => trivial) fun _ => id) fun _ _ _ _ => answer rfl trivial

/-! ### Operations that call -/

/-- All calls of closed values with closed arguments are safe. -/
def Calls (strategy : Strategy) (watched : String → Bool) (call : Value → List Value → Eval Value) : Prop :=
  ∀ t callee args, callee.Closed strategy watched t → valuesClosed strategy watched t args →
    Safe strategy watched t (call callee args) (Value.Closed strategy watched)

section

variable {call : Value → List Value → Eval Value} (hcall : Calls strategy watched call)
  {f : Value} (hf : f.Closed strategy watched s) (via : Strategy) (address : Nat)
include hcall hf

theorem mapArray :
    Safe strategy watched s (Eval.mapArray via (fun x => call f [x]) address) (Value.Closed strategy watched) := by
  refine (items address).bind fun values t hst hvalues => bind (mapM fun u htu v hv => ?_) fun _ _ _ => newArray via
  exact hcall u f [v] (hf.later (hst.trans htu)) (List.forall_mem_singleton.mpr ((hvalues v hv).later htu))

theorem filterArray :
    Safe strategy watched s (Eval.filterArray via (fun x => call f [x]) address) (Value.Closed strategy watched) := by
  refine (items address).bind fun values t hst hvalues =>
    bind (filterM hvalues fun u htu v hv => ?_) fun _ _ _ => newArray via
  refine (hcall u f [v] (hf.later (hst.trans htu)) (List.forall_mem_singleton.mpr ((hvalues v hv).later htu))).bind
    fun answer _ _ _ => ?_
  cases answer with
  | bool b => exact pure trivial
  | _ => exact (typeText via _).bind fun _ _ _ _ => fail rfl

theorem reduceArray {start : Value} (hstart : start.Closed strategy watched s) :
    Safe strategy watched s (Eval.reduceArray (fun total x => call f [total, x]) address start)
      (Value.Closed strategy watched) := by
  refine (items address).bind fun values t hst hvalues => foldlM (fun u htu total v hv htotal => ?_) (hstart.later hst)
  exact hcall u f [total, v] (hf.later (hst.trans htu))
    (List.forall_mem_cons.mpr ⟨htotal, List.forall_mem_singleton.mpr ((hvalues v hv).later htu)⟩)

end

end Safe

end DispatchLang
