import DispatchLang.Proofs.Eval.Seeing
import DispatchLang.Proofs.Grammar.WellFormed
import DispatchLang.Proofs.Value.Stored

/-!
# Computations that obey a discipline

A discipline says of which nodes programs may be made, and which faults may be raised when such programs run. Only two
faults depend on what a program looks like: that something cannot be assigned to, and that a pair stands where none
belongs. A discipline may forbid these if it forbids the nodes that raise them.

A session is orderly if its heap is in order, if all values that are bound to names belong to the heap, and if all
code that is kept anywhere, in closures, in functions, in quoted trees and behind generic functions, is made of nodes
that may be evaluated. `Obey d strategy s x y P` says of two computations that they do the same in an orderly session, that they
leave an orderly session behind whether they give a value or halt, that they only halt with faults that may be raised,
and that `P` holds of the value that they give.

Two computations are looked at, and not only one, because evaluators can then be compared that treat nodes differently
of which no program is made. Where the evaluator for the parts of a tree is not asked, the two are the same.

## Main definitions

* `Discipline`: the nodes that may be evaluated and the faults that may be raised.
* `Session.Orderly`: a session is in order and only holds code that may be evaluated.
* `Obey`: two computations do the same and obey a discipline.

## Main results

* `Obey.bind`: such computations may be sequenced.
* `Obey.mapArray`, `Obey.filterArray`, `Obey.reduceArray`: so are operations that call values, if the calls are.
-/

namespace DispatchLang

/-! ## Disciplines -/

/-- A fault is one of those that depend on what a program looks like. -/
def Fault.isOfForm : Fault → Bool
  | .mismatch .assignmentTarget | .mismatch .strayPair => true
  | _ => false

/-- The nodes that may be evaluated and the faults that may be raised. -/
structure Discipline where
  /-- The nodes that may be evaluated. -/
  admits : Node → Prop
  /-- The faults that may be raised. -/
  raises : Fault → Prop
  /-- With a node its children may be evaluated. -/
  child : ∀ {node child : Node}, admits node → child ∈ node.children → admits child
  /-- What does not depend on the form of the program may always be raised. -/
  others : ∀ {fault : Fault}, fault.isOfForm = false → raises fault
  /-- Where something else than a target may be assigned to, the fault may be raised. -/
  target : ∀ {span : Span} {target value : Node}, admits (.assign span target value) →
    target.isTarget = true ∨ raises (.mismatch .assignmentTarget)
  /-- Where there may be a pair, the fault may be raised. -/
  pair : ∀ {span : Span} {key value : Node}, admits (.pair span key value) → raises (.mismatch .strayPair)

namespace Discipline

/-- Everything may be evaluated, and everything may be raised. -/
def lax : Discipline where
  admits _ := True
  raises _ := True
  child _ _ := trivial
  others _ := trivial
  target _ := .inr trivial
  pair _ := trivial

end Discipline

/-- An evaluation halts with a fault that may be raised, or because it nests too deeply. -/
def Halt.Obeys (d : Discipline) : Halt → Prop
  | .error e => d.raises e.fault
  | .exhausted => True

/-! ## Fields without types -/

/-- Under the direct strategy fields may hold anything. -/
def UntypedFields (strategy : Strategy) (fields : FieldTypes) : Prop :=
  strategy = .direct → ∀ field ∈ fields, field.2 = .any

namespace TypeArena

variable {strategy : Strategy} {arena : TypeArena}

/-- The fields of all types with fields may hold anything, under the direct strategy. -/
def Untyped (strategy : Strategy) (arena : TypeArena) : Prop :=
  ∀ definition ∈ arena.types, ∀ params fields, definition.kind = .struct params fields → UntypedFields strategy fields

theorem untyped_dispatch : arena.Untyped .dispatch := fun _ _ _ _ _ hdirect => nomatch hdirect

theorem Untyped.get {id : TypeId} {params : List String} {fields : FieldTypes} (h : arena.Untyped strategy)
    (hkind : (arena.get id).kind = .struct params fields) : UntypedFields strategy fields := by
  rw [TypeArena.get] at hkind
  cases hd : arena.types[id]? with
  | none =>
    rw [hd] at hkind
    cases hkind
  | some definition =>
    rw [hd] at hkind
    exact h definition (Array.mem_of_getElem? hd) params fields hkind

theorem Untyped.add {definition : TypeDef} (h : arena.Untyped strategy)
    (hd : ∀ params fields, definition.kind = .struct params fields → UntypedFields strategy fields) :
    (arena.add definition).2.Untyped strategy := by
  intro other hother
  rcases Array.mem_push.mp hother with hother | rfl
  · exact h other hother
  · exact hd

theorem Untyped.arrayOf (h : arena.Untyped strategy) (element : TypeId) : (arena.arrayOf element).2.Untyped strategy := by
  rw [TypeArena.arrayOf, applied]
  split
  · exact h
  · exact h.add nofun

end TypeArena

/-! ## Code that is kept -/

namespace Value

/-- The code that a value itself is made of may be evaluated, and it makes no instances with fields of particular types
under the direct strategy. -/
def Admitted (d : Discipline) (strategy : Strategy) : Value → Prop
  | .closure _ _ body _ => ∀ node ∈ body, d.admits node
  | .function _ _ _ body _ => d.admits body
  | .quoted body => d.admits body
  | .constructor _ c => UntypedFields strategy c.fields
  | _ => True

/-- A value belongs to a heap, and all code in it may be evaluated. -/
structure Kept (d : Discipline) (strategy : Strategy) (heap : Heap) (value : Value) : Prop where
  /-- It belongs to the heap. -/
  stored : value.Stored strategy heap
  /-- The code in it may be evaluated. -/
  code : ∀ w ∈ value.parts, w.Admitted d strategy

variable {d : Discipline} {strategy : Strategy} {heap heap' : Heap} {value : Value}

theorem Kept.later (h : value.Kept d strategy heap) (g : heap.Grows heap') : value.Kept d strategy heap' :=
  ⟨h.stored.later g, h.code⟩

theorem inherited_kept : Inherited (Kept d strategy heap) := fun type typeName variant fields h e he =>
  ⟨inherited_stored type typeName variant fields h.stored e he,
    inherited_parts (p := Admitted d strategy) type typeName variant fields h.code e he⟩

theorem kept_of_parts (h : value.parts = [value]) (hp : value.Placed strategy heap) (hc : value.Admitted d strategy) :
    value.Kept d strategy heap :=
  ⟨stored_of_parts h hp, h ▸ List.forall_mem_singleton.mpr hc⟩

/-- The code of a value that has no parts may be evaluated. -/
theorem Kept.admitted (h : value.Kept d strategy heap) : value.Admitted d strategy := h.code value value.self_mem_parts

theorem kept_inst {type : TypeId} {typeName : String} {variant : Option String} {fields : List (String × Value)}
    (htype : strategy = .direct → type = .any) (h : ∀ e ∈ fields, e.2.Kept d strategy heap) :
    (inst type typeName variant fields).Kept d strategy heap :=
  ⟨stored_inst.mpr ⟨htype, fun e he => (h e he).stored⟩, forall_parts_inst.mpr ⟨trivial, fun e he => (h e he).code⟩⟩

end Value

def Method.CodeAdmitted (d : Discipline) (m : Method FunctionBody) : Prop :=
  match m.implementation with
  | .primitive _ => True
  | .declared _ body _ => d.admits body

/-- A session is in order, and all code that is kept in it may be evaluated. Fields are of particular types only where
values are told apart by type. -/
structure Session.Orderly (d : Discipline) (strategy : Strategy) (s : Session) : Prop where
  /-- The heap is in order. -/
  heap : s.heap.Tidy strategy
  /-- What is stored in the heap is kept. -/
  cells : s.heap.All (Value.Kept d strategy s.heap) fun _ => True
  /-- The values that are bound to names are kept. -/
  scopes : s.scopes.All (Value.Kept d strategy s.heap)
  /-- Fields may hold anything under the direct strategy. -/
  types : s.arena.Untyped strategy
  /-- The methods of functions may be run, if functions are called by type. -/
  functions : strategy = .dispatch → ∀ e ∈ s.functions, e.2.Keeps (Method.CodeAdmitted d)

/-- Two computations do the same in an orderly session and leave an orderly session behind. They only halt as may be,
and `P` holds of the session that they leave behind and of the value that they give. -/
def Obey {α : Type} (d : Discipline) (strategy : Strategy) (s : Session) (x y : Eval α) (P : Claim α) : Prop :=
  s.Orderly d strategy → x s = y s ∧
    match y s with
    | .ok a t => s.heap.Grows t.heap ∧ t.Orderly d strategy ∧ P t a
    | .error halt t => t.Orderly d strategy ∧ halt.Obeys d

abbrev Obeys {α : Type} (d : Discipline) (strategy : Strategy) (s : Session) (x : Eval α) (P : Claim α) : Prop :=
  Obey d strategy s x x P

/-! ## What is given -/

def kept (d : Discipline) (strategy : Strategy) : Claim Value := fun t value => value.Kept d strategy t.heap

def allKept (d : Discipline) (strategy : Strategy) : Claim (List Value) := fun t values =>
  ∀ v ∈ values, v.Kept d strategy t.heap

def entriesKept (d : Discipline) (strategy : Strategy) : Claim (List (String × Value)) := fun t entries =>
  ∀ e ∈ entries, e.2.Kept d strategy t.heap

def foundKept (d : Discipline) (strategy : Strategy) : Claim (Option Value) := fun t found =>
  ∀ v, found = some v → v.Kept d strategy t.heap

section

variable {d : Discipline} {strategy : Strategy} {s t : Session} {values : List Value} {entries : List (String × Value)}

theorem allKept.later (h : allKept d strategy s values) (g : s.heap.Grows t.heap) : allKept d strategy t values :=
  fun v hv => (h v hv).later g

theorem entriesKept.later (h : entriesKept d strategy s entries) (g : s.heap.Grows t.heap) :
    entriesKept d strategy t entries := fun e he => (h e he).later g

theorem kept_nothing {heap : Heap} : Value.Kept d strategy heap .nothing := Value.kept_of_parts rfl trivial trivial

theorem kept_ofNumber {heap : Heap} (n : Number) : (Value.ofNumber n).Kept d strategy heap := by
  cases n <;> exact Value.kept_of_parts rfl trivial trivial

theorem kept_ofLiteral {heap : Heap} (literal : Literal) : (Value.ofLiteral literal).Kept d strategy heap := by
  cases literal <;> exact Value.kept_of_parts rfl trivial trivial

theorem allKept.getD (h : allKept d strategy s values) (i : Nat) :
    (values.getD i .nothing).Kept d strategy s.heap := by
  rw [List.getD_eq_getElem?_getD]
  cases hi : values[i]? with
  | none => exact kept_nothing
  | some v => exact h v (List.mem_of_getElem? hi)

theorem allKept.headD (h : allKept d strategy s values) : (values.headD .nothing).Kept d strategy s.heap := by
  cases values with
  | nil => exact kept_nothing
  | cons v values => exact h v List.mem_cons_self

end

/-! ## Rules -/

namespace Obey

variable {α β : Type} {d : Discipline} {strategy : Strategy} {s : Session} {P : Claim α} {Q : Claim β}

theorem pure {a : α} (h : P s a) : Obeys d strategy s (Pure.pure a) P := fun hs => ⟨rfl, .refl s.heap, hs, h⟩

/-- Computations that obey a discipline may be sequenced. -/
theorem bind {x y : Eval α} {f g : α → Eval β} (hx : Obey d strategy s x y P)
    (hf : ∀ a t, s.heap.Grows t.heap → P t a → Obey d strategy t (f a) (g a) Q) :
    Obey d strategy s (x >>= f) (y >>= g) Q := by
  intro hs
  obtain ⟨heq, hx⟩ := hx hs
  change EStateM.bind x f s = EStateM.bind y g s ∧ match EStateM.bind y g s with
    | .ok a t => s.heap.Grows t.heap ∧ t.Orderly d strategy ∧ Q t a
    | .error halt t => t.Orderly d strategy ∧ halt.Obeys d
  rw [EStateM.bind, EStateM.bind, heq]
  cases hrun : y s with
  | error halt t =>
    rw [hrun] at hx
    exact ⟨rfl, hx⟩
  | ok a t =>
    rw [hrun] at hx
    obtain ⟨hst, ht, ha⟩ := hx
    obtain ⟨heq', hf⟩ := hf a t hst ha ht
    refine ⟨heq', ?_⟩
    dsimp only
    cases hrest : g a t with
    | error halt u =>
      rw [hrest] at hf
      exact hf
    | ok b u =>
      rw [hrest] at hf
      exact ⟨hst.trans hf.1, hf.2⟩

/-- The session is orderly where this matters. -/
theorem ofOrderly {x y : Eval α} (h : s.Orderly d strategy → Obey d strategy s x y P) : Obey d strategy s x y P :=
  fun hs => h hs hs

theorem throw {halt : Halt} (h : halt.Obeys d) : Obeys d strategy s (MonadExcept.throw halt) P := fun hs => ⟨rfl, hs, h⟩

/-- Faults that do not depend on what a program looks like may be raised. -/
theorem fail {fault : Fault} (h : fault.isOfForm = false) : Obeys d strategy s (Eval.fail fault) P := throw (d.others h)

theorem failAt {fault : Fault} (h : fault.isOfForm = false) (span : Span) :
    Obeys d strategy s (Eval.failAt fault span) P := throw (d.others h)

theorem get {f g : Session → Eval α} (h : Obey d strategy s (f s) (g s) P) :
    Obey d strategy s (MonadState.get >>= f) (MonadState.get >>= g) P := h

theorem read (f : Session → α) (h : P s (f s)) : Obeys d strategy s (do return f (← MonadState.get)) P := pure h

theorem located {x y : Eval α} (span : Span) (h : Obey d strategy s x y P) :
    Obey d strategy s (Eval.located span x) (Eval.located span y) P := by
  intro hs
  obtain ⟨heq, h⟩ := h hs
  rw [Eval.located, Eval.located, heq]
  refine ⟨rfl, ?_⟩
  cases hrun : y s with
  | ok a t =>
    rw [hrun] at h
    exact h
  | error halt t =>
    rw [hrun] at h
    cases halt <;> exact h

/-- A step that leaves scopes, cells and functions as they are. -/
theorem inert {f : Session → α × Session} (hscopes : (f s).2.scopes = s.scopes) (hheap : (f s).2.heap = s.heap)
    (hfunctions : (f s).2.functions = s.functions)
    (htypes : s.arena.Untyped strategy → (f s).2.arena.Untyped strategy) (hp : P (f s).2 (f s).1) :
    Obeys d strategy s (MonadStateOf.modifyGet f) P := fun hs =>
  have ht : (f s).2.Orderly d strategy :=
    ⟨hheap ▸ hs.heap, hheap ▸ hs.cells, hscopes ▸ hheap ▸ hs.scopes, htypes hs.types, hfunctions ▸ hs.functions⟩
  ⟨rfl, hheap ▸ .refl _, ht, hp⟩

theorem check {result : Except Fault α} (h : ∀ fault, result = .error fault → fault.isOfForm = false) :
    Obeys d strategy s (Eval.check result) anything := by
  cases result with
  | ok a => exact pure trivial
  | error fault => exact fail (h fault rfl)

theorem checkArity (who : String) (expected given : Nat) :
    Obeys d strategy s (Eval.check (DispatchLang.checkArity who expected given)) anything := by
  refine check fun fault h => ?_
  rw [DispatchLang.checkArity] at h
  split at h <;> cases h
  rfl

theorem checkNumber (result : Except NumberFault α) : Obeys d strategy s (Eval.checkNumber result) anything := by
  cases result with
  | ok a => exact pure trivial
  | error fault => exact fail rfl

/-! ### Names -/

theorem lookup (scope : ScopeId) (name : String) :
    Obeys d strategy s (Eval.lookup scope name) (foundKept d strategy) :=
  ofOrderly fun hs => read (fun s => s.scopes.get? scope name) fun _ hv => hs.scopes.get? hv

theorem modifyScopes {f : Session → α × ScopeTree Value}
    (h : s.scopes.All (Value.Kept d strategy s.heap) → (f s).2.All (Value.Kept d strategy s.heap)) :
    Obeys d strategy s (MonadStateOf.modifyGet fun s => ((f s).1, { s with scopes := (f s).2 })) anything :=
  fun hs => ⟨rfl, .refl _, ⟨hs.heap, hs.cells, h hs.scopes, hs.types, hs.functions⟩, trivial⟩

section

variable (scope : ScopeId) (name : String) {value : Value} (hv : value.Kept d strategy s.heap)
include hv

theorem define : Obeys d strategy s (Eval.define scope name value) anything :=
  modifyScopes (f := fun s => ((), s.scopes.define scope name value)) (·.define hv)

theorem assign : Obeys d strategy s (Eval.assign scope name value) anything :=
  modifyScopes (f := fun s => ((), s.scopes.assign s.options.assignment scope name value)) (·.assign hv)

end

theorem newScope (parent : ScopeId) : Obeys d strategy s (Eval.newScope parent) anything :=
  modifyScopes (f := fun s => s.scopes.child parent) (·.child parent)

theorem forM {step : String × Value → Eval PUnit} {bindings : List (String × Value)}
    (hstep : ∀ t e, e.2.Kept d strategy t.heap → Obeys d strategy t (step e) anything)
    (h : entriesKept d strategy s bindings) : Obeys d strategy s (bindings.forM step) anything := by
  induction bindings generalizing s with
  | nil => exact pure trivial
  | cons binding bindings ih =>
    obtain ⟨hb, hbs⟩ := List.forall_mem_cons.mp h
    exact (hstep s binding hb).bind fun _ t hst _ => ih (entriesKept.later hbs hst)

theorem defineAll (scope : ScopeId) {bindings : List (String × Value)} (h : entriesKept d strategy s bindings) :
    Obeys d strategy s (Eval.defineAll scope bindings) anything :=
  forM (fun _ e he => define scope e.1 he) h

theorem newId : Obeys d strategy s Eval.newId anything := inert rfl rfl rfl id trivial

/-! ### Reading and printing -/

theorem text (value : Value) : Obeys d strategy s (Eval.text value) anything := read (value.text ·.heap) trivial

theorem repr (value : Value) : Obeys d strategy s (Eval.repr value) anything := read (value.repr ·.heap) trivial

theorem texts (values : List Value) : Obeys d strategy s (Eval.texts values) anything :=
  read (fun s => values.map (·.text s.heap)) trivial

theorem typeText (via : Strategy) (value : Value) : Obeys d strategy s (Eval.typeText via value) anything :=
  get (pure trivial)

theorem equal (a b : Value) : Obeys d strategy s (Eval.equal a b) anything := read (fun s => a.equal s.heap b) trivial

theorem items (address : Nat) : Obeys d strategy s (Eval.items address) (allKept d strategy) :=
  ofOrderly fun hs => read (fun s => (s.heap.items address).toList) (hs.cells.items address)

theorem entries (address : Nat) : Obeys d strategy s (Eval.entries address) (entriesKept d strategy) :=
  ofOrderly fun hs => read (·.heap.entries address) (hs.cells.entries address)

theorem printLine (line : String) : Obeys d strategy s (Eval.printLine line) anything := by
  have hsame (s : Session) : let t := if s.printing then { s with output := s.output ++ line ++ "\n" } else s
      t.scopes = s.scopes ∧ t.heap = s.heap ∧ t.functions = s.functions ∧ t.arena = s.arena := by
    dsimp only
    split <;> exact ⟨rfl, rfl, rfl, rfl⟩
  obtain ⟨hscopes, hheap, hfunctions, harena⟩ := hsame s
  exact inert hscopes hheap hfunctions (fun htypes => harena ▸ htypes) trivial

theorem modifyTypes {f : TypeArena → α × TypeArena}
    (h : s.arena.Untyped strategy → (f s.arena).2.Untyped strategy) : Obeys d strategy s (Eval.modifyTypes f) anything :=
  inert rfl rfl rfl h trivial

/-- What is wrong is said with the name of a type or of a shape. -/
theorem mismatched {fault : String → Mismatch} (h : ∀ text, (Fault.mismatch (fault text)).isOfForm = false)
    (via : Strategy) (value : Value) :
    Obeys d strategy s (do Eval.fail (.mismatch (fault (← Eval.typeText via value))) : Eval α) P :=
  (typeText via value).bind fun text _ _ _ => fail (h text)

/-! ### Storing -/

/-- A step that changes the heap, where what was stored in it still is. -/
theorem modifyHeap {f : Session → α × Heap} (hg : s.heap.Grows (f s).2)
    (ht : s.Orderly d strategy → (f s).2.Tidy strategy ∧ (f s).2.All (Value.Kept d strategy s.heap) fun _ => True)
    (hp : s.Orderly d strategy → P { s with heap := (f s).2 } (f s).1) :
    Obeys d strategy s (MonadStateOf.modifyGet fun s => ((f s).1, { s with heap := (f s).2 })) P :=
  fun hs => ⟨rfl, hg, ⟨(ht hs).1, (ht hs).2.mono (fun _ hv => hv.later hg) fun _ => id,
    hs.scopes.mono fun _ hv => hv.later hg, hs.types, hs.functions⟩, hp hs⟩

/-- The address of a new cell is that of what is stored there. -/
theorem alloc {cell : Cell} (h : cell.All (Value.Kept d strategy s.heap) fun _ => True) (hk : cell.DistinctKeys) :
    Obeys d strategy s (Eval.alloc cell) fun t address => (cell.valueAt address).Kept d strategy t.heap := by
  have hstored := h.mono (fun _ hv => hv.stored) fun _ => id
  refine modifyHeap (f := fun s => s.heap.alloc cell) (s.heap.grows_alloc cell)
    (fun hs => ⟨hs.heap.alloc hstored hk, hs.cells.alloc h⟩) fun hs => ?_
  have hnew : (s.heap.alloc cell).2.container? s.heap.size = some (cell.valueAt s.heap.size) := by
    rw [Heap.container?, Heap.alloc]
    dsimp only
    rw [Heap.size, Array.getElem?_push_size]
    rfl
  cases cell with
  | array items type => exact Value.kept_of_parts rfl hnew trivial
  | object entries => exact Value.kept_of_parts rfl hnew trivial

theorem arrayType (via : Strategy) (values : List Value) : Obeys d strategy s (Eval.arrayType via values) anything := by
  cases via with
  | direct => exact pure trivial
  | dispatch => exact get (modifyTypes fun h => h.arrayOf _)

/-- A value with no parts, no address and no code may be answered. -/
theorem answer {value : Value} (h : value.parts = [value]) (hv : value.Placed strategy s.heap)
    (hc : value.Admitted d strategy) : Obeys d strategy s (Pure.pure value) (kept d strategy) :=
  pure (Value.kept_of_parts h hv hc)

theorem newArray (via : Strategy) {values : List Value} (h : allKept d strategy s values) :
    Obeys d strategy s (Eval.newArray via values) (kept d strategy) :=
  (arrayType via values).bind fun _ _ hst _ =>
    have hcell := alloc (s := _) (show (Cell.array values.toArray _).All _ _ from ⟨h.later hst, trivial⟩) trivial
    hcell.bind fun _ _ _ h => pure h

theorem newObject {entries : List (String × Value)} (h : entriesKept d strategy s entries)
    (hk : DistinctKeys entries) : Obeys d strategy s (Eval.newObject entries) (kept d strategy) :=
  (alloc (show (Cell.object entries).All _ _ from h) hk).bind fun _ _ _ h => pure h

/-! ### Lists -/

section

variable {γ δ : Type}

theorem mapM {f g : γ → Eval Value} {cs : List γ}
    (hf : ∀ t, s.heap.Grows t.heap → ∀ c ∈ cs, Obey d strategy t (f c) (g c) (kept d strategy)) :
    Obey d strategy s (cs.mapM f) (cs.mapM g) (allKept d strategy) := by
  induction cs generalizing s with
  | nil => exact pure (List.forall_mem_nil _)
  | cons c cs ih =>
    rw [List.mapM_cons, List.mapM_cons]
    refine (hf s (.refl _) c List.mem_cons_self).bind fun v t hst hv => ?_
    refine (ih fun u htu c hc => hf u (hst.trans htu) c (List.mem_cons_of_mem _ hc)).bind fun vs u htu hvs => ?_
    exact pure (List.forall_mem_cons.mpr ⟨Value.Kept.later hv htu, hvs⟩)

theorem foldlM {Q : Claim δ} {step step' : δ → γ → Eval δ} {cs : List γ}
    (hstep : ∀ t, s.heap.Grows t.heap → ∀ b c, c ∈ cs → Q t b → Obey d strategy t (step b c) (step' b c) Q) {start : δ}
    (hstart : Q s start) : Obey d strategy s (cs.foldlM step start) (cs.foldlM step' start) Q := by
  induction cs generalizing s start with
  | nil => exact pure hstart
  | cons c cs ih =>
    rw [List.foldlM_cons, List.foldlM_cons]
    refine (hstep s (.refl _) start c List.mem_cons_self hstart).bind fun b t hst hb => ?_
    exact ih (fun u htu b c hc => hstep u (hst.trans htu) b c (List.mem_cons_of_mem _ hc)) hb

theorem filterM {f g : Value → Eval Bool} {values : List Value} (h : allKept d strategy s values)
    (hf : ∀ t, s.heap.Grows t.heap → ∀ v ∈ values, Obey d strategy t (f v) (g v) anything) :
    Obey d strategy s (values.filterM f) (values.filterM g) (allKept d strategy) := by
  have haux : ∀ values t, s.heap.Grows t.heap → allKept d strategy t values →
      (∀ u, t.heap.Grows u.heap → ∀ v ∈ values, Obey d strategy u (f v) (g v) anything) →
      ∀ done, allKept d strategy t done →
      Obey d strategy t (values.filterAuxM f done) (values.filterAuxM g done) (allKept d strategy) := by
    intro values
    induction values with
    | nil => exact fun t _ _ _ done hdone => pure hdone
    | cons v values ih =>
      intro t hst hvalues hf done hdone
      obtain ⟨hv, hvalues⟩ := List.forall_mem_cons.mp hvalues
      refine (hf t (.refl _) v List.mem_cons_self).bind fun keep u htu _ => ih u (hst.trans htu)
        (allKept.later hvalues htu) (fun w huw v hv => hf w (htu.trans huw) v (List.mem_cons_of_mem _ hv)) _ ?_
      cases keep with
      | false => exact hdone.later htu
      | true => exact List.forall_mem_cons.mpr ⟨hv.later htu, hdone.later htu⟩
  exact (haux values s (.refl _) h hf [] (List.forall_mem_nil _)).bind fun done t _ hdone =>
    pure fun v hv => hdone v (List.mem_reverse.mp hv)

end

/-! ## Operations -/

theorem printValues (values : List Value) : Obeys d strategy s (Eval.printValues values) (kept d strategy) :=
  (texts values).bind fun _ _ _ _ => (printLine _).bind fun _ _ _ _ => answer rfl trivial trivial

section

variable (via : Strategy)

theorem rangeArray (start stop : Int64) :
    Obeys d strategy s (Eval.rangeArray via start stop) (kept d strategy) :=
  (checkNumber _).bind fun range _ _ _ => newArray via fun v hv => by
    obtain ⟨n, -, rfl⟩ := List.mem_map.mp hv
    exact Value.kept_of_parts rfl trivial trivial

theorem sumArray (address : Nat) : Obeys d strategy s (Eval.sumArray via address) (kept d strategy) := by
  refine (items address).bind fun values t _ _ =>
    (foldlM (Q := anything) (fun u _ total value _ _ => ?_) trivial).bind fun n _ _ _ => pure (kept_ofNumber n)
  split
  · exact checkNumber _
  · exact mismatched (fun _ => rfl) via value

theorem reverseArray (address : Nat) : Obeys d strategy s (Eval.reverseArray via address) (kept d strategy) :=
  (items address).bind fun _ _ _ h => newArray via fun v hv => h v (List.mem_reverse.mp hv)

theorem concatArrays (a b : Nat) : Obeys d strategy s (Eval.concatArrays via a b) (kept d strategy) :=
  (items a).bind fun _ _ _ ha => (items b).bind fun _ _ hst hb =>
    newArray via (List.forall_mem_append.mpr ⟨ha.later hst, hb⟩)

theorem splitString (text separator : String) :
    Obeys d strategy s (Eval.splitString via text separator) (kept d strategy) :=
  newArray via (List.forall_mem_map.mpr fun _ _ => Value.kept_of_parts rfl trivial trivial)

theorem objectKeys (address : Nat) : Obeys d strategy s (Eval.objectKeys via address) (kept d strategy) :=
  (entries address).bind fun _ _ _ _ =>
    newArray via (List.forall_mem_map.mpr fun _ _ => Value.kept_of_parts rfl trivial trivial)

theorem objectValues (address : Nat) : Obeys d strategy s (Eval.objectValues via address) (kept d strategy) :=
  (entries address).bind fun _ _ _ h => newArray via (List.forall_mem_map.mpr h)

theorem fieldOf {receiver : Value} (h : receiver.Kept d strategy s.heap) (field : String) :
    Obeys d strategy s (Eval.fieldOf via receiver field) (kept d strategy) := by
  have wrong {fault : String → FieldFault} :
      Obeys d strategy s (do Eval.fail (.field (fault (← Eval.typeText via receiver)))) (kept d strategy) :=
    (typeText via receiver).bind fun _ _ _ _ => fail rfl
  refine ofOrderly fun hs => get ?_
  dsimp only
  have hmember : foundKept d strategy s (receiver.ownField? s.heap field) :=
    fun _ hv => Value.inherited_kept.ownField? hs.cells h hv
  generalize receiver.ownField? s.heap field = member at *
  split
  · exact answer rfl trivial trivial
  · split
    · split
      · exact pure (hmember _ rfl)
      · exact wrong
    · split
      · exact pure (hmember _ rfl)
      · exact wrong
    · exact wrong

end

theorem joinArray (address : Nat) (separator : String) :
    Obeys d strategy s (Eval.joinArray address separator) (kept d strategy) :=
  (items address).bind fun _ _ _ _ => (texts _).bind fun _ _ _ _ => answer rfl trivial trivial

/-- A container that is changed is still where it was. -/
theorem pushItem {address : Nat} (ha : (Value.array address).Kept d strategy s.heap) {item : Value}
    (h : item.Kept d strategy s.heap) : Obeys d strategy s (Eval.pushItem address item) (kept d strategy) := by
  have hg := s.heap.grows_modifyItems address (·.push item)
  have hpush {p : Value → Prop} (hitem : p item) (items : Array Value) (hitems : ∀ v ∈ items.toList, p v) :
      ∀ v ∈ (items.push item).toList, p v := by
    rw [Array.toList_push]
    exact List.forall_mem_append.mpr ⟨hitems, List.forall_mem_singleton.mpr hitem⟩
  refine bind (P := fun t _ => (Value.array address).Kept d strategy t.heap)
    (modifyHeap (f := fun s => ((), s.heap.modifyItems address (·.push item))) hg
      (fun hs => ⟨hs.heap.modifyItems address fun items => hpush h.stored items,
        hs.cells.modifyItems address fun items => hpush h items⟩) fun _ => ha.later hg) fun _ _ _ h => pure h

theorem popItem (address : Nat) : Obeys d strategy s (Eval.popItem address) (kept d strategy) := by
  have hg := s.heap.grows_modifyItems address Array.pop
  have hpop {p : Value → Prop} (items : Array Value) (hitems : ∀ v ∈ items.toList, p v) :
      ∀ v ∈ items.pop.toList, p v := by
    rw [Array.toList_pop]
    exact fun v hv => hitems v (List.mem_of_mem_dropLast hv)
  refine modifyHeap
    (f := fun s => (((s.heap.items address).back?).getD .nothing, s.heap.modifyItems address Array.pop)) hg
    (fun hs => ⟨hs.heap.modifyItems address hpop, hs.cells.modifyItems address hpop⟩) fun hs => ?_
  dsimp only
  cases hb : (s.heap.items address).back? with
  | none => exact kept_nothing
  | some v =>
    have hv := hs.cells.items address v (Array.mem_toList_iff.mpr (Array.mem_of_back? hb))
    exact hv.later hg

theorem formatTemplate (template : String) (values : List Value) :
    Obeys d strategy s (Eval.formatTemplate template values) (kept d strategy) := by
  refine (texts values).bind fun filled _ _ _ => ?_
  split
  · exact answer rfl trivial trivial
  · exact fail rfl

theorem itemAt {sequence : List Value} (h : allKept d strategy s sequence) (index : Int64) :
    Obeys d strategy s (Eval.itemAt sequence index) (kept d strategy) := by
  rw [Eval.itemAt]
  split
  · next item hitem =>
    obtain ⟨i, -, hi⟩ := Option.bind_eq_some_iff.mp hitem
    exact pure (h item (List.mem_of_getElem? hi))
  · exact fail rfl

theorem characters (text : String) : allKept d strategy s (Eval.characters text) :=
  List.forall_mem_map.mpr fun _ _ => Value.kept_of_parts rfl trivial trivial

theorem arrayContains (address : Nat) (value : Value) :
    Obeys d strategy s (Eval.arrayContains address value) (kept d strategy) := get (answer rfl trivial trivial)

theorem objectAt (address : Nat) (key : String) :
    Obeys d strategy s (Eval.objectAt address key) (kept d strategy) := by
  refine (entries address).bind fun es _ _ h => pure ?_
  cases hl : es.lookup key with
  | none => exact kept_nothing
  | some v => exact h _ (Assoc.mem_of_lookup hl)

theorem objectHas (address : Nat) (key : String) :
    Obeys d strategy s (Eval.objectHas address key) (kept d strategy) :=
  (entries address).bind fun _ _ _ _ => answer rfl trivial trivial

theorem objectSet {address : Nat} (ha : (Value.object address).Kept d strategy s.heap) (key : String) {value : Value}
    (h : value.Kept d strategy s.heap) : Obeys d strategy s (Eval.objectSet address key value) (kept d strategy) := by
  have hg := s.heap.grows_setEntry address key value
  exact bind (P := fun t _ => (Value.object address).Kept d strategy t.heap)
    (modifyHeap (f := fun s => ((), s.heap.setEntry address key value)) hg
      (fun hs => ⟨hs.heap.setEntry address key h.stored, hs.cells.setEntry address key h⟩) fun _ => ha.later hg)
    fun _ _ _ h => pure h

/-! ### Operations that call -/

def Calls (d : Discipline) (strategy : Strategy) (call call' : Value → List Value → Eval Value) : Prop :=
  ∀ t callee args, callee.Kept d strategy t.heap → allKept d strategy t args →
    Obey d strategy t (call callee args) (call' callee args) (kept d strategy)

section

variable {call call' : Value → List Value → Eval Value} (hcall : Calls d strategy call call')
  {f : Value} (hf : f.Kept d strategy s.heap) (via : Strategy) (address : Nat)
include hcall hf

theorem mapArray : Obey d strategy s (Eval.mapArray via (fun x => call f [x]) address)
    (Eval.mapArray via (fun x => call' f [x]) address) (kept d strategy) := by
  refine (items address).bind fun values t hst hvalues => bind (mapM fun u htu v hv => ?_) fun _ _ _ => newArray via
  exact hcall u f [v] (hf.later (hst.trans htu)) (List.forall_mem_singleton.mpr ((hvalues v hv).later htu))

theorem filterArray : Obey d strategy s (Eval.filterArray via (fun x => call f [x]) address)
    (Eval.filterArray via (fun x => call' f [x]) address) (kept d strategy) := by
  refine (items address).bind fun values t hst hvalues =>
    bind (filterM hvalues fun u htu v hv => ?_) fun _ _ _ => newArray via
  refine (hcall u f [v] (hf.later (hst.trans htu)) (List.forall_mem_singleton.mpr ((hvalues v hv).later htu))).bind
    fun answer _ _ _ => ?_
  cases answer with
  | bool b => exact pure trivial
  | _ => exact mismatched (fun _ => rfl) via _

theorem reduceArray {start : Value} (hstart : start.Kept d strategy s.heap) :
    Obey d strategy s (Eval.reduceArray (fun total x => call f [total, x]) address start)
      (Eval.reduceArray (fun total x => call' f [total, x]) address start) (kept d strategy) := by
  refine (items address).bind fun values t hst hvalues => foldlM (fun u htu total v hv htotal => ?_) (hstart.later hst)
  exact hcall u f [total, v] (hf.later (hst.trans htu))
    (List.forall_mem_cons.mpr ⟨htotal, List.forall_mem_singleton.mpr ((hvalues v hv).later htu)⟩)

end

end Obey

end DispatchLang
