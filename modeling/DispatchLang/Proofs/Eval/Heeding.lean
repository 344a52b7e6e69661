import DispatchLang.Proofs.Eval.Destructuring
import DispatchLang.Proofs.Eval.Instantiation
import DispatchLang.Proofs.Eval.Natives
import DispatchLang.Proofs.Eval.Runs
import DispatchLang.Proofs.Eval.Seeing
import DispatchLang.Proofs.Typing.Balance
import DispatchLang.Proofs.Value.Stored

/-!
# What is stored in one object

There are many ways to read an object and many values that refer to it, but only one operation stores anything in an object
that is there: the method `set`. A rule says for one object what may be stored in it under which key (`StorageRule`), and
a computation *heeds* the rule if, whatever else it does, nothing has been stored in the object but what the rule permits.
All built-in operations except that one heed every rule, and that one heeds it where the rule permits what it stores.

What an object is after many things have been stored in it can be said without the list of its entries: the keys are those
that were used, in the order in which each was used first (`Assoc.keysOf`), and under a key there is what was stored under
it last (`Assoc.last?`).

Under the dispatch strategy the operations are found in tables. So it also matters that `set` is found under no other
name, and only for three arguments (`Session.SetsOnly`), and that this stays so.

## Main definitions

* `StorageRule`: what may be stored in an object.
* `Heeds`: a computation stores nothing else in it.

## Main results

* `Assoc.names_insertAll`, `Assoc.lookup_insertAll_nil`, `Assoc.values_insertAll`: the keys of an object that things were
  stored in, what is under a key, and its values.
* `Heeds.primitive`, `Heeds.callback`: the built-in operations of the dispatch strategy.
* `Heeds.directMethod?`: the built-in methods of the direct strategy.
-/

namespace DispatchLang

/-! ## What objects are after things have been stored in them -/

namespace Assoc

variable {α : Type}

/-- The keys that things were stored under, in the order of their first use. -/
def keysOf (stores : List (String × α)) : List String := (stores.map Prod.fst).eraseDups

def last? (stores : List (String × α)) (key : String) : Option α := stores.reverse.lookup key

theorem keysOf_concat (stores : List (String × α)) (key : String) (value : α) :
    keysOf (stores ++ [(key, value)]) = keysOf stores ++ if key ∈ keysOf stores then [] else [key] := by
  rw [keysOf, List.map_append, List.eraseDups_append, keysOf]
  congr 1
  by_cases h : key ∈ stores.map Prod.fst
  · rw [if_pos (List.mem_eraseDups.mpr h)]
    simp [List.removeAll, h]
  · rw [if_neg fun hmem => h (List.mem_eraseDups.mp hmem)]
    simp [List.removeAll, h, List.eraseDups_cons]

theorem last?_concat (stores : List (String × α)) (key other : String) (value : α) :
    last? (stores ++ [(key, value)]) other = if other = key then some value else last? stores other := by
  rw [last?, List.reverse_append, List.reverse_singleton, List.singleton_append, List.lookup_cons]
  by_cases h : other = key
  · rw [if_pos h, h, beq_self_eq_true]
  · rw [if_neg h, beq_eq_false_iff_ne.mpr h]
    rfl

theorem insertAll_append (first second entries : List (String × α)) :
    insertAll (first ++ second) entries = insertAll second (insertAll first entries) := List.foldl_append

theorem insertAll_concat (stores entries : List (String × α)) (key : String) (value : α) :
    insertAll (stores ++ [(key, value)]) entries = insert key value (insertAll stores entries) :=
  insertAll_append stores [(key, value)] entries

/-- The keys of an object stand in the order in which they were first used. -/
theorem names_insertAll (stores : List (String × α)) : (insertAll stores []).map Prod.fst = keysOf stores := by
  induction stores using List.reverseRecOn with
  | nil => rfl
  | append_singleton stores store ih =>
    obtain ⟨key, value⟩ := store
    have hmem : (((insertAll stores []).lookup key).isSome = true) = (key ∈ keysOf stores) := by
      rw [lookup_isSome_iff, ih]
    simp only [insertAll_concat, names_insert, ih, keysOf_concat, hmem]

theorem lookup_insertAll_nil (stores : List (String × α)) (key : String) :
    (insertAll stores []).lookup key = last? stores key := by
  induction stores using List.reverseRecOn with
  | nil => rfl
  | append_singleton stores store ih =>
    obtain ⟨other, value⟩ := store
    rw [insertAll_concat, last?_concat]
    by_cases h : key = other
    · rw [if_pos h, h, lookup_insert_self]
    · rw [if_neg h, lookup_insert_of_ne h, ih]

theorem nodup_keysOf (stores : List (String × α)) : (keysOf stores).Nodup := by
  induction stores using List.reverseRecOn with
  | nil => exact List.nodup_nil
  | append_singleton stores store ih =>
    rw [keysOf_concat]
    split
    · rwa [List.append_nil]
    · next hnew => exact ih.append (List.nodup_singleton _) (List.disjoint_singleton.mpr hnew)

/-- Where keys are distinct, the things are what is found under the keys. -/
theorem values_eq_filterMap {entries : List (String × α)} (h : (entries.map Prod.fst).Nodup) :
    entries.map Prod.snd = (entries.map Prod.fst).filterMap fun key => entries.lookup key := by
  induction entries with
  | nil => rfl
  | cons entry entries ih =>
    obtain ⟨key, value⟩ := entry
    obtain ⟨hnew, hrest⟩ := List.nodup_cons.mp h
    have hothers : (entries.map Prod.fst).filterMap (fun other => ((key, value) :: entries).lookup other) =
        (entries.map Prod.fst).filterMap fun key => entries.lookup key := by
      refine List.filterMap_congr fun other hother => ?_
      rw [List.lookup_cons, beq_eq_false_iff_ne.mpr fun heq : other = key => hnew (heq ▸ hother)]
    rw [List.map_cons, List.map_cons, List.filterMap_cons_some (by rw [List.lookup_cons, beq_self_eq_true]), hothers,
      ih hrest]

/-- The values of an object stand in the order of the keys. -/
theorem values_insertAll (stores : List (String × α)) :
    (insertAll stores []).map Prod.snd = (keysOf stores).filterMap (last? stores) := by
  have hkeys := names_insertAll stores
  rw [values_eq_filterMap (hkeys ▸ nodup_keysOf stores), hkeys]
  exact List.filterMap_congr fun key _ => lookup_insertAll_nil stores key

end Assoc

/-! ## Rules -/

/-- What may be stored in an object. -/
structure StorageRule where
  /-- The address of the object. -/
  address : Nat
  /-- Whether a value may be stored under a key. -/
  permits : String → Value → Bool

namespace StorageRule

variable (rule : StorageRule) {heap heap' heap'' : Heap}

/-- Whether a method call stores something in the object that the rule does not permit. -/
def forbids (receiver : Value) (method : String) (args : List Value) : Bool :=
  match receiver, args with
  | .object address, [.string key, value] =>
    address == rule.address && method == "set" && !rule.permits key value
  | _, _ => false

/-- From one heap to a later one only what the rule permits has been stored in the object. -/
def Follows (heap heap' : Heap) : Prop :=
  ∀ entries, heap.cells[rule.address]? = some (.object entries) →
    ∃ stores : List (String × Value), (∀ store ∈ stores, rule.permits store.1 store.2 = true) ∧
      heap'.cells[rule.address]? = some (.object (Assoc.insertAll stores entries))

variable {rule}

theorem Follows.refl (heap : Heap) : rule.Follows heap heap := fun _ h => ⟨[], List.forall_mem_nil _, h⟩

theorem Follows.trans (h : rule.Follows heap heap') (h' : rule.Follows heap' heap'') : rule.Follows heap heap'' := by
  intro entries hentries
  obtain ⟨first, hfirst, hentries'⟩ := h entries hentries
  obtain ⟨second, hsecond, hentries''⟩ := h' _ hentries'
  exact ⟨first ++ second, List.forall_mem_append.mpr ⟨hfirst, hsecond⟩, Assoc.insertAll_append .. ▸ hentries''⟩

/-- Nothing is stored in an object where cells stay as they are. -/
theorem follows_of_same (h : ∀ entries, heap.cells[rule.address]? = some (.object entries) →
    heap'.cells[rule.address]? = some (.object entries)) : rule.Follows heap heap' :=
  fun entries hentries => ⟨[], List.forall_mem_nil _, h entries hentries⟩

theorem follows_alloc (heap : Heap) (cell : Cell) : rule.Follows heap (heap.alloc cell).2 := by
  refine follows_of_same fun entries h => ?_
  obtain ⟨hlt, -⟩ := Array.getElem?_eq_some_iff.mp h
  rw [Heap.alloc]
  dsimp only
  rw [Array.getElem?_push, if_neg (Nat.ne_of_lt hlt), h]

theorem follows_modifyItems (heap : Heap) (address : Nat) (f : Array Value → Array Value) :
    rule.Follows heap (heap.modifyItems address f) := by
  refine follows_of_same fun entries h => ?_
  rw [Heap.modifyItems, Array.getElem?_modify, h]
  split <;> rfl

/-- Something may be stored in another object, or if the rule permits it. -/
theorem follows_setEntry (heap : Heap) {address : Nat} {key : String} {value : Value}
    (h : address = rule.address → rule.permits key value = true) : rule.Follows heap (heap.setEntry address key value) := by
  intro entries hentries
  rw [Heap.setEntry, Array.getElem?_modify, hentries]
  split
  · next heq => exact ⟨[(key, value)], List.forall_mem_singleton.mpr (h heq), rfl⟩
  · exact ⟨[], List.forall_mem_nil _, rfl⟩

end StorageRule

/-! ## Tables -/

/-- Nothing in the tables stores anything in objects but the method `set` with its three parameters. -/
structure Session.SetsOnly (s : Session) : Prop where
  operators : ∀ e ∈ s.operators, e.2.Keeps fun m => m.implementation ≠ .set
  functions : ∀ e ∈ s.functions, e.2.Keeps fun m => m.implementation ≠ .primitive .set
  methods : ∀ e ∈ s.methods, e.2.Keeps fun m => m.implementation = .primitive .set → e.1 = "set" ∧ m.signature.length = 3

/-- Nothing but what the rule permits is stored in the object between two sessions. -/
structure StorageRule.Leads (rule : StorageRule) (s t : Session) : Prop where
  heap : rule.Follows s.heap t.heap
  tables : s.SetsOnly → t.SetsOnly

theorem StorageRule.Leads.refl {rule : StorageRule} (s : Session) : rule.Leads s s := ⟨.refl _, id⟩

theorem StorageRule.Leads.trans {rule : StorageRule} {s t u : Session} (h : rule.Leads s t) (h' : rule.Leads t u) :
    rule.Leads s u := ⟨h.heap.trans h'.heap, h'.tables ∘ h.tables⟩

namespace Eval

/-- A computation ends in a session, with a value or halted. -/
inductive Ends {α : Type} (x : Eval α) (s t : Session) : Prop
  | ok {a : α} (h : x s = .ok a t)
  | error {halt : Halt} (h : x s = .error halt t)

theorem Ends.bind_cases {α β : Type} {x : Eval α} {f : α → Eval β} {s t : Session} (h : Ends (x >>= f) s t) :
    (∃ halt, x s = .error halt t) ∨ ∃ a u, x s = .ok a u ∧ Ends (f a) u t := by
  cases h with
  | ok hrun =>
    obtain ⟨a, u, hx, hfa⟩ := bind_ok.mp hrun
    exact .inr ⟨a, u, hx, .ok hfa⟩
  | error hrun =>
    rcases bind_error.mp hrun with hx | ⟨a, u, hx, hfa⟩
    · exact .inl ⟨_, hx⟩
    · exact .inr ⟨a, u, hx, .error hfa⟩

theorem Ends.of_located {α : Type} {x : Eval α} {span : Span} {s t : Session} (h : Ends (located span x) s t) :
    Ends x s t := by
  cases h with
  | ok hrun => exact .ok (located_ok.mp hrun)
  | error hrun =>
    rw [located] at hrun
    split at hrun
    · next hx =>
      cases hrun
      exact .error hx
    · exact .error hrun

end Eval

/-- A computation heeds a rule: where the tables are as they should be, nothing else is stored in the object. -/
def Heeds {α : Type} (rule : StorageRule) (x : Eval α) : Prop :=
  ∀ s t, s.SetsOnly → Eval.Ends x s t → rule.Leads s t

namespace Heeds

variable {α β : Type} {rule : StorageRule} {x : Eval α}

/-! ## Single steps -/

/-- What comes second may depend on what the first computation can give. -/
theorem bindGiven {f : α → Eval β} (h : Heeds rule x) (hf : ∀ s a t, x s = .ok a t → Heeds rule (f a)) :
    Heeds rule (x >>= f) := by
  intro s t hs hends
  rcases hends.bind_cases with ⟨halt, hx⟩ | ⟨a, u, hx, hfa⟩
  · exact h s t hs (.error hx)
  · have hu := h s u hs (.ok hx)
    exact hu.trans (hf s a u hx u t (hu.tables hs) hfa)

theorem bind {f : α → Eval β} (h : Heeds rule x) (hf : ∀ a, Heeds rule (f a)) : Heeds rule (x >>= f) :=
  h.bindGiven fun _ a _ _ => hf a

theorem pure (a : α) : Heeds rule (Pure.pure a) := by
  rintro s t - (hrun | hrun)
  · exact (Eval.pure_ok.mp hrun).2 ▸ .refl s
  · cases hrun

theorem throw (halt : Halt) : Heeds rule (MonadExcept.throw halt : Eval α) := by
  rintro s t - (hrun | hrun)
  · cases hrun
  · cases hrun
    exact .refl s

theorem fail (fault : Fault) : Heeds rule (Eval.fail fault : Eval α) := throw _

theorem failAt (fault : Fault) (span : Span) : Heeds rule (Eval.failAt fault span : Eval α) := throw _

theorem get {f : Session → Eval α} (h : ∀ s, Heeds rule (f s)) : Heeds rule (MonadState.get >>= f) :=
  fun s t hs hends => h s s t hs <| by
    rcases hends with hrun | hrun
    · exact .ok hrun
    · exact .error hrun

theorem step {f : Session → α × Session} (h : ∀ s, s.SetsOnly → rule.Leads s (f s).2) :
    Heeds rule (MonadStateOf.modifyGet f) := by
  rintro s t hs (hrun | hrun)
  · cases hrun
    exact h s hs
  · cases hrun

/-- A step that leaves the tables and all objects as they are. -/
theorem inert {f : Session → α × Session} (hheap : ∀ s, (f s).2.heap = s.heap)
    (htables : ∀ s, (f s).2.operators = s.operators ∧ (f s).2.functions = s.functions ∧ (f s).2.methods = s.methods) :
    Heeds rule (MonadStateOf.modifyGet f) :=
  step fun s _ => ⟨hheap s ▸ .refl _, fun hs => by
    obtain ⟨hoperators, hfunctions, hmethods⟩ := htables s
    exact ⟨hoperators ▸ hs.operators, hfunctions ▸ hs.functions, hmethods ▸ hs.methods⟩⟩

/-- A step that only changes the heap. -/
theorem modifyHeap {f : Session → α × Heap} (h : ∀ s, rule.Follows s.heap (f s).2) :
    Heeds rule (MonadStateOf.modifyGet fun s => ((f s).1, { s with heap := (f s).2 })) :=
  step fun s _ => ⟨h s, fun hs => ⟨hs.operators, hs.functions, hs.methods⟩⟩

theorem read (f : Session → α) : Heeds rule (do return f (← MonadState.get)) := get fun _ => pure _

theorem located (h : Heeds rule x) (span : Span) : Heeds rule (Eval.located span x) :=
  fun s t hs hends => h s t hs hends.of_located

theorem check (result : Except Fault α) : Heeds rule (Eval.check result) := by
  cases result with
  | ok a => exact pure a
  | error fault => exact fail fault

theorem checkNumber (result : Except NumberFault α) : Heeds rule (Eval.checkNumber result) := by
  cases result with
  | ok a => exact pure a
  | error fault => exact fail _

/-! ### Scopes, types and output -/

theorem lookup (scope : ScopeId) (name : String) : Heeds rule (Eval.lookup scope name) := read _

theorem define (scope : ScopeId) (name : String) (value : Value) : Heeds rule (Eval.define scope name value) :=
  inert (fun _ => rfl) fun _ => ⟨rfl, rfl, rfl⟩

theorem assign (scope : ScopeId) (name : String) (value : Value) : Heeds rule (Eval.assign scope name value) :=
  inert (fun _ => rfl) fun _ => ⟨rfl, rfl, rfl⟩

theorem newScope (parent : ScopeId) : Heeds rule (Eval.newScope parent) :=
  inert (fun _ => rfl) fun _ => ⟨rfl, rfl, rfl⟩

theorem newId : Heeds rule Eval.newId := inert (fun _ => rfl) fun _ => ⟨rfl, rfl, rfl⟩

theorem modifyTypes (f : TypeArena → α × TypeArena) : Heeds rule (Eval.modifyTypes f) :=
  inert (fun _ => rfl) fun _ => ⟨rfl, rfl, rfl⟩

theorem printLine (line : String) : Heeds rule (Eval.printLine line) := by
  refine step fun s _ => ?_
  dsimp only
  split
  · exact ⟨.refl _, fun hs => ⟨hs.operators, hs.functions, hs.methods⟩⟩
  · exact .refl s

/-! ### Lists -/

section

variable {γ δ : Type}

theorem forM {step : γ → Eval PUnit} (h : ∀ c, Heeds rule (step c)) (items : List γ) : Heeds rule (items.forM step) := by
  induction items with
  | nil => exact pure _
  | cons c items ih => exact (h c).bind fun _ => ih

theorem mapM {f : γ → Eval δ} (h : ∀ c, Heeds rule (f c)) (items : List γ) : Heeds rule (items.mapM f) := by
  induction items with
  | nil => exact pure _
  | cons c items ih =>
    rw [List.mapM_cons]
    exact (h c).bind fun _ => ih.bind fun _ => pure _

theorem foldlM {f : δ → γ → Eval δ} (h : ∀ d c, Heeds rule (f d c)) (items : List γ) (start : δ) :
    Heeds rule (items.foldlM f start) := by
  induction items generalizing start with
  | nil => exact pure _
  | cons c items ih =>
    rw [List.foldlM_cons]
    exact (h start c).bind ih

theorem filterM {f : γ → Eval Bool} (h : ∀ c, Heeds rule (f c)) (items : List γ) : Heeds rule (items.filterM f) := by
  have haux (done : List γ) : Heeds rule (items.filterAuxM f done) := by
    induction items generalizing done with
    | nil => exact pure _
    | cons c items ih => exact (h c).bind fun _ => ih _
  exact (haux []).bind fun _ => pure _

end

theorem defineAll (scope : ScopeId) (bindings : List (String × Value)) : Heeds rule (Eval.defineAll scope bindings) :=
  forM (fun _ => define scope _ _) bindings

/-! ### Values -/

theorem text (value : Value) : Heeds rule (Eval.text value) := read _

theorem repr (value : Value) : Heeds rule (Eval.repr value) := read _

theorem texts (values : List Value) : Heeds rule (Eval.texts values) := read _

theorem typeText (strategy : Strategy) (value : Value) : Heeds rule (Eval.typeText strategy value) := read _

theorem equal (a b : Value) : Heeds rule (Eval.equal a b) := read _

theorem items (address : Nat) : Heeds rule (Eval.items address) := read _

theorem entries (address : Nat) : Heeds rule (Eval.entries address) := read _

theorem alloc (cell : Cell) : Heeds rule (Eval.alloc cell) :=
  modifyHeap fun s => StorageRule.follows_alloc s.heap cell

theorem arrayType (strategy : Strategy) (values : List Value) : Heeds rule (Eval.arrayType strategy values) := by
  cases strategy with
  | direct => exact pure _
  | dispatch => exact get fun _ => modifyTypes _

theorem newArray (strategy : Strategy) (values : List Value) : Heeds rule (Eval.newArray strategy values) :=
  (arrayType strategy values).bind fun _ => (alloc _).bind fun _ => pure _

theorem newObject (entries : List (String × Value)) : Heeds rule (Eval.newObject entries) :=
  (alloc _).bind fun _ => pure _

/-! ## Operations -/

/-- Something is refused with the name of its type. -/
theorem refuseType (strategy : Strategy) (value : Value) (fault : String → Fault) :
    Heeds rule (do Eval.fail (fault (← Eval.typeText strategy value)) : Eval α) :=
  (typeText strategy value).bind fun _ => fail _

/-- Something is refused with its text. -/
theorem refuse (value : Value) (fault : String → Fault) :
    Heeds rule (do Eval.fail (fault (← Eval.repr value)) : Eval α) := (repr value).bind fun _ => fail _

theorem printValues (values : List Value) : Heeds rule (Eval.printValues values) :=
  (texts values).bind fun _ => (printLine _).bind fun _ => pure _

theorem formatTemplate (template : String) (values : List Value) : Heeds rule (Eval.formatTemplate template values) := by
  refine (texts values).bind fun _ => ?_
  split
  · exact pure _
  · exact fail _

theorem itemAt (sequence : List Value) (index : Int64) : Heeds rule (Eval.itemAt sequence index) := by
  rw [Eval.itemAt]
  split
  · exact pure _
  · exact fail _

theorem joinArray (address : Nat) (separator : String) : Heeds rule (Eval.joinArray address separator) :=
  (items address).bind fun _ => (texts _).bind fun _ => pure _

theorem pushItem (address : Nat) (item : Value) : Heeds rule (Eval.pushItem address item) :=
  bind (modifyHeap (f := fun s => ((), s.heap.modifyItems address (·.push item)))
    fun s => StorageRule.follows_modifyItems s.heap address _) fun _ => pure _

theorem popItem (address : Nat) : Heeds rule (Eval.popItem address) :=
  modifyHeap (f := fun s => (((s.heap.items address).back?).getD .nothing, s.heap.modifyItems address Array.pop))
    fun s => StorageRule.follows_modifyItems s.heap address _

theorem arrayContains (address : Nat) (value : Value) : Heeds rule (Eval.arrayContains address value) := read _

theorem objectAt (address : Nat) (key : String) : Heeds rule (Eval.objectAt address key) :=
  (entries address).bind fun _ => pure _

theorem objectHas (address : Nat) (key : String) : Heeds rule (Eval.objectHas address key) :=
  (entries address).bind fun _ => pure _

theorem objectSet {address : Nat} {key : String} {value : Value}
    (h : address = rule.address → rule.permits key value = true) : Heeds rule (Eval.objectSet address key value) :=
  bind (modifyHeap (f := fun s => ((), s.heap.setEntry address key value))
    fun s => StorageRule.follows_setEntry s.heap h) fun _ => pure _

section

variable (strategy : Strategy)

theorem rangeArray (start stop : Int64) : Heeds rule (Eval.rangeArray strategy start stop) :=
  (checkNumber _).bind fun _ => newArray strategy _

theorem sumArray (address : Nat) : Heeds rule (Eval.sumArray strategy address) := by
  refine (items address).bind fun _ => (foldlM (fun total item => ?_) _ _).bind fun _ => pure _
  split
  · exact checkNumber _
  · exact refuseType strategy _ _

theorem reverseArray (address : Nat) : Heeds rule (Eval.reverseArray strategy address) :=
  (items address).bind fun _ => newArray strategy _

theorem concatArrays (a b : Nat) : Heeds rule (Eval.concatArrays strategy a b) :=
  (items a).bind fun _ => (items b).bind fun _ => newArray strategy _

theorem splitString (text separator : String) : Heeds rule (Eval.splitString strategy text separator) :=
  newArray strategy _

theorem objectKeys (address : Nat) : Heeds rule (Eval.objectKeys strategy address) :=
  (entries address).bind fun _ => newArray strategy _

theorem objectValues (address : Nat) : Heeds rule (Eval.objectValues strategy address) :=
  (entries address).bind fun _ => newArray strategy _

theorem fieldOf (receiver : Value) (field : String) : Heeds rule (Eval.fieldOf strategy receiver field) := by
  refine get fun s => ?_
  dsimp only
  split
  · exact pure _
  · split
    · split
      · exact pure _
      · exact refuseType strategy _ fun text => .field (.absent field text)
    · split
      · exact pure _
      · exact refuseType strategy _ fun text => .field (.absent field text)
    · exact refuseType strategy _ fun text => .field (.inaccessible field text)

theorem callbackResult (method : String) (value : Value) : Heeds rule (Eval.callbackResult strategy method value) := by
  cases value with
  | bool b => exact pure _
  | _ => exact refuseType strategy _ _

variable {call : Value → Eval Value} (hcall : ∀ v, Heeds rule (call v)) (address : Nat)
include hcall

theorem mapArray : Heeds rule (Eval.mapArray strategy call address) :=
  (items address).bind fun _ => (mapM hcall _).bind fun _ => newArray strategy _

theorem filterArray : Heeds rule (Eval.filterArray strategy call address) :=
  (items address).bind fun _ =>
    (filterM (fun v => (hcall v).bind fun _ => callbackResult strategy _ _) _).bind fun _ => newArray strategy _

end

theorem reduceArray {call : Value → Value → Eval Value} (hcall : ∀ v w, Heeds rule (call v w)) (address : Nat)
    (start : Value) : Heeds rule (Eval.reduceArray call address start) :=
  (items address).bind fun _ => foldlM hcall _ _

/-! ## Evaluation by type -/

theorem numberArgument (value : Value) : Heeds rule (Primitive.number value) := by
  rw [Primitive.number]
  split
  · exact pure _
  · exact (text value).bind fun _ => fail _

theorem stringArgument (value : Value) : Heeds rule (Primitive.string value) := by
  cases value with
  | string s => exact pure _
  | _ => exact refuse _ _

theorem intArgument (value : Value) : Heeds rule (Primitive.int value) := by
  cases value with
  | int n => exact pure _
  | _ => exact refuse _ _

theorem booleanArgument (value : Value) : Heeds rule (Primitive.boolean value) := by
  cases value with
  | bool b => exact pure _
  | _ => exact refuse _ _

theorem arrayArgument (value : Value) : Heeds rule (Primitive.array value) := by
  cases value with
  | array address => exact pure _
  | _ => exact refuse _ _

theorem objectArgument (value : Value) : Heeds rule (Primitive.object value) := by
  cases value with
  | object address => exact pure _
  | _ => exact refuse _ _

theorem compareValues (op : BinaryOp) (a b : Value) : Heeds rule (Primitive.compareValues op a b) := by
  unfold Primitive.compareValues
  split
  · exact pure _
  · exact (numberArgument a).bind fun _ => (numberArgument b).bind fun _ => pure _

/-- The operation that stores something heeds the rule where the rule permits it. -/
theorem set {self : NodeEval} {args : List Value} (h : ∀ key, args.headD .nothing = .object rule.address →
      args.getD 1 .nothing = .string key → rule.permits key (args.getD 2 .nothing) = true) (scope : ScopeId) :
    Heeds rule (Primitive.run self .set args scope) := by
  unfold Primitive.run
  dsimp only
  refine (stringArgument _).bindGiven fun s key t hkey => ?_
  have hb : args.getD 1 .nothing = .string key := by
    generalize args.getD 1 .nothing = b at hkey
    cases b with
    | string key' => exact congrArg Value.string (Eval.pure_ok.mp hkey).1
    | _ => cases hkey
  split
  · next address heq => exact objectSet fun hsame => h key (hsame ▸ heq) hb
  · exact pure _

/-- All other operations heed every rule, if the evaluator does that a quoted tree is given to. -/
theorem primitive {self : NodeEval} (hself : ∀ node scope, Heeds rule (self node scope)) {operation : Primitive}
    (hset : operation ≠ .set) (args : List Value) (scope : ScopeId) : Heeds rule (operation.run self args scope) := by
  cases operation with
  | set => exact absurd rfl hset
  | eval =>
    unfold Primitive.run
    dsimp only
    split
    · exact hself _ scope
    · exact refuse _ fun text => .mismatch (.evalArgument text)
  | arithmetic op =>
    exact (numberArgument _).bind fun _ => (numberArgument _).bind fun _ => (checkNumber _).bind fun _ => pure _
  | concat => exact (text _).bind fun _ => (text _).bind fun _ => pure _
  | concatArrays =>
    unfold Primitive.run
    dsimp only
    split
    · exact concatArrays _ _ _
    · exact fail _
  | repeatText =>
    unfold Primitive.run
    dsimp only
    split
    · exact (checkNumber _).bind fun _ => pure _
    · exact (checkNumber _).bind fun _ => pure _
    · exact fail _
  | comparison op => exact compareValues op _ _
  | equal | unequal => exact (equal _ _).bind fun _ => pure _
  | second | not => exact (booleanArgument _).bind fun _ => pure _
  | negate => exact (numberArgument _).bind fun _ => (checkNumber _).bind fun _ => pure _
  | print => exact printValues args
  | len =>
    refine get fun s => ?_
    split
    · exact pure _
    · exact refuse _ fun text => .mismatch (.lengthOf text)
  | typeOf => exact (typeText _ _).bind fun _ => pure _
  | str => exact (text _).bind fun _ => pure _
  | range =>
    unfold Primitive.run
    dsimp only
    split
    · exact (intArgument _).bind fun _ => rangeArray _ _ _
    · exact (intArgument _).bind fun _ => (intArgument _).bind fun _ => rangeArray _ _ _
    · exact fail _
  | join =>
    unfold Primitive.run
    dsimp only
    split
    · exact (arrayArgument _).bind fun _ => joinArray _ _
    · exact (stringArgument _).bind fun _ => (arrayArgument _).bind fun _ => joinArray _ _
  | push =>
    unfold Primitive.run
    dsimp only
    split
    · exact pushItem _ _
    · exact pure _
  | pop =>
    unfold Primitive.run
    dsimp only
    split
    · exact popItem _
    · exact pure _
  | formatArray =>
    exact (arrayArgument _).bind fun _ => (items _).bind fun _ => (stringArgument _).bind fun _ => formatTemplate _ _
  | arrayAt => exact (arrayArgument _).bind fun _ => (items _).bind fun _ => (intArgument _).bind fun _ => itemAt _ _
  | arrayContains => exact (arrayArgument _).bind fun _ => arrayContains _ _
  | reverse => exact (arrayArgument _).bind fun _ => reverseArray _ _
  | sum => exact (arrayArgument _).bind fun _ => sumArray _ _
  | upper | lower | trim => exact (stringArgument _).bind fun _ => pure _
  | split => exact (stringArgument _).bind fun _ => (stringArgument _).bind fun _ => splitString _ _ _
  | stringContains => exact (stringArgument _).bind fun _ => (stringArgument _).bind fun _ => pure _
  | formatString => exact (stringArgument _).bind fun _ => formatTemplate _ _
  | stringAt => exact (stringArgument _).bind fun _ => (intArgument _).bind fun _ => itemAt _ _
  | keys => exact (objectArgument _).bind fun _ => objectKeys _ _
  | values => exact (objectArgument _).bind fun _ => objectValues _ _
  | objectAt => exact (stringArgument _).bind fun _ => (objectArgument _).bind fun _ => objectAt _ _
  | has => exact (stringArgument _).bind fun _ => (objectArgument _).bind fun _ => objectHas _ _

theorem callback {call : Value → List Value → Eval Value} (hcall : ∀ callee args, Heeds rule (call callee args))
    (operation : Callback) (args : List Value) : Heeds rule (operation.run call args) := by
  cases operation with
  | map => exact (arrayArgument _).bind fun _ => mapArray _ (fun _ => hcall _ _) _
  | filter => exact (arrayArgument _).bind fun _ => filterArray _ (fun _ => hcall _ _) _
  | reduce => exact (arrayArgument _).bind fun _ => reduceArray (fun _ _ => hcall _ _) _ _
  | call => exact hcall _ _

/-! ## Evaluation by shape -/

theorem operandMismatch (op : BinaryOp) (left right : Value) : Heeds rule (Direct.operandMismatch op left right) :=
  (typeText _ _).bind fun _ => (typeText _ _).bind fun _ => fail _

theorem directBinary (op : BinaryOp) (left right : Value) : Heeds rule (Direct.binary op left right) := by
  unfold Direct.binary
  split
  · exact (equal _ _).bind fun _ => pure _
  · exact (equal _ _).bind fun _ => pure _
  · exact concatArrays _ _ _
  · exact (checkNumber _).bind fun _ => pure _
  · exact (checkNumber _).bind fun _ => pure _
  · split
    · exact (text _).bind fun _ => (text _).bind fun _ => pure _
    · exact (text _).bind fun _ => (text _).bind fun _ => pure _
    · split
      · exact pure _
      · exact operandMismatch _ _ _
    · split
      · split
        · exact pure _
        · exact (checkNumber _).bind fun _ => pure _
      · exact operandMismatch _ _ _

theorem directUnary (op : UnaryOp) (operand : Value) : Heeds rule (Direct.unary op operand) := by
  unfold Direct.unary
  split
  · exact (checkNumber _).bind fun _ => pure _
  · exact pure _
  · exact pure _
  · exact refuseType _ _ _

theorem logicalOperand (op : BinaryOp) (value : Value) : Heeds rule (Direct.logicalOperand op value) := by
  cases value with
  | bool b => exact pure _
  | _ => exact refuseType _ _ _

theorem directFunction {self : NodeEval} (hself : ∀ node scope, Heeds rule (self node scope)) (name : String)
    (args : List Value) (scope : ScopeId) : Heeds rule (Direct.callFunction self name args scope) := by
  have one : Heeds rule (do
      Eval.check (checkArity name 1 args.length)
      return args.headD .nothing) := (check _).bind fun _ => pure _
  unfold Direct.callFunction
  split
  · exact printValues args
  · refine one.bind fun value => get fun s => ?_
    split
    · exact pure _
    · exact refuseType _ _ _
  · exact one.bind fun _ => (typeText _ _).bind fun _ => pure _
  · exact one.bind fun _ => (text _).bind fun _ => pure _
  · split
    · exact rangeArray _ _ _
    · exact rangeArray _ _ _
    · exact fail _
    · exact fail _
    · exact fail _
  · refine one.bind fun value => ?_
    split
    · exact hself _ scope
    · exact refuseType _ _ _
  · exact fail _

/-! ### Methods -/

theorem directInt (method : String) (value : Value) : Heeds rule (Direct.intArgument method value) := by
  cases value with
  | int n => exact pure _
  | _ => exact refuseType _ _ _

theorem directString (method : String) (value : Value) : Heeds rule (Direct.stringArgument method value) := by
  cases value with
  | string s => exact pure _
  | _ => exact refuseType _ _ _

section

variable {name : String} {args : List Value}

theorem withNone {action : Eval Value} (h : Heeds rule action) : Heeds rule (Direct.withNone name args action) :=
  (check _).bind fun _ => h

theorem withOne {action : Value → Eval Value} (h : ∀ v, Heeds rule (action v)) :
    Heeds rule (Direct.withOne name args action) := (check _).bind fun _ => h _

theorem withTwo {action : Value → Value → Eval Value} (h : ∀ v w, args = [v, w] → Heeds rule (action v w)) :
    Heeds rule (Direct.withTwo name args action) := by
  refine (check _).bindGiven fun s _ t hcheck => ?_
  match args, hcheck with
  | [v, w], _ => exact h v w rfl
  | [], hcheck | [_], hcheck | _ :: _ :: _ :: _, hcheck =>
    simp [Eval.check, checkArity] at hcheck
    cases hcheck

theorem stringMethod? (value : String) : ∀ action ∈ Direct.stringMethod? value name args, Heeds rule action := by
  unfold Direct.stringMethod?
  split <;> rintro _ ⟨⟩
  · exact withNone (pure _)
  · exact withNone (pure _)
  · exact withNone (pure _)
  · exact withOne fun _ => (directString _ _).bind fun _ => splitString _ _ _
  · exact withOne fun _ => (directString _ _).bind fun _ => pure _
  · exact formatTemplate _ _
  · exact withOne fun _ => (directInt _ _).bind fun _ => itemAt _ _

theorem objectMethod? {address : Nat} (h : rule.forbids (.object address) name args = false) :
    ∀ action ∈ Direct.objectMethod? address name args, Heeds rule action := by
  unfold Direct.objectMethod?
  split <;> rintro _ ⟨⟩
  · exact withNone (objectKeys _ _)
  · exact withNone (objectValues _ _)
  · exact withOne fun _ => (directString _ _).bind fun _ => objectAt _ _
  · exact withOne fun _ => (directString _ _).bind fun _ => objectHas _ _
  · refine withTwo fun v value hargs => (directString _ _).bindGiven fun s key t hkey => objectSet fun hsame => ?_
    cases v with
    | string key' =>
      obtain rfl := (Eval.pure_ok.mp hkey).1
      rw [hargs] at h
      simpa [StorageRule.forbids, hsame] using h
    | _ => cases hkey

variable {call : Value → List Value → Eval Value} (hcall : ∀ callee args, Heeds rule (call callee args))
include hcall

theorem arrayMethod? (address : Nat) : ∀ action ∈ Direct.arrayMethod? call address name args, Heeds rule action := by
  unfold Direct.arrayMethod?
  split <;> rintro _ ⟨⟩
  · exact withOne fun _ => mapArray _ (fun _ => hcall _ _) _
  · exact withOne fun _ => filterArray _ (fun _ => hcall _ _) _
  · exact withTwo fun _ _ _ => reduceArray (fun _ _ => hcall _ _) _ _
  · split
    · exact joinArray _ _
    · exact (directString _ _).bind fun _ => joinArray _ _
    · exact fail _
  · exact withOne fun _ => pushItem _ _
  · exact withNone (popItem _)
  · exact withOne fun _ => (directString _ _).bind fun _ => (items _).bind fun _ => formatTemplate _ _
  · exact withOne fun _ => (items _).bind fun _ => (directInt _ _).bind fun _ => itemAt _ _
  · exact withOne fun _ => arrayContains _ _
  · exact withNone (reverseArray _ _)
  · exact withNone (sumArray _ _)

theorem directMethod? {receiver : Value} (h : rule.forbids receiver name args = false) :
    ∀ action ∈ Direct.method? call receiver name args, Heeds rule action := by
  cases receiver with
  | array address => exact arrayMethod? hcall address
  | string text => exact stringMethod? text
  | object address => exact objectMethod? h
  | _ =>
    unfold Direct.method?
    dsimp only
    split <;> rintro _ ⟨⟩
    exact hcall _ args

end

end Heeds

end DispatchLang
