import DispatchLang.Proofs.Typing.AcceptedConstructions
import DispatchLang.Proofs.Typing.MirroredFunctions

/-!
# Arguments in a mirror

Literals, arrays of arguments of one type and instances of declared types whose fields are such arguments again are
looked at by the checker and evaluated by a session in step: both only add types of arrays. If the evaluation succeeds,
the checker finds nothing wrong, and the type that it infers is the one that the value is marked with. What is not known
about such a type is nothing, so a call with such arguments is checked in full.

An argument is described by how its type is written (`ArgumentType`). Arguments with the same description have the same
type, and this is how the elements of an array are known to have one.

## Main definitions

* `Node.IsArgument`: a node is an argument of this sort.
* `Checker.typeOf?`: the type that a description stands for.
* `Check.Evaluated`: a checker has looked at what a session has evaluated.

## Main results

* `Node.IsArgument.fits`: where an argument can be evaluated, the checker finds nothing wrong and infers its type.
-/

namespace DispatchLang

open TypeArena

variable {f g : TypeId → TypeId} {A B : TypeArena} {names : ValueNames} {c c' c'' : Checker} {t t' t'' : Session}

/-! ## Descriptions of arguments -/

/-- How the type of an argument is written. -/
inductive ArgumentType where
  /-- The type of a literal. -/
  | scalar (type : TypeId)
  /-- The type of arrays. -/
  | array (element : ArgumentType)
  /-- A declared type. -/
  | declared (name : String)

/-- A literal, an array of arguments of one type that is not empty, or an instance of a type with one of the given names
whose fields are arguments. -/
inductive Node.IsArgument (known : String → Prop) : Node → ArgumentType → Prop where
  | literal (span : Span) (value : Literal) : IsArgument known (.literal span value) (.scalar (Check.literalType value))
  | array (span : Span) {elements : List Node} {type : ArgumentType} (hne : elements ≠ [])
      (h : ∀ e ∈ elements, IsArgument known e type) : IsArgument known (.array span elements) (.array type)
  | construct (span : Span) {name : Located String} {fields : List (Located String × Node)} (hname : known name.val)
      (types : Node → ArgumentType) (h : ∀ field ∈ fields, IsArgument known field.2 (types field.2)) :
      IsArgument known (.construct span name fields) (.declared name.val)

/-- The type that a description stands for. -/
def Checker.typeOf? (c : Checker) : ArgumentType → Option TypeId
  | .scalar type => some type
  | .array element => (c.typeOf? element).bind fun id => c.arena.keyed? (.applied .array [id])
  | .declared name => c.types.lookup name

/-! ## Types about which enough is known -/

namespace Check

/-- How deeply a type is looked into makes no difference, nor do types that are added. -/
theorem isKnownWithin_eq (ho : A.Ordered) (he : A.Extends B) {id : TypeId} (hid : id < A.size) {n m : Nat} (hn : id < n)
    (hm : id < m) : isKnownWithin B m id = isKnownWithin A n id := by
  induction id using Nat.strongRecOn generalizing n m with
  | _ id ih =>
    obtain ⟨n, rfl⟩ : ∃ k, n = k + 1 := Nat.exists_eq_succ_of_ne_zero (Nat.ne_of_gt (Nat.zero_lt_of_lt hn))
    obtain ⟨m, rfl⟩ : ∃ k, m = k + 1 := Nat.exists_eq_succ_of_ne_zero (Nat.ne_of_gt (Nat.zero_lt_of_lt hm))
    rw [isKnownWithin, isKnownWithin, he.hasVars_eq ho hid, he.get_eq hid]
    cases hk : (A.get id).kind with
    | applied base args =>
      have hall : ∀ x ∈ args, isKnownWithin B m x = isKnownWithin A n x := fun x hx => by
        have hlt : x < id := ho.part_lt (by rw [hk]; exact List.mem_cons_of_mem _ hx)
        exact ih x hlt (Nat.lt_trans hlt hid) (Nat.lt_of_lt_of_le hlt (Nat.le_of_lt_succ hn))
          (Nat.lt_of_lt_of_le hlt (Nat.le_of_lt_succ hm))
      have hargs : args.all (isKnownWithin B m) = args.all (isKnownWithin A n) := by
        rw [Bool.eq_iff_iff, List.all_eq_true, List.all_eq_true]
        exact forall₂_congr fun x hx => by rw [hall x hx]
      dsimp only
      rw [hargs]
    | _ => rfl

theorem isKnown_extends (ho : A.Ordered) (he : A.Extends B) {id : TypeId} (hid : id < A.size) :
    isKnown B id = isKnown A id :=
  isKnownWithin_eq ho he hid (Nat.lt_succ_of_lt hid) (Nat.lt_succ_of_lt (he.lt hid))

theorem isKnown_of_simple {id : TypeId} (hany : id ≠ .any) (hvars : A.hasVars id = false)
    (hsimple : (A.get id).kind.isApplied = false) : isKnown A id = true := by
  rw [isKnown, isKnownWithin, hvars, Bool.or_false, if_neg (by simpa using hany)]
  cases hk : (A.get id).kind with
  | applied base args =>
    rw [hk] at hsimple
    cases hsimple
  | _ => rfl

theorem isKnown_array (hr : A.Regular) {id element : TypeId} (hid : A.keyed? (.applied .array [element]) = some id)
    (hvars : A.hasVars element = false) (hknown : isKnown A element = true) :
    A.hasVars id = false ∧ isKnown A id = true := by
  obtain ⟨hlt, hget⟩ := (hr.consistent.keyed?_iff _ id).mp hid
  have hk : (A.get id).kind = .applied .array [element] := kind_of_describe hget
  have ho := hr.indexed.toOrdered
  have helement : element < id := ho.part_lt (by rw [hk]; exact List.mem_cons_of_mem _ List.mem_cons_self)
  have hvars' : A.hasVars id = false := by
    rw [ho.hasVars_eq_any hlt (by rw [hk]; rfl), hk]
    exact List.any_eq_false.mpr fun x hx => by rw [List.mem_singleton.mp hx, hvars]; exact Bool.false_ne_true
  have hany : id ≠ .any := by
    rintro rfl
    have hsimple := (hr.simple_builtin (show TypeId.any < builtinTypes.length by decide)).1
    rw [hk] at hsimple
    cases hsimple
  refine ⟨hvars', ?_⟩
  rw [isKnown, isKnownWithin, hvars', Bool.or_false, if_neg (by simpa using hany), hk]
  dsimp only
  rw [List.all_cons, List.all_nil, Bool.and_true,
    isKnownWithin_eq ho (.refl A) (Nat.lt_trans helement hlt) (Nat.lt_succ_of_lt (Nat.lt_trans helement hlt))
      (Nat.lt_trans helement hlt)]
  exact hknown

end Check

/-! ## What both have gone through -/

def Value.MarkedIn (heap : Heap) (value : Value) (type : TypeId) : Prop :=
  ∀ later, heap.KeptIn later → value.tag later = type

namespace Check

/-- A checker has looked at what a session has evaluated: it has found nothing, both have added types, and the session
has made arrays. -/
structure Evaluated (f : TypeId → TypeId) (c : Checker) (t : Session) (g : TypeId → TypeId) (c' : Checker)
    (t' : Session) : Prop where
  checker : c' = { c with arena := c'.arena, inferred := c'.inferred }
  session : t' = { t with arena := t'.arena, heap := t'.heap }
  extension : t.arena.Extends t'.arena
  extension' : c.arena.Extends c'.arena
  heap : t.heap.KeptIn t'.heap
  reflects : Reflects g t'.arena c'.arena
  retains : Retains f t.arena c.arena g t'.arena c'.arena

namespace Evaluated

variable {h : TypeId → TypeId}

theorem refl (hr : Reflects f t.arena c.arena) (inferred : List (NodeKey × TypeId)) :
    Evaluated f c t f { c with inferred } t := ⟨rfl, rfl, .refl _, .refl _, .refl _, hr, .refl⟩

theorem trans (he : Evaluated f c t g c' t') (he' : Evaluated g c' t' h c'' t'') : Evaluated f c t h c'' t'' where
  checker := by rw [he'.checker, he.checker]
  session := by rw [he'.session, he.session]
  extension := he.extension.trans he'.extension
  extension' := he.extension'.trans he'.extension'
  heap := he.heap.trans he'.heap
  reflects := he'.reflects
  retains := he.retains.trans he'.retains

theorem noted (he : Evaluated f c t g c' t') (inferred : List (NodeKey × TypeId)) :
    Evaluated f c t g { c' with inferred } t' :=
  { he with checker := by rw [he.checker] }

theorem mirrors (he : Evaluated f c t g c' t') (hm : c.Mirrors names f t []) : c'.Mirrors names g t' [] := by
  have hordered := hm.reflects.regular'.indexed.toOrdered
  have hmoved := (hm.moved he.reflects he.retains he.extension'.size_le (fun id hid =>
    he.extension'.hasVars_eq hordered hid) he.extension'.parts_eq_nil).noted c.findings c'.inferred
  have hheaped : Checker.Mirrors names g { t with arena := t'.arena, heap := t'.heap } []
      { c with arena := c'.arena, inferred := c'.inferred } := { hmoved with }
  rwa [← he.checker, ← he.session] at hheaped

end Evaluated

/-- A value is of the type that the checker infers, which is the one that a description stands for. -/
structure Typed (f : TypeId → TypeId) (c : Checker) (t : Session) (type : ArgumentType) (id' : TypeId) (value : Value) :
    Prop where
  means : c.typeOf? type = some id'
  vars : c.arena.hasVars id' = false
  known : isKnown c.arena id' = true
  marked : ∃ id, value.MarkedIn t.heap id ∧ Image f t.arena c.arena id id'

end Check

/-- A description stands for the same type as before. -/
theorem Checker.typeOf?_evaluated (he : Check.Evaluated f c t g c' t') (hr : c.arena.Regular) {type : ArgumentType}
    {id : TypeId} (h : c.typeOf? type = some id) : c'.typeOf? type = some id := by
  induction type generalizing id with
  | scalar type => exact h
  | array element ih =>
    obtain ⟨x, hx, hid⟩ := Option.bind_eq_some_iff.mp h
    exact Option.bind_eq_some_iff.mpr ⟨x, ih hx, he.extension'.keyed?_eq hr he.reflects.regular' hid⟩
  | declared name =>
    rw [typeOf?, he.checker]
    exact h

namespace Check

theorem Typed.later {type : ArgumentType} {id' : TypeId} {value : Value} (h : Typed f c t type id' value)
    (he : Evaluated f c t g c' t') (hr : c.arena.Regular) : Typed g c' t' type id' value := by
  obtain ⟨id, hmarked, hi⟩ := h.marked
  have ho := hr.indexed.toOrdered
  refine ⟨Checker.typeOf?_evaluated he hr h.means, ?_, ?_, id, fun later hl => hmarked later (he.heap.trans hl),
    he.retains.image hi⟩
  · rw [he.extension'.hasVars_eq ho hi.lt', h.vars]
  · rw [isKnown_extends ho he.extension' hi.lt', h.known]

end Check

/-- Wherever a node can be evaluated in a session that a checker mirrors, the checker finds nothing wrong and infers the
type of the value, which is one of the given descriptions. The node may nest at most the given number of levels. -/
def Node.Fits (names : ValueNames) (known : String → Prop) (n : Nat) (descriptions : ArgumentType → Prop) (node : Node) :
    Prop :=
  ∀ {f c t value t'}, c.Mirrors names f t [] → (∀ name, known name → (c.types.lookup name).isSome = true) →
    Eval.eval .dispatch n node ScopeTree.root t = .ok value t' →
    ∃ g type, descriptions type ∧ Check.Evaluated f c t g (Check.infer false node c).2 t' ∧
      Check.Typed g (Check.infer false node c).2 t' type (Check.infer false node c).1 value

namespace Check

variable {known : String → Prop} {n : Nat} {descriptions : ArgumentType → Prop}

theorem inferPlaced_fits {nodes : List Node} {values : List Value}
    (hfits : ∀ node ∈ nodes, node.Fits names known n descriptions) (hm : c.Mirrors names f t []) (hknown : ∀ name, known name → (c.types.lookup name).isSome = true)
    (hvalues : Eval.evalAll (Eval.eval .dispatch n) nodes ScopeTree.root t = .ok values t') :
    ∃ g, Evaluated f c t g (inferPlaced nodes c).2 t' ∧
      List.Forall₂ (fun placed value => ∃ type, descriptions type ∧
        Typed g (inferPlaced nodes c).2 t' type placed.1 value) (inferPlaced nodes c).1 values := by
  induction nodes generalizing f c t values with
  | nil =>
    obtain ⟨rfl, rfl⟩ := Eval.pure_ok.mp hvalues
    rw [inferPlaced]
    exact ⟨f, .refl hm.reflects c.inferred, .nil⟩
  | cons node nodes ih =>
    obtain ⟨hnode, hnodes⟩ := List.forall_mem_cons.mp hfits
    obtain ⟨value, u, rest, hvalue, hrest, rfl⟩ := Eval.evalAll_cons_ok hvalues
    obtain ⟨g, type, hdescription, he, htyped⟩ := hnode hm hknown hvalue
    have hknown' : ∀ name, known name → ((infer false node c).2.types.lookup name).isSome = true := by
      rw [he.checker]
      exact hknown
    obtain ⟨k, he', hall⟩ := ih hnodes (he.mirrors hm) hknown' hrest
    rw [inferPlaced]
    exact ⟨k, he.trans he', .cons ⟨type, hdescription, htyped.later he' he.reflects.regular'⟩ hall⟩

theorem Typed.images {types : List (TypeId × Span)} {values : List Value}
    (h : List.Forall₂ (fun placed value => ∃ type, descriptions type ∧ Typed f c t type placed.1 value) types values) :
    List.Forall₂ (Image f t.arena c.arena) (values.map (Value.tag t.heap)) (types.map Prod.fst) ∧
      ∀ id ∈ types.map Prod.fst, isKnown c.arena id = true := by
  induction h with
  | nil => exact ⟨.nil, List.forall_mem_nil _⟩
  | cons hfirst _ ih =>
    obtain ⟨type, -, htyped⟩ := hfirst
    obtain ⟨id, hmarked, hi⟩ := htyped.marked
    exact ⟨.cons (hmarked _ (.refl _) ▸ hi) ih.1, List.forall_mem_cons.mpr ⟨htyped.known, ih.2⟩⟩

/-! ## Arrays -/

theorem commonType_eq {ids : List TypeId} {id : TypeId} (hne : ids ≠ []) (h : ∀ x ∈ ids, x = id) : commonType ids = id := by
  cases ids with
  | nil => exact absurd rfl hne
  | cons first rest =>
    obtain ⟨rfl, hrest⟩ := List.forall_mem_cons.mp h
    rw [commonType, if_pos (List.all_eq_true.mpr fun x hx => decide_eq_true (hrest x hx))]

theorem newArray_run (values : List Value) (t : Session) :
    let type := t.arena.arrayOf (commonType (values.map (Value.tag t.heap)))
    Eval.newArray .dispatch values t = .ok (.array t.heap.size)
      { t with arena := type.2, heap := (t.heap.alloc (.array values.toArray type.1)).2 } := rfl

theorem infer_array (span : Span) (elements : List Node) (c : Checker) :
    let c' := (inferPlaced elements c).2
    let type := c'.arena.arrayOf (commonType ((inferPlaced elements c).1.map Prod.fst))
    infer false (.array span elements) c =
      (type.1, { c' with arena := type.2, inferred := (span.key, type.1) :: c'.inferred }) := by
  rw [infer]
  rfl

/-- Things that have been typed by one description have one type. -/
theorem exists_common {type : ArgumentType} {types : List (TypeId × Span)} {values : List Value}
    (hr : Reflects f t.arena c.arena) (hne : values ≠ [])
    (h : List.Forall₂ (fun placed value => ∃ type', type' = type ∧ Typed f c t type' placed.1 value) types values) :
    ∃ id id', Image f t.arena c.arena id id' ∧ c.typeOf? type = some id' ∧ c.arena.hasVars id' = false ∧
      isKnown c.arena id' = true ∧ commonType (types.map Prod.fst) = id' ∧
      commonType (values.map (Value.tag t.heap)) = id := by
  have hsame : ∀ {id' value}, (∃ type', type' = type ∧ Typed f c t type' id' value) → Typed f c t type id' value := by
    rintro id' value ⟨_, rfl, htyped⟩
    exact htyped
  cases h with
  | nil => exact absurd rfl hne
  | @cons placed value types values hfirst hrest =>
    have htyped := hsame hfirst
    obtain ⟨id, hmarked, hi⟩ := htyped.marked
    have hall : List.Forall₂ (fun (placed' : TypeId × Span) (value' : Value) => placed'.1 = placed.1 ∧
        value'.tag t.heap = id) (placed :: types) (value :: values) := by
      refine (List.Forall₂.cons hfirst hrest).imp fun placed' value' h => ?_
      obtain ⟨id₂, hmarked₂, hi₂⟩ := (hsame h).marked
      have heq : placed'.1 = placed.1 := Option.some.inj ((hsame h).means.symm.trans htyped.means)
      refine ⟨heq, (hmarked₂ _ (.refl _)).trans (hr.embeds.inj hi₂.lt hi.lt ?_)⟩
      rw [hi₂.eq, hi.eq, heq]
    refine ⟨id, placed.1, hi, htyped.means, htyped.vars, htyped.known, commonType_eq (List.cons_ne_nil _ _) ?_,
      commonType_eq (List.cons_ne_nil _ _) ?_⟩
    · exact List.forall_mem_map.mpr
        ((List.forall₂_and_left _ _).mp (hall.imp fun _ _ h => ⟨h.1, h⟩)).1
    · exact List.forall_mem_map.mpr
        ((List.forall₂_and_left (value :: values) _).mp (hall.flip.imp fun _ _ h => ⟨h.2, h⟩)).1

theorem array_fits (span : Span) {elements : List Node} {type : ArgumentType} (hne : elements ≠ [])
    (h : ∀ e ∈ elements, e.Fits names known n (· = type)) :
    (Node.array span elements).Fits names known (n + 1) (· = .array type) := by
  intro f c t value t' hm hknown heval
  obtain ⟨values, u, hvalues, hnew⟩ := Eval.bind_ok.mp (Eval.located_ok.mp heval)
  obtain ⟨g, he, hall⟩ := inferPlaced_fits h hm hknown hvalues
  have hne' : values ≠ [] := by
    rintro rfl
    exact hne (List.length_eq_zero_iff.mp (Eval.length_evalAll hvalues).symm)
  obtain ⟨id, id', hi, hmeans, hvars, hisKnown, hcommon, hcommon'⟩ := exists_common he.reflects hne' hall
  rw [newArray_run, hcommon'] at hnew
  cases hnew
  rw [infer_array, hcommon]
  obtain ⟨k, hreflects, hretains, himage⟩ := he.reflects.applied (he.reflects.image_builtin (show TypeId.array < _ by decide))
    (.cons hi .nil)
  generalize hc : (inferPlaced elements c).2 = c₁ at *
  have he' : Evaluated g c₁ u k { c₁ with arena := (c₁.arena.arrayOf id').2
                                          inferred := (span.key, (c₁.arena.arrayOf id').1) :: c₁.inferred }
      { u with arena := (u.arena.arrayOf id).2
               heap := (u.heap.alloc (.array values.toArray (u.arena.arrayOf id).1)).2 } :=
    ⟨rfl, rfl, (applied_interns _ _ _).extension, (applied_interns _ _ _).extension, .alloc _ _, hreflects, hretains⟩
  have hr := he.reflects.regular'
  have hkeyed : (c₁.arena.arrayOf id').2.keyed? (.applied .array [id']) = some (c₁.arena.arrayOf id').1 :=
    keyed?_internKeyed c₁.arena (.applied .array [id'])
  have hext := he'.extension'
  obtain ⟨hvars', hknown'⟩ := isKnown_array hreflects.regular' hkeyed
    ((hext.hasVars_eq hr.indexed.toOrdered hi.lt').trans hvars)
    ((isKnown_extends hr.indexed.toOrdered hext hi.lt').trans hisKnown)
  refine ⟨k, _, rfl, he.trans he', ?_, hvars', hknown', (u.arena.arrayOf id).1, fun later hl => ?_, himage⟩
  · exact Option.bind_eq_some_iff.mpr ⟨id', Checker.typeOf?_evaluated he' hr hmeans, hkeyed⟩
  · obtain ⟨items, hcell⟩ := hl u.heap.size values.toArray _ Array.getElem?_push_size
    exact Heap.arrayType_eq hcell

end Check

/-! ## What the evaluation of a construction has checked -/

/-- Where names are distinct, what stands under a name is found. -/
theorem Assoc.lookup_of_mem {α : Type} {entries : List (String × α)} {name : String} {value : α}
    (hnodup : (entries.map Prod.fst).Nodup) (h : (name, value) ∈ entries) : entries.lookup name = some value := by
  obtain ⟨other, hother⟩ := Option.isSome_iff_exists.mp (lookup_isSome_iff.mpr (List.mem_map_of_mem h))
  have heq := List.inj_on_of_nodup_map hnodup (mem_of_lookup hother) h rfl
  rw [hother, (Prod.mk.inj heq).2]

/-- Taking one thing out does not change what stands under other names. -/
theorem Assoc.lookup_erase_of_ne {α : Type} {name other : String} (h : other ≠ name) (entries : List (String × α)) :
    (erase name entries).lookup other = entries.lookup other := by
  induction entries with
  | nil => rfl
  | cons entry entries ih =>
    obtain ⟨key, value⟩ := entry
    rw [erase]
    split
    · next heq => rw [List.lookup_cons, beq_eq_false_iff_ne.mpr (heq ▸ h)]
    · rw [List.lookup_cons, List.lookup_cons, ih]

namespace Eval

variable {self : NodeEval} {scope : ScopeId} {owner : String} {declared : FieldTypes}
  {fields : List (Located String × Node)} {given out : List (String × Value)}

/-- The written fields have been evaluated: each is declared and written once. -/
theorem givenFields_ok (h : givenFields self declared owner scope given fields t = .ok out t') :
    ∃ values, evalAll self (fields.map Prod.snd) scope t = .ok values t' ∧ out = given ++ (fieldNames fields).zip values ∧
      (∀ name ∈ fieldNames fields, name ∈ declared.map Prod.fst ∧ name ∉ given.map Prod.fst) ∧
      (fieldNames fields).Nodup := by
  induction fields generalizing given t with
  | nil =>
    obtain ⟨rfl, rfl⟩ := pure_ok.mp h
    exact ⟨[], rfl, (List.append_nil _).symm, List.forall_mem_nil _, .nil⟩
  | cons field fields ih =>
    obtain ⟨⟨name, place⟩, node⟩ := field
    rw [givenFields] at h
    split at h
    · cases h
    · next hdeclared =>
      split at h
      · cases h
      · next hfresh =>
        obtain ⟨value, u, hvalue, hrest⟩ := bind_ok.mp h
        obtain ⟨values, hvalues, rfl, hnames, honce⟩ := ih hrest
        rw [Bool.not_eq_true, Option.isNone_eq_false_iff] at hdeclared
        have hnew : name ∉ given.map Prod.fst := fun hmem => hfresh (Assoc.lookup_isSome_iff.mpr hmem)
        have hmap : (given ++ [(name, value)]).map Prod.fst = given.map Prod.fst ++ [name] := List.map_append
        refine ⟨value :: values, ?_, List.append_assoc _ _ _, List.forall_mem_cons.mpr ⟨⟨Assoc.lookup_isSome_iff.mp hdeclared,
          hnew⟩, fun other hother => ⟨(hnames other hother).1, fun hmem => (hnames other hother).2 ?_⟩⟩,
          List.nodup_cons.mpr ⟨fun hmem => (hnames name hmem).2 ?_, honce⟩⟩
        · rw [List.map_cons, evalAll, List.mapM_cons]
          exact (bind_of_ok hvalue).trans (bind_of_ok hvalues)
        · exact hmap ▸ List.mem_append_left _ hmem
        · exact hmap ▸ List.mem_append_right _ (List.mem_singleton_self _)

/-- The given fields have been ordered: nothing is missing, and all values are of the declared types. -/
theorem orderFields_ok (h : orderFields owner declared given t = .ok out t') :
    t' = t ∧ (∀ name ∈ declared.map Prod.fst, name ∈ given.map Prod.fst) ∧
      ∀ {name value expected}, given.lookup name = some value → declared.lookup name = some expected →
        t.arena.isSubtype (value.tag t.heap) expected = true := by
  induction declared generalizing given out with
  | nil =>
    obtain ⟨rfl, rfl⟩ := pure_ok.mp h
    exact ⟨rfl, List.forall_mem_nil _, fun _ hnone => nomatch hnone⟩
  | cons field declared ih =>
    obtain ⟨field, expected⟩ := field
    rw [orderFields] at h
    cases hvalue : given.lookup field with
    | none =>
      rw [hvalue] at h
      cases h
    | some value =>
      rw [hvalue] at h
      obtain ⟨_, u, hcheck, h⟩ := bind_ok.mp h
      obtain ⟨rest, u', hrest, h⟩ := bind_ok.mp h
      obtain ⟨rfl, rfl⟩ := pure_ok.mp h
      rw [checkField_eq] at hcheck
      split at hcheck
      · next hsub =>
        cases hcheck
        obtain ⟨rfl, hnames, hall⟩ := ih hrest
        have hperm := (Assoc.perm_erase hvalue).map Prod.fst
        refine ⟨rfl, List.forall_mem_cons.mpr ⟨Assoc.lookup_isSome_iff.mp (by rw [hvalue]; rfl), fun name hname =>
          hperm.mem_iff.mpr (List.mem_cons_of_mem _ (hnames name hname))⟩, fun {name value' expected'} hv he => ?_⟩
        rw [List.lookup_cons] at he
        by_cases heq : name = field
        · rw [heq, beq_self_eq_true] at he
          rw [heq, hvalue] at hv
          rw [← Option.some.inj hv, ← Option.some.inj he]
          exact hsub
        · rw [beq_eq_false_iff_ne.mpr heq] at he
          exact hall ((Assoc.lookup_erase_of_ne heq given).trans hv) he
      · cases hcheck

end Eval

namespace Check

variable {known : String → Prop} {n : Nat}

/-! ## Constructions -/

/-- Types are above the images of what is below them. -/
theorem isSubtype_image (hr : Reflects f A B) {a a' b b' : TypeId} (ha : Image f A B a a') (hb : Image f A B b b') :
    B.isSubtype a' b' = A.isSubtype a b := by
  rw [← B.withElements_extends.isSubtype_eq hr.regular'.indexed.toOrdered hr.regular'.withElements.indexed.toOrdered ha.lt'
    hb.lt', ← ha.eq, ← hb.eq]
  exact hr.embeds.isSubtype_eq hr.regular.indexed.toOrdered hr.regular'.withElements.indexed.toOrdered ha.lt hb.lt

/-- Under each name stand types that are images of each other. -/
theorem SameFields.lookup {fields fields' : FieldTypes} (h : SameFields f A B fields fields') {name : String}
    {type : TypeId} (htype : fields.lookup name = some type) :
    ∃ type', fields'.lookup name = some type' ∧ Image f A B type type' := by
  induction h with
  | nil => cases htype
  | @cons p p' fields fields' hp _ ih =>
    rw [List.lookup_cons] at htype ⊢
    rw [← hp.1]
    split at htype
    · exact ⟨p'.2, rfl, Option.some.inj htype ▸ hp.2⟩
    · exact ih htype

theorem SameFields.map_fst {fields fields' : FieldTypes} (h : SameFields f A B fields fields') :
    fields'.map Prod.fst = fields.map Prod.fst := by
  rw [← h.map_eq, List.map_map]
  rfl

/-- A value of the declared type is not reported. -/
theorem checkFieldValue_run {owner field : String} {expected actual : TypeId} {span : Span}
    (h : c.arena.isSubtype actual expected = true) : checkFieldValue owner field expected actual span c = ((), c) := by
  have hcompatible : (!compatible c.arena actual expected) = false := by rw [compatible, h, Bool.or_true]; rfl
  change (if (!compatible c.arena actual expected) = true then _ else _ : Check Unit) c = _
  rw [if_neg (ne_true_of_eq_false hcompatible)]
  rfl

theorem reportMissing_run {owner : String} {given : List String} {span : Span} {declared : FieldTypes}
    (h : ∀ name ∈ declared.map Prod.fst, name ∈ given) : reportMissing owner given span declared c = ((), c) := by
  induction declared with
  | nil => rfl
  | cons field declared ih =>
    obtain ⟨hfield, h⟩ := List.forall_mem_cons.mp h
    rw [reportMissing, List.contains_iff_mem.mpr hfield]
    exact ih h

/-- In fields whose values are of the declared types nothing is found wrong. -/
theorem inferFields_fits (owner : String) {declared declared' : FieldTypes} (given : List String)
    {fields : List (Located String × Node)} {values : List Value}
    (hfits : ∀ field ∈ fields, field.2.Fits names known n fun _ => True) (hm : c.Mirrors names f t [])
    (hknown : ∀ name, known name → (c.types.lookup name).isSome = true)
    (hvalues : Eval.evalAll (Eval.eval .dispatch n) (fields.map Prod.snd) ScopeTree.root t = .ok values t')
    (hsame : SameFields f t.arena c.arena declared declared')
    (hnames : ∀ name ∈ Eval.fieldNames fields, name ∈ declared.map Prod.fst ∧ name ∉ given)
    (honce : (Eval.fieldNames fields).Nodup)
    (hchecked : ∀ p ∈ (Eval.fieldNames fields).zip values, ∀ type, declared.lookup p.1 = some type →
      t'.arena.isSubtype (p.2.tag t'.heap) type = true) :
    ∃ g, Evaluated f c t g (inferFields owner declared' given fields c).2 t' ∧
      (inferFields owner declared' given fields c).1 = (Eval.fieldNames fields).reverse ++ given := by
  induction fields generalizing f c t values given with
  | nil =>
    obtain ⟨rfl, rfl⟩ := Eval.pure_ok.mp hvalues
    rw [inferFields]
    exact ⟨f, .refl hm.reflects c.inferred, rfl⟩
  | cons field fields ih =>
    obtain ⟨field, node⟩ := field
    obtain ⟨hnode, hnodes⟩ := List.forall_mem_cons.mp hfits
    obtain ⟨value, u, rest, hvalue, hrest, rfl⟩ := Eval.evalAll_cons_ok hvalues
    obtain ⟨⟨hdeclared, hnew⟩, hnames⟩ := List.forall_mem_cons.mp hnames
    obtain ⟨hfresh, honce⟩ : field.val ∉ Eval.fieldNames fields ∧ (Eval.fieldNames fields).Nodup :=
      List.nodup_cons.mp honce
    obtain ⟨hfirst, hchecked⟩ := List.forall_mem_cons.mp hchecked
    obtain ⟨g, description, -, he, htyped⟩ := hnode hm hknown hvalue
    have hknown' : ∀ name, known name → ((infer false node c).2.types.lookup name).isSome = true := by
      rw [he.checker]
      exact hknown
    have hnames' : ∀ name ∈ Eval.fieldNames fields, name ∈ declared.map Prod.fst ∧ name ∉ field.val :: given :=
      fun name hname => ⟨(hnames name hname).1, fun hmem => (List.mem_cons.mp hmem).elim
        (fun heq => hfresh (heq ▸ hname)) (hnames name hname).2⟩
    obtain ⟨k, he', hanswer⟩ := ih (field.val :: given) hnodes (he.mirrors hm) hknown' hrest
      (hsame.retained he.retains) hnames' honce hchecked
    obtain ⟨type, htype⟩ := Option.isSome_iff_exists.mp (Assoc.lookup_isSome_iff.mpr hdeclared)
    obtain ⟨type', htype', hi⟩ := hsame.lookup htype
    obtain ⟨id, hmarked, hid⟩ := htyped.marked
    -- what has been checked in the end can be checked here
    have hsub : (infer false node c).2.arena.isSubtype (infer false node c).1 (withoutVars c.arena type') = true := by
      rw [withoutVars]
      split
      · exact isSubtype_any _
      · have hlater := hfirst type htype
        rw [hmarked _ he'.heap] at hlater
        rw [isSubtype_image he.reflects hid (he.retains.image hi), ← he'.extension.isSubtype_eq
          he.reflects.regular.indexed.toOrdered he'.reflects.regular.indexed.toOrdered hid.lt (he.extension.lt hi.lt)]
        exact hlater
    have hnot : ¬given.contains field.val = true := fun hmem => hnew (List.contains_iff_mem.mp hmem)
    rw [inferFields_known htype', if_neg hnot]
    dsimp only [Pure.pure, StateT.pure]
    rw [checkFieldValue_run hsub]
    refine ⟨k, he.trans he', hanswer.trans ?_⟩
    rw [Eval.fieldNames, Eval.fieldNames, List.map_cons, List.reverse_cons, List.append_assoc]
    rfl

theorem kind_image (hr : Reflects f A B) {id id' : TypeId} (hi : Image f A B id id') :
    (B.get id').kind = (A.get id).kind.map f := by
  rw [← B.withElements_extends.get_eq hi.lt', ← hi.eq]
  exact hr.embeds.kind hi.lt

theorem fields_image (hr : Reflects f A B) {id id' : TypeId} (hi : Image f A B id id') {params : List String}
    {declared : FieldTypes} (hk : (A.get id).kind = .struct params declared) :
    ∃ declared', (B.get id').kind = .struct params declared' ∧ SameFields f A B declared declared' := by
  have hk' := kind_image hr hi
  rw [hk, TypeKind.map] at hk'
  refine ⟨_, hk', ?_⟩
  rw [SameFields, List.forall₂_map_right_iff, List.forall₂_same]
  exact fun p hp => ⟨rfl, hr.regular.indexed.toOrdered.field_lt hk hp,
    hr.regular'.indexed.toOrdered.field_lt hk' (List.mem_map_of_mem hp), rfl⟩

theorem constructed_struct {name : Located String} {id : TypeId} {params : List String} {declared : FieldTypes}
    (hname : c.types.lookup name.val = some id) (hk : (c.arena.get id).kind = .struct params declared) :
    constructed name c = (some ((c.arena.get id).name, declared, id), c) := by
  have htype : lookupType name.val c = (some id, c) := congrArg (·, c) hname
  have hget : (MonadState.get : Check Checker) c = (c, c) := rfl
  rw [constructed, bind_run, htype]
  dsimp only
  rw [bind_run, hget]
  dsimp only
  rw [hk]
  rfl

theorem infer_construct {name : Located String} {id : TypeId} {params : List String} {declared : FieldTypes}
    (hname : c.types.lookup name.val = some id) (hk : (c.arena.get id).kind = .struct params declared) (span : Span)
    (fields : List (Located String × Node)) :
    let owner := (c.arena.get id).name
    let out := inferFields owner declared [] fields c
    let c' := (reportMissing owner out.1 span declared out.2).2
    infer false (.construct span name fields) c = (id, { c' with inferred := (span.key, id) :: c'.inferred }) := by
  intro owner out c'
  rw [infer, bind_run, constructed_struct hname hk]
  rfl

theorem struct_of_construct {span : Span} {name : Located String} {fields : List (Located String × Node)} {id : TypeId}
    {typeName : String} {value : Value} (hbound : t.scopes.get? ScopeTree.root name.val = some (.typeRef id typeName))
    (heval : Eval.eval .dispatch (n + 1) (.construct span name fields) ScopeTree.root t = .ok value t') :
    ∃ params declared, (t.arena.get id).kind = .struct params declared := by
  have hconstruct := Eval.located_ok.mp heval
  change Eval.construct .dispatch _ name fields _ t = _ at hconstruct
  rw [Eval.construct] at hconstruct
  obtain ⟨_, _, hlookup, hrest⟩ := Eval.bind_ok.mp hconstruct
  cases hlookup
  rw [hbound] at hrest
  obtain ⟨_, _, hget, hrest⟩ := Eval.bind_ok.mp hrest
  cases hget
  cases hk : (t.arena.get id).kind with
  | struct params declared => exact ⟨params, declared, rfl⟩
  | _ =>
    rw [hk] at hrest
    cases hrest

theorem construct_fits (span : Span) {name : Located String} {fields : List (Located String × Node)}
    (hname : known name.val) (h : ∀ field ∈ fields, field.2.Fits names known n fun _ => True) :
    (Node.construct span name fields).Fits names known (n + 1) (· = .declared name.val) := by
  intro f c t value t' hm hknown heval
  obtain ⟨id', hid'⟩ := Option.isSome_iff_exists.mp (hknown name.val hname)
  obtain ⟨id, hid, hi⟩ := hm.types hid'
  obtain ⟨typeName, hbound⟩ : ∃ typeName, t.scopes.get? ScopeTree.root name.val = some (.typeRef id typeName) := by
    rw [Session.knownTypes] at hid
    split at hid
    · next typeName hbound =>
      cases hid
      exact ⟨typeName, hbound⟩
    · cases hid
  obtain ⟨params, declared, hk⟩ := struct_of_construct hbound heval
  have hstruct : t.Declares .dispatch ScopeTree.root name.val declared (.inst id typeName none) := .struct hbound hk
  obtain ⟨owner, hrun⟩ := hstruct.eval_construct span name.span n fields
  rw [show name = ⟨name.val, name.span⟩ from rfl, hrun] at heval
  obtain ⟨filled, u, hfilled, hbuilt⟩ := Eval.bind_ok.mp (Eval.located_ok.mp heval)
  obtain ⟨rfl, rfl⟩ := Eval.pure_ok.mp hbuilt
  obtain ⟨out, u', hgiven, hordered⟩ := Eval.bind_ok.mp hfilled
  obtain ⟨values, hvalues, rfl, hnames, honce⟩ := Eval.givenFields_ok hgiven
  obtain ⟨rfl, hall, hchecked⟩ := Eval.orderFields_ok hordered
  -- the checker knows the same fields
  obtain ⟨declared', hk', hsame⟩ := fields_image hm.reflects hi hk
  have hwritten := Eval.map_fst_written hvalues
  obtain ⟨g, he, hanswer⟩ := inferFields_fits (c.arena.get id').name [] h hm hknown hvalues hsame hnames
    honce fun p hp type htype => hchecked (Assoc.lookup_of_mem (hwritten.symm ▸ honce) hp) htype
  have hmissing : ∀ field ∈ declared'.map Prod.fst,
      field ∈ (inferFields (c.arena.get id').name declared' [] fields c).1 := by
    rw [hanswer, List.append_nil]
    intro field hfield
    rw [← hwritten, List.mem_reverse]
    exact hall field (hsame.map_fst ▸ hfield)
  rw [infer_construct hid' hk', reportMissing_run hmissing]
  have hvars := hm.plain hid'
  have hnew := hm.reflects.regular'.builtin_le_of_struct hk'
  have hisKnown : isKnown c.arena id' = true := isKnown_of_simple (Nat.ne_of_gt (Nat.lt_of_lt_of_le (by decide) hnew)) hvars
    (by rw [hk']; rfl)
  have htyped : Typed f c t (.declared name.val) id' (.inst id typeName none filled) :=
    ⟨hid', hvars, hisKnown, id, fun _ _ => rfl, hi⟩
  have he' := he.noted ((span.key, id') :: (inferFields (c.arena.get id').name declared' [] fields c).2.inferred)
  exact ⟨g, _, rfl, he', htyped.later he' hm.reflects.regular'⟩

theorem literal_fits (span : Span) (value : Literal) :
    (Node.literal span value).Fits names known (n + 1) (· = .scalar (literalType value)) := by
  intro f c t result t' hm hknown heval
  have hrun : Eval.eval .dispatch (n + 1) (.literal span value) ScopeTree.root t = .ok (.ofLiteral value) t := rfl
  rw [hrun] at heval
  cases heval
  have hlt := literalType_lt value
  have hvars := (hm.reflects.regular'.simple_builtin hlt).2
  rw [infer]
  refine ⟨f, _, rfl, .refl hm.reflects _, rfl, hvars, ?_, literalType value, fun later _ => ?_, hm.reflects.image_builtin hlt⟩
  · exact isKnown_of_simple (literalType_ne_any value) hvars (hm.reflects.regular'.simple_builtin hlt).1
  · cases value <;> rfl

end Check

/-- Less may be said about the descriptions. -/
theorem Node.Fits.mono {known : String → Prop} {descriptions descriptions' : ArgumentType → Prop} {node : Node} {n : Nat}
    (h : node.Fits names known n descriptions) (hd : ∀ type, descriptions type → descriptions' type) :
    node.Fits names known n descriptions' := by
  intro f c t value t' hm hknown heval
  obtain ⟨g, type, htype, hfits⟩ := h hm hknown heval
  exact ⟨g, type, hd type htype, hfits⟩

/-- Nothing can be evaluated that must not nest at all. -/
theorem Node.fits_zero {known : String → Prop} {descriptions : ArgumentType → Prop} (node : Node) :
    node.Fits names known 0 descriptions := fun _ _ heval => nomatch heval

/-- **Where an argument can be evaluated, the checker finds nothing wrong and infers its type.** -/
theorem Node.IsArgument.fits {known : String → Prop} {node : Node} {type : ArgumentType} (h : node.IsArgument known type)
    (names : ValueNames) (n : Nat) : node.Fits names known n (· = type) := by
  induction h generalizing n with
  | literal span value =>
    cases n with
    | zero => exact fits_zero _
    | succ n => exact Check.literal_fits span value
  | array span hne _ ih =>
    cases n with
    | zero => exact fits_zero _
    | succ n => exact Check.array_fits span hne fun e he => ih e he n
  | construct span hname types _ ih =>
    cases n with
    | zero => exact fits_zero _
    | succ n => exact Check.construct_fits span hname fun field hfield =>
        Node.Fits.mono (ih field hfield n) fun _ _ => trivial

end DispatchLang
