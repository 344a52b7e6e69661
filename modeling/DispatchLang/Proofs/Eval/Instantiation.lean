import DispatchLang.Proofs.Eval.Resolution
import DispatchLang.Proofs.Eval.Runs
import DispatchLang.Proofs.Eval.Storing

/-!
# Instances get the fields that are written

A construction names the fields of an instance in any order. They are evaluated as they are written, and only then put
into the declared order, by taking them out of what is given one after the other. Taking one out keeps the others, so the
instance has a permutation of what is given. It cannot have anything else if declared names are distinct: what is
unknown or given twice is refused before, and what is missing is noticed when its turn comes.

Types are looked at when a field is taken out. Under the direct strategy all fields may hold anything, in whatever state
a session is, so there they are never refused. This is why the two strategies can be dealt with at once.

## Main definitions

* `Session.Declares`: a name stands for a type or an alternative with fields.
* `Session.Conforms`: all that is given is of the types that are declared for it.

## Main results

* `Eval.givenFields_eq`, `Eval.exists_givenFields_error`: what evaluating the written fields comes to.
* `Eval.exists_orderFields`, `Eval.exists_orderFields_missing`, `Eval.exists_orderFields_mismatch`: what ordering them
  comes to.
* `Session.Arises.instantiation`: a construction gives an instance exactly if the names are a permutation of the declared
  ones, and under the dispatch strategy the values are of the declared types.
-/

namespace DispatchLang

/-! ## Taking things out of a list -/

namespace Assoc

variable {α : Type} {name : String} {value : α} {entries : List (String × α)}

theorem lookup_eq_none_iff : entries.lookup name = none ↔ name ∉ entries.map Prod.fst := by
  rw [List.lookup_eq_none_iff, List.mem_map]
  constructor
  · rintro h ⟨entry, hentry, rfl⟩
    simpa using h entry hentry
  · intro h entry hentry
    have hne : name ≠ entry.1 := by
      rintro rfl
      exact h ⟨entry, hentry, rfl⟩
    simpa using hne

theorem lookup_isSome_iff : (entries.lookup name).isSome = true ↔ name ∈ entries.map Prod.fst := by
  rw [← Option.ne_none_iff_isSome, Ne, lookup_eq_none_iff, not_not]

/-- What is taken out stood in the list, and the others stay. -/
theorem perm_erase (h : entries.lookup name = some value) : entries.Perm ((name, value) :: erase name entries) := by
  induction entries with
  | nil => cases h
  | cons entry entries ih =>
    obtain ⟨key, other⟩ := entry
    rw [List.lookup_cons] at h
    rw [erase]
    by_cases hkey : key = name
    · rw [hkey, beq_self_eq_true] at h
      rw [if_pos hkey, hkey, Option.some.inj h]
    · rw [beq_eq_false_iff_ne.mpr (Ne.symm hkey)] at h
      rw [if_neg hkey]
      exact ((ih h).cons _).trans (.swap ..)

/-- Where names are distinct, no other thing is left under a name that is taken out. -/
theorem nodup_erase (hnodup : (entries.map Prod.fst).Nodup) (h : entries.lookup name = some value) :
    name ∉ (erase name entries).map Prod.fst ∧ ((erase name entries).map Prod.fst).Nodup := by
  rw [← List.nodup_cons]
  exact (((perm_erase h).map Prod.fst).nodup_iff).mp hnodup

end Assoc

namespace Session

/-- A name stands for a type with fields, or for an alternative with fields, of which an instance is built from its
fields. -/
inductive Declares (strategy : Strategy) (s : Session) (scope : ScopeId) (name : String) :
    FieldTypes → (List (String × Value) → Value) → Prop
  | struct {id : TypeId} {typeName : String} {params : List String} {declared : FieldTypes}
      (hname : s.scopes.get? scope name = some (.typeRef id typeName))
      (hkind : (s.arena.get id).kind = .struct params declared) :
      Declares strategy s scope name declared (.inst (Eval.instanceType strategy id) typeName none)
  | variant {id : Nat} {c : Constructor} (hname : s.scopes.get? scope name = some (.constructor id c)) :
      Declares strategy s scope name c.fields (.inst c.type c.typeName (some c.variant))

def Conforms (s : Session) (declared : FieldTypes) (given : List (String × Value)) : Prop :=
  ∀ field ∈ declared, ∀ value, (field.1, value) ∈ given → s.arena.isSubtype (value.tag s.heap) field.2 = true

variable {s : Session} {declared : FieldTypes} {given rest : List (String × Value)} {field : String} {expected : TypeId}
  {value : Value}

theorem conforms_cons (hname : field ∉ declared.map Prod.fst) (hgiven : given.Perm ((field, value) :: rest))
    (hrest : field ∉ rest.map Prod.fst) : s.Conforms ((field, expected) :: declared) given ↔
      s.arena.isSubtype (value.tag s.heap) expected = true ∧ s.Conforms declared rest := by
  rw [Conforms, List.forall_mem_cons]
  refine and_congr ?_ (forall₂_congr fun other hother => forall_congr' fun v => ?_)
  · constructor
    · intro h
      exact h value (hgiven.mem_iff.mpr List.mem_cons_self)
    · intro h v hv
      -- nothing else is given for the field
      rcases List.mem_cons.mp (hgiven.mem_iff.mp hv) with heq | hv
      · obtain rfl := (Prod.mk.inj heq).2
        exact h
      · exact absurd (List.mem_map_of_mem hv) hrest
  · have hne : other.1 ≠ field := fun heq => hname (heq ▸ List.mem_map_of_mem hother)
    rw [hgiven.mem_iff, List.mem_cons, Prod.mk.injEq, or_iff_right fun h => hne h.1]

end Session

/-! ## The two passes -/

namespace Eval

variable {self : NodeEval} {scope : ScopeId} {owner : String} {declared : FieldTypes}
  {fields : List (Located String × Node)} {given : List (String × Value)} {values : List Value} {s t : Session}

def fieldNames (fields : List (Located String × Node)) : List String := fields.map (·.1.val)

theorem evalAll_cons_ok {node : Node} {nodes : List Node} (h : evalAll self (node :: nodes) scope s = .ok values t) :
    ∃ value u rest, self node scope s = .ok value u ∧ evalAll self nodes scope u = .ok rest t ∧ values = value :: rest := by
  rw [evalAll, List.mapM_cons] at h
  obtain ⟨value, u, hvalue, h⟩ := bind_ok.mp h
  obtain ⟨rest, u', hrest, h⟩ := bind_ok.mp h
  obtain ⟨rfl, rfl⟩ := pure_ok.mp h
  exact ⟨value, u, rest, hvalue, hrest, rfl⟩

theorem length_evalAll {nodes : List Node} (h : evalAll self nodes scope s = .ok values t) :
    values.length = nodes.length := by
  induction nodes generalizing values s with
  | nil =>
    obtain ⟨rfl, -⟩ := pure_ok.mp h
    rfl
  | cons node nodes ih =>
    obtain ⟨value, u, rest, -, hrest, rfl⟩ := evalAll_cons_ok h
    exact congrArg (· + 1) (ih hrest)

/-- Fields that are declared and written once are evaluated as they are written. -/
theorem givenFields_eq (hknown : ∀ name ∈ fieldNames fields, name ∈ declared.map Prod.fst)
    (honce : (given.map Prod.fst ++ fieldNames fields).Nodup)
    (hvalues : evalAll self (fields.map Prod.snd) scope s = .ok values t) :
    givenFields self declared owner scope given fields s = .ok (given ++ (fieldNames fields).zip values) t := by
  induction fields generalizing given values s with
  | nil =>
    obtain ⟨rfl, rfl⟩ := pure_ok.mp hvalues
    rw [givenFields, fieldNames, List.map_nil, List.zip_nil_left, List.append_nil]
    rfl
  | cons field fields ih =>
    obtain ⟨⟨name, place⟩, node⟩ := field
    obtain ⟨hname, hknown⟩ := List.forall_mem_cons.mp hknown
    obtain ⟨value, u, rest, hvalue, hrest, rfl⟩ := evalAll_cons_ok hvalues
    have hfresh : (given.lookup name).isSome = false := by
      rw [Option.isSome_eq_false_iff, Option.isNone_iff_eq_none, Assoc.lookup_eq_none_iff]
      exact fun h => List.disjoint_of_nodup_append honce h List.mem_cons_self
    have hdeclared : (declared.lookup name).isNone = false :=
      Option.isNone_eq_false_iff.mpr (Assoc.lookup_isSome_iff.mpr hname)
    have honce' : ((given ++ [(name, value)]).map Prod.fst ++ fieldNames fields).Nodup := by
      rw [List.map_append, List.append_assoc]
      exact honce
    rw [givenFields, if_neg (ne_true_of_eq_false hdeclared), if_neg (ne_true_of_eq_false hfresh)]
    refine (bind_of_ok hvalue).trans ((ih hknown honce' hrest).trans ?_)
    rw [List.append_assoc]
    rfl

/-- A field that is not declared or is written twice is refused. -/
theorem exists_givenFields_error (hgiven : (given.map Prod.fst).Nodup)
    (hnames : ¬((∀ name ∈ fieldNames fields, name ∈ declared.map Prod.fst) ∧
      (given.map Prod.fst ++ fieldNames fields).Nodup))
    (hvalues : evalAll self (fields.map Prod.snd) scope s = .ok values t) :
    ∃ fault span u, givenFields self declared owner scope given fields s =
      .error (.error ⟨.field fault, some span⟩) u := by
  induction fields generalizing given values s with
  | nil =>
    refine absurd ⟨List.forall_mem_nil _, ?_⟩ hnames
    rw [fieldNames, List.map_nil, List.append_nil]
    exact hgiven
  | cons field fields ih =>
    obtain ⟨⟨name, place⟩, node⟩ := field
    obtain ⟨value, u, rest, hvalue, hrest, rfl⟩ := evalAll_cons_ok hvalues
    rw [givenFields]
    by_cases hdeclared : (declared.lookup name).isNone = true
    · exact ⟨_, _, s, by rw [if_pos hdeclared]; rfl⟩
    · by_cases hfresh : (given.lookup name).isSome = true
      · exact ⟨_, _, s, by rw [if_neg hdeclared, if_pos hfresh]; rfl⟩
      · rw [if_neg hdeclared, if_neg hfresh]
        have hname : name ∈ declared.map Prod.fst := by
          rw [Bool.not_eq_true, Option.isNone_eq_false_iff] at hdeclared
          exact Assoc.lookup_isSome_iff.mp hdeclared
        have hnew : name ∉ given.map Prod.fst := fun h => hfresh (Assoc.lookup_isSome_iff.mpr h)
        have hgiven' : ((given ++ [(name, value)]).map Prod.fst).Nodup := by
          rw [List.map_append]
          exact hgiven.append (List.nodup_singleton _) (List.disjoint_singleton.mpr hnew)
        have hnames' : ¬((∀ name ∈ fieldNames fields, name ∈ declared.map Prod.fst) ∧
            ((given ++ [(name, value)]).map Prod.fst ++ fieldNames fields).Nodup) := by
          rw [List.map_append, List.append_assoc]
          exact fun h => hnames ⟨List.forall_mem_cons.mpr ⟨hname, h.1⟩, h.2⟩
        obtain ⟨fault, span, u', h⟩ := ih hgiven' hnames' hrest
        exact ⟨fault, span, u', (bind_of_ok hvalue).trans h⟩

theorem checkField_eq {field : String} {expected : TypeId} {value : Value} : checkField owner field expected value t =
    if t.arena.isSubtype (value.tag t.heap) expected then .ok () t
    else .error (.error ⟨.mismatch (.fieldType field owner (t.arena.name expected) (t.arena.name (value.tag t.heap))),
      none⟩) t := by
  change (if t.arena.isSubtype (value.tag t.heap) expected = true then _ else _ : Eval Unit) t = _
  split <;> rfl

theorem orderFields_cons {field : String} {expected : TypeId} {value : Value} (h : given.lookup field = some value)
    (hcheck : t.arena.isSubtype (value.tag t.heap) expected = true) :
    orderFields owner ((field, expected) :: declared) given t =
      (do return (field, value) :: (← orderFields owner declared (Assoc.erase field given)) : Eval _) t := by
  rw [orderFields, h]
  exact bind_of_ok (checkField_eq.trans (if_pos hcheck))

section

variable (hdeclared : (declared.map Prod.fst).Nodup) (hgiven : (given.map Prod.fst).Nodup)
include hdeclared hgiven

theorem exists_orderFields (hnames : (given.map Prod.fst).Perm (declared.map Prod.fst))
    (hconforms : t.Conforms declared given) : ∃ filled, orderFields owner declared given t = .ok filled t ∧
      filled.map Prod.fst = declared.map Prod.fst ∧ filled.Perm given := by
  induction declared generalizing given with
  | nil =>
    obtain rfl := List.map_eq_nil_iff.mp hnames.eq_nil
    exact ⟨[], rfl, rfl, .nil⟩
  | cons field declared ih =>
    obtain ⟨field, expected⟩ := field
    obtain ⟨hfield, hdeclared⟩ := List.nodup_cons.mp hdeclared
    obtain ⟨value, hvalue⟩ := Option.isSome_iff_exists.mp
      (Assoc.lookup_isSome_iff.mpr (hnames.mem_iff.mpr List.mem_cons_self))
    obtain ⟨hgone, hrest⟩ := Assoc.nodup_erase hgiven hvalue
    have hperm := Assoc.perm_erase hvalue
    obtain ⟨hcheck, hconforms⟩ := (Session.conforms_cons hfield hperm hgone).mp hconforms
    have hnames := ((hperm.map Prod.fst).symm.trans hnames).cons_inv
    obtain ⟨filled, hfilled, hordered, hsame⟩ := ih hdeclared hrest hnames hconforms
    refine ⟨(field, value) :: filled, ?_, congrArg (field :: ·) hordered, (hsame.cons _).trans hperm.symm⟩
    rw [orderFields_cons hvalue hcheck]
    exact bind_of_ok hfilled

/-- Of what is given for all declared fields, the first thing that is not of the declared type is refused. -/
theorem exists_orderFields_mismatch (hnames : (given.map Prod.fst).Perm (declared.map Prod.fst))
    (hconforms : ¬t.Conforms declared given) :
    ∃ fault, orderFields owner declared given t = .error (.error ⟨.mismatch fault, none⟩) t := by
  induction declared generalizing given with
  | nil => exact absurd (List.forall_mem_nil _) hconforms
  | cons field declared ih =>
    obtain ⟨field, expected⟩ := field
    obtain ⟨hfield, hdeclared⟩ := List.nodup_cons.mp hdeclared
    obtain ⟨value, hvalue⟩ := Option.isSome_iff_exists.mp
      (Assoc.lookup_isSome_iff.mpr (hnames.mem_iff.mpr List.mem_cons_self))
    obtain ⟨hgone, hrest⟩ := Assoc.nodup_erase hgiven hvalue
    have hperm := Assoc.perm_erase hvalue
    by_cases hcheck : t.arena.isSubtype (value.tag t.heap) expected = true
    · rw [Session.conforms_cons hfield hperm hgone, not_and] at hconforms
      have hnames := ((hperm.map Prod.fst).symm.trans hnames).cons_inv
      obtain ⟨fault, hfault⟩ := ih hdeclared hrest hnames (hconforms hcheck)
      exact ⟨fault, (orderFields_cons hvalue hcheck).trans (bind_of_error hfault)⟩
    · rw [orderFields, hvalue]
      exact ⟨_, bind_of_error (checkField_eq.trans (if_neg hcheck))⟩

/-- If nothing is given for one of the fields, it is found missing unless something before it is refused. -/
theorem exists_orderFields_missing (hmissing : ∃ name ∈ declared.map Prod.fst, name ∉ given.map Prod.fst)
    (hconforms : t.Conforms declared given) :
    ∃ fault, orderFields owner declared given t = .error (.error ⟨.field fault, none⟩) t := by
  induction declared generalizing given with
  | nil =>
    obtain ⟨name, hname, -⟩ := hmissing
    cases hname
  | cons field declared ih =>
    obtain ⟨field, expected⟩ := field
    obtain ⟨hfield, hdeclared⟩ := List.nodup_cons.mp hdeclared
    cases hvalue : given.lookup field with
    | none =>
      rw [orderFields, hvalue]
      exact ⟨_, rfl⟩
    | some value =>
      obtain ⟨hgone, hrest⟩ := Assoc.nodup_erase hgiven hvalue
      have hperm := Assoc.perm_erase hvalue
      obtain ⟨hcheck, hconforms⟩ := (Session.conforms_cons hfield hperm hgone).mp hconforms
      have hmissing : ∃ name ∈ declared.map Prod.fst, name ∉ (Assoc.erase field given).map Prod.fst := by
        obtain ⟨name, hname, hnone⟩ := hmissing
        rw [(hperm.map Prod.fst).mem_iff, List.map_cons, List.mem_cons, not_or] at hnone
        exact ⟨name, List.mem_of_ne_of_mem hnone.1 hname, hnone.2⟩
      obtain ⟨fault, hfault⟩ := ih hdeclared hrest hmissing hconforms
      exact ⟨fault, (orderFields_cons hvalue hcheck).trans (bind_of_error hfault)⟩

end

/-- Evaluates the written fields of a construction and orders them. -/
def filledFields (self : NodeEval) (owner : String) (declared : FieldTypes) (fields : List (Located String × Node))
    (scope : ScopeId) : Eval (List (String × Value)) := do
  orderFields owner declared (← givenFields self declared owner scope [] fields)

section

variable (owner) (hvalues : evalAll self (fields.map Prod.snd) scope s = .ok values t)
include hvalues

theorem map_fst_written : ((fieldNames fields).zip values).map Prod.fst = fieldNames fields := by
  refine List.map_fst_zip ?_
  rw [length_evalAll hvalues, fieldNames, List.length_map, List.length_map]

/-- What is written has to be ordered if all names are declared and none is written twice. -/
theorem filledFields_eq (hknown : ∀ name ∈ fieldNames fields, name ∈ declared.map Prod.fst)
    (honce : (fieldNames fields).Nodup) : filledFields self owner declared fields scope s =
      orderFields owner declared ((fieldNames fields).zip values) t := by
  have hgiven : givenFields self declared owner scope [] fields s = .ok ((fieldNames fields).zip values) t :=
    givenFields_eq hknown honce hvalues
  exact bind_of_ok hgiven

variable (hdeclared : (declared.map Prod.fst).Nodup)
include hdeclared

/-- If the names are a permutation of the declared ones, what is written has to be ordered. -/
theorem filledFields_of_perm (hnames : (fieldNames fields).Perm (declared.map Prod.fst)) :
    filledFields self owner declared fields scope s = orderFields owner declared ((fieldNames fields).zip values) t :=
  filledFields_eq owner hvalues (fun _ hname => hnames.mem_iff.mp hname) (hnames.nodup_iff.mpr hdeclared)

theorem exists_filledFields (hnames : (fieldNames fields).Perm (declared.map Prod.fst))
    (hconforms : t.Conforms declared ((fieldNames fields).zip values)) :
    ∃ filled, filledFields self owner declared fields scope s = .ok filled t ∧
      filled.map Prod.fst = declared.map Prod.fst ∧ filled.Perm ((fieldNames fields).zip values) := by
  have hwritten : (((fieldNames fields).zip values).map Prod.fst).Perm (declared.map Prod.fst) := by
    rwa [map_fst_written hvalues]
  rw [filledFields_of_perm owner hvalues hdeclared hnames]
  exact exists_orderFields hdeclared (hwritten.nodup_iff.mpr hdeclared) hwritten hconforms

theorem exists_filledFields_mismatch (hnames : (fieldNames fields).Perm (declared.map Prod.fst))
    (hconforms : ¬t.Conforms declared ((fieldNames fields).zip values)) :
    ∃ fault, filledFields self owner declared fields scope s = .error (.error ⟨.mismatch fault, none⟩) t := by
  have hwritten : (((fieldNames fields).zip values).map Prod.fst).Perm (declared.map Prod.fst) := by
    rwa [map_fst_written hvalues]
  rw [filledFields_of_perm owner hvalues hdeclared hnames]
  exact exists_orderFields_mismatch hdeclared (hwritten.nodup_iff.mpr hdeclared) hwritten hconforms

/-- If the names are no permutation of the declared ones, one of them is unknown, written twice or missing. -/
theorem exists_filledFields_fault (hnames : ¬(fieldNames fields).Perm (declared.map Prod.fst))
    (hconforms : t.Conforms declared ((fieldNames fields).zip values)) :
    ∃ fault span u, filledFields self owner declared fields scope s = .error (.error ⟨.field fault, span⟩) u := by
  by_cases hwell : (∀ name ∈ fieldNames fields, name ∈ declared.map Prod.fst) ∧ (fieldNames fields).Nodup
  · obtain ⟨hknown, honce⟩ := hwell
    have hwritten := map_fst_written hvalues
    have hmissing : ∃ name ∈ declared.map Prod.fst, name ∉ fieldNames fields := by
      by_contra hall
      push Not at hall
      exact hnames ((List.perm_ext_iff_of_nodup honce hdeclared).mpr fun name => ⟨hknown name, hall name⟩)
    rw [filledFields_eq owner hvalues hknown honce]
    obtain ⟨fault, hfault⟩ := exists_orderFields_missing hdeclared (hwritten.symm ▸ honce) (hwritten.symm ▸ hmissing)
      hconforms
    exact ⟨fault, none, t, hfault⟩
  · have hrefused : ∃ fault span u, givenFields self declared owner scope [] fields s =
        .error (.error ⟨.field fault, some span⟩) u := exists_givenFields_error List.nodup_nil hwell hvalues
    obtain ⟨fault, span, u, hfault⟩ := hrefused
    exact ⟨fault, some span, u, bind_of_error hfault⟩

end

end Eval

/-! ## Constructions -/

/-- The type that a value refers to, and its name. -/
def Value.referred? : Value → Option (TypeId × String)
  | .typeRef type name => some (type, name)
  | _ => none

namespace Session

variable {strategy : Strategy} {options : Options} {s t : Session} {scope : ScopeId} {name : String}
  {declared : FieldTypes} {build : List (String × Value) → Value}

theorem Declares.eval_construct (h : s.Declares strategy scope name declared build) (span place : Span) (n : Nat)
    (fields : List (Located String × Node)) : ∃ owner,
      Eval.eval strategy (n + 1) (.construct span ⟨name, place⟩ fields) scope s = Eval.located span (do
        return build (← Eval.filledFields (Eval.eval strategy n) owner declared fields scope)) s := by
  have hread {found : Option Value} (hfound : s.scopes.get? scope name = found) :
      Eval.lookup scope name s = .ok found s := by
    rw [← hfound]
    rfl
  suffices hform : ∃ owner, Eval.construct strategy (Eval.eval strategy n) ⟨name, place⟩ fields scope s =
      (do return build (← Eval.filledFields (Eval.eval strategy n) owner declared fields scope) : Eval Value) s by
    obtain ⟨owner, hform⟩ := hform
    refine ⟨owner, ?_⟩
    change Eval.located span (Eval.construct strategy _ _ fields scope) s = _
    rw [Eval.located, Eval.located, hform]
  simp only [Eval.filledFields, bind_assoc]
  cases h with
  | @struct id typeName params declared hname hkind =>
    refine ⟨typeName, (Eval.bind_of_ok (hread hname)).trans ?_⟩
    have hget : (MonadState.get : Eval Session) s = .ok s s := rfl
    refine (Eval.bind_of_ok hget).trans ?_
    rw [hkind]
  | @variant id c hname => exact ⟨c.variant, Eval.bind_of_ok (hread hname)⟩

theorem Declares.conforms (h : s.Declares .direct scope name declared build) (hs : s.Orderly .lax .direct) (t : Session)
    (given : List (String × Value)) : t.Conforms declared given := by
  have huntyped : ∀ field ∈ declared, field.2 = .any := by
    cases h with
    | struct hname hkind => exact hs.types.get hkind rfl
    | variant hname => exact (hs.scopes.get? hname).admitted rfl
  intro field hfield value _
  rw [huntyped field hfield]
  exact isSubtype_any _

/-- **Instances have the fields that are written.** If declared names are distinct and all that is written can be
evaluated, a construction gives an instance exactly if the names are a permutation of the declared ones. Its fields are
what is written, in the declared order, and everything is evaluated once in the order in which it is written. Otherwise
a field is at fault. Under the dispatch strategy this holds of values of the declared types, and where only a value is of
another type, the types are at fault. -/
theorem Arises.instantiation (h : s.Arises strategy options) (hd : s.Declares strategy scope name declared build)
    (hdeclared : (declared.map Prod.fst).Nodup) {n : Nat} {fields : List (Located String × Node)} {values : List Value}
    (hvalues : Eval.evalAll (Eval.eval strategy n) (fields.map Prod.snd) scope s = .ok values t) (span place : Span) :
    let written := (Eval.fieldNames fields).zip values
    let named := (Eval.fieldNames fields).Perm (declared.map Prod.fst)
    let result := Eval.eval strategy (n + 1) (.construct span ⟨name, place⟩ fields) scope s
    ((strategy = .dispatch → t.Conforms declared written) →
      (named → ∃ filled, result = .ok (build filled) t ∧ filled.map Prod.fst = declared.map Prod.fst ∧
        filled.Perm written) ∧
      (¬named → ∃ e u, result = .error (.error e) u ∧ e.fault.kind = .fieldAccess)) ∧
    (strategy = .dispatch → named → ¬t.Conforms declared written →
      ∃ e, result = .error (.error e) t ∧ e.fault.kind = .typeMismatch) := by
  intro written named result
  obtain ⟨owner, hresult⟩ := hd.eval_construct span place n fields
  have fails {fault : Fault} {at? : Option Span} {u : Session} (hfault : Eval.filledFields (Eval.eval strategy n) owner
      declared fields scope s = .error (.error ⟨fault, at?⟩) u) :
      result = .error (.error (RuntimeError.withSpan ⟨fault, at?⟩ span)) u := by
    refine hresult.trans ?_
    rw [Eval.located, Eval.bind_of_error hfault]
  refine ⟨fun hconforms => ?_, fun _ hnamed hconforms => ?_⟩
  · -- under the direct strategy nothing has to be shown about types
    have hconforms : t.Conforms declared written := by
      cases strategy with
      | direct => exact hd.conforms h.orderly t written
      | dispatch => exact hconforms rfl
    refine ⟨fun hnamed => ?_, fun hnamed => ?_⟩
    · obtain ⟨filled, hfilled, hordered, hsame⟩ := Eval.exists_filledFields owner hvalues hdeclared hnamed hconforms
      exact ⟨filled, hresult.trans (Eval.located_ok.mpr (Eval.bind_of_ok hfilled)), hordered, hsame⟩
    · obtain ⟨fault, at?, u, hfault⟩ := Eval.exists_filledFields_fault owner hvalues hdeclared hnamed hconforms
      exact ⟨_, u, fails hfault, rfl⟩
  · obtain ⟨fault, hfault⟩ := Eval.exists_filledFields_mismatch owner hvalues hdeclared hnamed hconforms
    exact ⟨_, fails hfault, rfl⟩

/-- The fields of a point are written in another order than they are declared. -/
theorem point_in_order : ∃ (s t : Session) (filled : List (String × Value)), s.Arises .dispatch .standard ∧
    Eval.eval .dispatch 2 (.construct .nowhere ⟨"P", .nowhere⟩ [(⟨"y", .nowhere⟩, .literal .nowhere (.int 2)),
      (⟨"x", .nowhere⟩, .literal .nowhere (.int 1))]) ScopeTree.root s = .ok (.inst 14 "P" none filled) t ∧
    filled.map Prod.fst = ["x", "y"] ∧ filled.Perm [("y", .int 2), ("x", .int 1)] := by
  let fields : List (Located String × Node) :=
    [(⟨"y", .nowhere⟩, .literal .nowhere (.int 2)), (⟨"x", .nowhere⟩, .literal .nowhere (.int 1))]
  generalize hs : ((fresh .dispatch .standard).feed .dispatch "type P \x7b x: Int, y: Int \x7d").2 = s
  have harises : s.Arises .dispatch .standard := hs ▸ LeadsTo.refl.fed _
  obtain ⟨hbound, hkind, hint⟩ :
      (s.scopes.get? ScopeTree.root "P").bind Value.referred? = some (14, "P") ∧
        (s.arena.get 14).kind = .struct [] [("x", .int), ("y", .int)] ∧ s.arena.isSubtype .int .int = true := by
    rw [← hs]
    decide +kernel
  have hdeclares : s.Declares .dispatch ScopeTree.root "P" [("x", .int), ("y", .int)] (.inst 14 "P" none) := by
    obtain ⟨v, hv, hform⟩ := Option.bind_eq_some_iff.mp hbound
    cases v with
    | typeRef type name =>
      cases hform
      exact .struct hv hkind
    | _ => cases hform
  have hvalues : Eval.evalAll (Eval.eval .dispatch 1) (fields.map Prod.snd) ScopeTree.root s = .ok [.int 2, .int 1] s :=
    rfl
  have hconforms : s.Conforms [("x", .int), ("y", .int)] ((Eval.fieldNames fields).zip [.int 2, .int 1]) := by
    -- both values are integers, and so are both fields
    intro field hfield value hvalue
    obtain rfl | rfl : value = .int 2 ∨ value = .int 1 := by
      simpa using (List.of_mem_zip hvalue).2
    all_goals
      obtain rfl | rfl : field = ("x", .int) ∨ field = ("y", .int) := by simpa using hfield
      all_goals exact hint
  obtain ⟨hinstance, -⟩ := harises.instantiation hdeclares (by decide) hvalues .nowhere .nowhere
  obtain ⟨filled, hresult, hordered, hsame⟩ := (hinstance fun _ => hconforms).1 (List.Perm.swap ..)
  exact ⟨s, s, filled, harises, hresult, hordered, hsame⟩

end Session

end DispatchLang
