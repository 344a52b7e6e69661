import DispatchLang.Proofs.Eval.Fresh
import DispatchLang.Proofs.Typing.Counterparts
import DispatchLang.Proofs.Typing.Inference

/-!
# Constructions in which nothing is found wrong

The checker compares the values of a construction with the declared types of its fields, and so does the evaluation of
the construction by types. For plain values, which are scalars and arrays of scalars, the two agree if the declared types
mention no type variables: such a type is alike to the checker and to the session, and plain values do not tell types
apart that are alike (`TypeArena.Alike.isSubtype`). What mentions type variables the checker takes for the type above all
others, so about the values of such fields it says nothing, and the evaluation decides.

Nor does the checker look for fields that are declared twice, of which each needs a value of its own, and it does not
know that the name of an alternative hides a type of this name from the fields of later alternatives.

## Main definitions

* `Node.IsPlain`: a scalar literal, or an array of scalar literals of one kind.
* `Check.Accepted`: a plain node has been found to be of a declared type.

## Main results

* `Check.construction_accepted`: what it means that nothing is found wrong in a construction.
* `Session.conforms_of_accepted`: what the checker accepts conforms, except where it could not look.
* `Session.accepted_construction`: a construction in which nothing is found wrong gives an instance exactly if the values
  conform of those fields about which the checker says nothing.
* `Session.constructions_slip_through`: constructions in which nothing is found wrong and which fail.
-/

namespace DispatchLang

open TypeArena

/-! ## Plain nodes -/

/-- A scalar literal, or an array of scalar literals of one kind that is not empty. -/
inductive Node.IsPlain : Node → PlainType → Prop where
  | scalar (span : Span) (value : Literal) : IsPlain (.literal span value) (.scalar (Check.literalType value))
  | array (span : Span) {elements : List Node} {element : TypeId} (hne : elements ≠ [])
      (h : ∀ e ∈ elements, ∃ place value, e = .literal place value ∧ Check.literalType value = element) :
      IsPlain (.array span elements) (.array element)

namespace Check

theorem literalType_lt (value : Literal) : literalType value < builtinTypes.length := by
  cases value <;> (rw [literalType]; decide)

theorem literalType_ne_any (value : Literal) : literalType value ≠ .any := by
  cases value <;> exact nofun

variable {c : Checker} {node : Node} {plain : PlainType}

/-- The types that the checker gives to scalar literals of one kind. -/
theorem inferPlaced_literals {elements : List Node} {element : TypeId}
    (h : ∀ e ∈ elements, ∃ place value, e = .literal place value ∧ literalType value = element) :
    (inferPlaced elements c).1.map Prod.fst = List.replicate elements.length element ∧
      (inferPlaced elements c).2.arena = c.arena ∧ (inferPlaced elements c).2.findings = c.findings := by
  induction elements generalizing c with
  | nil =>
    rw [inferPlaced]
    exact ⟨rfl, rfl, rfl⟩
  | cons e elements ih =>
    obtain ⟨⟨place, value, rfl, hvalue⟩, hrest⟩ := List.forall_mem_cons.mp h
    rw [inferPlaced, infer]
    obtain ⟨htypes, harena, hfindings⟩ :=
      ih (c := { c with inferred := (place.key, literalType value) :: c.inferred }) hrest
    exact ⟨congrArg₂ List.cons hvalue htypes, harena, hfindings⟩

/-- The checker finds nothing wrong in a plain node and gives it the type of its value. -/
theorem infer_plain (hr : c.arena.Regular) (h : node.IsPlain plain) :
    (infer false node c).2.findings = c.findings ∧ c.arena.Extends (infer false node c).2.arena ∧
      (infer false node c).2.arena.Regular ∧ (infer false node c).2.arena.IsPlain plain (infer false node c).1 := by
  cases h with
  | scalar span value =>
    rw [infer]
    exact ⟨rfl, .refl _, hr, rfl, literalType_lt value⟩
  | @array span elements element hne h =>
    obtain ⟨htypes, harena, hfindings⟩ := inferPlaced_literals (c := c) h
    have hcommon : commonType ((inferPlaced elements c).1.map Prod.fst) = element := by
      obtain ⟨e, elements, rfl⟩ := List.exists_cons_of_ne_nil hne
      rw [htypes, List.length_cons, List.replicate_succ, commonType, if_pos]
      exact List.all_eq_true.mpr fun x hx => decide_eq_true (List.eq_of_mem_replicate hx)
    have helement : element < builtinTypes.length := by
      obtain ⟨e, he⟩ := List.exists_mem_of_ne_nil elements hne
      obtain ⟨place, value, -, rfl⟩ := h e he
      exact literalType_lt value
    have hint := applied_interns c.arena .array [element]
    have hregular : (c.arena.arrayOf element).2.Regular := by
      refine .applied .array [element] hr (hr.toGrown.lt_size (by decide)) fun x hx => ?_
      rw [List.mem_singleton.mp hx]
      exact hr.toGrown.lt_size helement
    have hrun : infer false (.array span elements) c = ((c.arena.arrayOf element).1,
        { (inferPlaced elements c).2 with
          arena := (c.arena.arrayOf element).2
          inferred := (span.key, (c.arena.arrayOf element).1) :: (inferPlaced elements c).2.inferred }) := by
      rw [infer, ← harena, ← hcommon]
      rfl
    rw [hrun]
    exact ⟨hfindings, hint.extension, hregular, hint.interned?_eq, helement⟩

theorem isKnownWithin_builtin {arena : TypeArena} (hr : arena.Regular) {id : TypeId} (hid : id < builtinTypes.length)
    (hany : id ≠ .any) (n : Nat) : isKnownWithin arena (n + 1) id = true := by
  obtain ⟨hnot, hvars⟩ := hr.simple_builtin hid
  rw [isKnownWithin, hvars, Bool.or_false, if_neg (by simpa using hany)]
  cases hk : (arena.get id).kind with
  | applied base args =>
    rw [hk] at hnot
    cases hnot
  | _ => rfl

theorem isKnown_plain {arena : TypeArena} (hr : arena.Regular) (h : node.IsPlain plain) {id : TypeId}
    (hid : arena.IsPlain plain id) : isKnown arena id = true := by
  cases h with
  | scalar span value =>
    obtain ⟨rfl, hbuiltin⟩ := hid
    exact isKnownWithin_builtin hr hbuiltin (literalType_ne_any value) _
  | @array span elements element hne h =>
    have hany : element ≠ .any := by
      obtain ⟨e, he⟩ := List.exists_mem_of_ne_nil elements hne
      obtain ⟨place, value, -, rfl⟩ := h e he
      exact literalType_ne_any value
    obtain ⟨hinterned, hbuiltin⟩ := hid
    obtain ⟨hlt, hk, -⟩ := hr.indexed.index hinterned
    have hnew := not_lt_of_interned? hr.toGrown hinterned
    have hvars : arena.hasVars id = false := by
      rw [hr.indexed.toOrdered.hasVars_eq_any hlt (by rw [hk]; rfl), hk]
      change [element].any arena.hasVars = false
      rw [List.any_cons, List.any_nil, Bool.or_false]
      exact (hr.simple_builtin hbuiltin).2
    obtain ⟨n, hn⟩ : ∃ n, arena.size = n + 1 := Nat.exists_eq_succ_of_ne_zero (Nat.ne_of_gt (Nat.zero_lt_of_lt hlt))
    rw [isKnown, isKnownWithin, hvars, Bool.or_false, if_neg, hk, hn]
    · change [element].all (isKnownWithin arena (n + 1)) = true
      rw [List.all_cons, List.all_nil, Bool.and_true]
      exact isKnownWithin_builtin hr hbuiltin hany n
    · rw [decide_eq_true_iff]
      rintro rfl
      exact hnew (by decide)

/-! ## What is given is accepted -/

/-- A plain node has been found to be of a type: the type of its value is below it, unless it mentions type variables. -/
def Accepted (arena : TypeArena) (node : Node) (type : TypeId) : Prop :=
  ∃ later plain id, arena.Extends later ∧ later.Regular ∧ node.IsPlain plain ∧ later.IsPlain plain id ∧
    (later.hasVars type = false → later.isSubtype id type = true)

theorem Accepted.later {earlier arena : TypeArena} {type : TypeId} (he : earlier.Extends arena)
    (h : Accepted arena node type) : Accepted earlier node type := by
  obtain ⟨later, plain, id, hext, h⟩ := h
  exact ⟨later, plain, id, he.trans hext, h⟩

theorem reportIf_run {p : Prop} [Decidable p] {cause : FindingCause} {span : Span}
    (hclean : ((if p then report cause span else pure ()) c).2.findings = []) :
    ¬p ∧ ((if p then report cause span else pure ()) c : Unit × Checker) = ((), c) := by
  by_cases hp : p
  · rw [if_pos hp] at hclean
    cases hclean
  · exact ⟨hp, by rw [if_neg hp]; rfl⟩

theorem reportIf_arena {p : Prop} [Decidable p] {cause : FindingCause} {span : Span} :
    ((if p then report cause span else pure ()) c : Unit × Checker).2.arena = c.arena := by
  split <;> rfl

theorem checkFieldValue_accepted {owner field : String} {type : TypeId} {span : Span} (hr : c.arena.Regular)
    (hplain : node.IsPlain plain) (htype : type < c.arena.size)
    (hclean : (checkFieldValue owner field (withoutVars c.arena type) (infer false node c).1 span
      (infer false node c).2).2.findings = []) :
    c.findings = [] ∧ Accepted c.arena node type ∧ checkFieldValue owner field (withoutVars c.arena type)
      (infer false node c).1 span (infer false node c).2 = ((), (infer false node c).2) := by
  obtain ⟨hfindings, hext, hregular, hid⟩ := infer_plain hr hplain
  generalize infer false node c = out at *
  obtain ⟨id, c'⟩ := out
  obtain ⟨hnot, hrun⟩ := reportIf_run (c := c') (p := (!compatible c'.arena id (withoutVars c.arena type)) = true) hclean
  refine ⟨?_, ⟨c'.arena, plain, id, hext, hregular, hplain, hid, fun hvars => ?_⟩, hrun⟩
  · rw [← hfindings]
    have hsame : (checkFieldValue owner field (withoutVars c.arena type) id span c').2 = c' := congrArg Prod.snd hrun
    rw [← hsame]
    exact hclean
  · rw [hext.hasVars_eq hr.indexed.toOrdered htype] at hvars
    rw [Bool.not_eq_true, Bool.not_eq_false', compatible, isKnown_plain hregular hplain hid, withoutVars, hvars] at hnot
    exact hnot

/-- The values of a construction have been accepted: each under a declared name, and none twice. -/
structure FieldsAccepted (declared : FieldTypes) (given : List String) (fields : List (Located String × Node)) (c : Checker)
    (out : List String × Checker) : Prop where
  before : c.findings = []
  extension : c.arena.Extends out.2.arena
  names : out.1 = (Eval.fieldNames fields).reverse ++ given
  once : (Eval.fieldNames fields).Nodup
  fresh : ∀ name ∈ Eval.fieldNames fields, name ∉ given
  known : ∀ name ∈ Eval.fieldNames fields, name ∈ declared.map Prod.fst
  accepted : ∀ field ∈ fields, ∀ type, declared.lookup field.1.val = some type → Accepted c.arena field.2 type

section

variable {owner : String} {declared : FieldTypes} {given : List String} {field : Located String} {value : Node}
  {fields : List (Located String × Node)}

theorem inferFields_known {type : TypeId} (h : declared.lookup field.val = some type) :
    inferFields owner declared given ((field, value) :: fields) c =
      let c₁ : Checker := ((if given.contains field.val = true then report (.duplicateField field.val owner) field.span
        else pure ()) c : Unit × Checker).2
      inferFields owner declared (field.val :: given) fields (checkFieldValue owner field.val (withoutVars c₁.arena type)
        (infer false value c₁).1 value.span (infer false value c₁).2).2 := by
  rw [inferFields]
  simp only [h]
  split <;> rfl

theorem inferFields_unknown (h : declared.lookup field.val = none) :
    inferFields owner declared given ((field, value) :: fields) c =
      let c₁ : Checker := ((if given.contains field.val = true then report (.duplicateField field.val owner) field.span
        else pure ()) c : Unit × Checker).2
      inferFields owner declared (field.val :: given) fields
        (infer false value (report (.literalWithoutField owner field.val) field.span c₁).2).2 := by
  rw [inferFields]
  simp only [h]
  split <;> rfl

end

theorem inferFields_accepted {owner : String} {declared : FieldTypes} {given : List String}
    {fields : List (Located String × Node)} (hr : c.arena.Regular) (hdeclared : ∀ f ∈ declared, f.2 < c.arena.size)
    (hplain : ∀ field ∈ fields, ∃ plain, field.2.IsPlain plain)
    (hclean : (inferFields owner declared given fields c).2.findings = []) :
    FieldsAccepted declared given fields c (inferFields owner declared given fields c) := by
  induction fields generalizing given c with
  | nil =>
    rw [inferFields] at hclean ⊢
    exact ⟨hclean, .refl _, rfl, .nil, List.forall_mem_nil _, List.forall_mem_nil _, List.forall_mem_nil _⟩
  | cons field fields ih =>
    obtain ⟨field, value⟩ := field
    obtain ⟨⟨plain, hvalue⟩, hplain⟩ := List.forall_mem_cons.mp hplain
    generalize hc₁ : ((if given.contains field.val = true then report (.duplicateField field.val owner) field.span
      else pure ()) c : Unit × Checker).2 = c₁
    have harena : c₁.arena = c.arena := by
      rw [← hc₁]
      exact reportIf_arena
    have hr₁ : c₁.arena.Regular := harena ▸ hr
    obtain ⟨hfindings, hext, hregular, -⟩ := infer_plain hr₁ hvalue
    cases hlookup : declared.lookup field.val with
    | none =>
      -- the report stays
      rw [inferFields_unknown hlookup, hc₁] at hclean
      obtain ⟨hfindings, hext, hregular, -⟩ :=
        infer_plain (c := (report (.literalWithoutField owner field.val) field.span c₁).2) hr₁ hvalue
      have hrest := ih hregular (fun f hf => hext.lt (harena ▸ hdeclared f hf)) hplain hclean
      cases hfindings.symm.trans hrest.before
    | some type =>
      have htype : type < c₁.arena.size := harena ▸ hdeclared _ (Assoc.mem_of_lookup hlookup)
      have hrun : inferFields owner declared given ((field, value) :: fields) c = _ := inferFields_known hlookup
      rw [hc₁] at hrun
      dsimp only at hrun
      rw [hrun] at hclean ⊢
      have harena₂ : (checkFieldValue owner field.val (withoutVars c₁.arena type) (infer false value c₁).1 value.span
          (infer false value c₁).2).2.arena = (infer false value c₁).2.arena :=
        reportIf_arena (c := (infer false value c₁).2)
      have hrest : FieldsAccepted declared (field.val :: given) fields _ _ := ih (harena₂ ▸ hregular)
        (fun f hf => harena₂ ▸ hext.lt (harena ▸ hdeclared f hf)) hplain hclean
      obtain ⟨hclean₁, haccepted, hsame⟩ := checkFieldValue_accepted hr₁ hvalue htype hrest.before
      rw [← hc₁] at hclean₁
      obtain ⟨hnew, hunchanged⟩ := reportIf_run hclean₁
      obtain rfl : c = c₁ := by
        rw [← hc₁, hunchanged]
      have hext' := harena₂ ▸ hext
      rw [hunchanged] at hclean₁
      rw [List.contains_iff_mem] at hnew
      refine ⟨hclean₁, hext'.trans hrest.extension, ?_, ?_, ?_, ?_, ?_⟩
      · rw [hrest.names, Eval.fieldNames, Eval.fieldNames, List.map_cons, List.reverse_cons, List.append_assoc]
        rfl
      · exact List.nodup_cons.mpr ⟨fun hmem => hrest.fresh _ hmem List.mem_cons_self, hrest.once⟩
      · exact List.forall_mem_cons.mpr ⟨hnew, fun name hname hgiven => hrest.fresh name hname (List.mem_cons_of_mem _ hgiven)⟩
      · exact List.forall_mem_cons.mpr ⟨List.mem_map_of_mem (Assoc.mem_of_lookup hlookup), hrest.known⟩
      · refine List.forall_mem_cons.mpr ⟨fun type' hlookup' => ?_, fun f hf type' hlookup' => ?_⟩
        · obtain rfl := Option.some.inj (hlookup.symm.trans hlookup')
          exact haccepted
        · exact (hrest.accepted f hf type' hlookup').later hext'

theorem reportMissing_accepted {owner : String} {given : List String} {span : Span} {declared : FieldTypes}
    (hclean : (reportMissing owner given span declared c).2.findings = []) :
    c.findings = [] ∧ ∀ name ∈ declared.map Prod.fst, name ∈ given := by
  induction declared generalizing c with
  | nil => exact ⟨hclean, nofun⟩
  | cons field declared ih =>
    obtain ⟨field, type⟩ := field
    generalize hc₁ : ((if (!given.contains field) = true then report (.missingField field owner) span
      else pure ()) c : Unit × Checker).2 = c₁
    have hrun : reportMissing owner given span ((field, type) :: declared) c =
        reportMissing owner given span declared c₁ := by
      rw [reportMissing, ← hc₁]
      split <;> rfl
    rw [hrun] at hclean
    obtain ⟨hclean₁, hall⟩ := ih hclean
    rw [← hc₁] at hclean₁
    obtain ⟨hgiven, hunchanged⟩ := reportIf_run hclean₁
    rw [hunchanged] at hclean₁
    rw [Bool.not_eq_true, Bool.not_eq_false', List.contains_iff_mem] at hgiven
    exact ⟨hclean₁, List.forall_mem_cons.mpr ⟨hgiven, hall⟩⟩

/-- In plain nodes nothing is found wrong, whatever they are given for. -/
theorem inferEntries_plain {fields : List (Located String × Node)} (hr : c.arena.Regular)
    (hplain : ∀ field ∈ fields, ∃ plain, field.2.IsPlain plain) :
    (inferEntries fields c).2.findings = c.findings := by
  induction fields generalizing c with
  | nil =>
    rw [inferEntries]
    rfl
  | cons field fields ih =>
    obtain ⟨field, value⟩ := field
    obtain ⟨⟨plain, hvalue⟩, hplain⟩ := List.forall_mem_cons.mp hplain
    obtain ⟨hfindings, -, hregular, -⟩ := infer_plain hr hvalue
    rw [inferEntries]
    exact (ih hregular hplain).trans hfindings

theorem constructed_run (name : Located String) :
    (∃ owner declared type, constructed name c = (some (owner, declared, type), c) ∧ c.offers name.val = some declared) ∨
      ∃ cause, constructed name c = (none, { c with findings := ⟨cause, name.span⟩ :: c.findings }) := by
  have htype : lookupType name.val c = (c.types.lookup name.val, c) := rfl
  have hvariant : lookupVariant name.val c = (c.variants.lookup name.val, c) := rfl
  have hget : (MonadState.get : Check Checker) c = (c, c) := rfl
  rw [constructed, bind_run, htype, Checker.offers]
  cases c.types.lookup name.val with
  | some id =>
    dsimp only
    rw [bind_run, hget]
    dsimp only
    cases (c.arena.get id).kind with
    | struct params fields => exact .inl ⟨_, _, _, rfl, rfl⟩
    | _ => exact .inr ⟨_, rfl⟩
  | none =>
    dsimp only
    rw [bind_run, hvariant]
    cases c.variants.lookup name.val with
    | some variant => exact .inl ⟨_, _, _, rfl, rfl⟩
    | none => exact .inr ⟨_, rfl⟩

/-- A construction from plain nodes in which nothing is found wrong: it is offered, it has just the fields that are
declared, each of them once, and their values have been accepted. -/
theorem construction_accepted {base : TypeArena} {name : Located String} {fields : List (Located String × Node)}
    {span : Span} (hs : c.Sound base) (hplain : ∀ field ∈ fields, ∃ plain, field.2.IsPlain plain)
    (hclean : (infer false (.construct span name fields) c).2.findings = []) :
    c.findings = [] ∧ ∃ declared, c.offers name.val = some declared ∧ (Eval.fieldNames fields).Nodup ∧
      (∀ other, other ∈ Eval.fieldNames fields ↔ other ∈ declared.map Prod.fst) ∧
      ∀ field ∈ fields, ∀ type, declared.lookup field.1.val = some type → Accepted c.arena field.2 type := by
  rw [infer] at hclean
  rcases constructed_run (c := c) name with ⟨owner, declared, type, hrun, hoffered⟩ | ⟨cause, hrun⟩
  · rw [bind_run, hrun] at hclean
    obtain ⟨hfields, hall⟩ := reportMissing_accepted
      (show (reportMissing owner (inferFields owner declared [] fields c).1 span declared
        (inferFields owner declared [] fields c).2).2.findings = [] from hclean)
    have hdeclared : ∀ f ∈ declared, f.2 < c.arena.size := by
      obtain ⟨-, -, hbelow⟩ := Keeps.constructed name hs
      rw [hrun] at hbelow
      exact (hbelow _ rfl).1
    have haccepted := inferFields_accepted hs.regular hdeclared hplain hfields
    rw [haccepted.names, List.append_nil] at hall
    exact ⟨haccepted.before, declared, hoffered, haccepted.once,
      fun other => ⟨haccepted.known other, fun h => List.mem_reverse.mp (hall other h)⟩, haccepted.accepted⟩
  · -- the report stays
    rw [bind_run, hrun] at hclean
    have hentries := inferEntries_plain (c := { c with findings := ⟨cause, name.span⟩ :: c.findings })
      hs.regular hplain
    cases hentries.symm.trans hclean

end Check

/-! ## The values of plain nodes -/

namespace Session

variable {s t u : Session} {plain : PlainType} {value : Value}

/-- A session has evaluated plain nodes: it may have new types and new arrays. -/
structure Enlarged (s t : Session) : Prop where
  scopes : t.scopes = s.scopes
  extension : s.arena.Extends t.arena
  regular : t.arena.Regular
  heap : s.heap.KeptIn t.heap

theorem Enlarged.trans (h : s.Enlarged t) (h' : t.Enlarged u) : s.Enlarged u :=
  ⟨h'.scopes.trans h.scopes, h.extension.trans h'.extension, h'.regular, h.heap.trans h'.heap⟩

def Holds (s : Session) (value : Value) : PlainType → Prop
  | .scalar type => (∀ heap, value.tag heap = type) ∧ type < builtinTypes.length
  | .array element => element < builtinTypes.length ∧ ∃ address items type, value = .array address ∧
      s.heap.cells[address]? = some (.array items type) ∧ s.arena.interned? (.applied .array [element]) = some type

theorem Holds.later (h : s.Holds value plain) (he : s.Enlarged t) (hr : s.arena.Regular) : t.Holds value plain := by
  cases plain with
  | scalar type => exact h
  | array element =>
    obtain ⟨hbuiltin, address, items, type, hvalue, hcell, hinterned⟩ := h
    obtain ⟨items', hcell'⟩ := he.heap address items type hcell
    exact ⟨hbuiltin, address, items', type, hvalue, hcell', he.extension.interned?_eq hr.indexed hinterned⟩

theorem Holds.isPlain (h : s.Holds value plain) : s.arena.IsPlain plain (value.tag s.heap) := by
  cases plain with
  | scalar type => exact ⟨h.1 s.heap, h.2⟩
  | array element =>
    obtain ⟨hbuiltin, address, items, type, rfl, hcell, hinterned⟩ := h
    have htag : (Value.array address).tag s.heap = type := by
      rw [Value.tag, Heap.arrayType, hcell]
    exact ⟨htag ▸ hinterned, hbuiltin⟩

end Session

namespace Eval

variable {s : Session} {node : Node} {plain : PlainType} (scope : ScopeId)

/-- The values of scalar literals of one kind. -/
theorem evalAll_literals (n : Nat) {elements : List Node} {element : TypeId}
    (h : ∀ e ∈ elements, ∃ place value, e = .literal place value ∧ Check.literalType value = element) :
    ∃ values, evalAll (eval .dispatch (n + 1)) elements scope s = .ok values s ∧
      values.map (Value.tag s.heap) = List.replicate elements.length element := by
  induction elements with
  | nil => exact ⟨[], rfl, rfl⟩
  | cons e elements ih =>
    obtain ⟨⟨place, value, rfl, rfl⟩, hrest⟩ := List.forall_mem_cons.mp h
    obtain ⟨values, hvalues, htags⟩ := ih hrest
    refine ⟨.ofLiteral value :: values, ?_, ?_⟩
    · rw [evalAll, List.mapM_cons]
      exact (bind_of_ok (t := s) rfl).trans (bind_of_ok hvalues)
    · rw [List.map_cons, htags, List.length_cons, List.replicate_succ]
      cases value <;> rfl

/-- The element type of an array of values with these types. -/
def commonTag : List TypeId → TypeId
  | [] => .any
  | first :: rest => if rest.all (· = first) then first else .any

theorem eval_plain (hr : s.arena.Regular) (h : node.IsPlain plain) (n : Nat) : ∃ value t,
    eval .dispatch (n + 2) node scope s = .ok value t ∧ s.Enlarged t ∧ t.Holds value plain := by
  cases h with
  | scalar span value =>
    refine ⟨.ofLiteral value, s, rfl, ⟨rfl, .refl _, hr, .refl _⟩, fun heap => ?_, Check.literalType_lt value⟩
    cases value <;> rfl
  | @array span elements element hne h =>
    obtain ⟨values, hvalues, htags⟩ := evalAll_literals scope n h
    have helement : element < builtinTypes.length := by
      obtain ⟨e, he⟩ := List.exists_mem_of_ne_nil elements hne
      obtain ⟨place, value, -, rfl⟩ := h e he
      exact Check.literalType_lt value
    have hint := applied_interns s.arena .array [element]
    have hregular : (s.arena.arrayOf element).2.Regular := by
      refine .applied .array [element] hr (hr.toGrown.lt_size (by decide)) fun x hx => ?_
      rw [List.mem_singleton.mp hx]
      exact hr.toGrown.lt_size helement
    have hcommon : commonTag (values.map (Value.tag s.heap)) = element := by
      obtain ⟨e, elements, rfl⟩ := List.exists_cons_of_ne_nil hne
      rw [htags, List.length_cons, List.replicate_succ, commonTag, if_pos]
      exact List.all_eq_true.mpr fun x hx => decide_eq_true (List.eq_of_mem_replicate hx)
    have hrun : eval .dispatch (n + 2) (.array span elements) scope s = .ok (.array s.heap.size)
        { s with
          arena := (s.arena.arrayOf element).2
          heap := (s.heap.alloc (.array values.toArray (s.arena.arrayOf element).1)).2 } := by
      refine located_ok.mpr ((bind_of_ok hvalues).trans ?_)
      rw [← hcommon]
      rfl
    refine ⟨_, _, hrun, ⟨rfl, hint.extension, hregular, .alloc _ _⟩, helement, s.heap.size, values.toArray,
      (s.arena.arrayOf element).1, rfl, ?_, hint.interned?_eq⟩
    exact Array.getElem?_push_size

theorem evalAll_plain (hr : s.arena.Regular) (n : Nat) {nodes : List Node} (h : ∀ node ∈ nodes, ∃ plain, node.IsPlain plain) :
    ∃ values t, evalAll (eval .dispatch (n + 2)) nodes scope s = .ok values t ∧ s.Enlarged t ∧
      List.Forall₂ (fun node value => ∃ plain, node.IsPlain plain ∧ t.Holds value plain) nodes values := by
  induction nodes generalizing s with
  | nil => exact ⟨[], s, rfl, ⟨rfl, .refl _, hr, .refl _⟩, .nil⟩
  | cons node nodes ih =>
    obtain ⟨⟨plain, hplain⟩, h⟩ := List.forall_mem_cons.mp h
    obtain ⟨value, u, hvalue, hu, hholds⟩ := eval_plain scope hr hplain n
    obtain ⟨values, t, hvalues, ht, hall⟩ := ih hu.regular h
    refine ⟨value :: values, t, ?_, hu.trans ht, .cons ⟨plain, hplain, hholds.later ht hu.regular⟩ hall⟩
    rw [evalAll, List.mapM_cons]
    exact (bind_of_ok hvalue).trans (bind_of_ok hvalues)

end Eval

/-! ## Programs of a declaration and a construction -/

theorem Node.IsPlain.unique {node : Node} {plain plain' : PlainType} (h : node.IsPlain plain) (h' : node.IsPlain plain') :
    plain = plain' := by
  cases h with
  | scalar span value =>
    cases h'
    rfl
  | array span hne h =>
    cases h' with
    | array _ _ h' =>
      obtain ⟨e, he⟩ := List.exists_mem_of_ne_nil _ hne
      obtain ⟨place, value, rfl, rfl⟩ := h e he
      obtain ⟨place', value', heq, rfl⟩ := h' _ he
      cases heq
      rfl

theorem Checker.initial_counterpart (options : Options) :
    Checker.initial.Counterpart (fun _ => true) [] (Session.fresh .dispatch options) := by
  have hfresh : Checker.initial.typeVars = [] ∧ Checker.initial.types = Checker.bare.types := by decide +kernel
  have hbound : ∀ entry ∈ Checker.bare.types, entry.2 < builtinTypes.length ∧
      (Session.fresh .dispatch .standard).knownTypes ScopeTree.root entry.1 = some entry.2 := by decide
  refine ⟨initial_sound.regular, Session.fresh_regular options, ?_, fun name => .inl ⟨?_, rfl⟩,
    fun {name} _ _ id hid => ?_⟩
  · rw [Session.scopes_fresh]
    decide
  · rw [hfresh.1]
    rfl
  · rw [hfresh.2] at hid
    obtain ⟨hbuiltin, hknown⟩ := hbound _ (Assoc.mem_of_lookup hid)
    rw [Session.knownTypes, Session.scopes_fresh] at hknown ⊢
    exact ⟨id, hknown, .ofBuiltin initial_sound.regular (Session.fresh_regular options) hbuiltin⟩

theorem Check.FieldsAlike.map_fst {A B : TypeArena} {declared declared' : FieldTypes}
    (h : Check.FieldsAlike A B declared declared') : declared.map Prod.fst = declared'.map Prod.fst := by
  induction h with
  | nil => rfl
  | cons hf _ ih => rw [List.map_cons, List.map_cons, hf.1, ih]

/-- Under the name of a field stands a type that is alike, if the names of the fields are distinct. -/
theorem Check.FieldsAlike.lookup {A B : TypeArena} {declared declared' : FieldTypes} {field : String × TypeId}
    (h : Check.FieldsAlike A B declared declared') (hnodup : (declared'.map Prod.fst).Nodup) (hfield : field ∈ declared') :
    ∃ type, declared.lookup field.1 = some type ∧ A.Alike B type field.2 := by
  induction h with
  | nil => cases hfield
  | @cons f f' rest rest' hf hrest ih =>
    obtain ⟨hnew, hnodup⟩ := List.nodup_cons.mp hnodup
    rw [List.lookup_cons]
    rcases List.mem_cons.mp hfield with rfl | hfield
    · rw [hf.1, beq_self_eq_true]
      exact ⟨f.2, rfl, hf.2⟩
    · have hne : field.1 ≠ f.1 := by
        rw [hf.1]
        intro heq
        exact hnew (heq ▸ List.mem_map_of_mem hfield)
      rw [beq_eq_false_iff_ne.mpr hne]
      exact ih hnodup hfield

namespace Session

variable {s t : Session} {declared declared' : FieldTypes} {fields : List (Located String × Node)} {values : List Value}
  {arena : TypeArena}

theorem exists_written {R : Node → Value → Prop} (h : List.Forall₂ R (fields.map Prod.snd) values) {name : String}
    {value : Value} (hmem : (name, value) ∈ (Eval.fieldNames fields).zip values) :
    ∃ field ∈ fields, field.1.val = name ∧ R field.2 value := by
  induction fields generalizing values with
  | nil =>
    rw [List.forall₂_nil_left_iff.mp h] at hmem
    cases hmem
  | cons field fields ih =>
    obtain ⟨first, rest, hfirst, hrest, rfl⟩ := List.forall₂_cons_left_iff.mp h
    rcases List.mem_cons.mp hmem with heq | hmem
    · obtain ⟨rfl, rfl⟩ := Prod.mk.inj heq
      exact ⟨field, List.mem_cons_self, rfl, hfirst⟩
    · obtain ⟨field', hfield', hname, hr⟩ := ih hrest hmem
      exact ⟨field', List.mem_cons_of_mem _ hfield', hname, hr⟩

/-- **What the checker accepts conforms, except where it could not look.** Values that have been accepted for declared
fields conform to the fields of a counterpart, if those do that are declared for types with type variables in them. -/
theorem conforms_of_accepted (hr : arena.Regular) (hr' : s.arena.Regular) (he : s.Enlarged t)
    (halike : Check.FieldsAlike arena s.arena declared declared') (hnodup : (declared'.map Prod.fst).Nodup)
    (hvalues : List.Forall₂ (fun node value => ∃ plain, node.IsPlain plain ∧ t.Holds value plain) (fields.map Prod.snd)
      values)
    (haccepted : ∀ field ∈ fields, ∀ type, declared.lookup field.1.val = some type → Check.Accepted arena field.2 type)
    (hvars : t.Conforms (declared'.filter fun field => t.arena.hasVars field.2) ((Eval.fieldNames fields).zip values)) :
    t.Conforms declared' ((Eval.fieldNames fields).zip values) := by
  intro field' hfield' value hvalue
  cases hasVars : t.arena.hasVars field'.2 with
  | true => exact hvars field' (List.mem_filter.mpr ⟨hfield', hasVars⟩) value hvalue
  | false =>
    obtain ⟨field, hfield, hname, plain, hplain, hholds⟩ := exists_written hvalues hvalue
    -- the declared field as the checker knows it
    obtain ⟨type, hlookup, ha⟩ := halike.lookup hnodup hfield'
    obtain ⟨later, plain', id, hext, hregular, hplain', hid, hsub⟩ := haccepted field hfield type (hname ▸ hlookup)
    obtain rfl := hplain.unique hplain'
    have hlater := ha.grown hr.indexed.toOrdered hr'.indexed.toOrdered hext he.extension
    have hnone : later.hasVars type = false := hlater.vars.trans hasVars
    exact hlater.isSubtype hregular he.regular hid hholds.isPlain hnone (hsub hnone)

theorem run_ok {strategy : Strategy} {node : Node} {value : Value}
    (h : Eval.eval strategy depthLimit node ScopeTree.root s = .ok value t) : s.run strategy [node] = (.ok value, t) := by
  have hrun : Eval.runStatements (Eval.eval strategy depthLimit) ScopeTree.root .nothing [node] s = .ok value t :=
    Eval.bind_of_ok h
  rw [run, hrun]

theorem run_error {strategy : Strategy} {node : Node} {e : RuntimeError}
    (h : Eval.eval strategy depthLimit node ScopeTree.root s = .error (.error e) t) :
    s.run strategy [node] = (.error (.failed e), t) := by
  have hrun : Eval.runStatements (Eval.eval strategy depthLimit) ScopeTree.root .nothing [node] s =
      .error (.error e) t := Eval.bind_of_error h
  rw [run, hrun]

/-- **A construction in which nothing is found wrong.** A declaration is followed by a construction from scalar literals
and arrays of such, and the checker finds nothing wrong in either. Then the declaration is evaluated, provided that no
alternative hides a type that a later one mentions. If the names of the fields of what is constructed are distinct, the
construction gives an instance, and its fields are what is written, exactly if the values of those fields are of the
declared types whose declared types mention type variables. About these the checker says nothing. -/
theorem accepted_construction (options : Options) (place span : Span) {decl : TypeDecl} {name : Located String}
    (hhides : decl.HidesNoType) (hne : fields ≠ []) (hplain : ∀ field ∈ fields, ∃ plain, field.2.IsPlain plain)
    (haccepted : (Checker.initial.check [.typeDecl place decl, .construct span name fields]).1.ok = true) :
    ∃ type s declared build values t,
      (fresh .dispatch options).run .dispatch [.typeDecl place decl] = (.ok type, s) ∧
      s.Declares .dispatch ScopeTree.root name.val declared build ∧
      Eval.evalAll (Eval.eval .dispatch (depthLimit - 1)) (fields.map Prod.snd) ScopeTree.root s = .ok values t ∧
      ((declared.map Prod.fst).Nodup →
        let written := (Eval.fieldNames fields).zip values
        let undecided := declared.filter fun field => t.arena.hasVars field.2
        let result := s.run .dispatch [.construct span name fields]
        (t.Conforms undecided written → ∃ filled, result = (.ok (build filled), t) ∧
          filled.map Prod.fst = declared.map Prod.fst ∧ filled.Perm written) ∧
        (¬t.Conforms undecided written → ∃ e, result = (.error (.failed e), t) ∧ e.fault.kind = .typeMismatch)) := by
  -- what the checker does
  generalize hc : (Check.declareType decl Checker.initial).2 = c
  have hinfer : (Check.infer false (.typeDecl place decl) Checker.initial).2 =
      { c with inferred := (place.key, TypeId.type) :: c.inferred } := by
    rw [Check.infer, ← hc]
    rfl
  have hsound : Checker.Sound .initial { c with inferred := (place.key, TypeId.type) :: c.inferred } :=
    hinfer ▸ (Check.Keeps.infer false (.typeDecl place decl) Checker.initial_sound).1
  have hclean : (Check.infer false (.construct span name fields)
      { c with inferred := (place.key, TypeId.type) :: c.inferred }).2.findings = [] := by
    have hreport : (Check.infer false (.construct span name fields)
        (Check.infer false (.typeDecl place decl) Checker.initial).2).2.findings.reverse.isEmpty = true := by
      rw [CheckReport.ok, Checker.check] at haccepted
      simp only [Check.inferPlaced] at haccepted
      exact haccepted
    rw [hinfer, List.isEmpty_iff, List.reverse_eq_nil_iff] at hreport
    exact hreport
  obtain ⟨hclean, declared, hoffered, honce, hnames, haccepted⟩ := Check.construction_accepted hsound hplain hclean
  -- what the session does
  obtain ⟨hbuiltin, hvariants⟩ : (∀ entry ∈ Checker.initial.types, entry.2 < builtinTypes.length) ∧
      Checker.initial.variants.isEmpty = true := by decide +kernel
  obtain ⟨type, s, hdeclare, hoffers⟩ := Check.declareType_tracks (Checker.initial_counterpart options)
    (fun name id hid => hbuiltin _ (Assoc.mem_of_lookup hid)) (List.isEmpty_iff.mp hvariants) hhides (hc ▸ hclean)
  rw [hc] at hoffers
  have hdeclared : declared ≠ [] := by
    rintro rfl
    obtain ⟨field, hfield⟩ := List.exists_mem_of_ne_nil fields hne
    cases (hnames _).mp (List.mem_map_of_mem hfield)
  obtain ⟨declared', build, hbuild, halike⟩ := hoffers.constructs hoffered hdeclared
  have hnodes : ∀ node ∈ fields.map Prod.snd, ∃ plain, node.IsPlain plain := List.forall_mem_map.mpr hplain
  have hdepth : depthLimit - 1 = 999997 + 2 := rfl
  obtain ⟨values, t, hvalues, ht, hholds⟩ :=
    Eval.evalAll_plain ScopeTree.root hoffers.regular' 999997 hnodes
  rw [← hdepth] at hvalues
  refine ⟨type, s, declared', build, values, t, run_ok (Eval.located_ok.mpr hdeclare), hbuild, hvalues, fun hnodup => ?_⟩
  have hsame : declared.map Prod.fst = declared'.map Prod.fst := halike.map_fst
  have hperm : (Eval.fieldNames fields).Perm (declared'.map Prod.fst) :=
    (List.perm_ext_iff_of_nodup honce hnodup).mpr (hsame ▸ hnames)
  obtain ⟨owner, hresult⟩ := hbuild.eval_construct span name.span (depthLimit - 1) fields
  refine ⟨fun hvars => ?_, fun hvars => ?_⟩
  · have hconforms := conforms_of_accepted hoffers.regular hoffers.regular' ht halike hnodup hholds haccepted hvars
    obtain ⟨filled, hfilled, hordered, hsame⟩ := Eval.exists_filledFields owner hvalues hnodup hperm hconforms
    exact ⟨filled, run_ok (hresult.trans (Eval.located_ok.mpr (Eval.bind_of_ok hfilled))), hordered, hsame⟩
  · have hconforms : ¬t.Conforms declared' ((Eval.fieldNames fields).zip values) := fun h =>
      hvars fun field hfield => h field (List.mem_filter.mp hfield).1
    obtain ⟨fault, hfault⟩ := Eval.exists_filledFields_mismatch owner hvalues hnodup hperm hconforms
    refine ⟨(⟨.mismatch fault, none⟩ : RuntimeError).withSpan span, run_error (hresult.trans ?_), rfl⟩
    rw [Eval.located, Eval.bind_of_error hfault]

/-! ### A pair of an integer and anything -/

/-- The type `Pair[T]` with the fields `x: Int` and `y: T`. -/
def pairType : TypeDecl where
  name := ⟨"Pair", .nowhere⟩
  typeParams := [⟨⟨"T", .nowhere⟩, none⟩]
  parent := none
  body := .struct [⟨⟨"x", .nowhere⟩, .named .nowhere "Int"⟩, ⟨⟨"y", .nowhere⟩, .named .nowhere "T"⟩]

/-- The fields `y: [1.5], x: 1`. -/
def pairFields : List (Located String × Node) :=
  [(⟨"y", .nowhere⟩, .array .nowhere [.literal .nowhere (.float 1.5)]), (⟨"x", .nowhere⟩, .literal .nowhere (.int 1))]

def pairDeclared : Session := ((fresh .dispatch .standard).run .dispatch [.typeDecl .nowhere pairType]).2

def declaredFields? (s : Session) (name : String) : Option FieldTypes :=
  match s.scopes.get? ScopeTree.root name with
  | some (.typeRef id _) =>
    match (s.arena.get id).kind with
    | .struct _ fields => some fields
    | _ => none
  | _ => none

theorem Declares.eq_of_declaredFields? {name : String} {known : FieldTypes} {build : List (String × Value) → Value}
    (h : s.Declares strategy ScopeTree.root name declared build) (hknown : s.declaredFields? name = some known) :
    declared = known := by
  rw [declaredFields?] at hknown
  cases h with
  | struct hname hkind =>
    rw [hname] at hknown
    dsimp only at hknown
    rw [hkind] at hknown
    exact Option.some.inj hknown
  | variant hname =>
    rw [hname] at hknown
    cases hknown

/-- Whether the fields that are written have values of the types that are declared for them. -/
def conformsAfter (s : Session) (declared : FieldTypes) (fields : List (Located String × Node)) : Bool :=
  match Eval.evalAll (Eval.eval .dispatch (depthLimit - 1)) (fields.map Prod.snd) ScopeTree.root s with
  | .ok values t => declared.all fun field => ((Eval.fieldNames fields).zip values).all fun given =>
      given.1 != field.1 || t.arena.isSubtype (given.2.tag t.heap) field.2
  | .error _ _ => false

theorem conforms_of_conformsAfter (h : s.conformsAfter declared fields = true)
    (hvalues : Eval.evalAll (Eval.eval .dispatch (depthLimit - 1)) (fields.map Prod.snd) ScopeTree.root s = .ok values t) :
    t.Conforms declared ((Eval.fieldNames fields).zip values) := by
  rw [conformsAfter, hvalues] at h
  intro field hfield value hvalue
  simpa using List.all_eq_true.mp (List.all_eq_true.mp h field hfield) (field.1, value) hvalue

/-- A pair is declared and constructed, in another order than the fields are declared in. -/
theorem pair_constructed : pairType.HidesNoType ∧ pairFields ≠ [] ∧ (∀ field ∈ pairFields, ∃ plain, field.2.IsPlain plain) ∧
    (Checker.initial.check [.typeDecl .nowhere pairType, .construct .nowhere ⟨"Pair", .nowhere⟩ pairFields]).1.ok = true ∧
    ∃ declared build values t,
      pairDeclared.Declares .dispatch ScopeTree.root "Pair" declared build ∧ declared.map Prod.fst = ["x", "y"] ∧
      t.Conforms (declared.filter fun field => t.arena.hasVars field.2) ((Eval.fieldNames pairFields).zip values) ∧
      ∃ filled, pairDeclared.run .dispatch [.construct .nowhere ⟨"Pair", .nowhere⟩ pairFields] = (.ok (build filled), t) ∧
        filled.map Prod.fst = ["x", "y"] ∧ filled.Perm ((Eval.fieldNames pairFields).zip values) := by
  have hplain : ∀ field ∈ pairFields, ∃ plain, field.2.IsPlain plain :=
    List.forall_mem_cons.mpr ⟨⟨_, .array _ (List.cons_ne_nil _ _)
      (List.forall_mem_singleton.mpr ⟨_, _, rfl, rfl⟩)⟩, List.forall_mem_singleton.mpr ⟨_, .scalar _ _⟩⟩
  have hok : (Checker.initial.check
      [.typeDecl .nowhere pairType, .construct .nowhere ⟨"Pair", .nowhere⟩ pairFields]).1.ok = true := by
    decide +kernel
  obtain ⟨type, s, declared, build, values, t, hrun, hbuild, hvalues, hresult⟩ :=
    accepted_construction .standard .nowhere .nowhere (show pairType.HidesNoType from trivial)
      (List.cons_ne_nil _ _) hplain hok
  obtain rfl : s = pairDeclared := (congrArg Prod.snd hrun).symm
  have hdeclared : declared = [("x", .int), ("y", 12)] :=
    hbuild.eq_of_declaredFields? (by decide +kernel)
  have hconforms : t.Conforms [("x", .int), ("y", 12)] ((Eval.fieldNames pairFields).zip values) :=
    conforms_of_conformsAfter (by decide +kernel) hvalues
  have hnames : declared.map Prod.fst = ["x", "y"] := by rw [hdeclared]; rfl
  rw [← hdeclared] at hconforms
  have hundecided : t.Conforms (declared.filter fun field => t.arena.hasVars field.2)
      ((Eval.fieldNames pairFields).zip values) := fun field hfield => hconforms field (List.mem_filter.mp hfield).1
  obtain ⟨filled, hfilled, hordered, hperm⟩ := (hresult (by rw [hnames]; decide)).1 hundecided
  exact ⟨trivial, List.cons_ne_nil _ _, hplain, hok, declared, build, values, t, hbuild, hnames, hundecided, filled, hfilled,
    hordered.trans hnames, hperm⟩

/-! ### Constructions that fail all the same -/

/-- Whether the checker finds nothing wrong in a program that fails with an error of the given kind. -/
def acceptedButFails (source : String) (kind : ErrorKind) : Bool :=
  match Program.parse source with
  | .error _ => false
  | .ok program =>
    (Checker.initial.check program).1.ok &&
      match ((fresh .dispatch .standard).run .dispatch program).1 with
      | .error e => e.kind? = some kind
      | .ok _ => false

/-- A construction in which nothing is found wrong fails if a value does not meet the constraint of a type variable, if
it is an array where one of a type variable is declared, if a field is declared twice, and if the declaration has hidden
a type that it mentions. -/
theorem constructions_slip_through :
    acceptedButFails "type P[T <: Int] \x7b x: T \x7d\nP \x7b x: \"a\" \x7d" .typeMismatch = true ∧
      acceptedButFails "type P[T] \x7b x: Array[T] \x7d\nP \x7b x: [1] \x7d" .typeMismatch = true ∧
      acceptedButFails "type P \x7b x: Int, x: String \x7d\nP \x7b x: 1 \x7d" .fieldAccess = true ∧
      acceptedButFails "type S = Int(x: Int) | B(y: Int)\nB \x7b y: 1 \x7d" .undefinedType = true := by
  decide +kernel

end Session

end DispatchLang
