import DispatchLang.Proofs.Typing.Keeping
import DispatchLang.Typing.Infer

/-!
# Inference keeps a checker sound

The proof follows the checker through patterns and nodes: whatever form a node has, inferring its type keeps a
checker sound and answers a type of its arena. The checker never fails, so this holds for programs with mistakes
as for others.

## Main results

* `Keeps.bindPattern`: binding the captures of a pattern keeps a checker sound.
* `Keeps.infer`: so does inferring the type of a node.
* `Checker.initial_sound`: the checker that every session begins with is sound.
-/

namespace DispatchLang

open TypeArena

namespace Check.Keeps

variable {α : Type} {base : TypeArena} {c : Checker}

theorem builtinType {id : TypeId} (hid : id < builtinTypes.length) :
    Keeps base c (Pure.pure id) typeBelow :=
  ofSound fun hs => pure (Nat.lt_of_lt_of_le hid hs.builtin)

theorem literalType (literal : Literal) : Keeps base c (Pure.pure (Check.literalType literal)) typeBelow := by
  cases literal with
  | int _ => exact builtinType (show TypeId.int < _ by decide)
  | float _ => exact builtinType (show TypeId.float < _ by decide)
  | string _ => exact builtinType (show TypeId.string < _ by decide)
  | bool _ => exact builtinType (show TypeId.boolean < _ by decide)

theorem forM {step : String × TypeId → Check PUnit} {entries : List (String × TypeId)}
    (hstep : ∀ c e, e.2 < c.arena.size → Keeps base c (step e) anyAnswer)
    (h : namedBelow c.arena.size entries) : Keeps base c (entries.forM step) anyAnswer := by
  induction entries generalizing c with
  | nil => exact pure trivial
  | cons entry entries ih =>
    obtain ⟨hentry, hentries⟩ := List.forall_mem_cons.mp h
    exact (hstep c entry hentry).bind fun _ _ hn _ => ih (namedBelow.mono hentries hn)

/-! ## Patterns -/

theorem patternFields (name : String) : Keeps base c (Check.patternFields name)
    fun n found => ∀ id fields, found = some (id, fields) → id < n ∧ namedBelow n fields := by
  rw [Check.patternFields]
  refine (lookupVariant name).bind fun found c' _ hfound => ?_
  split
  · refine pure fun id fields h => ?_
    cases h
    exact hfound _ rfl
  · refine (lookupType name).bind fun known c'' _ hknown => ?_
    split
    · exact pure fun _ _ h => by cases h
    · next id _ _ =>
      refine ofSound fun hs => get ?_
      split
      · next fields hk =>
        refine pure fun x _ h => ?_
        cases h
        exact ⟨hknown _ rfl, fun f hf => hs.regular.indexed.toOrdered.field_lt hk hf⟩
      · exact pure fun _ _ h => by cases h

theorem patternFieldType (owner : String) {declared : FieldTypes} (h : namedBelow c.arena.size declared)
    (field : Located String) : Keeps base c (Check.patternFieldType owner declared field) typeBelow := by
  rw [Check.patternFieldType]
  split
  · next type htype =>
    exact ofSound fun hs => get (pure (withoutVars_lt hs.builtin (h _ (Assoc.mem_of_lookup htype))))
  · exact reportAny _ _

mutual

theorem bindPattern {c : Checker} {type : TypeId} (ht : type < c.arena.size) (pattern : Node) :
    Keeps base c (Check.bindPattern type pattern) typeBelow := by
  have answer {c' : Checker} {id : TypeId} (hid : id < c'.arena.size) : Keeps base c' (do
      Check.record pattern.span id
      return id) typeBelow :=
    (record _ id).bind fun _ _ hn _ => pure (Nat.lt_of_lt_of_le hid hn)
  unfold Check.bindPattern
  cases pattern with
  | capture span name =>
    cases name with
    | none => exact answer ht
    | some name => exact (define name ht).bind fun _ _ hn _ => answer (Nat.lt_of_lt_of_le ht hn)
  | refine span name inner =>
    refine (bindPattern ht inner).bind fun bound c' _ hbound => ?_
    cases name with
    | none => exact answer hbound
    | some name => exact (define name hbound).bind fun _ _ hn _ => answer (Nat.lt_of_lt_of_le hbound hn)
  | literal span value => exact (literalType value).bind fun _ _ _ hid => answer hid
  | ident span name =>
    refine (lookupVariant name).bind fun found c' hn hfound => ?_
    cases found with
    | some variant => exact answer (hfound variant rfl).1
    | none => exact (report _ _).bind fun _ _ hn' _ => answer (Nat.lt_of_lt_of_le ht (Nat.le_trans hn hn'))
  | construct span name fields =>
    refine (patternFields name.val).bind fun found c' hn hfound => ?_
    cases found with
    | some found =>
      obtain ⟨hid, hdeclared⟩ := hfound found.1 found.2 rfl
      exact (bindFields name.val (fun _ h => Option.some.inj h ▸ hdeclared) fields).bind fun _ _ hn' _ =>
        answer (Nat.lt_of_lt_of_le hid hn')
    | none =>
      refine (report _ _).bind fun _ c'' hn' _ => ?_
      have hnone : ∀ declared, none = some declared → namedBelow c''.arena.size declared := nofun
      refine (bindFields name.val hnone fields).bind fun _ _ hn'' _ => ?_
      exact answer (Nat.lt_of_lt_of_le ht (Nat.le_trans hn (Nat.le_trans hn' hn'')))
  | _ => exact (report _ _).bind fun _ _ hn _ => answer (Nat.lt_of_lt_of_le ht hn)

theorem bindFields {c : Checker} (owner : String) {declared : Option FieldTypes}
    (h : ∀ fields, declared = some fields → namedBelow c.arena.size fields)
    (fields : List (Located String × Node)) : Keeps base c (Check.bindFields owner declared fields) anyAnswer := by
  unfold Check.bindFields
  cases fields with
  | nil => exact pure trivial
  | cons field fields =>
    have rest {type : TypeId} {c' : Checker} (hn : c.arena.size ≤ c'.arena.size) (ht : type < c'.arena.size) :
        Keeps base c' (do
          let _ ← Check.bindPattern type field.2
          Check.bindFields owner declared fields) anyAnswer :=
      (bindPattern ht field.2).bind fun _ _ hn' _ =>
        bindFields owner (fun fields heq => (h fields heq).mono (Nat.le_trans hn hn')) fields
    cases declared with
    | none => exact anyType.bind fun _ _ hn htype => rest hn htype
    | some declared =>
      exact (patternFieldType owner (h declared rfl) field.1).bind fun _ _ hn htype => rest hn htype

end

/-! ## Constructions and assignments -/

theorem checkFieldValue (owner field : String) (expected actual : TypeId) (span : Span) :
    Keeps base c (Check.checkFieldValue owner field expected actual span) anyAnswer := by
  refine get ?_
  dsimp only
  split
  · exact report _ _
  · exact pure trivial

theorem reportMissing (owner : String) (given : List String) (span : Span) (declared : FieldTypes) :
    Keeps base c (Check.reportMissing owner given span declared) anyAnswer := by
  induction declared generalizing c with
  | nil => exact pure trivial
  | cons field declared ih =>
    rw [Check.reportMissing]
    split
    · exact (report _ _).bind fun _ _ _ _ => ih
    · exact ih

theorem constructed (name : Located String) : Keeps base c (Check.constructed name)
    fun n found => ∀ x, found = some x → namedBelow n x.2.1 ∧ x.2.2 < n := by
  rw [Check.constructed]
  refine (lookupType name.val).bind fun found c' _ hfound => ?_
  cases found with
  | some id =>
    refine ofSound fun hs => get ?_
    dsimp only
    split
    · next fields hk =>
      refine pure fun x hx => ?_
      cases hx
      exact ⟨fun f hf => hs.regular.indexed.toOrdered.field_lt hk hf, hfound id rfl⟩
    · exact (report _ _).bind fun _ _ _ _ => pure nofun
  | none =>
    refine (lookupVariant name.val).bind fun found c'' _ hvariant => ?_
    cases found with
    | some variant =>
      refine pure fun x hx => ?_
      cases hx
      exact (hvariant variant rfl).symm
    | none => exact (report _ _).bind fun _ _ _ _ => pure nofun

theorem assignTo (target : Node) {type : TypeId} (ht : type < c.arena.size) :
    Keeps base c (Check.assignTo target type) anyAnswer := by
  cases target with
  | ident span name => exact (assign name ht).bind fun _ _ _ _ => record span type
  | construct _ _ _ | capture _ _ | refine _ _ _ => exact (bindPattern ht _).bind fun _ _ _ _ => pure trivial
  | _ => exact report _ _

theorem join_lt {arena : TypeArena} (ho : arena.Ordered) {a b : TypeId} (ha : a < arena.size)
    (hb : b < arena.size) : arena.join a b < arena.size := by
  rw [join]
  split
  · exact ha
  · dsimp only
    cases hfound : (arena.ancestors b).find? (arena.ancestors a).contains with
    | none => exact any_below ho.builtin
    | some x => exact chain_lt ho _ hb x (List.mem_of_find?_eq_some hfound)

theorem nothing_below {n : Nat} (hn : builtinTypes.length ≤ n) : TypeId.nothing < n :=
  Nat.lt_of_lt_of_le (by decide) hn

theorem joinAll_lt {arena : TypeArena} (ho : arena.Ordered) {ids : List TypeId}
    (h : typesBelow arena.size ids) : Check.joinAll arena ids < arena.size := by
  cases ids with
  | nil => exact nothing_below ho.builtin
  | cons first rest =>
    obtain ⟨hfirst, hrest⟩ := List.forall_mem_cons.mp h
    rw [Check.joinAll]
    induction rest generalizing first with
    | nil => exact hfirst
    | cons id rest ih =>
      obtain ⟨hid, hrest'⟩ := List.forall_mem_cons.mp hrest
      have hjoin := join_lt ho hfirst hid
      exact ih _ (List.forall_mem_cons.mpr ⟨hjoin, hrest'⟩) hjoin hrest'

/-! ## Nodes -/

mutual

theorem infer {c : Checker} (inPlace : Bool) (node : Node) : Keeps base c (Check.infer inPlace node) typeBelow := by
  have answer {c' : Checker} {id : TypeId} (hid : id < c'.arena.size) : Keeps base c' (do
      Check.record node.span id
      return id) typeBelow :=
    (record _ id).bind fun _ _ hn _ => pure (Nat.lt_of_lt_of_le hid hn)
  have finish {x : Check TypeId} {c' : Checker} (hx : Keeps base c' x typeBelow) : Keeps base c' (do
      let id ← x
      Check.record node.span id
      return id) typeBelow := hx.bind fun _ _ _ hid => answer hid
  unfold Check.infer
  cases node with
  | literal span value => exact finish (literalType value)
  | ident span name => exact finish (nameType name span)
  | binary span op left right =>
    refine (infer false left).bind fun left c' _ hleft => (infer false right).bind fun _ c'' hn _ => ?_
    dsimp only
    split
    · exact finish (builtinType (show TypeId.boolean < _ by decide))
    · exact answer (Nat.lt_of_lt_of_le hleft hn)
  | unary span op operand =>
    refine (infer false operand).bind fun operand c' _ hoperand => ?_
    cases op with
    | not => exact finish (builtinType (show TypeId.boolean < _ by decide))
    | neg => exact answer hoperand
  | assign span target value =>
    exact (infer false value).bind fun type c' _ ht => (assignTo target ht).bind fun _ _ hn _ =>
      answer (Nat.lt_of_lt_of_le ht hn)
  | field span object field =>
    exact (infer false object).bind fun owner c' _ _ => finish (fieldType owner field)
  | call span function args =>
    refine (lookup function.val).bind fun callee c' hn hcallee => (inferPlaced args).bind fun args c'' hn' ha => ?_
    cases callee with
    | some callee =>
      refine ofSound fun hs => get (answer (resultOf_lt hs.regular.indexed.toOrdered ?_))
      exact Nat.lt_of_lt_of_le (hcallee callee rfl) hn'
    | none => exact finish (namedCallType function.val ha function.span)
  | send span receiver method args =>
    refine (infer false receiver).bind fun receiver c' _ hr => (methodType hr method).bind fun type c'' _ htype => ?_
    exact (inferPlaced args).bind fun args c''' hn ha => finish (htype hn ha)
  | block span params body =>
    dsimp only
    split
    · exact ofSound fun hs => finish (inferLast (nothing_below hs.builtin) body)
    · refine (inScope (P := fun n r => typesBelow n r.1 ∧ r.2 < n) ?_).bind fun r c' _ hr =>
        finish (function hr.1 hr.2)
      refine (defineParams params).bind fun params c' _ hp => ofSound fun hs => ?_
      exact (inferLast (nothing_below hs.builtin) body).bind fun result c'' hn hresult => pure ⟨hp.mono hn, hresult⟩
  | cases span scrutinee arms =>
    refine (infer false scrutinee).bind fun scrutinee c' _ hs => (inferArms hs arms).bind fun types c'' _ ht => ?_
    exact ofSound fun hs => get (answer (joinAll_lt hs.regular.indexed.toOrdered ht))
  | construct span name fields =>
    refine (constructed name).bind fun found c' _ hfound => ?_
    cases found with
    | some found =>
      obtain ⟨hdeclared, htype⟩ := hfound found rfl
      exact (inferFields found.1 hdeclared [] fields).bind fun given c'' hn _ =>
        (reportMissing _ _ _ _).bind fun _ _ hn' _ => answer (Nat.lt_of_lt_of_le htype (Nat.le_trans hn hn'))
    | none => exact (inferEntries fields).bind fun _ _ _ _ => finish anyType
  | typeDecl span decl =>
    exact (declareType decl).bind fun _ _ _ _ => finish (builtinType (show TypeId.type < _ by decide))
  | function span head body =>
    refine (withTypeVars (P := fun n r => typesBelow n r.2.1 ∧ r.2.2 < n) ?_).bind fun r c' _ hr => ?_
    · refine (enterTypeParams head.typeParams).bind fun vars c' _ _ => ?_
      refine (resolveParams head.params).bind fun params c'' _ hp => ofSound fun hs => ?_
      refine (function hp (any_below hs.builtin)).bind fun provisional _ hn hprovisional => ?_
      refine (addMethod head.name.val (m := ⟨vars, params, provisional⟩) (hp.mono hn) hprovisional).bind
        fun _ c''' hn' _ => ?_
      have hparams : namedBelow c'''.arena.size ((head.params.map (·.name.val)).zip params) := fun e he =>
        (hp.mono (Nat.le_trans hn hn')) e.2 (List.of_mem_zip he).2
      refine (inScope (P := typeBelow) ?_).bind fun result _ hn'' hresult =>
        pure ⟨hp.mono (Nat.le_trans hn (Nat.le_trans hn' hn'')), hresult⟩
      exact (forM (c := { c''' with scopes := [] :: c'''.scopes }) (fun _ e he => define e.1 he) hparams).bind
        fun _ _ _ _ => infer true body
    · refine (function hr.1 hr.2).bind fun type c'' hn ht => ?_
      exact (addMethod head.name.val (m := ⟨r.1, r.2.1, type⟩) (hr.1.mono hn) ht).bind fun _ _ hn' _ =>
        answer (Nat.lt_of_lt_of_le ht hn')
  | capture span name | refine span name pattern => exact (report _ _).bind fun _ _ _ _ => finish anyType
  | quoted span body => exact finish (builtinType (show TypeId.quoted < _ by decide))
  | array span elements =>
    refine (inferPlaced elements).bind fun types c' _ ht => ofSound fun hs => finish ?_
    exact arrayOf (commonType_lt hs.builtin ht.types)
  | object span entries =>
    exact (inferEntries entries).bind fun _ _ _ _ => finish (builtinType (show TypeId.object < _ by decide))
  | pair span key value =>
    exact (infer false key).bind fun _ _ _ _ => (infer false value).bind fun _ _ _ _ => finish anyType

theorem inferPlaced {c : Checker} (nodes : List Node) : Keeps base c (Check.inferPlaced nodes) placedBelow := by
  unfold Check.inferPlaced
  cases nodes with
  | nil => exact pure nofun
  | cons node nodes =>
    exact (infer false node).bind fun type c' _ ht => (inferPlaced nodes).bind fun rest c'' hn hrest =>
      pure (List.forall_mem_cons.mpr ⟨Nat.lt_of_lt_of_le ht hn, hrest⟩)

theorem inferLast {c : Checker} {last : TypeId} (hlast : last < c.arena.size) (nodes : List Node) :
    Keeps base c (Check.inferLast last nodes) typeBelow := by
  unfold Check.inferLast
  cases nodes with
  | nil => exact pure hlast
  | cons node nodes => exact (infer false node).bind fun _ _ _ ht => inferLast ht nodes

theorem inferArms {c : Checker} {scrutinee : TypeId} (hs : scrutinee < c.arena.size) (arms : List (Node × Node)) :
    Keeps base c (Check.inferArms scrutinee arms) typesBelow := by
  unfold Check.inferArms
  cases arms with
  | nil => exact pure nofun
  | cons arm arms =>
    have harm : Keeps base c (Check.inScope do
        let _ ← Check.bindPattern scrutinee arm.1
        Check.infer true arm.2) typeBelow :=
      inScope ((bindPattern (c := { c with scopes := [] :: c.scopes }) hs arm.1).bind fun _ _ _ _ => infer true arm.2)
    exact harm.bind fun type c' hn ht => (inferArms (Nat.lt_of_lt_of_le hs hn) arms).bind fun rest c'' hn' hrest =>
      pure (List.forall_mem_cons.mpr ⟨Nat.lt_of_lt_of_le ht hn', hrest⟩)

theorem inferFields {c : Checker} (owner : String) {declared : FieldTypes} (h : namedBelow c.arena.size declared)
    (given : List String) (fields : List (Located String × Node)) :
    Keeps base c (Check.inferFields owner declared given fields) anyAnswer := by
  unfold Check.inferFields
  cases fields with
  | nil => exact pure trivial
  | cons field fields =>
    have rest {c' : Checker} (hn : c.arena.size ≤ c'.arena.size) :
        Keeps base c' (Check.inferFields owner declared (field.1.val :: given) fields) anyAnswer :=
      inferFields owner (h.mono hn) (field.1.val :: given) fields
    have value {c' : Checker} (hn : c.arena.size ≤ c'.arena.size) : Keeps base c' (do
        match declared.lookup field.1.val with
        | some type =>
          let expected := withoutVars (← MonadState.get).arena type
          let actual ← Check.infer false field.2
          Check.checkFieldValue owner field.1.val expected actual field.2.span
          Check.inferFields owner declared (field.1.val :: given) fields
        | none =>
          Check.report (.literalWithoutField owner field.1.val) field.1.span
          let _ ← Check.infer false field.2
          Check.inferFields owner declared (field.1.val :: given) fields) anyAnswer := by
      split
      · exact get ((infer false field.2).bind fun _ _ hn' _ => (checkFieldValue _ _ _ _ _).bind fun _ _ hn'' _ =>
          rest (Nat.le_trans hn (Nat.le_trans hn' hn'')))
      · exact (report _ _).bind fun _ _ hn' _ => (infer false field.2).bind fun _ _ hn'' _ =>
          rest (Nat.le_trans hn (Nat.le_trans hn' hn''))
    dsimp only
    split
    · exact (report _ _).bind fun _ _ hn _ => value hn
    · exact value (Nat.le_refl _)

theorem inferEntries {c : Checker} (entries : List (Located String × Node)) :
    Keeps base c (Check.inferEntries entries) anyAnswer := by
  unfold Check.inferEntries
  cases entries with
  | nil => exact pure trivial
  | cons entry entries => exact (infer false entry.2).bind fun _ _ _ _ => inferEntries entries

end

/-! ## The beginning -/

theorem builtin (name : String) {params : List TypeId} (hp : typesBelow builtinTypes.length params)
    {result : TypeId} (hr : result < c.arena.size) : Keeps base c (Check.builtin name params result) anyAnswer := by
  refine ofSound fun hs => ?_
  have hp' := hp.mono hs.builtin
  exact (function hp' hr).bind fun type c' hn ht => addMethod name (m := ⟨[], params, type⟩) (hp'.mono hn) ht

theorem builtins : Keeps base c Check.builtins anyAnswer := by
  have hprints (sizes : List Nat) {c : Checker} : Keeps base c
      (sizes.forM fun n => Check.builtin "print" (List.replicate n .any) .nothing) anyAnswer := by
    induction sizes generalizing c with
    | nil => exact pure trivial
    | cons n sizes ih =>
      refine ofSound fun hs => (builtin _ (fun id hid => ?_) (nothing_below hs.builtin)).bind fun _ _ _ _ => ih
      rw [(List.mem_replicate.mp hid).2]
      decide
  have hbuiltin (name : String) (params : List TypeId) (result : TypeId)
      (hp : ∀ id ∈ params, id < builtinTypes.length) (hr : result < builtinTypes.length) {c : Checker} :
      Keeps base c (Check.builtin name params result) anyAnswer :=
    ofSound fun hs => builtin name hp (Nat.lt_of_lt_of_le hr hs.builtin)
  refine (hprints _).bind fun _ _ _ _ => ?_
  refine (hbuiltin "len" [.any] .int (by decide) (by decide)).bind fun _ _ _ _ => ?_
  refine (hbuiltin "type" [.any] .string (by decide) (by decide)).bind fun _ _ _ _ => ?_
  refine (hbuiltin "str" [.any] .string (by decide) (by decide)).bind fun _ c' _ _ => ofSound fun hs => ?_
  refine (arrayOf (Nat.lt_of_lt_of_le (by decide) hs.builtin)).bind fun ints c'' _ hints => ?_
  have hrange (params : List TypeId) (hp : ∀ id ∈ params, id < builtinTypes.length) {c : Checker}
      (hn : c''.arena.size ≤ c.arena.size) : Keeps base c (Check.builtin "range" params ints) anyAnswer :=
    builtin "range" hp (Nat.lt_of_lt_of_le hints hn)
  refine (hrange [.int] (by decide) (Nat.le_refl _)).bind fun _ _ hn _ => ?_
  refine (hrange [.int, .int] (by decide) hn).bind fun _ _ _ _ => ?_
  exact hbuiltin "eval" [.quoted] .any (by decide) (by decide)

end Check.Keeps

namespace Checker

theorem bare_sound : bare.Sound .initial where
  regular := .initial
  extension := .refl _
  known :=
    have htypes : ∀ e ∈ bare.types, e.2 < bare.arena.size := by decide
    ⟨List.forall_mem_singleton.mpr nofun, htypes, nofun, nofun, nofun⟩
  declared := by decide

theorem initial_sound : initial.Sound .initial := by
  rw [initial, StateT.run]
  exact (Check.Keeps.builtins bare_sound).1

end Checker

end DispatchLang
