import DispatchLang.Proofs.Eval.Blindness

/-!
# Declaring types

A declared type whose fields or alternatives may mention it is added to the arena before they are looked at,
as a type without any, and redefined afterwards. In between the arena holds something that calls must not
see. They do not: written types are only looked up and interned, and neither asks what a declared type is.

`Blind.filled` is the reason that a declaration may be treated as one step. The types that were there before
it are as they were, and the new type is redefined to one that only has more fields or alternatives.

## Main results

* `Blind.resolveType`: finding out what a written type means is blind.
* `Blind.declareType`: declaring a type is blind.
-/

namespace DispatchLang

open TypeArena

theorem TypeArena.size_lt_add (arena : TypeArena) (d : TypeDef) :
    arena.size < (arena.add d).2.size :=
  Nat.lt_of_lt_of_eq (Nat.lt_succ_self _) (size_of_push rfl).symm

namespace Blind

variable {t : Session} {base : TypeArena} {vars : Bindings} {scope : ScopeId}

def foundTypeIn : Claim (Option TypeId) := fun t found => ∀ id, found = some id → id < t.arena.size

/-! ## Written types -/

theorem lookupType (hvars : namedTypesIn t vars) (scope : ScopeId) (name : String) :
    Blind base t (Dispatch.lookupType vars scope name) foundTypeIn := by
  rw [Dispatch.lookupType]
  cases hl : vars.lookup name with
  | some id =>
    refine pure fun found hfound => ?_
    cases hfound
    exact hvars _ (Assoc.mem_of_lookup hl)
  | none =>
    refine (lookup scope name).bind fun found s _ hfound => ?_
    split
    · next id name =>
      refine pure fun found heq => ?_
      cases heq
      exact Value.in_typeRef.mp (hfound _ rfl)
    · exact pure nofun

mutual

theorem resolveType {t : Session} (hvars : namedTypesIn t vars) (scope : ScopeId) (type : TypeExpr) :
    Blind base t (Dispatch.resolveType vars scope type) typeIn := by
  cases type with
  | named span name =>
    rw [Dispatch.resolveType]
    refine (lookupType hvars scope name).bind fun found s _ hfound => ?_
    cases found with
    | some id => exact pure (hfound id rfl)
    | none => exact failAt _ _
  | applied span name args =>
    rw [Dispatch.resolveType]
    refine (lookupType hvars scope name).bind fun found s hn hfound => ?_
    cases found with
    | some head =>
      exact (resolveTypes (namedTypesIn.later hn hvars) scope args).bind fun _ _ hn' hargs =>
        interned (applied (Nat.lt_of_lt_of_le (hfound head rfl) hn') hargs)
    | none => exact failAt _ _

theorem resolveTypes {t : Session} (hvars : namedTypesIn t vars) (scope : ScopeId) (types : List TypeExpr) :
    Blind base t (Dispatch.resolveTypes vars scope types) typesIn := by
  cases types with
  | nil => exact pure nofun
  | cons type types =>
    rw [Dispatch.resolveTypes]
    exact (resolveType hvars scope type).bind fun id s hn hid =>
      (resolveTypes (namedTypesIn.later hn hvars) scope types).bind fun ids s' hn' hids =>
        pure (List.forall_mem_cons.mpr ⟨Nat.lt_of_lt_of_le hid hn', hids⟩)

end

theorem resolveOption (hvars : namedTypesIn t vars) (scope : ScopeId) (type : Option TypeExpr) :
    Blind base t (Dispatch.resolveOption vars scope type) typeIn := by
  cases type with
  | none => exact ofFormed fun h => pure (Nat.lt_of_lt_of_le (by decide) h.builtin)
  | some type => exact resolveType hvars scope type

theorem typeParams (hvars : namedTypesIn t vars) (scope : ScopeId) (params : List TypeParam) :
    Blind base t (Dispatch.typeParams scope vars params) namedTypesIn := by
  induction params generalizing t vars with
  | nil => exact pure hvars
  | cons p params ih =>
    exact (resolveOption hvars scope p.constraint).bind fun _ s hn hc => (var p.name.val hc).bind
      fun _ s' hn' hid => ih (List.forall_mem_cons.mpr
        ⟨hid, namedTypesIn.later (Nat.le_trans hn hn') hvars⟩)

theorem resolveFields (hvars : namedTypesIn t vars) (scope : ScopeId) (fields : List FieldDecl) :
    Blind base t (Dispatch.resolveFields vars scope fields) namedTypesIn := by
  induction fields generalizing t with
  | nil => exact pure nofun
  | cons f fields ih =>
    exact (resolveType hvars scope f.type).bind fun _ s hn hid =>
      (ih (namedTypesIn.later hn hvars)).bind fun _ s' hn' hfields =>
        pure (List.forall_mem_cons.mpr ⟨Nat.lt_of_lt_of_le hid hn', hfields⟩)

theorem resolveParams (hvars : namedTypesIn t vars) (scope : ScopeId) (params : List Param) :
    Blind base t (Dispatch.resolveParams vars scope params) typesIn := by
  induction params generalizing t with
  | nil => exact pure nofun
  | cons p params ih =>
    exact (resolveOption hvars scope p.annotation).bind fun _ s hn hid =>
      (ih (namedTypesIn.later hn hvars)).bind fun _ s' hn' hids =>
        pure (List.forall_mem_cons.mpr ⟨Nat.lt_of_lt_of_le hid hn', hids⟩)

/-! ## Alternatives -/

def alternativesIn : Claim (List (String × FieldTypes)) := fun t alternatives =>
  ∀ alternative ∈ alternatives, namedTypesIn t alternative.2

theorem variantValue {type : TypeId} (htype : declaredTypeIn t type) (typeName variant : String)
    {fields : FieldTypes} (hfields : namedTypesIn t fields) :
    Blind base t (Dispatch.variantValue type typeName variant fields) valueIn := by
  rw [Dispatch.variantValue]
  split
  · exact pure (Value.in_inst.mpr ⟨htype, entriesIn_nil⟩)
  · exact newId.bind fun _ s hn _ => pure (Value.in_constructor.mpr
      ⟨htype.mono hn, namedTypesIn.later hn hfields⟩)

theorem declareVariants (hvars : namedTypesIn t vars) (scope : ScopeId) {type : TypeId}
    (htype : declaredTypeIn t type) (typeName : String) (alternatives : List VariantDecl) :
    Blind base t (Dispatch.declareVariants vars scope type typeName alternatives)
      alternativesIn := by
  induction alternatives generalizing t with
  | nil => exact pure nofun
  | cons v alternatives ih =>
    refine (resolveFields hvars scope v.fields).bind fun fields s hn hfields => ?_
    refine (variantValue (htype.mono hn) typeName v.name.val hfields).bind
      fun value s' hn' hvalue => ?_
    refine (define scope v.name.val hvalue).bind fun _ s'' hn'' _ => ?_
    have hlater := Nat.le_trans hn' hn''
    refine (ih (namedTypesIn.later (Nat.le_trans hn hlater) hvars)
      (htype.mono (Nat.le_trans hn hlater))).bind fun rest s''' hn''' hrest => ?_
    exact pure (List.forall_mem_cons.mpr
      ⟨namedTypesIn.later (Nat.le_trans hlater hn''') hfields, hrest⟩)

/-! ## Declarations -/

/-- Types may be declared. -/
theorem add {name : String} {kind : TypeKind} (hkind : kind.ids = []) {parent : TypeId}
    (hparent : typeIn t parent) :
    Blind base t (Eval.modifyTypes (·.add ⟨name, kind, some parent⟩)) fun s id =>
      id = t.arena.size ∧ s.arena = (t.arena.add ⟨name, kind, some parent⟩).2 := by
  refine modifyTypes (fun hr => .add _ hr (List.append_eq_nil_iff.mp hkind).1 ?_)
    (.push rfl fun k => by cases k <;> rfl) ⟨rfl, rfl⟩
  rw [TypeDef.ids, hkind]
  exact List.forall_mem_singleton.mpr hparent

theorem addPlain {name : String} {kind : TypeKind} (hkind : kind.ids = []) {parent : TypeId}
    (hparent : typeIn t parent) :
    Blind base t (Eval.modifyTypes (·.add ⟨name, kind, some parent⟩)) typeIn := by
  refine (add hkind hparent).mono fun id s _ h => ?_
  rw [typeIn, h.1, h.2]
  exact size_lt_add _ _

/-- A type is added without its fields or alternatives, its name is bound, and then these are filled in.
Where they come from must not depend on what the type is. -/
theorem filled {α γ : Type} {P : Claim α} {kind : γ → TypeKind} {empty : γ} {body : TypeId → Eval γ}
    {rest : TypeId → Eval α} {name : String} {parent : TypeId} (hparent : typeIn t parent)
    (hempty : (kind empty).ids = [])
    (hrefills : ∀ c, TypeDef.Refills ⟨name, kind empty, some parent⟩ ⟨name, kind c, some parent⟩)
    (hbody : ∀ base s id, t.arena.size ≤ s.arena.size → declaredTypeIn s id →
      Blind base s (body id) fun s c => typesIn s (kind c).members)
    (hrest : ∀ s id, typeIn s id → Blind base s (rest id) P) :
    Blind base t (do
      let id ← Eval.modifyTypes (·.add ⟨name, kind empty, some parent⟩)
      Eval.define scope name (.typeRef id name)
      let c ← body id
      modify fun s => { s with arena := s.arena.redefine id ⟨name, kind c, some parent⟩ }
      rest id) P := by
  refine ofFormed fun hformed => bind (add hempty hparent) fun id s hn hadd => ?_
  obtain ⟨rfl, harena⟩ := hadd
  have hnew : t.arena.size < s.arena.size := by
    rw [harena]
    exact size_lt_add _ _
  have hget : s.arena.get t.arena.size = ⟨name, kind empty, some parent⟩ := by
    rw [harena, get_of_push_self rfl]
  have hext : t.arena.Extends s.arena := by
    rw [harena]
    exact .push rfl fun k => by cases k <;> rfl
  -- Until the type is redefined, the arena extends the one in which it was added.
  have hbase := hformed.extension.trans hext
  refine ofFormed fun hs => ?_
  refine ((define scope name (Value.in_typeRef.mpr hnew)).rebase hs.self hbase).bind
    fun _ s' hn' hs' => ?_
  refine ((hbody s.arena s' _ (Nat.le_trans hn hn')
    ⟨hformed.builtin, Nat.lt_of_lt_of_le hnew hn'⟩).rebase hs'.1
    hbase).bind fun c s'' hn'' hc => ?_
  obtain ⟨hs'', hmembers⟩ := hc
  have hid : t.arena.size < s''.arena.size :=
    Nat.lt_of_lt_of_le hnew (Nat.le_trans hn' hn'')
  have hkind : TypeDef.Refills (s''.arena.get t.arena.size) ⟨name, kind c, some parent⟩ := by
    rw [hs''.extension.get_eq hnew, hget]
    exact hrefills c
  have hsize : s''.arena.size ≤
      (s''.arena.redefine t.arena.size ⟨name, kind c, some parent⟩).size :=
    Nat.le_of_eq size_redefine.symm
  refine bind (P := anything) (modifyGet (fun _ => rfl) (fun hformed'' => ?_) hsize trivial)
    fun _ u hu _ => hrest u _ (Nat.lt_of_lt_of_le hid hu)
  exact hformed''.withArena (.redefine _ _ hs''.regular hid hkind hmembers)
    (hformed.extension.trans ((hext.trans hs''.extension).redefine (Nat.le_refl _) hid _)) hsize
    fun k _ hk => by cases k <;> exact hk

theorem declareType (decl : TypeDecl) (scope : ScopeId) :
    Blind base t (Dispatch.declareType decl scope) valueIn := by
  have hnone : namedTypesIn t [] := nofun
  refine (typeParams hnone scope decl.typeParams).bind fun vars s _ hvars => ?_
  refine (resolveOption hvars scope decl.parent).bind fun parent s' hn' hparent => ?_
  have hvars' := namedTypesIn.later hn' hvars
  have rest : ∀ u id, typeIn u id → Blind base u (do
      Eval.define scope decl.name.val (.typeRef id decl.name.val)
      return .typeRef id decl.name.val) valueIn := fun u id hid =>
    (define scope decl.name.val (Value.in_typeRef.mpr hid)).bind fun _ v hv _ =>
      pure (Value.in_typeRef.mpr (Nat.lt_of_lt_of_le hid hv))
  dsimp only
  cases decl.body with
  | abstract => exact (addPlain rfl hparent).bind fun id u _ hid => rest u id hid
  | concrete => exact (addPlain rfl hparent).bind fun id u _ hid => rest u id hid
  | struct fields =>
    refine filled hparent rfl (.struct _ _ _ _) (fun base u id hn _ => ?_) rest
    refine (resolveFields (namedTypesIn.later hn hvars') scope fields).mono fun fs v _ hfs => ?_
    exact List.forall_mem_map.mpr hfs
  | variants alternatives =>
    refine filled hparent rfl (.variants _ _ _ _) (fun base u id hn hid => ?_) rest
    refine (declareVariants (namedTypesIn.later hn hvars') scope hid _ alternatives).mono
      fun alts v _ halts => ?_
    exact List.forall_mem_flatMap.mpr fun a ha => List.forall_mem_map.mpr (halts a ha)

end Blind

end DispatchLang
