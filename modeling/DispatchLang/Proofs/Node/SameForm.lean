import DispatchLang.Node.Equal
import DispatchLang.Proofs.Node.Parts
import DispatchLang.Proofs.Number.Floats

/-!
# Trees of the same form

Whether two trees are the same is decided part by part, and floating-point literals are compared as numbers. So trees
are the same if they become equal when zeros lose their signs (`Node.same_iff`), provided that no literal is the
missing number, which is not even the same as itself. For such trees being of the same form is an equality as well, of
trees at no place in particular (`Node.sameForm_iff`).

## Main definitions

* `Node.Numeric`: no literal in a tree is the missing number.
* `Node.unsigned`: a tree in which zeros have no signs.

## Main results

* `Node.same_iff`: when trees are the same.
* `Node.sameForm_iff`: when trees have the same form.
-/

namespace DispatchLang

/-! ## Types and declarations -/

mutual

theorem TypeExpr.same_iff (a b : TypeExpr) : TypeExpr.same a b = true ↔ a = b := by
  cases a with
  | named span name =>
    cases b with
    | named span' name' => simp [TypeExpr.same]
    | applied span' name' args' => exact iff_of_false Bool.false_ne_true TypeExpr.noConfusion
  | applied span name args =>
    cases b with
    | named span' name' => exact iff_of_false Bool.false_ne_true TypeExpr.noConfusion
    | applied span' name' args' => simp [TypeExpr.same, TypeExpr.sameAll_iff args args', and_assoc]

theorem TypeExpr.sameAll_iff (as bs : List TypeExpr) : TypeExpr.sameAll as bs = true ↔ as = bs := by
  cases as with
  | nil => cases bs <;> simp [TypeExpr.sameAll]
  | cons a as =>
    cases bs with
    | nil => simp [TypeExpr.sameAll]
    | cons b bs => simp [TypeExpr.sameAll, TypeExpr.same_iff a b, TypeExpr.sameAll_iff as bs]

end

section

variable {α : Type} {same : α → α → Bool} (h : ∀ a b, same a b = true ↔ a = b)
include h

theorem sameList_iff (as bs : List α) : sameList same as bs = true ↔ as = bs := by
  induction as generalizing bs with
  | nil => cases bs <;> simp [sameList]
  | cons a as ih => cases bs <;> simp [sameList, h, ih]

theorem sameOption_iff (a b : Option α) : sameOption same a b = true ↔ a = b := by
  cases a <;> cases b <;> simp [sameOption, h]

end

theorem Param.same_iff (p q : Param) : p.same q = true ↔ p = q := by
  cases p
  cases q
  simp [Param.same, sameOption_iff TypeExpr.same_iff]

theorem TypeParam.same_iff (p q : TypeParam) : p.same q = true ↔ p = q := by
  cases p
  cases q
  simp [TypeParam.same, sameOption_iff TypeExpr.same_iff]

theorem FieldDecl.same_iff (f g : FieldDecl) : f.same g = true ↔ f = g := by
  cases f
  cases g
  simp [FieldDecl.same, TypeExpr.same_iff]

theorem VariantDecl.same_iff (v w : VariantDecl) : v.same w = true ↔ v = w := by
  cases v
  cases w
  simp [VariantDecl.same, sameList_iff FieldDecl.same_iff]

theorem TypeBody.same_iff (a b : TypeBody) : a.same b = true ↔ a = b := by
  cases a <;> cases b <;> simp [TypeBody.same, sameList_iff FieldDecl.same_iff, sameList_iff VariantDecl.same_iff]

theorem TypeDecl.same_iff (d e : TypeDecl) : d.same e = true ↔ d = e := by
  cases d
  cases e
  simp [TypeDecl.same, sameList_iff TypeParam.same_iff, sameOption_iff TypeExpr.same_iff, TypeBody.same_iff, and_assoc]

theorem FunctionHead.same_iff (f g : FunctionHead) : f.same g = true ↔ f = g := by
  cases f
  cases g
  simp [FunctionHead.same, sameList_iff TypeParam.same_iff, sameList_iff Param.same_iff, and_assoc]

/-! ## Literals -/

/-- A literal without the sign of zero. -/
def Literal.unsigned : Literal → Literal
  | .float x => .float (Number.unsigned x)
  | literal => literal

/-- A literal is not the missing number. -/
def Literal.Numeric : Literal → Prop
  | .float x => x ≠ Float.nan
  | _ => True

theorem Literal.same_iff {a b : Literal} (h : a.Numeric) : a.same b = true ↔ a.unsigned = b.unsigned := by
  cases a with
  | float x =>
    cases b with
    | float y => simp [Literal.same, Literal.unsigned, Number.beq_iff_unsigned (show x ≠ Float.nan from h)]
    | _ => exact iff_of_false Bool.false_ne_true Literal.noConfusion
  | _ => cases b <;> simp [Literal.same, Literal.unsigned]

/-! ## Trees -/

namespace Node

mutual

/-- A tree in which zeros have no signs. -/
def unsigned : Node → Node
  | .literal span value => .literal span value.unsigned
  | .ident span name => .ident span name
  | .binary span op left right => .binary span op (unsigned left) (unsigned right)
  | .unary span op operand => .unary span op (unsigned operand)
  | .assign span target value => .assign span (unsigned target) (unsigned value)
  | .field span subject member => .field span (unsigned subject) member
  | .call span callee args => .call span callee (unsignedAll args)
  | .send span receiver method args => .send span (unsigned receiver) method (unsignedAll args)
  | .block span params body => .block span params (unsignedAll body)
  | .cases span scrutinee arms => .cases span (unsigned scrutinee) (unsignedArms arms)
  | .construct span name fields => .construct span name (unsignedEntries fields)
  | .typeDecl span decl => .typeDecl span decl
  | .function span head body => .function span head (unsigned body)
  | .capture span name => .capture span name
  | .refine span name pattern => .refine span name (unsigned pattern)
  | .quoted span body => .quoted span (unsigned body)
  | .array span elements => .array span (unsignedAll elements)
  | .object span entries => .object span (unsignedEntries entries)
  | .pair span key value => .pair span (unsigned key) (unsigned value)

/-- Trees in which zeros have no signs. -/
def unsignedAll : List Node → List Node
  | [] => []
  | node :: nodes => unsigned node :: unsignedAll nodes

/-- Match arms in which zeros have no signs. -/
def unsignedArms : List (Node × Node) → List (Node × Node)
  | [] => []
  | (pattern, body) :: arms => (unsigned pattern, unsigned body) :: unsignedArms arms

/-- Fields or entries in which zeros have no signs. -/
def unsignedEntries : List (Located String × Node) → List (Located String × Node)
  | [] => []
  | (name, node) :: entries => (name, unsigned node) :: unsignedEntries entries

end

/-- No literal in a tree is the missing number. -/
def Numeric (node : Node) : Prop := ∀ n ∈ node :: node.inside, ∀ span value, n = .literal span value → value.Numeric

theorem Numeric.child {node child : Node} (h : node.Numeric) (hc : child ∈ node.children) : child.Numeric := by
  refine fun n hn => h n (List.mem_cons_of_mem _ ?_)
  rw [inside_eq, mem_insideAll]
  exact ⟨child, hc, List.mem_cons.mp hn⟩

mutual

/-- Trees are the same if they become equal when zeros lose their signs. -/
theorem same_iff (a b : Node) (h : a.Numeric) : same a b = true ↔ a.unsigned = b.unsigned := by
  cases a with
  | literal span value =>
    have hvalue := h _ List.mem_cons_self _ _ rfl
    cases b with
    | literal span' value' => simp [same, unsigned, Literal.same_iff hvalue]
    | _ => exact iff_of_false Bool.false_ne_true Node.noConfusion
  | ident span name =>
    cases b with
    | ident span' name' => simp [same, unsigned]
    | _ => exact iff_of_false Bool.false_ne_true Node.noConfusion
  | binary span op left right =>
    have hleft : left.Numeric := h.child (List.mem_cons_self)
    have hright : right.Numeric := h.child (List.mem_cons_of_mem _ (List.mem_singleton_self _))
    cases b with
    | binary span' op' left' right' =>
      simp [same, unsigned, same_iff left left' hleft, same_iff right right' hright, and_assoc]
    | _ => exact iff_of_false Bool.false_ne_true Node.noConfusion
  | unary span op operand =>
    have hoperand : operand.Numeric := h.child (List.mem_singleton_self _)
    cases b with
    | unary span' op' operand' => simp [same, unsigned, same_iff operand operand' hoperand, and_assoc]
    | _ => exact iff_of_false Bool.false_ne_true Node.noConfusion
  | assign span target value =>
    have htarget : target.Numeric := h.child (List.mem_cons_self)
    have hvalue : value.Numeric := h.child (List.mem_cons_of_mem _ (List.mem_singleton_self _))
    cases b with
    | assign span' target' value' =>
      simp [same, unsigned, same_iff target target' htarget, same_iff value value' hvalue, and_assoc]
    | _ => exact iff_of_false Bool.false_ne_true Node.noConfusion
  | field span subject member =>
    have hsubject : subject.Numeric := h.child (List.mem_singleton_self _)
    cases b with
    | field span' subject' member' => simp [same, unsigned, same_iff subject subject' hsubject, and_assoc]
    | _ => exact iff_of_false Bool.false_ne_true Node.noConfusion
  | call span callee args =>
    cases b with
    | call span' callee' args' => simp [same, unsigned, sameAll_iff args args' fun _ ha => h.child ha, and_assoc]
    | _ => exact iff_of_false Bool.false_ne_true Node.noConfusion
  | send span receiver method args =>
    have hreceiver : receiver.Numeric := h.child (List.mem_cons_self)
    have hargs : ∀ a ∈ args, a.Numeric := fun _ ha => h.child (List.mem_cons_of_mem _ ha)
    cases b with
    | send span' receiver' method' args' =>
      simp [same, unsigned, same_iff receiver receiver' hreceiver, sameAll_iff args args' hargs, and_assoc]
    | _ => exact iff_of_false Bool.false_ne_true Node.noConfusion
  | block span params body =>
    cases b with
    | block span' params' body' =>
      simp [same, unsigned, sameList_iff Param.same_iff, sameAll_iff body body' fun _ ha => h.child ha, and_assoc]
    | _ => exact iff_of_false Bool.false_ne_true Node.noConfusion
  | cases span scrutinee arms =>
    have hscrutinee : scrutinee.Numeric := h.child (List.mem_cons_self)
    have harms : ∀ a ∈ arms, a.1.Numeric ∧ a.2.Numeric := fun a ha =>
      ⟨h.child (List.mem_cons_of_mem _ (List.mem_flatMap.mpr ⟨a, ha, List.mem_cons_self⟩)),
        h.child (List.mem_cons_of_mem _ (List.mem_flatMap.mpr ⟨a, ha, List.mem_cons_of_mem _ (List.mem_singleton_self _)⟩))⟩
    cases b with
    | cases span' scrutinee' arms' =>
      simp [same, unsigned, same_iff scrutinee scrutinee' hscrutinee, sameArms_iff arms arms' harms, and_assoc]
    | _ => exact iff_of_false Bool.false_ne_true Node.noConfusion
  | construct span name fields =>
    have hfields : ∀ e ∈ fields, e.2.Numeric := fun _ he => h.child (List.mem_map_of_mem he)
    cases b with
    | construct span' name' fields' => simp [same, unsigned, sameEntries_iff fields fields' hfields, and_assoc]
    | _ => exact iff_of_false Bool.false_ne_true Node.noConfusion
  | typeDecl span decl =>
    cases b with
    | typeDecl span' decl' => simp [same, unsigned, TypeDecl.same_iff]
    | _ => exact iff_of_false Bool.false_ne_true Node.noConfusion
  | function span head body =>
    have hbody : body.Numeric := h.child (List.mem_singleton_self _)
    cases b with
    | function span' head' body' => simp [same, unsigned, FunctionHead.same_iff, same_iff body body' hbody, and_assoc]
    | _ => exact iff_of_false Bool.false_ne_true Node.noConfusion
  | capture span name =>
    cases b with
    | capture span' name' => simp [same, unsigned]
    | _ => exact iff_of_false Bool.false_ne_true Node.noConfusion
  | refine span name pattern =>
    have hpattern : pattern.Numeric := h.child (List.mem_singleton_self _)
    cases b with
    | refine span' name' pattern' => simp [same, unsigned, same_iff pattern pattern' hpattern, and_assoc]
    | _ => exact iff_of_false Bool.false_ne_true Node.noConfusion
  | quoted span body =>
    have hbody : body.Numeric := h.child (List.mem_singleton_self _)
    cases b with
    | quoted span' body' => simp [same, unsigned, same_iff body body' hbody]
    | _ => exact iff_of_false Bool.false_ne_true Node.noConfusion
  | array span elements =>
    cases b with
    | array span' elements' => simp [same, unsigned, sameAll_iff elements elements' fun _ ha => h.child ha]
    | _ => exact iff_of_false Bool.false_ne_true Node.noConfusion
  | object span entries =>
    have hentries : ∀ e ∈ entries, e.2.Numeric := fun _ he => h.child (List.mem_map_of_mem he)
    cases b with
    | object span' entries' => simp [same, unsigned, sameEntries_iff entries entries' hentries]
    | _ => exact iff_of_false Bool.false_ne_true Node.noConfusion
  | pair span key value =>
    have hkey : key.Numeric := h.child (List.mem_cons_self)
    have hvalue : value.Numeric := h.child (List.mem_cons_of_mem _ (List.mem_singleton_self _))
    cases b with
    | pair span' key' value' => simp [same, unsigned, same_iff key key' hkey, same_iff value value' hvalue, and_assoc]
    | _ => exact iff_of_false Bool.false_ne_true Node.noConfusion
termination_by structural a

theorem sameAll_iff (as bs : List Node) (h : ∀ a ∈ as, a.Numeric) :
    sameAll as bs = true ↔ unsignedAll as = unsignedAll bs := by
  cases as with
  | nil => cases bs <;> simp [sameAll, unsignedAll]
  | cons a as =>
    obtain ⟨ha, has⟩ := List.forall_mem_cons.mp h
    cases bs with
    | nil => simp [sameAll, unsignedAll]
    | cons b bs => simp [sameAll, unsignedAll, same_iff a b ha, sameAll_iff as bs has]
termination_by structural as

theorem sameArms_iff (as bs : List (Node × Node)) (h : ∀ a ∈ as, a.1.Numeric ∧ a.2.Numeric) :
    sameArms as bs = true ↔ unsignedArms as = unsignedArms bs := by
  cases as with
  | nil => cases bs <;> simp [sameArms, unsignedArms]
  | cons a as =>
    obtain ⟨ha, has⟩ := List.forall_mem_cons.mp h
    obtain ⟨p, a⟩ := a
    cases bs with
    | nil => simp [sameArms, unsignedArms]
    | cons b bs =>
      simp [sameArms, unsignedArms, same_iff p b.1 ha.1, same_iff a b.2 ha.2, sameArms_iff as bs has]
termination_by structural as

theorem sameEntries_iff (as bs : List (Located String × Node)) (h : ∀ a ∈ as, a.2.Numeric) :
    sameEntries as bs = true ↔ unsignedEntries as = unsignedEntries bs := by
  cases as with
  | nil => cases bs <;> simp [sameEntries, unsignedEntries]
  | cons a as =>
    obtain ⟨ha, has⟩ := List.forall_mem_cons.mp h
    obtain ⟨k, a⟩ := a
    cases bs with
    | nil => simp [sameEntries, unsignedEntries]
    | cons b bs => simp [sameEntries, unsignedEntries, same_iff a b.2 ha, sameEntries_iff as bs has]
termination_by structural as

end

theorem unsigned_relocate (span : Span) (a : Node) : (a.relocate span).unsigned = a.unsigned.relocate span := by
  cases a <;> rfl

theorem Numeric.relocate {a : Node} (h : a.Numeric) (span : Span) : (a.relocate span).Numeric := by
  refine List.forall_mem_cons.mpr ⟨fun span' value heq => ?_, ?_⟩
  · cases a with
    | literal place _ =>
      obtain ⟨-, rfl⟩ := Node.literal.inj heq
      exact h _ List.mem_cons_self place _ rfl
    | _ => cases heq
  · have hinside : (a.relocate span).inside = a.inside := by cases a <;> rfl
    rw [hinside]
    exact (List.forall_mem_cons.mp h).2

/-- Trees have the same form if they are equal when zeros lose their signs and the place of the whole tree is
forgotten. -/
theorem sameForm_iff {a b : Node} (h : a.Numeric) :
    a.sameForm b = true ↔ a.unsigned.relocate .nowhere = b.unsigned.relocate .nowhere := by
  rw [sameForm, same_iff _ _ (h.relocate _), unsigned_relocate, unsigned_relocate]

end Node

end DispatchLang
