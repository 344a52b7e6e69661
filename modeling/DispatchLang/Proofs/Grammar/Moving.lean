import DispatchLang.Proofs.Grammar.Core
import Mathlib.Data.List.Forall2

/-!
# Moving trees to other places

The same text read at two places gives two trees that differ in their spans alone. To compare them, the spans of
both are moved to where they can be compared: `Node.moved f` applies `f` to every span of a tree. Moving everything
to one place is erasing it; moving by a number of bytes and lines takes a tree to where a text stands that has
other text before it.

A reader makes a span from those of the lexemes it takes by `Span.cover` alone, so a way to compare spans has
to respect `Span.cover`, and nothing else is asked of it.

## Main definitions

* `Node.moved`: a tree whose spans are moved.
* `Placing`: a way to compare the places of two texts.
* `Placing.UpTo`: whether two things are equal once both are moved.
-/

namespace DispatchLang

/-! ## Spans of a text with another text before it -/

/-- A span moved by a number of bytes and lines. The column stays: the text before it ends with a line break. -/
def Span.shift (bytes lines : Nat) (s : Span) : Span := ⟨s.start + bytes, s.stop + bytes, s.line + lines, s.column⟩

theorem Span.shift_cover (bytes lines : Nat) (s t : Span) :
    (s.cover t).shift bytes lines = (s.shift bytes lines).cover (t.shift bytes lines) := by
  simp only [shift, cover, Nat.add_max_add_right]

/-! ## Moving -/

def Located.moved {α : Type} (f : Span → Span) (x : Located α) : Located α := ⟨x.val, f x.span⟩

namespace TypeExpr

mutual

def moved (f : Span → Span) : TypeExpr → TypeExpr
  | .named span name => .named (f span) name
  | .applied span name args => .applied (f span) name (movedAll f args)

def movedAll (f : Span → Span) : List TypeExpr → List TypeExpr
  | [] => []
  | arg :: args => moved f arg :: movedAll f args

end

theorem movedAll_eq_map (f : Span → Span) (types : List TypeExpr) : movedAll f types = types.map (moved f) := by
  induction types with
  | nil => rw [movedAll, List.map_nil]
  | cons type types ih => rw [movedAll, ih, List.map_cons]

end TypeExpr

def Param.moved (f : Span → Span) (p : Param) : Param := ⟨p.name.moved f, p.annotation.map (TypeExpr.moved f)⟩

def TypeParam.moved (f : Span → Span) (p : TypeParam) : TypeParam :=
  ⟨p.name.moved f, p.constraint.map (TypeExpr.moved f)⟩

def FieldDecl.moved (f : Span → Span) (d : FieldDecl) : FieldDecl := ⟨d.name.moved f, d.type.moved f⟩

def VariantDecl.moved (f : Span → Span) (v : VariantDecl) : VariantDecl :=
  ⟨v.name.moved f, v.fields.map (FieldDecl.moved f)⟩

/-- What a declaration says about the instances, moved. -/
def TypeBody.moved (f : Span → Span) : TypeBody → TypeBody
  | .abstract => .abstract
  | .concrete => .concrete
  | .struct fields => .struct (fields.map (FieldDecl.moved f))
  | .variants alternatives => .variants (alternatives.map (VariantDecl.moved f))

def TypeDecl.moved (f : Span → Span) (decl : TypeDecl) : TypeDecl where
  name := decl.name.moved f
  typeParams := decl.typeParams.map (TypeParam.moved f)
  parent := decl.parent.map (TypeExpr.moved f)
  body := decl.body.moved f

def FunctionHead.moved (f : Span → Span) (head : FunctionHead) : FunctionHead where
  name := head.name.moved f
  typeParams := head.typeParams.map (TypeParam.moved f)
  params := head.params.map (Param.moved f)

namespace Node

mutual

def moved (f : Span → Span) : Node → Node
  | .literal span value => .literal (f span) value
  | .ident span name => .ident (f span) name
  | .binary span op left right => .binary (f span) op (moved f left) (moved f right)
  | .unary span op operand => .unary (f span) op (moved f operand)
  | .assign span target value => .assign (f span) (moved f target) (moved f value)
  | .field span subject member => .field (f span) (moved f subject) (member.moved f)
  | .call span callee args => .call (f span) (callee.moved f) (movedAll f args)
  | .send span receiver method args => .send (f span) (moved f receiver) (method.moved f) (movedAll f args)
  | .block span params body => .block (f span) (params.map (Param.moved f)) (movedAll f body)
  | .cases span scrutinee arms => .cases (f span) (moved f scrutinee) (movedArms f arms)
  | .construct span name fields => .construct (f span) (name.moved f) (movedEntries f fields)
  | .typeDecl span decl => .typeDecl (f span) (decl.moved f)
  | .function span head body => .function (f span) (head.moved f) (moved f body)
  | .capture span name => .capture (f span) name
  | .refine span name pattern => .refine (f span) name (moved f pattern)
  | .quoted span body => .quoted (f span) (moved f body)
  | .array span elements => .array (f span) (movedAll f elements)
  | .object span entries => .object (f span) (movedEntries f entries)
  | .pair span key value => .pair (f span) (moved f key) (moved f value)

/-- Several trees, moved. -/
def movedAll (f : Span → Span) : List Node → List Node
  | [] => []
  | node :: nodes => moved f node :: movedAll f nodes

def movedArms (f : Span → Span) : List (Node × Node) → List (Node × Node)
  | [] => []
  | (pattern, body) :: arms => (moved f pattern, moved f body) :: movedArms f arms

def movedEntries (f : Span → Span) : List (Located String × Node) → List (Located String × Node)
  | [] => []
  | (name, value) :: entries => (name.moved f, moved f value) :: movedEntries f entries

end

theorem movedAll_eq_map (f : Span → Span) (nodes : List Node) : movedAll f nodes = nodes.map (moved f) := by
  induction nodes with
  | nil => rw [movedAll, List.map_nil]
  | cons node nodes ih => rw [movedAll, ih, List.map_cons]

theorem span_moved (f : Span → Span) (node : Node) : (node.moved f).span = f node.span := by
  cases node <;> rfl

end Node

def Program.moved (f : Span → Span) (program : Program) : Program := Node.movedAll f program

/-! ## Moving nowhere -/

section Erase

theorem TypeExpr.moved_nowhere : (type : TypeExpr) → type.moved (fun _ => .nowhere) = type.erase := by
  refine TypeExpr.rec (motive_1 := fun type => type.moved (fun _ => .nowhere) = type.erase)
    (motive_2 := fun types => movedAll (fun _ => .nowhere) types = eraseAll types) ?_ ?_ ?_ ?_
  · intro span name
    rfl
  · intro span name args ih
    rw [moved, erase, ih]
  · rfl
  · intro arg args harg hargs
    rw [movedAll, eraseAll, harg, hargs]

theorem TypeExpr.moved_nowhere_eq : TypeExpr.moved (fun _ => .nowhere) = TypeExpr.erase := funext moved_nowhere

theorem Param.moved_nowhere : Param.moved (fun _ => .nowhere) = Param.erase := by
  funext p
  rw [moved, erase, TypeExpr.moved_nowhere_eq]
  rfl

theorem TypeParam.moved_nowhere : TypeParam.moved (fun _ => .nowhere) = TypeParam.erase := by
  funext p
  rw [moved, erase, TypeExpr.moved_nowhere_eq]
  rfl

theorem FieldDecl.moved_nowhere : FieldDecl.moved (fun _ => .nowhere) = FieldDecl.erase := by
  funext d
  rw [moved, erase, TypeExpr.moved_nowhere]
  rfl

theorem VariantDecl.moved_nowhere : VariantDecl.moved (fun _ => .nowhere) = VariantDecl.erase := by
  funext v
  rw [moved, erase, FieldDecl.moved_nowhere]
  rfl

theorem TypeDecl.moved_nowhere (decl : TypeDecl) : decl.moved (fun _ => .nowhere) = decl.erase := by
  have hbody : decl.body.moved (fun _ => .nowhere) = decl.body.erase := by
    cases decl.body <;> simp only [TypeBody.moved, TypeBody.erase, FieldDecl.moved_nowhere, VariantDecl.moved_nowhere]
  rw [moved, erase, TypeParam.moved_nowhere, TypeExpr.moved_nowhere_eq, hbody]
  rfl

theorem FunctionHead.moved_nowhere (head : FunctionHead) : head.moved (fun _ => .nowhere) = head.erase := by
  rw [moved, erase, TypeParam.moved_nowhere, Param.moved_nowhere]
  rfl

end Erase

namespace Node

mutual

/-- Moving a tree nowhere erases its places. -/
theorem moved_nowhere : (node : Node) → node.moved (fun _ => .nowhere) = node.erase
  | .literal .. | .ident .. | .capture .. => rfl
  | .binary _ _ left right => by rw [moved, erase, moved_nowhere left, moved_nowhere right]
  | .unary _ _ operand => by rw [moved, erase, moved_nowhere operand]
  | .assign _ target value => by rw [moved, erase, moved_nowhere target, moved_nowhere value]
  | .field _ subject member => by rw [moved, erase, moved_nowhere subject]; rfl
  | .call _ callee args => by rw [moved, erase, movedAll_nowhere args]; rfl
  | .send _ receiver method args => by rw [moved, erase, moved_nowhere receiver, movedAll_nowhere args]; rfl
  | .block _ params body => by rw [moved, erase, movedAll_nowhere body, Param.moved_nowhere]
  | .cases _ scrutinee arms => by rw [moved, erase, moved_nowhere scrutinee, movedArms_nowhere arms]
  | .construct _ name fields => by rw [moved, erase, movedEntries_nowhere fields]; rfl
  | .typeDecl _ decl => by rw [moved, erase, TypeDecl.moved_nowhere]
  | .function _ head body => by rw [moved, erase, FunctionHead.moved_nowhere, moved_nowhere body]
  | .refine _ _ pattern => by rw [moved, erase, moved_nowhere pattern]
  | .quoted _ body => by rw [moved, erase, moved_nowhere body]
  | .array _ elements => by rw [moved, erase, movedAll_nowhere elements]
  | .object _ entries => by rw [moved, erase, movedEntries_nowhere entries]
  | .pair _ key value => by rw [moved, erase, moved_nowhere key, moved_nowhere value]

theorem movedAll_nowhere : (nodes : List Node) → movedAll (fun _ => .nowhere) nodes = eraseAll nodes
  | [] => rfl
  | node :: nodes => by rw [movedAll, eraseAll, moved_nowhere node, movedAll_nowhere nodes]

theorem movedArms_nowhere : (arms : List (Node × Node)) → movedArms (fun _ => .nowhere) arms = eraseArms arms
  | [] => rfl
  | (pattern, body) :: arms => by
    rw [movedArms, eraseArms, moved_nowhere pattern, moved_nowhere body, movedArms_nowhere arms]

theorem movedEntries_nowhere : (entries : List (Located String × Node)) →
    movedEntries (fun _ => .nowhere) entries = eraseEntries entries
  | [] => rfl
  | (name, value) :: entries => by
    rw [movedEntries, eraseEntries, moved_nowhere value, movedEntries_nowhere entries]; rfl

end

end Node

/-! ## Moving nothing -/

section Stay

theorem TypeExpr.moved_id : TypeExpr.moved id = id := by
  funext type
  refine TypeExpr.rec (motive_1 := fun type => type.moved id = type)
    (motive_2 := fun types => movedAll id types = types) ?_ ?_ ?_ ?_ type
  · intro span name
    rfl
  · intro span name args ih
    rw [moved, ih, id_eq]
  · rfl
  · intro arg args harg hargs
    rw [movedAll, harg, hargs]

theorem Param.moved_id : Param.moved id = id := by
  funext p
  rw [moved, TypeExpr.moved_id, Option.map_id]
  rfl

theorem TypeParam.moved_id : TypeParam.moved id = id := by
  funext p
  rw [moved, TypeExpr.moved_id, Option.map_id]
  rfl

theorem FieldDecl.moved_id : FieldDecl.moved id = id := by
  funext d
  rw [moved, TypeExpr.moved_id]
  rfl

theorem VariantDecl.moved_id : VariantDecl.moved id = id := by
  funext v
  rw [moved, FieldDecl.moved_id, List.map_id]
  rfl

theorem TypeDecl.moved_id (decl : TypeDecl) : decl.moved id = decl := by
  have hbody : decl.body.moved id = decl.body := by
    cases decl.body <;> simp only [TypeBody.moved, FieldDecl.moved_id, VariantDecl.moved_id, List.map_id]
  rw [moved, TypeParam.moved_id, TypeExpr.moved_id, hbody, List.map_id, Option.map_id]
  rfl

theorem FunctionHead.moved_id (head : FunctionHead) : head.moved id = head := by
  rw [moved, TypeParam.moved_id, Param.moved_id, List.map_id, List.map_id]
  rfl

end Stay

namespace Node

mutual

theorem moved_id : (node : Node) → node.moved id = node
  | .literal .. | .ident .. | .capture .. => rfl
  | .binary _ _ left right => by rw [moved, moved_id left, moved_id right, id_eq]
  | .unary _ _ operand => by rw [moved, moved_id operand, id_eq]
  | .assign _ target value => by rw [moved, moved_id target, moved_id value, id_eq]
  | .field _ subject member => by rw [moved, moved_id subject]; rfl
  | .call _ callee args => by rw [moved, movedAll_id args]; rfl
  | .send _ receiver method args => by rw [moved, moved_id receiver, movedAll_id args]; rfl
  | .block _ params body => by rw [moved, movedAll_id body, Param.moved_id, List.map_id, id_eq]
  | .cases _ scrutinee arms => by rw [moved, moved_id scrutinee, movedArms_id arms, id_eq]
  | .construct _ name fields => by rw [moved, movedEntries_id fields]; rfl
  | .typeDecl _ decl => by rw [moved, TypeDecl.moved_id, id_eq]
  | .function _ head body => by rw [moved, FunctionHead.moved_id, moved_id body, id_eq]
  | .refine _ _ pattern => by rw [moved, moved_id pattern, id_eq]
  | .quoted _ body => by rw [moved, moved_id body, id_eq]
  | .array _ elements => by rw [moved, movedAll_id elements, id_eq]
  | .object _ entries => by rw [moved, movedEntries_id entries, id_eq]
  | .pair _ key value => by rw [moved, moved_id key, moved_id value, id_eq]

theorem movedAll_id : (nodes : List Node) → movedAll id nodes = nodes
  | [] => rfl
  | node :: nodes => by rw [movedAll, moved_id node, movedAll_id nodes]

theorem movedArms_id : (arms : List (Node × Node)) → movedArms id arms = arms
  | [] => rfl
  | (pattern, body) :: arms => by rw [movedArms, moved_id pattern, moved_id body, movedArms_id arms]

theorem movedEntries_id : (entries : List (Located String × Node)) → movedEntries id entries = entries
  | [] => rfl
  | (name, value) :: entries => by rw [movedEntries, moved_id value, movedEntries_id entries]; rfl

end

end Node

/-! ## Moving twice -/

section Twice

variable (f g : Span → Span)

theorem TypeExpr.moved_moved : TypeExpr.moved g ∘ TypeExpr.moved f = TypeExpr.moved (g ∘ f) := by
  funext type
  refine TypeExpr.rec (motive_1 := fun type => (type.moved f).moved g = type.moved (g ∘ f))
    (motive_2 := fun types => movedAll g (movedAll f types) = movedAll (g ∘ f) types) ?_ ?_ ?_ ?_ type
  · intro span name
    rfl
  · intro span name args ih
    rw [moved, moved, moved, ih]
    rfl
  · rfl
  · intro arg args harg hargs
    rw [movedAll, movedAll, movedAll, harg, hargs]

theorem Param.moved_moved : Param.moved g ∘ Param.moved f = Param.moved (g ∘ f) := by
  funext p
  rw [Function.comp_apply, moved, moved, moved, Option.map_map, TypeExpr.moved_moved]
  rfl

theorem TypeParam.moved_moved : TypeParam.moved g ∘ TypeParam.moved f = TypeParam.moved (g ∘ f) := by
  funext p
  rw [Function.comp_apply, moved, moved, moved, Option.map_map, TypeExpr.moved_moved]
  rfl

theorem FieldDecl.moved_moved : FieldDecl.moved g ∘ FieldDecl.moved f = FieldDecl.moved (g ∘ f) := by
  funext d
  rw [Function.comp_apply, moved, moved, moved, ← TypeExpr.moved_moved]
  rfl

theorem VariantDecl.moved_moved : VariantDecl.moved g ∘ VariantDecl.moved f = VariantDecl.moved (g ∘ f) := by
  funext v
  rw [Function.comp_apply, moved, moved, moved, List.map_map, FieldDecl.moved_moved]
  rfl

theorem TypeDecl.moved_moved (decl : TypeDecl) : (decl.moved f).moved g = decl.moved (g ∘ f) := by
  have hbody : (decl.body.moved f).moved g = decl.body.moved (g ∘ f) := by
    cases decl.body <;>
      simp only [TypeBody.moved, List.map_map, FieldDecl.moved_moved, VariantDecl.moved_moved]
  rw [moved, moved, moved, hbody, List.map_map, Option.map_map, TypeParam.moved_moved, TypeExpr.moved_moved]
  rfl

theorem FunctionHead.moved_moved (head : FunctionHead) : (head.moved f).moved g = head.moved (g ∘ f) := by
  rw [moved, moved, moved, List.map_map, List.map_map, TypeParam.moved_moved, Param.moved_moved]
  rfl

end Twice

namespace Node

variable (f g : Span → Span)

mutual

/-- Moving a tree twice is moving it once. -/
theorem moved_moved : (node : Node) → (node.moved f).moved g = node.moved (g ∘ f)
  | .literal .. | .ident .. | .capture .. => rfl
  | .binary _ _ left right => by rw [moved, moved, moved, moved_moved left, moved_moved right]; rfl
  | .unary _ _ operand => by rw [moved, moved, moved, moved_moved operand]; rfl
  | .assign _ target value => by rw [moved, moved, moved, moved_moved target, moved_moved value]; rfl
  | .field _ subject member => by rw [moved, moved, moved, moved_moved subject]; rfl
  | .call _ callee args => by rw [moved, moved, moved, movedAll_moved args]; rfl
  | .send _ receiver method args => by rw [moved, moved, moved, moved_moved receiver, movedAll_moved args]; rfl
  | .block _ params body => by
    rw [moved, moved, moved, movedAll_moved body, List.map_map, Param.moved_moved]; rfl
  | .cases _ scrutinee arms => by rw [moved, moved, moved, moved_moved scrutinee, movedArms_moved arms]; rfl
  | .construct _ name fields => by rw [moved, moved, moved, movedEntries_moved fields]; rfl
  | .typeDecl _ decl => by rw [moved, moved, moved, TypeDecl.moved_moved]; rfl
  | .function _ head body => by rw [moved, moved, moved, FunctionHead.moved_moved, moved_moved body]; rfl
  | .refine _ _ pattern => by rw [moved, moved, moved, moved_moved pattern]; rfl
  | .quoted _ body => by rw [moved, moved, moved, moved_moved body]; rfl
  | .array _ elements => by rw [moved, moved, moved, movedAll_moved elements]; rfl
  | .object _ entries => by rw [moved, moved, moved, movedEntries_moved entries]; rfl
  | .pair _ key value => by rw [moved, moved, moved, moved_moved key, moved_moved value]; rfl

theorem movedAll_moved : (nodes : List Node) → movedAll g (movedAll f nodes) = movedAll (g ∘ f) nodes
  | [] => rfl
  | node :: nodes => by rw [movedAll, movedAll, movedAll, moved_moved node, movedAll_moved nodes]

theorem movedArms_moved : (arms : List (Node × Node)) → movedArms g (movedArms f arms) = movedArms (g ∘ f) arms
  | [] => rfl
  | (pattern, body) :: arms => by
    rw [movedArms, movedArms, movedArms, moved_moved pattern, moved_moved body, movedArms_moved arms]

theorem movedEntries_moved : (entries : List (Located String × Node)) →
    movedEntries g (movedEntries f entries) = movedEntries (g ∘ f) entries
  | [] => rfl
  | (name, value) :: entries => by
    rw [movedEntries, movedEntries, movedEntries, moved_moved value, movedEntries_moved entries]; rfl

end

end Node

namespace Program

variable (ps qs : Program) (f g : Span → Span)

theorem moved_moved : (ps.moved f).moved g = ps.moved (g ∘ f) := Node.movedAll_moved f g ps

theorem moved_append : Program.moved f (ps ++ qs) = ps.moved f ++ qs.moved f := by
  simp only [moved, Node.movedAll_eq_map, List.map_append]

theorem moved_nowhere : ps.moved (fun _ => .nowhere) = ps.erase := Node.movedAll_nowhere ps

/-- Two programs that follow each other are erased one by one. -/
theorem erase_append : Program.erase (ps ++ qs) = ps.erase ++ qs.erase := by
  simp only [← moved_nowhere, moved_append]

/-- Nothing is left of where a program was moved once it is erased. -/
theorem erase_moved : (ps.moved f).erase = ps.erase := by
  rw [← moved_nowhere, moved_moved, ← moved_nowhere]
  rfl

end Program

/-! ## Comparing places -/

/-- A way to compare the places of two texts: the spans of each are moved to where they can be compared. -/
structure Placing where
  /-- Where the spans of the first text are moved. -/
  left : Span → Span
  /-- Where the spans of the second text are moved. -/
  right : Span → Span
  left_cover : ∀ s t, left (s.cover t) = (left s).cover (left t)
  right_cover : ∀ s t, right (s.cover t) = (right s).cover (right t)

namespace Placing

/-- All places are the same. -/
def nowhere : Placing := ⟨fun _ => .nowhere, fun _ => .nowhere, fun _ _ => rfl, fun _ _ => rfl⟩

/-- The second text stands where it is found after some bytes and lines of other text. -/
def shifted (bytes lines : Nat) : Placing := ⟨Span.shift bytes lines, id, Span.shift_cover bytes lines, fun _ _ => rfl⟩

/-- Both texts stand at the same place. -/
def fixed : Placing := ⟨id, id, fun _ _ => rfl, fun _ _ => rfl⟩

variable (π : Placing)

/-- Whether two spans are the same place. -/
def Same (s t : Span) : Prop := π.left s = π.right t

/-- Whether two things are equal once both are moved. -/
def UpTo {α β : Type} (move : (Span → Span) → α → β) (a b : α) : Prop := move π.left a = move π.right b

variable {π}

theorem Same.eq {s t : Span} (h : π.Same s t) : π.left s = π.right t := h

theorem UpTo.eq {α β : Type} {move : (Span → Span) → α → β} {a b : α} (h : π.UpTo move a b) :
    move π.left a = move π.right b := h

theorem UpTo.val {α : Type} {x y : Located α} (h : π.UpTo Located.moved x y) : x.val = y.val :=
  (Located.mk.inj h.eq).1

theorem UpTo.place {α : Type} {x y : Located α} (h : π.UpTo Located.moved x y) : π.Same x.span y.span :=
  (Located.mk.inj h.eq).2

theorem Same.cover {s s' t t' : Span} (hs : π.Same s s') (ht : π.Same t t') : π.Same (s.cover t) (s'.cover t') := by
  rw [Same, π.left_cover, π.right_cover, show π.left s = _ from hs, show π.left t = _ from ht]

theorem UpTo.map {α β : Type} {move : (Span → Span) → α → β} {as bs : List α}
    (h : List.Forall₂ (π.UpTo move) as bs) : as.map (move π.left) = bs.map (move π.right) := by
  induction h with
  | nil => rfl
  | cons hab _ ih => rw [List.map_cons, List.map_cons, ih, hab]

/-- Trees that are equal once they are moved stand at the same place. -/
theorem UpTo.span {a b : Node} (h : π.UpTo Node.moved a b) : π.Same a.span b.span := by
  rw [Same, ← Node.span_moved π.left, ← Node.span_moved π.right, show a.moved π.left = b.moved π.right from h]

end Placing

end DispatchLang
