import DispatchLang.Node.Basic

/-!
# Equality of program trees

Two quoted trees are equal if they have the same form, where parts count as the same only if they also
stand at the same places; the place of the whole tree does not count.
-/

namespace DispatchLang

mutual

/-- Whether two written types are the same. -/
def TypeExpr.same : TypeExpr → TypeExpr → Bool
  | .named span name, .named span' name' => span = span' && name = name'
  | .applied span name args, .applied span' name' args' =>
    span = span' && name = name' && TypeExpr.sameAll args args'
  | _, _ => false
termination_by structural a _ => a

/-- Whether two lists of written types are the same. -/
def TypeExpr.sameAll : List TypeExpr → List TypeExpr → Bool
  | [], [] => true
  | a :: as, b :: bs => TypeExpr.same a b && TypeExpr.sameAll as bs
  | _, _ => false
termination_by structural as _ => as

end

/-- Whether two lists have the same elements in the sense of `same`. -/
def sameList {α : Type} (same : α → α → Bool) : List α → List α → Bool
  | [], [] => true
  | a :: as, b :: bs => same a b && sameList same as bs
  | _, _ => false

/-- Whether two optional things are the same in the sense of `same`. -/
def sameOption {α : Type} (same : α → α → Bool) : Option α → Option α → Bool
  | none, none => true
  | some a, some b => same a b
  | _, _ => false

/-- Whether two parameters are the same. -/
def Param.same (p q : Param) : Bool :=
  p.name = q.name && sameOption TypeExpr.same p.annotation q.annotation

def TypeParam.same (p q : TypeParam) : Bool :=
  p.name = q.name && sameOption TypeExpr.same p.constraint q.constraint

def FieldDecl.same (f g : FieldDecl) : Bool := f.name = g.name && f.type.same g.type

/-- Whether two alternatives are the same. -/
def VariantDecl.same (v w : VariantDecl) : Bool :=
  v.name = w.name && sameList FieldDecl.same v.fields w.fields

def TypeBody.same : TypeBody → TypeBody → Bool
  | .abstract, .abstract => true
  | .concrete, .concrete => true
  | .struct fields, .struct fields' => sameList FieldDecl.same fields fields'
  | .variants alternatives, .variants alternatives' =>
    sameList VariantDecl.same alternatives alternatives'
  | _, _ => false

def TypeDecl.same (d e : TypeDecl) : Bool :=
  d.name = e.name && sameList TypeParam.same d.typeParams e.typeParams &&
    sameOption TypeExpr.same d.parent e.parent && d.body.same e.body

def FunctionHead.same (f g : FunctionHead) : Bool :=
  f.name = g.name && sameList TypeParam.same f.typeParams g.typeParams &&
    sameList Param.same f.params g.params

/-- Whether two literals are the same; floating-point numbers are compared as numbers. -/
def Literal.same : Literal → Literal → Bool
  | .int a, .int b => a = b
  | .float a, .float b => a == b
  | .string a, .string b => a = b
  | .bool a, .bool b => a = b
  | _, _ => false

namespace Node

mutual

/-- Whether two trees have the same form and all their parts stand at the same places. -/
def same : Node → Node → Bool
  | .literal span value, .literal span' value' =>
    span = span' && value.same value'
  | .ident span name, .ident span' name' =>
    span = span' && name = name'
  | .binary span op left right, .binary span' op' left' right' =>
    span = span' && op = op' && same left left' && same right right'
  | .unary span op operand, .unary span' op' operand' =>
    span = span' && op = op' && same operand operand'
  | .assign span target value, .assign span' target' value' =>
    span = span' && same target target' && same value value'
  | .field span subject member, .field span' subject' member' =>
    span = span' && same subject subject' && member = member'
  | .call span callee args, .call span' callee' args' =>
    span = span' && callee = callee' && sameAll args args'
  | .send span receiver method args, .send span' receiver' method' args' =>
    span = span' && same receiver receiver' && method = method' && sameAll args args'
  | .block span params body, .block span' params' body' =>
    span = span' && sameList Param.same params params' && sameAll body body'
  | .cases span scrutinee arms, .cases span' scrutinee' arms' =>
    span = span' && same scrutinee scrutinee' && sameArms arms arms'
  | .construct span name fields, .construct span' name' fields' =>
    span = span' && name = name' && sameEntries fields fields'
  | .typeDecl span decl, .typeDecl span' decl' =>
    span = span' && decl.same decl'
  | .function span head body, .function span' head' body' =>
    span = span' && head.same head' && same body body'
  | .capture span name, .capture span' name' =>
    span = span' && name = name'
  | .refine span name pattern, .refine span' name' pattern' =>
    span = span' && name = name' && same pattern pattern'
  | .quoted span body, .quoted span' body' =>
    span = span' && same body body'
  | .array span elements, .array span' elements' =>
    span = span' && sameAll elements elements'
  | .object span entries, .object span' entries' =>
    span = span' && sameEntries entries entries'
  | .pair span key value, .pair span' key' value' =>
    span = span' && same key key' && same value value'
  | _, _ => false
termination_by structural a _ => a

/-- Whether two lists of trees are the same. -/
def sameAll : List Node → List Node → Bool
  | [], [] => true
  | a :: as, b :: bs => same a b && sameAll as bs
  | _, _ => false
termination_by structural as _ => as

/-- Whether two lists of match arms are the same. -/
def sameArms : List (Node × Node) → List (Node × Node) → Bool
  | [], [] => true
  | (p, a) :: as, (q, b) :: bs => same p q && same a b && sameArms as bs
  | _, _ => false
termination_by structural as _ => as

/-- Whether two lists of fields or entries are the same. -/
def sameEntries : List (Located String × Node) → List (Located String × Node) → Bool
  | [], [] => true
  | (k, a) :: as, (l, b) :: bs => k = l && same a b && sameEntries as bs
  | _, _ => false
termination_by structural as _ => as

end

/-- A tree moved to another place. -/
def relocate (span : Span) : Node → Node
  | .literal _ value => .literal span value
  | .ident _ name => .ident span name
  | .binary _ op left right => .binary span op left right
  | .unary _ op operand => .unary span op operand
  | .assign _ target value => .assign span target value
  | .field _ subject member => .field span subject member
  | .call _ callee args => .call span callee args
  | .send _ receiver method args => .send span receiver method args
  | .block _ params body => .block span params body
  | .cases _ scrutinee arms => .cases span scrutinee arms
  | .construct _ name fields => .construct span name fields
  | .typeDecl _ decl => .typeDecl span decl
  | .function _ head body => .function span head body
  | .capture _ name => .capture span name
  | .refine _ name pattern => .refine span name pattern
  | .quoted _ body => .quoted span body
  | .array _ elements => .array span elements
  | .object _ entries => .object span entries
  | .pair _ key value => .pair span key value

/-- Whether two trees have the same form and their parts stand at the same places. -/
def sameForm (a b : Node) : Bool := same (a.relocate .nowhere) (b.relocate .nowhere)

end Node

end DispatchLang
