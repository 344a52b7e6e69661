import DispatchLang.Node.Printer

/-!
# Trees without places, and the expression core

Reading a text gives a tree whose nodes remember where they stand, so a tree that is printed and read again
comes back with other places. `Node.erase` moves everything to one place: two trees are the same program
if they are equal once all places are erased.

The *expression core* is what expressions are made of: literals that are not negative numbers, names,
operators, assignments to a name, members, calls, arrays and closures whose parameters have no types. It
leaves out the forms with a keyword of their own, the patterns, and everything with a colon.

## Main results

* `Node.Core`: the core, with one rule for each form.
-/

namespace DispatchLang

/-! ## Erasing places -/

/-- A value, moved nowhere. -/
def Located.erase {α : Type} (x : Located α) : Located α := ⟨x.val, .nowhere⟩

namespace TypeExpr

mutual

/-- A written type, moved nowhere. -/
def erase : TypeExpr → TypeExpr
  | .named _ name => .named .nowhere name
  | .applied _ name args => .applied .nowhere name (eraseAll args)

/-- Several written types, moved nowhere. -/
def eraseAll : List TypeExpr → List TypeExpr
  | [] => []
  | arg :: args => erase arg :: eraseAll args

end

end TypeExpr

/-- A parameter, moved nowhere. -/
def Param.erase (p : Param) : Param := ⟨p.name.erase, p.annotation.map TypeExpr.erase⟩

def TypeParam.erase (p : TypeParam) : TypeParam := ⟨p.name.erase, p.constraint.map TypeExpr.erase⟩

def FieldDecl.erase (f : FieldDecl) : FieldDecl := ⟨f.name.erase, f.type.erase⟩

/-- An alternative of a declaration, moved nowhere. -/
def VariantDecl.erase (v : VariantDecl) : VariantDecl := ⟨v.name.erase, v.fields.map FieldDecl.erase⟩

/-- What a declaration says about the instances, moved nowhere. -/
def TypeBody.erase : TypeBody → TypeBody
  | .abstract => .abstract
  | .concrete => .concrete
  | .struct fields => .struct (fields.map FieldDecl.erase)
  | .variants alternatives => .variants (alternatives.map VariantDecl.erase)

def TypeDecl.erase (decl : TypeDecl) : TypeDecl where
  name := decl.name.erase
  typeParams := decl.typeParams.map TypeParam.erase
  parent := decl.parent.map TypeExpr.erase
  body := decl.body.erase

/-- The head of a function declaration, moved nowhere. -/
def FunctionHead.erase (head : FunctionHead) : FunctionHead where
  name := head.name.erase
  typeParams := head.typeParams.map TypeParam.erase
  params := head.params.map Param.erase

namespace Node

mutual

/-- A tree with all its parts moved nowhere. -/
def erase : Node → Node
  | .literal _ value => .literal .nowhere value
  | .ident _ name => .ident .nowhere name
  | .binary _ op left right => .binary .nowhere op (erase left) (erase right)
  | .unary _ op operand => .unary .nowhere op (erase operand)
  | .assign _ target value => .assign .nowhere (erase target) (erase value)
  | .field _ subject member => .field .nowhere (erase subject) member.erase
  | .call _ callee args => .call .nowhere callee.erase (eraseAll args)
  | .send _ receiver method args => .send .nowhere (erase receiver) method.erase (eraseAll args)
  | .block _ params body => .block .nowhere (params.map Param.erase) (eraseAll body)
  | .cases _ scrutinee arms => .cases .nowhere (erase scrutinee) (eraseArms arms)
  | .construct _ name fields => .construct .nowhere name.erase (eraseEntries fields)
  | .typeDecl _ decl => .typeDecl .nowhere decl.erase
  | .function _ head body => .function .nowhere head.erase (erase body)
  | .capture _ name => .capture .nowhere name
  | .refine _ name pattern => .refine .nowhere name (erase pattern)
  | .quoted _ body => .quoted .nowhere (erase body)
  | .array _ elements => .array .nowhere (eraseAll elements)
  | .object _ entries => .object .nowhere (eraseEntries entries)
  | .pair _ key value => .pair .nowhere (erase key) (erase value)

/-- Several trees, moved nowhere. -/
def eraseAll : List Node → List Node
  | [] => []
  | node :: nodes => erase node :: eraseAll nodes

/-- The arms of a match, moved nowhere. -/
def eraseArms : List (Node × Node) → List (Node × Node)
  | [] => []
  | (pattern, body) :: arms => (erase pattern, erase body) :: eraseArms arms

/-- Fields or entries, moved nowhere. -/
def eraseEntries : List (Located String × Node) → List (Located String × Node)
  | [] => []
  | (name, value) :: entries => (name.erase, erase value) :: eraseEntries entries

end

theorem eraseAll_eq_map (nodes : List Node) : eraseAll nodes = nodes.map erase := by
  induction nodes with
  | nil => rw [eraseAll, List.map_nil]
  | cons node nodes ih => rw [eraseAll, ih, List.map_cons]

end Node

/-- A program with all its parts moved nowhere. -/
def Program.erase (program : Program) : Program := Node.eraseAll program

/-! ## The expression core -/

/-- The trees of the expression core. -/
inductive Node.Core : Node → Prop where
  /-- Integers that need no sign. -/
  | int {span : Span} {value : Int64} (nonneg : 0 ≤ value) : Core (.literal span (.int value))
  /-- String literals. -/
  | string {span : Span} {value : String} : Core (.literal span (.string value))
  /-- Truth values. -/
  | bool {span : Span} {value : Bool} : Core (.literal span (.bool value))
  /-- Names. -/
  | ident {span : Span} {name : String} (isName : Printer.isName name) : Core (.ident span name)
  /-- Operators with two operands. -/
  | binary {span : Span} {op : BinaryOp} {left right : Node} (left_core : Core left)
    (right_core : Core right) : Core (.binary span op left right)
  /-- Operators with one operand. -/
  | unary {span : Span} {op : UnaryOp} {operand : Node} (operand_core : Core operand) :
    Core (.unary span op operand)
  /-- Assignments to a name. -/
  | assign {span at_ : Span} {name : String} {value : Node} (isName : Printer.isName name)
    (value_core : Core value) : Core (.assign span (.ident at_ name) value)
  /-- Members. -/
  | field {span : Span} {subject : Node} {member : Located String}
    (isName : Printer.isName member.val) (subject_core : Core subject) :
    Core (.field span subject member)
  /-- Calls of a function. The function `type` is called by its reserved word. -/
  | call {span : Span} {callee : Located String} {args : List Node}
    (isCallee : Printer.isName callee.val ∨ callee.val = "type") (args_core : ∀ a ∈ args, Core a) :
    Core (.call span callee args)
  /-- Calls of a method. -/
  | send {span : Span} {receiver : Node} {method : Located String} {args : List Node}
    (isName : Printer.isName method.val) (receiver_core : Core receiver)
    (args_core : ∀ a ∈ args, Core a) : Core (.send span receiver method args)
  /-- Arrays. -/
  | array {span : Span} {elements : List Node} (elements_core : ∀ e ∈ elements, Core e) :
    Core (.array span elements)
  /-- Blocks, and closures with parameters that have no types. -/
  | block {span : Span} {params : List Param} {body : List Node}
    (params_core : ∀ p ∈ params, Printer.isName p.name.val ∧ p.annotation = none)
    (body_core : ∀ s ∈ body, Core s) : Core (.block span params body)

end DispatchLang
