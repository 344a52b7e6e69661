import DispatchLang.Proofs.Grammar.Core
import DispatchLang.Proofs.Grammar.WellFormed
import DispatchLang.Proofs.Number.Notation

/-!
# Trees that the printer does right by

The printer puts parentheses by precedence alone and ends a line with a semicolon only before a bracket or a sign. For
most trees that is enough. It is not enough where a form has no precedence of its own but still goes on as far as it can,
or where a brace may belong to what stands before it:

* a function declaration on the left of an operator, or before a point, takes the rest into its body;
* a quotation before a point or a power takes the rest into the quotation;
* a construction, or a type declared without fields, takes the brace of the match that looks at it;
* a type declared without fields takes the block on the next line for its fields, and a name takes a block whose first
  parameter has a type for a construction;
* neither an assignment nor a pair is the value of a pair, unless it is in parentheses;
* and a number that is not finite is written by its name.

A node is *legible* if none of this happens at it. The trees that are *printable* are legible everywhere, and they are
made of words: their names are names, and their numbers need no sign, or one sign in a pattern. All trees that are read
from a text are made of words, so only legibility stands between a program and its text.

## Main definitions

* `Node.isLegible`, `Program.isLegible`: none of the slips of the printer happens.
* `Node.Printable`: the printable trees, with one rule for each form; its induction principle carries every proof about
  printing and reading.

## Main results

* `Node.Core.printable`: the trees of the expression core are printable.
-/

namespace DispatchLang

/-! ## Edges -/

namespace Node

open Printer

def isFunction : Node → Bool
  | .function _ _ _ => true
  | _ => false

def isAssignment : Node → Bool
  | .assign _ _ _ => true
  | _ => false

def isIdent : Node → Bool
  | .ident _ _ => true
  | _ => false

def isConstruct : Node → Bool
  | .construct _ _ _ => true
  | _ => false

/-- Whether a node declares a type that fields could still follow. -/
def isOpenDecl : Node → Bool
  | .typeDecl _ decl => (decl.body matches .concrete)
  | _ => false

def isBlock : Node → Bool
  | .block _ _ _ => true
  | _ => false

/-- Whether a node is a block whose first parameter has a type. -/
def isTypedBlock : Node → Bool
  | .block _ params _ => params.head?.any fun p => p.annotation.isSome
  | _ => false

/-- Whether a tree that is printed where a precedence is asked for ends in a node that passes a test. What stands in
parentheses or brackets is not looked at. -/
def endsIn (p : Node → Bool) (asked : Nat) (node : Node) : Bool :=
  p node || match node with
    | .binary _ op _ right => asked ≤ precedence op && endsIn p (operandPrecedences op).2 right
    | .unary _ _ operand => asked ≤ unaryPrecedence && endsIn p (precedence .pow) operand
    | .assign _ _ value => asked ≤ 0 && endsIn p 0 value
    | .function _ _ body => endsIn p 1 body
    | .quoted _ body => endsIn p memberPrecedence body
    | .refine _ _ pattern => endsIn p 0 pattern
    | .pair _ _ value => endsIn p 0 value
    | _ => false

/-- Whether a tree that is printed where a precedence is asked for begins with a node that passes a test. -/
def beginsIn (p : Node → Bool) (asked : Nat) (node : Node) : Bool :=
  p node || match node with
    | .binary _ op left _ => asked ≤ precedence op && beginsIn p (operandPrecedences op).1 left
    | .assign _ target _ => asked ≤ 0 && beginsIn p 1 target
    | .field _ subject _ | .send _ subject _ _ => beginsIn p memberPrecedence subject
    | _ => false

/-- Whether a tree that is printed where a precedence is asked for has a node that passes a test outside parentheses,
brackets and the bodies of functions. -/
def shows (p : Node → Bool) (asked : Nat) (node : Node) : Bool :=
  p node || match node with
    | .binary _ op left right =>
      asked ≤ precedence op &&
        (shows p (operandPrecedences op).1 left || shows p (operandPrecedences op).2 right)
    | .unary _ _ operand => asked ≤ unaryPrecedence && shows p (precedence .pow) operand
    | .assign _ target value => asked ≤ 0 && (shows p 1 target || shows p 0 value)
    | .field _ subject _ | .send _ subject _ _ => shows p memberPrecedence subject
    | .quoted _ body => shows p memberPrecedence body
    | .pair _ key value => shows p 0 key || shows p 0 value
    | _ => false

section

variable {p : Node → Bool} {node : Node} (h : node.isAssignment = false)
include h

/-- Only assignments are put in parentheses where some precedence is asked for. -/
theorem endsIn_one : node.endsIn p 1 = node.endsIn p 0 := by
  cases node with
  | assign => cases h
  | binary _ op => cases op <;> simp [endsIn, precedence]
  | _ => simp [endsIn, unaryPrecedence]

theorem shows_one : node.shows p 1 = node.shows p 0 := by
  cases node with
  | assign => cases h
  | binary _ op => cases op <;> simp [shows, precedence]
  | _ => simp [shows, unaryPrecedence]

end

/-! ## Legibility -/

def staysApart (node next : Node) : Bool :=
  !(node.endsIn isOpenDecl 0 && next.beginsIn isBlock 0) && !(node.endsIn isIdent 0 && next.beginsIn isTypedBlock 0)

/-- Whether statements on lines of their own stay apart. -/
def stayApart : List Node → Bool
  | node :: next :: nodes => node.staysApart next && stayApart (next :: nodes)
  | _ => true

/-- Whether the printer puts all parentheses and semicolons that a node needs. -/
def isLegible : Node → Bool
  | .literal _ (.float x) => x.isFinite
  | .binary _ op left _ =>
    !left.endsIn isFunction (operandPrecedences op).1 && !(op = .pow && left.isQuoted)
  | .field _ subject _ | .send _ subject _ _ => !subject.isFunction && !subject.isQuoted
  | .block _ _ body => stayApart body
  | .cases _ scrutinee _ => !scrutinee.endsIn isOpenDecl 1 && !scrutinee.shows isConstruct 1
  | .object _ entries => entries.all fun entry => !entry.2.isAssignment
  | .pair _ key value => !key.isAssignment && !value.isAssignment && !Grammar.isPair value
  | _ => true

end Node

/-- Whether the printer puts all parentheses and semicolons that a program needs. -/
def Program.isLegible (program : Program) : Bool :=
  program.nodes.all Node.isLegible && Node.stayApart program

/-! ## What words are made of -/

/-- The types that are made of names. -/
inductive TypeExpr.Lexical : TypeExpr → Prop where
  /-- A name alone. -/
  | named {span : Span} {name : String} (isName : Printer.isName name) : Lexical (.named span name)
  /-- A name with arguments. -/
  | applied {span : Span} {name : String} {args : List TypeExpr} (isName : Printer.isName name)
    (args_lexical : ∀ arg ∈ args, Lexical arg) : Lexical (.applied span name args)

/-- A parameter that is made of names. -/
structure Param.Lexical (p : Param) : Prop where
  isName : Printer.isName p.name.val
  annotation : ∀ type ∈ p.annotation, type.Lexical

/-- A type parameter that is made of names. -/
structure TypeParam.Lexical (p : TypeParam) : Prop where
  isName : Printer.isName p.name.val
  constraint : ∀ type ∈ p.constraint, type.Lexical

/-- A field of a declaration that is made of names. -/
structure FieldDecl.Lexical (f : FieldDecl) : Prop where
  isName : Printer.isName f.name.val
  type : f.type.Lexical

/-- An alternative of a declaration that is made of names. -/
structure VariantDecl.Lexical (v : VariantDecl) : Prop where
  isName : Printer.isName v.name.val
  fields : ∀ field ∈ v.fields, field.Lexical

/-- What a type declaration says about the instances, if it is made of names. There is at least one alternative, if there
are any. -/
def TypeBody.Lexical : TypeBody → Prop
  | .abstract | .concrete => True
  | .struct fields => ∀ field ∈ fields, field.Lexical
  | .variants alternatives => alternatives ≠ [] ∧ ∀ alternative ∈ alternatives, alternative.Lexical

/-- A type declaration that is made of names. An abstract type has no parameters. -/
structure TypeDecl.Lexical (decl : TypeDecl) : Prop where
  isName : Printer.isName decl.name.val
  typeParams : ∀ p ∈ decl.typeParams, p.Lexical
  parent : ∀ type ∈ decl.parent, type.Lexical
  body : decl.body.Lexical
  plain : decl.body = .abstract → decl.typeParams = []

/-- The head of a function declaration that is made of names. -/
structure FunctionHead.Lexical (head : FunctionHead) : Prop where
  isName : Printer.isName head.name.val
  typeParams : ∀ p ∈ head.typeParams, p.Lexical
  params : ∀ p ∈ head.params, p.Lexical

namespace Literal

/-- A literal that is written without a sign. -/
def Unsigned : Literal → Prop
  | .int value => 0 ≤ value
  | .float x => Number.Signless x
  | _ => True

def Signed : Literal → Prop
  | .int value => 0 ≤ value ∨ 0 ≤ -value
  | _ => True

theorem Unsigned.signed {value : Literal} (h : value.Unsigned) : value.Signed := by
  cases value with
  | int value => exact .inl h
  | _ => trivial

/-- A finite floating-point number is the number that its text is read as. -/
def Restored : Literal → Prop
  | .float x => x.isFinite ∧ Decimal.readFloat? (Printer.floatLiteral x) = some x
  | _ => True

end Literal

/-! ## Printable trees -/

namespace Node

/-- A node at which the printer does right. -/
structure Legible (node : Node) : Prop where
  /-- It is well-formed. -/
  wellFormed : node.WellFormed
  /-- It has all the parentheses and semicolons that it needs. -/
  isLegible : node.isLegible = true
  /-- If it is a number, its text is read as the number. -/
  restored : ∀ {span : Span} {value : Literal}, node = .literal span value → value.Restored

/-- The patterns that are printed so that they are read again. -/
inductive PrintablePattern : Node → Prop where
  /-- Literals, also negative numbers. -/
  | literal {span : Span} {value : Literal} (signed : value.Signed) (restored : value.Restored) :
    PrintablePattern (.literal span value)
  /-- Names. -/
  | ident {span : Span} {name : String} (isName : Printer.isName name) : PrintablePattern (.ident span name)
  /-- Captures. -/
  | capture {span : Span} {name : Option String} (isName : ∀ n ∈ name, Printer.isName n) :
    PrintablePattern (.capture span name)
  /-- Captures with a pattern, which is no negative number. -/
  | refine {span : Span} {name : Option String} {pattern : Node} (isName : ∀ n ∈ name, Printer.isName n)
    (unsigned : ∀ {span : Span} {value : Literal}, pattern = .literal span value → value.Unsigned)
    (pattern_printable : PrintablePattern pattern) : PrintablePattern (.refine span name pattern)
  /-- Constructions of patterns. -/
  | construct {span : Span} {name : Located String} {fields : List (Located String × Node)}
    (isName : Printer.isName name.val) (nonempty : fields ≠ [])
    (names : ∀ field ∈ fields, Printer.isName field.1.val)
    (fields_printable : ∀ field ∈ fields, PrintablePattern field.2) :
    PrintablePattern (.construct span name fields)

/-- The trees that are printed so that they are read again. -/
inductive Printable : Node → Prop where
  /-- Literals that need no sign. -/
  | literal {span : Span} {value : Literal} (unsigned : value.Unsigned) (restored : value.Restored) :
    Printable (.literal span value)
  /-- Names. -/
  | ident {span : Span} {name : String} (isName : Printer.isName name) : Printable (.ident span name)
  /-- Operators with two operands. -/
  | binary {span : Span} {op : BinaryOp} {left right : Node} (legible : Legible (.binary span op left right))
    (left_printable : Printable left) (right_printable : Printable right) : Printable (.binary span op left right)
  /-- Operators with one operand. -/
  | unary {span : Span} {op : UnaryOp} {operand : Node} (legible : Legible (.unary span op operand))
    (operand_printable : Printable operand) : Printable (.unary span op operand)
  /-- Assignments. -/
  | assign {span : Span} {target value : Node} (legible : Legible (.assign span target value))
    (target_printable : Printable target) (value_printable : Printable value) :
    Printable (.assign span target value)
  /-- Members. -/
  | field {span : Span} {subject : Node} {member : Located String} (legible : Legible (.field span subject member))
    (isName : Printer.isName member.val) (subject_printable : Printable subject) :
    Printable (.field span subject member)
  /-- Calls of a function. The function `type` is called by its reserved word. -/
  | call {span : Span} {callee : Located String} {args : List Node} (legible : Legible (.call span callee args))
    (isCallee : Printer.isName callee.val ∨ callee.val = "type") (args_printable : ∀ arg ∈ args, Printable arg) :
    Printable (.call span callee args)
  /-- Calls of a method. -/
  | send {span : Span} {receiver : Node} {method : Located String} {args : List Node}
    (legible : Legible (.send span receiver method args)) (isName : Printer.isName method.val)
    (receiver_printable : Printable receiver) (args_printable : ∀ arg ∈ args, Printable arg) :
    Printable (.send span receiver method args)
  /-- Blocks and closures. -/
  | block {span : Span} {params : List Param} {body : List Node} (legible : Legible (.block span params body))
    (params_lexical : ∀ p ∈ params, p.Lexical) (body_printable : ∀ statement ∈ body, Printable statement) :
    Printable (.block span params body)
  /-- Matches. -/
  | cases {span : Span} {scrutinee : Node} {arms : List (Node × Node)}
    (legible : Legible (.cases span scrutinee arms)) (scrutinee_printable : Printable scrutinee)
    (patterns_printable : ∀ arm ∈ arms, arm.1.PrintablePattern) (bodies_printable : ∀ arm ∈ arms, Printable arm.2) :
    Printable (.cases span scrutinee arms)
  /-- Constructions. -/
  | construct {span : Span} {name : Located String} {fields : List (Located String × Node)}
    (legible : Legible (.construct span name fields)) (isName : Printer.isName name.val) (nonempty : fields ≠ [])
    (names : ∀ field ∈ fields, Printer.isName field.1.val) (fields_printable : ∀ field ∈ fields, Printable field.2) :
    Printable (.construct span name fields)
  /-- Type declarations. -/
  | typeDecl {span : Span} {decl : TypeDecl} (lexical : decl.Lexical) : Printable (.typeDecl span decl)
  /-- Function declarations. -/
  | function {span : Span} {head : FunctionHead} {body : Node} (legible : Legible (.function span head body))
    (lexical : head.Lexical) (body_printable : Printable body) : Printable (.function span head body)
  /-- Captures. -/
  | capture {span : Span} {name : Option String} (printable : PrintablePattern (.capture span name)) :
    Printable (.capture span name)
  /-- Captures with a pattern. -/
  | refine {span : Span} {name : Option String} {pattern : Node}
    (printable : PrintablePattern (.refine span name pattern)) : Printable (.refine span name pattern)
  /-- Quotations. -/
  | quoted {span : Span} {body : Node} (legible : Legible (.quoted span body)) (body_printable : Printable body) :
    Printable (.quoted span body)
  /-- Arrays. -/
  | array {span : Span} {elements : List Node} (legible : Legible (.array span elements))
    (elements_printable : ∀ element ∈ elements, Printable element) : Printable (.array span elements)
  /-- Objects. -/
  | object {span : Span} {entries : List (Located String × Node)} (legible : Legible (.object span entries))
    (entries_printable : ∀ entry ∈ entries, Printable entry.2) : Printable (.object span entries)
  /-- Pairs. -/
  | pair {span : Span} {key value : Node} (legible : Legible (.pair span key value)) (key_printable : Printable key)
    (value_printable : Printable value) : Printable (.pair span key value)

/-! ## The expression core -/

namespace Core

variable {e : Node} (h : e.Core)
include h

theorem core_of_mem_children : ∀ child ∈ e.children, child.Core := by
  cases h with
  | int | string | bool | ident => exact nofun
  | binary left_core right_core => exact List.forall_mem_cons.2 ⟨left_core, List.forall_mem_singleton.2 right_core⟩
  | unary operand_core => exact List.forall_mem_singleton.2 operand_core
  | assign isName value_core => exact List.forall_mem_cons.2 ⟨.ident isName, List.forall_mem_singleton.2 value_core⟩
  | field _ subject_core => exact List.forall_mem_singleton.2 subject_core
  | send _ receiver_core args_core => exact List.forall_mem_cons.2 ⟨receiver_core, args_core⟩
  | call _ args_core => exact args_core
  | array elements_core => exact elements_core
  | block _ body_core => exact body_core

theorem endsInPair_eq_false : e.endsInPair = false := by
  induction h with
  | assign _ _ ih => exact ih
  | _ => rfl

variable {p : Node → Bool} (hp : ∀ {e : Node}, e.Core → p e = false)
include hp

theorem endsIn_eq_false (asked : Nat) : e.endsIn p asked = false := by
  have hself := hp h
  induction h generalizing asked with
  | binary _ hr _ ih => simp [endsIn, hself, ih _ (hp hr)]
  | unary ho ih => simp [endsIn, hself, ih _ (hp ho)]
  | assign _ hv ih => simp [endsIn, hself, ih _ (hp hv)]
  | _ => simp [endsIn, hself]

theorem beginsIn_eq_false (asked : Nat) : e.beginsIn p asked = false := by
  have hself := hp h
  induction h generalizing asked with
  | binary hl _ ih _ => simp [beginsIn, hself, ih _ (hp hl)]
  | assign isName => simp [beginsIn, hself, hp (.ident isName)]
  | field _ hs ih | send _ hs _ ih _ => simp [beginsIn, hself, ih _ (hp hs)]
  | _ => simp [beginsIn, hself]

end Core

/-- Statements of the core stay apart: none of them declares a type, and no parameter has one. -/
theorem stayApart_of_core {es : List Node} (h : ∀ e ∈ es, e.Core) : stayApart es = true := by
  have hdecl {e : Node} (h : e.Core) : isOpenDecl e = false := by cases h <;> rfl
  have htyped {e : Node} (h : e.Core) : isTypedBlock e = false := by
    cases h with
    | @block _ params _ hparams =>
      cases params with
      | nil => rfl
      | cons p ps => simp [isTypedBlock, (hparams p List.mem_cons_self).2]
    | _ => rfl
  induction es with
  | nil => rfl
  | cons e es ih =>
    cases es with
    | nil => rfl
    | cons next es =>
      obtain ⟨he, hes⟩ := List.forall_mem_cons.1 h
      rw [stayApart, staysApart, he.endsIn_eq_false hdecl, (hes next List.mem_cons_self).beginsIn_eq_false htyped, ih hes,
        Bool.false_and, Bool.and_false]
      rfl

theorem Core.isLegible {e : Node} (h : e.Core) : e.isLegible = true := by
  have hfunction {e : Node} (h : e.Core) : isFunction e = false := by cases h <;> rfl
  have hquoted {e : Node} (h : e.Core) : isQuoted e = false := by cases h <;> rfl
  cases h with
  | binary hl hr => simp [Node.isLegible, hl.endsIn_eq_false hfunction, hquoted hl]
  | field _ hs | send _ hs => simp [Node.isLegible, hfunction hs, hquoted hs]
  | block _ hb => exact stayApart_of_core hb
  | _ => rfl

theorem Core.legible {e : Node} (h : e.Core) : Legible e where
  wellFormed := by
    have hpairs : ∀ child ∈ e.children, child.endsInPair = true → e.MayHold child := fun child hc hp => by
      rw [(h.core_of_mem_children child hc).endsInPair_eq_false] at hp
      cases hp
    cases h with
    | assign => exact ⟨fun he => by cases he; rfl, (fun he => by cases he), hpairs⟩
    | _ => exact wellFormed_of_pairs (fun _ _ _ he => by cases he) (fun _ _ _ he => by cases he) hpairs
  isLegible := h.isLegible
  restored := by
    intro span value he
    cases h with
    | int | string | bool =>
      cases he
      trivial
    | _ => cases he

theorem Core.printable {e : Node} (h : e.Core) : e.Printable := by
  induction h with
  | int nonneg => exact .literal nonneg trivial
  | string | bool => exact .literal trivial trivial
  | ident isName => exact .ident isName
  | binary hl hr ihl ihr => exact .binary (legible (.binary hl hr)) ihl ihr
  | unary ho ih => exact .unary (legible (.unary ho)) ih
  | assign isName hv ih => exact .assign (legible (.assign isName hv)) (.ident isName) ih
  | field isName hs ih => exact .field (legible (.field isName hs)) isName ih
  | call isCallee ha ih => exact .call (legible (.call isCallee ha)) isCallee ih
  | send isName hr ha ihr iha => exact .send (legible (.send isName hr ha)) isName ihr iha
  | array he ih => exact .array (legible (.array he)) ih
  | block hp hb ih =>
    refine .block (legible (.block hp hb)) (fun p hm => ⟨(hp p hm).1, fun type ht => ?_⟩) ih
    rw [(hp p hm).2] at ht
    cases ht

end Node

end DispatchLang
