import DispatchLang.Proofs.Grammar.Printable
import Mathlib.Data.List.Forall2

/-!
# The words of a printed tree

A printed tree is a list of *words*: tokens with the blanks in front of them. The words of a tree are
defined along the tree, just as its text is; what the printer decides, such as where it puts
parentheses, is decided here in the same way. The difference is that a text has to be scanned before
anything can be said about how it is read, while a word knows its token.

A *phrase* is a piece of a program that may stand in several places. Its first word is set off from the
word before it in a way that depends on the place, so a phrase is a function of that.

## Main results

* `Node.Printable.spells_words`: the words of a tree, written down, are the text of the tree.
* `Program.text_eq`: the same for programs.
-/

namespace DispatchLang

/-! ## Words -/

/-- How a word is set off from the word before it. -/
inductive Lead where
  /-- It is the first word. -/
  | start
  /-- It touches the word before it. -/
  | tight
  /-- There is a space. -/
  | space
  /-- There are two spaces, as between braces with nothing in them. -/
  | wide
  /-- It begins a line inside the given number of enclosing levels. -/
  | line (depth : Nat)

namespace Lead

/-- The blanks before a word. -/
def chars : Lead → List Char
  | .start | .tight => []
  | .space => [' ']
  | .wide => [' ', ' ']
  | .line depth => '\n' :: (Layout.spread depth).margin.toList

/-- Whether a word begins a line. -/
def breaks : Lead → Bool
  | .line _ => true
  | _ => false

end Lead

/-- A token as it is printed. -/
structure Word where
  /-- How it is set off from the word before it. -/
  lead : Lead
  /-- Its text. -/
  text : List Char
  /-- The token. -/
  token : Token

namespace Word

def symbol (lead : Lead) (s : Symbol) : Word := ⟨lead, s.text.toList, .symbol s⟩

def name (lead : Lead) (text : String) : Word := ⟨lead, text.toList, Token.ofWord text⟩

def string (lead : Lead) (text : String) : Word := ⟨lead, (Printer.quote text).toList, .string text⟩

/-- An integer. -/
def int (lead : Lead) (value : Int64) : Word :=
  ⟨lead, (Decimal.intText value.toInt).toList, .int value⟩

/-- A number with a decimal point. -/
def float (lead : Lead) (digits : List Char) : Word :=
  ⟨lead, digits, .float (Decimal.ofDigits (digits.takeWhile Char.isDigit) (digits.dropWhile Char.isDigit).tail)⟩

/-- The key of an object entry. -/
def key (lead : Lead) (text : String) : Word := if Printer.isName text then name lead text else string lead text

end Word

/-- The characters of several words. -/
def render : List Word → List Char
  | [] => []
  | w :: ws => w.lead.chars ++ (w.text ++ render ws)

@[simp] theorem render_nil : render [] = [] := rfl

@[simp] theorem render_cons (w : Word) (ws : List Word) :
    render (w :: ws) = w.lead.chars ++ (w.text ++ render ws) := rfl

@[simp] theorem render_append (ws vs : List Word) : render (ws ++ vs) = render ws ++ render vs := by
  induction ws with
  | nil => rfl
  | cons w ws ih => simp [ih]

/-! ## Phrases -/

/-- The words of a piece of a program, given how the first one is set off. -/
abbrev Phrase : Type := Lead → List Word

namespace Phrase

/-- The phrases of a list after the first one, with words between them. -/
def tail (between : Phrase → List Word) (later : Lead) : List Phrase → List Word
  | [] => []
  | p :: ps => between p ++ (p later ++ tail between later ps)

def joined (between : Phrase → List Word) (later : Lead) : List Phrase → Phrase
  | [], _ => []
  | p :: ps, lead => p lead ++ tail between later ps

/-- The words between things that are separated by commas. -/
def comma (_ : Phrase) : List Word := [.symbol .tight .comma]

@[simp] theorem tail_nil (between : Phrase → List Word) (later : Lead) :
    tail between later [] = [] := rfl

@[simp] theorem tail_comma_cons (later : Lead) (p : Phrase) (ps : List Phrase) :
    tail comma later (p :: ps) = .symbol .tight .comma :: (p later ++ tail comma later ps) := rfl

def commas (later : Lead) (ps : List Phrase) : Phrase := joined comma later ps

/-- Whether a line with these words would continue the line before it. -/
def opensContinuation (p : Phrase) : Bool :=
  Printer.opensContinuation (String.ofList (render (p .tight)))

/-- The words between a statement and the next one: a semicolon, unless the next one begins a line that
does not continue this one. -/
def semicolon (later : Lead) (next : Phrase) : List Word :=
  if later.breaks && !next.opensContinuation then [] else [.symbol .tight .semicolon]

def statements (later : Lead) (ps : List Phrase) : Phrase := joined (semicolon later) later ps

/-- Puts a phrase in parentheses. -/
def enclosed (p : Phrase) : Phrase := fun lead =>
  .symbol lead .openParen :: (p .tight ++ [.symbol .tight .closeParen])

/-- Puts a phrase in parentheses if the place asks for more than its precedence. -/
def encloseBelow (asked own : Nat) (p : Phrase) : Phrase := if own < asked then p.enclosed else p

def labelled (label : Lead → Word) (p : Phrase) : Phrase := fun lead =>
  label lead :: .symbol .tight .colon :: p .space

def arm (pattern body : Phrase) : Phrase := fun lead =>
  pattern lead ++ .symbol .space .arrow :: body .space

/-- The words of the text of a number. A minus sign is a word of its own. -/
def number : List Char → Phrase
  | '-' :: digits, lead => [.symbol lead .minus, .float .tight digits]
  | digits, lead => [.float lead digits]

end Phrase

/-! ## The words of trees -/

/-- The symbol of an operator with two operands. -/
def BinaryOp.symbol : BinaryOp → Symbol
  | .add => .plus
  | .sub => .minus
  | .mul => .star
  | .div => .slash
  | .mod => .percent
  | .pow => .caret
  | .eq => .equal
  | .ne => .unequal
  | .lt => .less
  | .gt => .greater
  | .le => .atMost
  | .ge => .atLeast
  | .and => .and
  | .or => .or

/-- The symbol of an operator with one operand. -/
def UnaryOp.sign : UnaryOp → Symbol
  | .neg => .minus
  | .not => .bang

/-- The words of a literal. A negative number has its sign for a word of its own. -/
def Literal.words : Literal → Phrase
  | .int value, lead => if value < 0 then [.symbol lead .minus, .int .tight (-value)] else [.int lead value]
  | .float x, lead => Phrase.number (Printer.floatLiteral x).toList lead
  | .string value, lead => [.string lead value]
  | .bool true, lead => [.name lead "true"]
  | .bool false, lead => [.name lead "false"]

/-! ### Declarations -/

namespace TypeExpr

mutual

def words : TypeExpr → Phrase
  | .named _ name => fun lead => [.name lead name]
  | .applied _ name args => fun lead =>
    .name lead name :: .symbol .tight .openBracket ::
      (Phrase.commas .space (phrases args) .tight ++ [.symbol .tight .closeBracket])

/-- The words of several written types. -/
def phrases : List TypeExpr → List Phrase
  | [] => []
  | arg :: args => words arg :: phrases args

end

theorem phrases_eq_map (args : List TypeExpr) : phrases args = args.map words := by
  induction args with
  | nil => rw [phrases, List.map_nil]
  | cons arg args ih => rw [phrases, ih, List.map_cons]

end TypeExpr

def Param.words (p : Param) : Phrase := fun lead =>
  .name lead p.name.val :: match p.annotation with
    | none => []
    | some type => .symbol .tight .colon :: type.words .space

def TypeParam.words (p : TypeParam) : Phrase := fun lead =>
  .name lead p.name.val :: match p.constraint with
    | none => []
    | some type => .symbol .space .below :: type.words .space

def TypeParam.list (params : List TypeParam) : List Word :=
  if params.isEmpty then []
  else .symbol .tight .openBracket ::
    (Phrase.commas .space (params.map TypeParam.words) .tight ++ [.symbol .tight .closeBracket])

def FieldDecl.words (f : FieldDecl) : Phrase := Phrase.labelled (.name · f.name.val) f.type.words

def VariantDecl.words (v : VariantDecl) : Phrase := fun lead =>
  .name lead v.name.val ::
    if v.fields.isEmpty then []
    else .symbol .tight .openParen ::
      (Phrase.commas .space (v.fields.map FieldDecl.words) .tight ++ [.symbol .tight .closeParen])

/-- The words between alternatives. -/
def Phrase.bar (_ : Phrase) : List Word := [.symbol .space .bar]

/-- The words of what a declaration says about the instances. -/
def TypeBody.words : TypeBody → List Word
  | .abstract | .concrete => []
  | .struct fields =>
    .symbol .space .openBrace :: (Phrase.commas .space (fields.map FieldDecl.words) .space ++
      [.symbol (if fields.isEmpty then .wide else .space) .closeBrace])
  | .variants alternatives =>
    .symbol .space .equals :: Phrase.joined Phrase.bar .space (alternatives.map VariantDecl.words) .space

def TypeDecl.parentWords (decl : TypeDecl) : List Word :=
  match decl.parent with
  | none => []
  | some parent => .symbol .space .below :: parent.words .space

def TypeDecl.words (decl : TypeDecl) : Phrase := fun lead =>
  .name lead (if decl.body matches .abstract then "abstract" else "type") :: .name .space decl.name.val ::
    (TypeParam.list decl.typeParams ++ (decl.parentWords ++ decl.body.words))

def FunctionHead.words (head : FunctionHead) : Phrase := fun lead =>
  .name lead "fn" :: .name .space head.name.val ::
    (TypeParam.list head.typeParams ++ .symbol .tight .openParen ::
      (Phrase.commas .space (head.params.map Param.words) .tight ++
        [.symbol .tight .closeParen, .symbol .space .assign]))

/-! ### Blocks and matches -/

/-- The words of the parameters of a closure with the bar after them, or nothing. -/
def Param.list (params : List Param) : List Word :=
  if params.isEmpty then []
  else Phrase.commas .space (params.map Param.words) .space ++ [.symbol .space .bar]

/-- The words that a block begins with. -/
def Param.opening (params : List Param) : Phrase := fun lead =>
  .symbol lead .openBrace :: Param.list params

namespace Layout

/-- How each statement in a block of `n` statements is set off. -/
def statementLead (layout : Layout) (n : Nat) : Lead :=
  match layout with
  | .inline => .space
  | .spread depth => if 1 < n then .line (depth + 1) else .space

/-- How the brace that closes a block of `n` statements is set off. -/
def closingLead (layout : Layout) (n : Nat) : Lead :=
  match layout with
  | .inline => .space
  | .spread depth => if 1 < n then .line depth else .space

/-- How each arm of a match is set off. -/
def armLead : Layout → Lead
  | .inline => .space
  | .spread depth => .line (depth + 1)

/-- How the brace that closes a match with `n` arms is set off. -/
def armsLead (layout : Layout) (n : Nat) : Lead :=
  if n = 0 then .wide
  else match layout with
    | .inline => .space
    | .spread depth => .line depth

end Layout

/-! ### Trees -/

/-- The name that a capture binds. -/
def Word.bound (name : Option String) : List Word := name.toList.map (Word.name .tight)

namespace Node

open Printer

mutual

/-- The words of a tree at a place that asks for the given precedence. -/
def words (layout : Layout) (asked : Nat) : Node → Phrase
  | .literal _ value => value.words
  | .ident _ name => fun lead => [.name lead name]
  | .binary _ op left right =>
    Phrase.encloseBelow asked (precedence op) fun lead =>
      words layout (operandPrecedences op).1 left lead ++
        .symbol .space op.symbol :: words layout (operandPrecedences op).2 right .space
  | .unary _ op operand =>
    Phrase.encloseBelow asked unaryPrecedence fun lead =>
      .symbol lead op.sign :: words layout (precedence .pow) operand .tight
  | .assign _ target value =>
    Phrase.encloseBelow asked 0 fun lead =>
      words layout 1 target lead ++ .symbol .space .assign :: words layout 0 value .space
  | .field _ subject member => fun lead =>
    words layout memberPrecedence subject lead ++ [.symbol .tight .dot, .name .tight member.val]
  | .call _ callee args => fun lead =>
    .name lead callee.val :: .symbol .tight .openParen ::
      (Phrase.commas .space (phrases layout args) .tight ++ [.symbol .tight .closeParen])
  | .send _ receiver method args => fun lead =>
    words layout memberPrecedence receiver lead ++
      .symbol .tight .dot :: .name .tight method.val :: .symbol .tight .openParen ::
        (Phrase.commas .space (phrases layout args) .tight ++ [.symbol .tight .closeParen])
  | .block _ params body => fun lead =>
    Param.opening params lead ++
      (Phrase.statements (layout.statementLead body.length)
        (phrases (layout.ofStatements body.length) body) (layout.statementLead body.length) ++
      [.symbol (layout.closingLead body.length) .closeBrace])
  | .cases _ scrutinee arms => fun lead =>
    .name lead "match" :: (words layout 1 scrutinee .space ++ .symbol .space .openBrace ::
      (Phrase.commas layout.armLead (armPhrases layout.deeper arms) layout.armLead ++
        [.symbol (layout.armsLead arms.length) .closeBrace]))
  | .construct _ name fields => fun lead =>
    .name lead name.val :: .symbol .space .openBrace ::
      (Phrase.commas .space (entryPhrases layout Word.name fields) .space ++ [.symbol .space .closeBrace])
  | .typeDecl _ decl => decl.words
  | .function _ head body => fun lead => head.words lead ++ words layout 1 body .space
  | .capture _ name => fun lead => .symbol lead .question :: Word.bound name
  | .refine _ name pattern => fun lead =>
    .symbol lead .question :: (Word.bound name ++ words layout 0 pattern .space)
  | .quoted _ body => fun lead => .symbol lead .hash :: words layout memberPrecedence body .tight
  | .array _ elements => fun lead =>
    .symbol lead .openBracket ::
      (Phrase.commas .space (phrases layout elements) .tight ++ [.symbol .tight .closeBracket])
  | .object _ entries => fun lead =>
    .symbol lead .openBracket ::
      ((if entries.isEmpty then [.symbol .tight .colon]
        else Phrase.commas .space (entryPhrases layout Word.key entries) .tight) ++
        [.symbol .tight .closeBracket])
  | .pair _ key value => fun lead =>
    words layout 0 key lead ++ .symbol .tight .colon :: words layout 0 value .space

/-- The words of several trees. -/
def phrases (layout : Layout) : List Node → List Phrase
  | [] => []
  | node :: nodes => words layout 0 node :: phrases layout nodes

/-- The words of match arms. -/
def armPhrases (layout : Layout) : List (Node × Node) → List Phrase
  | [] => []
  | (pattern, body) :: arms =>
    Phrase.arm (words layout 0 pattern) (words layout 0 body) :: armPhrases layout arms

/-- The words of fields or entries, with their names written by `label`. -/
def entryPhrases (layout : Layout) (label : Lead → String → Word) : List (Located String × Node) → List Phrase
  | [] => []
  | (name, value) :: entries =>
    Phrase.labelled (label · name.val) (words layout 0 value) :: entryPhrases layout label entries

end

/-- Only assignments are put in parentheses where some precedence is asked for. -/
theorem words_one {node : Node} (h : node.isAssignment = false) (layout : Layout) :
    words layout 1 node = words layout 0 node := by
  cases node with
  | assign => cases h
  | binary _ op => cases op <;> simp [words, Phrase.encloseBelow, precedence]
  | _ => simp [words, Phrase.encloseBelow, unaryPrecedence]

theorem phrases_eq_map (layout : Layout) (nodes : List Node) :
    phrases layout nodes = nodes.map (words layout 0) := by
  induction nodes with
  | nil => rw [phrases, List.map_nil]
  | cons node nodes ih => rw [phrases, ih, List.map_cons]

theorem printAll_eq_map (layout : Layout) (nodes : List Node) :
    printAll layout nodes = nodes.map (print layout 0) := by
  induction nodes with
  | nil => rw [printAll, List.map_nil]
  | cons node nodes ih => rw [printAll, ih, List.map_cons]

theorem armPhrases_eq_map (layout : Layout) (arms : List (Node × Node)) :
    armPhrases layout arms = arms.map fun a => Phrase.arm (words layout 0 a.1) (words layout 0 a.2) := by
  induction arms with
  | nil => rw [armPhrases, List.map_nil]
  | cons a arms ih => rw [armPhrases, ih, List.map_cons]

theorem printArms_eq_map (layout : Layout) (arms : List (Node × Node)) :
    printArms layout arms = arms.map fun a => print layout 0 a.1 ++ " => " ++ print layout 0 a.2 := by
  induction arms with
  | nil => rw [printArms, List.map_nil]
  | cons a arms ih => rw [printArms, ih, List.map_cons]

theorem entryPhrases_eq_map (layout : Layout) (label : Lead → String → Word)
    (entries : List (Located String × Node)) :
    entryPhrases layout label entries =
      entries.map fun e => Phrase.labelled (label · e.1.val) (words layout 0 e.2) := by
  induction entries with
  | nil => rw [entryPhrases, List.map_nil]
  | cons e entries ih => rw [entryPhrases, ih, List.map_cons]

theorem printEntries_eq_map (layout : Layout) (label : String → String) (entries : List (Located String × Node)) :
    printEntries layout label entries = entries.map fun e => label e.1.val ++ ": " ++ print layout 0 e.2 := by
  induction entries with
  | nil => rw [printEntries, List.map_nil]
  | cons e entries ih => rw [printEntries, ih, List.map_cons]

end Node

def Program.words (program : Program) : List Word :=
  Phrase.statements (.line 0) (Node.phrases (.spread 0) program) .start

/-! ## Words and texts -/

namespace Phrase

/-- Whether the words of a phrase, written down, are a text after the blanks. -/
def Spells (p : Phrase) (text : String) : Prop :=
  ∀ lead, render (p lead) = lead.chars ++ text.toList

theorem Spells.enclosed {p : Phrase} {text : String} (h : p.Spells text) :
    p.enclosed.Spells ("(" ++ text ++ ")") := by
  intro lead
  simp [Phrase.enclosed, Word.symbol, Symbol.text, h .tight, Lead.chars]

theorem Spells.encloseBelow {p : Phrase} {text : String} (h : p.Spells text) (asked own : Nat) :
    (p.encloseBelow asked own).Spells (Printer.encloseBelow asked own text) := by
  unfold Phrase.encloseBelow Printer.encloseBelow
  split
  · exact h.enclosed
  · exact h

theorem opensContinuation_eq {p : Phrase} {text : String} (h : p.Spells text) :
    p.opensContinuation = Printer.opensContinuation text := by
  have hr : render (p .tight) = text.toList := h .tight
  rw [Phrase.opensContinuation, hr, String.ofList_toList]

end Phrase

/-! ### Captures -/

theorem Word.render_bound (name : Option String) : render (Word.bound name) = (name.getD "").toList := by
  cases name <;> simp [Word.bound, Word.name, Lead.chars]

/-- The words of a capture with a pattern are its text, if those of the pattern are. -/
theorem Node.spells_refine {layout : Layout} {span : Span} {name : Option String} {pattern : Node} (asked : Nat)
    (h : (pattern.words layout 0).Spells (pattern.print layout 0)) :
    ((refine span name pattern).words layout asked).Spells ((refine span name pattern).print layout asked) := by
  intro lead
  simp [words, print, h .space, Word.render_bound, Word.symbol, Symbol.text, Lead.chars]

/-! ### Lists -/

namespace Phrase

abbrev SpellAll (ps : List Phrase) (texts : List String) : Prop := List.Forall₂ Spells ps texts

theorem SpellAll.map {α : Type} {f : α → Phrase} {g : α → String} {xs : List α}
    (h : ∀ x ∈ xs, (f x).Spells (g x)) : SpellAll (xs.map f) (xs.map g) := by
  induction xs with
  | nil => exact .nil
  | cons x xs ih =>
    exact .cons (h x (List.mem_cons_self ..)) (ih fun y hy => h y (List.mem_cons_of_mem _ hy))

theorem toList_intercalate_cons (separator t : String) (ts : List String) :
    (separator.intercalate (t :: ts)).toList =
      t.toList ++ ts.flatMap fun u => separator.toList ++ u.toList := by
  induction ts generalizing t with
  | nil => simp
  | cons u us ih => rw [String.intercalate_cons_cons, String.toList_append, ih]; simp

theorem render_tail {separator : Word} {between : Phrase → List Word} {later : Lead}
    {ps : List Phrase} {texts : List String} (h : SpellAll ps texts)
    (hb : ∀ p, between p = [separator]) :
    render (tail between later ps) =
      texts.flatMap fun t => separator.lead.chars ++ separator.text ++ later.chars ++ t.toList := by
  induction h with
  | nil => rfl
  | cons hp _ ih => simp [tail, ih, hp later, hb]

/-- Things with the same separator everywhere between them. -/
theorem render_joined {separator : Word} {between : Phrase → List Word} {later : Lead}
    {ps : List Phrase} {texts : List String} (text : String) (h : SpellAll ps texts)
    (hb : ∀ p, between p = [separator])
    (ht : text.toList = separator.lead.chars ++ separator.text ++ later.chars) (lead : Lead)
    (hne : ps.isEmpty = false) :
    render (joined between later ps lead) = lead.chars ++ (text.intercalate texts).toList := by
  cases h with
  | nil => simp at hne
  | cons hp hps =>
    rw [toList_intercalate_cons, joined, render_append, hp lead, render_tail hps hb, ht,
      List.append_assoc]

theorem render_commas {ps : List Phrase} {texts : List String} (h : SpellAll ps texts) :
    render (commas .space ps .tight) = (Printer.commas texts).toList := by
  cases h with
  | nil => rfl
  | cons hp hps =>
    exact render_joined ", " (.cons hp hps) (fun _ => rfl) (by simp [Word.symbol, Symbol.text, Lead.chars])
      .tight rfl

theorem render_commas_space {ps : List Phrase} {texts : List String} (h : SpellAll ps texts)
    (hne : ps.isEmpty = false) :
    render (commas .space ps .space) = ' ' :: (Printer.commas texts).toList :=
  render_joined ", " h (fun _ => rfl) rfl .space hne

theorem render_statements_space {ps : List Phrase} {texts : List String} (h : SpellAll ps texts)
    (hne : texts ≠ []) :
    render (statements .space ps .space) = ' ' :: ("; ".intercalate texts).toList := by
  cases h with
  | nil => exact absurd rfl hne
  | cons hp hps =>
    exact render_joined "; " (.cons hp hps) (fun _ => rfl) (by simp [Word.symbol, Symbol.text, Lead.chars])
      .space rfl

/-- Statements on lines of their own, after the beginning of the first one. -/
theorem toList_statementLines {ps : List Phrase} {texts : List String} (depth : Nat)
    (h : SpellAll ps texts) (text : String) :
    (Printer.statementLines (Layout.spread depth).margin (text :: texts)).toList =
      (Layout.spread depth).margin.toList ++ (text.toList ++
        (render (tail (semicolon (.line depth)) (.line depth) ps) ++ ['\n'])) := by
  induction h generalizing text with
  | nil => simp [Printer.statementLines, tail]
  | @cons p next ps texts hp h ih =>
    rw [Printer.statementLines, tail, semicolon, opensContinuation_eq hp]
    cases Printer.opensContinuation next <;>
      simp [ih next, hp (.line depth), Lead.chars, Lead.breaks, Word.symbol, Symbol.text]

theorem render_statements_line {ps : List Phrase} {texts : List String} (depth : Nat)
    (h : SpellAll ps texts) (hne : texts ≠ []) :
    render (statements (.line depth) ps (.line depth)) ++ ['\n'] =
      '\n' :: (Printer.statementLines (Layout.spread depth).margin texts).toList := by
  cases h with
  | nil => exact absurd rfl hne
  | cons hp h =>
    rw [toList_statementLines depth h, statements, joined, render_append, hp (.line depth)]
    simp [Lead.chars]

end Phrase

open Phrase

/-! ### Types and declarations -/

namespace TypeExpr

mutual

theorem spells_words (type : TypeExpr) : type.words.Spells type.text := by
  intro lead
  cases type with
  | named _ name => simp [words, text, Word.name]
  | applied _ name args =>
    have hr : render (commas .space (phrases args) .tight) = (", ".intercalate (texts args)).toList :=
      render_commas (spellAll_phrases args)
    simp [words, text, hr, Word.name, Word.symbol, Symbol.text, Lead.chars]
termination_by structural type

theorem spellAll_phrases (args : List TypeExpr) : SpellAll (phrases args) (texts args) := by
  cases args with
  | nil => exact .nil
  | cons arg args => exact .cons (spells_words arg) (spellAll_phrases args)
termination_by structural args

end

end TypeExpr

theorem Phrase.Spells.labelled {label : Lead → Word} {p : Phrase} {name text : String}
    (hl : ∀ lead, render [label lead] = lead.chars ++ name.toList) (h : p.Spells text) :
    (Phrase.labelled label p).Spells (name ++ ": " ++ text) := by
  intro lead
  have hl := hl lead
  simp only [render_cons, render_nil, List.append_nil] at hl
  rw [Phrase.labelled, render_cons, ← List.append_assoc, hl]
  simp [h .space, Word.symbol, Symbol.text, Lead.chars]

theorem Phrase.Spells.arm {p q : Phrase} {text text' : String} (h : p.Spells text) (h' : q.Spells text') :
    (Phrase.arm p q).Spells (text ++ " => " ++ text') := by
  intro lead
  simp [Phrase.arm, h lead, h' .space, Word.symbol, Symbol.text, Lead.chars]

theorem Param.spells_words (p : Param) : p.words.Spells (Printer.param p) := by
  intro lead
  rw [words, Printer.param]
  cases p.annotation with
  | none => simp [Word.name]
  | some type => simp [type.spells_words .space, Word.name, Word.symbol, Symbol.text, Lead.chars]

theorem TypeParam.spells_words (p : TypeParam) : p.words.Spells (Printer.typeParam p) := by
  intro lead
  rw [words, Printer.typeParam]
  cases p.constraint with
  | none => simp [Word.name]
  | some type => simp [type.spells_words .space, Word.name, Word.symbol, Symbol.text, Lead.chars]

theorem TypeParam.render_list (params : List TypeParam) :
    render (TypeParam.list params) = (Printer.typeParams params).toList := by
  have hs := SpellAll.map fun p (_ : p ∈ params) => spells_words p
  unfold TypeParam.list Printer.typeParams
  split
  · rfl
  · simp [render_commas hs, Word.symbol, Symbol.text, Lead.chars]

theorem FieldDecl.spells_words (f : FieldDecl) : f.words.Spells (Printer.fieldDecl f) :=
  .labelled (fun lead => by simp [Word.name]) f.type.spells_words

theorem VariantDecl.spells_words (v : VariantDecl) : v.words.Spells (Printer.variantDecl v) := by
  intro lead
  have hs := SpellAll.map fun f (_ : f ∈ v.fields) => f.spells_words
  rw [words, Printer.variantDecl]
  split
  · simp [Word.name]
  · simp [render_commas hs, Word.name, Word.symbol, Symbol.text, Lead.chars]

theorem TypeBody.render_words (body : TypeBody) (h : ∀ alternatives, body = .variants alternatives → alternatives ≠ []) :
    render body.words = (Printer.typeBody body).toList := by
  cases body with
  | abstract | concrete => rfl
  | struct fields =>
    have hs := SpellAll.map fun f (_ : f ∈ fields) => f.spells_words
    rw [words, Printer.typeBody]
    cases fields with
    | nil => rfl
    | cons f fields =>
      rw [render_cons, render_append, render_commas_space hs rfl]
      simp [Word.symbol, Symbol.text, Lead.chars]
  | variants alternatives =>
    have hs := SpellAll.map fun v (_ : v ∈ alternatives) => v.spells_words
    have hr : render (joined bar .space (alternatives.map VariantDecl.words) .space) = _ :=
      render_joined " | " hs (fun _ => rfl) rfl .space (by simpa using h alternatives rfl)
    simp [words, Printer.typeBody, hr, Word.symbol, Symbol.text, Lead.chars]

theorem TypeDecl.spells_words (decl : TypeDecl) (h : decl.Lexical) :
    decl.words.Spells (Printer.typeDeclText decl) := by
  intro lead
  have hb := decl.body.render_words fun alternatives heq => by
    have hl := h.body
    rw [heq] at hl
    exact hl.1
  rw [words, Printer.typeDeclText, parentWords]
  cases decl.parent with
  | none =>
    cases hd : decl.body <;> simp [hd ▸ hb, TypeParam.render_list, Word.name, Lead.chars]
  | some parent =>
    cases hd : decl.body <;>
      simp [hd ▸ hb, TypeParam.render_list, parent.spells_words .space, Word.name, Word.symbol, Symbol.text,
        Lead.chars]

theorem FunctionHead.spells_words (head : FunctionHead) (lead : Lead) (ws : List Word) (text : String)
    (h : render ws = ' ' :: text.toList) :
    render (head.words lead ++ ws) = lead.chars ++ (Printer.functionHead head ++ text).toList := by
  have hs := SpellAll.map fun p (_ : p ∈ head.params) => p.spells_words
  simp [words, Printer.functionHead, TypeParam.render_list, render_commas hs, h, Word.name, Word.symbol,
    Symbol.text, Lead.chars]

/-! ### Blocks and matches -/

theorem Param.spells_opening (params : List Param) :
    (Param.opening params).Spells (Printer.blockOpening params) := by
  intro lead
  have hs := SpellAll.map fun p (_ : p ∈ params) => p.spells_words
  unfold Param.opening Param.list Printer.blockOpening
  split
  · simp [Word.symbol, Symbol.text]
  · next hne =>
    rw [render_cons, render_append, render_commas_space hs (by simpa using hne)]
    simp [Word.symbol, Symbol.text, Lead.chars]

/-- The words of a block are its text, if the words of its statements are theirs. -/
theorem spells_block (layout : Layout) (params : List Param) {ps : List Phrase} {texts : List String}
    (h : SpellAll ps texts) (lead : Lead) :
    render (Param.opening params lead ++
        (statements (layout.statementLead texts.length) ps (layout.statementLead texts.length) ++
          [.symbol (layout.closingLead texts.length) .closeBrace])) =
      lead.chars ++ (Printer.blockText layout params texts).toList := by
  rw [render_append, Param.spells_opening params lead, Printer.blockText]
  by_cases hb : layout.breaks texts.length = true
  · obtain ⟨depth, rfl⟩ : ∃ depth, layout = .spread depth := by
      cases layout with
      | inline => cases hb
      | spread depth => exact ⟨depth, rfl⟩
    have hn : 1 < texts.length := of_decide_eq_true hb
    have hr := render_statements_line (depth + 1) h (by rintro rfl; exact absurd hn (by decide))
    rw [if_pos hb, Layout.statementLead, Layout.closingLead, if_pos hn, if_pos hn, render_append]
    calc (lead.chars ++ (Printer.blockOpening params).toList) ++
          (render (statements (.line (depth + 1)) ps (.line (depth + 1))) ++
            render [.symbol (.line depth) .closeBrace])
        = (lead.chars ++ (Printer.blockOpening params).toList) ++
          ((render (statements (.line (depth + 1)) ps (.line (depth + 1))) ++ ['\n']) ++
            ((Layout.spread depth).margin.toList ++ ['}'])) := by
          simp [Word.symbol, Symbol.text, Lead.chars]
      _ = _ := by
          rw [hr]
          simp [Layout.deeper]
  · have hs : layout.statementLead texts.length = .space ∧
        layout.closingLead texts.length = .space := by
      cases layout with
      | inline => exact ⟨rfl, rfl⟩
      | spread depth =>
        have hn : ¬ 1 < texts.length := by simpa [Layout.breaks] using hb
        exact ⟨if_neg hn, if_neg hn⟩
    rw [if_neg hb, hs.1, hs.2, render_append]
    by_cases hne : texts = []
    · subst hne
      cases h
      simp [statements, joined, Word.symbol, Symbol.text, Lead.chars]
    · rw [render_statements_space h hne, if_neg (by simpa using hne)]
      simp [Word.symbol, Symbol.text, Lead.chars]

/-- The words of the arms of a match are their text. -/
theorem render_arms (layout : Layout) {ps : List Phrase} {texts : List String} (h : SpellAll ps texts) :
    render (.symbol .space .openBrace :: (commas layout.armLead ps layout.armLead ++
      [.symbol (layout.armsLead ps.length) .closeBrace])) = (Printer.armsText layout texts).toList := by
  cases h with
  | nil => cases layout <;> simp [commas, joined, Printer.armsText, Printer.commas, Layout.armsLead, Word.symbol,
      Symbol.text, Lead.chars]
  | @cons p t ps texts hp hps =>
    cases layout with
    | inline =>
      rw [render_cons, render_append, show Layout.inline.armLead = .space from rfl,
        render_commas_space (.cons hp hps) rfl]
      simp [Printer.armsText, Layout.armsLead, Word.symbol, Symbol.text, Lead.chars]
    | spread depth =>
      have hr : render (commas (.line (depth + 1)) (p :: ps) (.line (depth + 1))) = _ :=
        render_joined (",\n" ++ (Layout.spread (depth + 1)).margin) (.cons hp hps) (fun _ => rfl)
          (by simp [Word.symbol, Symbol.text, Lead.chars]) (.line (depth + 1)) rfl
      have ht : (Printer.armsText (.spread depth) (t :: texts)).toList =
          " \x7b\n".toList ++ ((",\n".intercalate ((t :: texts).map ((Layout.spread (depth + 1)).margin ++ ·))).toList ++
            ("\n".toList ++ ((Layout.spread depth).margin.toList ++ ['}']))) := by
        simp only [Printer.armsText, Layout.deeper, String.toList_append, List.append_assoc]
        rfl
      rw [render_cons, render_append, show (Layout.spread depth).armLead = .line (depth + 1) from rfl, hr, ht,
        List.map_cons, toList_intercalate_cons, toList_intercalate_cons]
      simp [Layout.armsLead, List.flatMap_map, Word.symbol, Symbol.text, Lead.chars]

/-! ### Literals -/

theorem Int64.toInt_neg_of_nonneg {value : Int64} (h : 0 ≤ -value) (hn : value < 0) : (-value).toInt = -value.toInt := by
  have hlow := Int64.le_toInt value
  have hneg : value.toInt < 0 := Int64.lt_iff_toInt_lt.mp hn
  have hnonneg : 0 ≤ (-value).toInt := Int64.le_iff_toInt_le.mp h
  rw [Int64.toInt_neg] at hnonneg ⊢
  by_cases hmin : value.toInt = -2 ^ 63
  · rw [hmin] at hnonneg
    exact absurd hnonneg (by decide)
  · exact Int.bmod_eq_of_le (by omega) (by omega)

theorem Decimal.intText_neg {n : Int} (h : n < 0) : intText n = "-" ++ intText (-n) := by
  obtain ⟨m, rfl⟩ := Int.eq_negSucc_of_lt_zero h
  rfl

namespace Literal

open Printer

theorem spells_float (x : Float) : (words (.float x)).Spells (floatLiteral x) := by
  intro lead
  rw [words, Phrase.number.eq_def]
  split
  · next digits h => simp [h, Word.float, Word.symbol, Symbol.text, Lead.chars]
  · simp [Word.float]

/-- The words of a finite number that its text is read as: a sign perhaps, and digits with a point between them. -/
theorem Restored.words_float {x : Float} (h : Restored (.float x)) :
    ∃ whole fraction, Decimal.IsRun whole ∧ Decimal.IsRun fraction ∧
      ((words (.float x) = fun lead => [.float lead (whole ++ '.' :: fraction)]) ∧ x = Decimal.ofDigits whole fraction ∨
        ¬Number.Signless x ∧ (words (.float x) = fun lead =>
          [.symbol lead .minus, .float .tight (whole ++ '.' :: fraction)]) ∧ x = -Decimal.ofDigits whole fraction) := by
  obtain ⟨negative, whole, fraction, htext, hw, hf, hx, hs⟩ := exists_floatLiteral h.1 h.2
  refine ⟨whole, fraction, hw, hf, ?_⟩
  cases negative with
  | true =>
    refine .inr ⟨fun hu => Bool.noConfusion (hs hu), funext fun lead => ?_, hx⟩
    rw [words, htext]
    rfl
  | false =>
    refine .inl ⟨funext fun lead => ?_, hx⟩
    rw [words, htext, Decimal.signText, if_neg Bool.false_ne_true, List.nil_append, Phrase.number.eq_def]
    split
    · next digits hd =>
      obtain ⟨d, ds, rfl⟩ := List.exists_cons_of_ne_nil hw.1
      have hminus := hw.2 d List.mem_cons_self
      rw [(List.cons.inj hd).1] at hminus
      cases hminus
    · rfl

/-- A literal without a sign is never put in parentheses. -/
theorem Unsigned.spells_words {value : Literal} (h : value.Unsigned) (asked : Nat) :
    value.words.Spells (literalText asked value) := by
  cases value with
  | int value =>
    intro lead
    rw [words, literalText, if_neg (Int64.not_lt.2 h), if_neg (Int64.not_lt.2 h)]
    simp [Word.int]
  | float x =>
    rw [literalText, if_neg (Number.Signless.not_lt_zero h)]
    exact spells_float x
  | string value =>
    intro lead
    simp [words, Word.string, literalText]
  | bool value =>
    intro lead
    cases value <;> simp [words, Word.name, literalText]

/-- Where no precedence is asked for no literal is put in parentheses. -/
theorem Signed.spells_words {value : Literal} (h : value.Signed) : value.words.Spells (literalText 0 value) := by
  cases value with
  | int value =>
    obtain h | h := h
    · exact (show (Literal.int value).Unsigned from h).spells_words 0
    · intro lead
      rw [words, literalText]
      split
      · next hn =>
        rw [Printer.encloseBelow, if_neg (by decide), Decimal.intText_neg (Int64.lt_iff_toInt_lt.mp hn)]
        rw [← Int64.toInt_neg_of_nonneg h hn]
        simp [Word.int, Word.symbol, Symbol.text, Lead.chars, -Int64.toInt_neg]
      · simp [Word.int]
  | float x =>
    rw [literalText]
    split <;> exact spells_float x
  | string value => exact (show (Literal.string value).Unsigned from trivial).spells_words 0
  | bool value => exact (show (Literal.bool value).Unsigned from trivial).spells_words 0

end Literal

/-! ### Trees -/

theorem BinaryOp.text_symbol (op : BinaryOp) : op.symbol.text = op.text := by cases op <;> rfl

theorem UnaryOp.text_sign (op : UnaryOp) : op.sign.text = op.text := by cases op <;> rfl

theorem Word.render_key (lead : Lead) (text : String) :
    render [Word.key lead text] = lead.chars ++ (Printer.key text).toList := by
  rw [Word.key, Printer.key]
  split <;> simp [Word.name, Word.string]

namespace Node

open Printer

theorem spells_construct {layout : Layout} {span : Span} {name : Located String}
    {fields : List (Located String × Node)} (asked : Nat) (hne : fields ≠ [])
    (h : ∀ field ∈ fields, (field.2.words layout 0).Spells (field.2.print layout 0)) :
    ((construct span name fields).words layout asked).Spells ((construct span name fields).print layout asked) := by
  intro lead
  have hl (f : Located String × Node) (lead : Lead) :
      render [Word.name lead f.1.val] = lead.chars ++ f.1.val.toList := by simp [Word.name]
  have hs := SpellAll.map fun f hf => Spells.labelled (hl f) (h f hf)
  rw [words, print, entryPhrases_eq_map, printEntries_eq_map, render_cons, render_cons, render_append,
    render_commas_space hs (by simpa using hne)]
  simp [Word.name, Word.symbol, Symbol.text, Lead.chars]

/-- The words of a pattern, written down, are its text. -/
theorem PrintablePattern.spells_words {e : Node} (h : e.PrintablePattern) (layout : Layout) :
    (e.words layout 0).Spells (e.print layout 0) := by
  induction h with
  | literal signed _ =>
    rw [words, print]
    exact signed.spells_words
  | ident =>
    intro lead
    simp [words, print, Word.name]
  | capture =>
    intro lead
    simp [words, print, Word.render_bound, Word.symbol, Symbol.text, Lead.chars]
  | refine _ _ _ ih => exact spells_refine 0 ih
  | construct _ nonempty _ _ ih => exact spells_construct 0 nonempty ih

/-- The words of a printable tree, written down, are its text. -/
theorem Printable.spells_words {e : Node} (h : e.Printable) (layout : Layout) (asked : Nat) :
    (e.words layout asked).Spells (e.print layout asked) := by
  induction h generalizing layout asked with
  | literal unsigned _ =>
    rw [words, print]
    exact unsigned.spells_words asked
  | ident =>
    intro lead
    simp [words, print, Word.name]
  | binary _ _ _ ihl ihr =>
    rw [words, print]
    refine Spells.encloseBelow (fun lead => ?_) _ _
    simp [ihl layout _ lead, ihr layout _ .space, Word.symbol, Lead.chars, BinaryOp.text_symbol,
      operandPrecedences]
  | unary _ _ ih =>
    rw [words, print]
    refine Spells.encloseBelow (fun lead => ?_) _ _
    simp [ih layout _ .tight, Word.symbol, Lead.chars, UnaryOp.text_sign]
  | assign _ _ _ iht ihv =>
    rw [words, print]
    refine Spells.encloseBelow (fun lead => ?_) _ _
    simp [iht layout 1 lead, ihv layout 0 .space, Word.symbol, Lead.chars, Symbol.text]
  | field _ _ _ ih =>
    intro lead
    simp [words, print, ih layout _ lead, Word.symbol, Word.name, Lead.chars, Symbol.text]
  | call _ _ _ iha =>
    intro lead
    have hs := SpellAll.map fun a ha => iha a ha layout 0
    simp [words, print, phrases_eq_map, printAll_eq_map, render_commas hs, Word.symbol, Word.name,
      Lead.chars, Symbol.text]
  | send _ _ _ _ ih iha =>
    intro lead
    have hs := SpellAll.map fun a ha => iha a ha layout 0
    simp [words, print, phrases_eq_map, printAll_eq_map, ih layout _ lead, render_commas hs,
      Word.symbol, Word.name, Lead.chars, Symbol.text]
  | @block span params body _ _ _ ihb =>
    intro lead
    have hs := SpellAll.map fun s hs => ihb s hs (layout.ofStatements body.length) 0
    have hb := spells_block layout params hs lead
    rw [List.length_map] at hb
    rw [words, print, phrases_eq_map, printAll_eq_map, hb]
  | @cases span scrutinee arms _ _ hp _ ihs iha =>
    intro lead
    have hs := SpellAll.map fun a ha => ((hp a ha).spells_words layout.deeper).arm (iha a ha layout.deeper 0)
    have hr := render_arms layout hs
    rw [List.length_map] at hr
    rw [words, print, armPhrases_eq_map, printArms_eq_map, render_cons, render_append, hr, ihs layout 1 .space]
    simp [Word.name, Lead.chars]
  | construct _ _ nonempty _ _ ihf => exact spells_construct asked nonempty fun f hf => ihf f hf layout 0
  | typeDecl lexical =>
    rw [words, print]
    exact TypeDecl.spells_words _ lexical
  | function _ _ _ ih =>
    intro lead
    rw [words, print]
    exact FunctionHead.spells_words _ lead _ _ (ih layout 1 .space)
  | capture printable =>
    intro lead
    simp [words, print, Word.render_bound, Word.symbol, Symbol.text, Lead.chars]
  | refine printable =>
    cases printable with
    | refine _ _ h => exact spells_refine asked (h.spells_words layout)
  | quoted _ _ ih =>
    intro lead
    simp [words, print, ih layout _ .tight, Word.symbol, Symbol.text, Lead.chars]
  | array _ _ ihe =>
    intro lead
    have hs := SpellAll.map fun e he => ihe e he layout 0
    simp [words, print, phrases_eq_map, printAll_eq_map, render_commas hs, Word.symbol, Lead.chars,
      Symbol.text]
  | @object span entries _ _ ihe =>
    intro lead
    have hs := SpellAll.map fun e he => Spells.labelled (fun lead => Word.render_key lead e.1.val) (ihe e he layout 0)
    rw [words, print, entryPhrases_eq_map, printEntries_eq_map]
    split
    · simp [Word.symbol, Symbol.text, Lead.chars]
    · rw [render_cons, render_append, render_commas hs]
      simp [Word.symbol, Symbol.text, Lead.chars]
  | pair _ _ _ ihk ihv =>
    intro lead
    simp [words, print, ihk layout 0 lead, ihv layout 0 .space, Word.symbol, Symbol.text, Lead.chars]

end Node

/-- The text of a printable program ends with a line break, unless it is empty. -/
theorem Program.text_eq {program : Program} (h : ∀ e ∈ program, e.Printable) :
    program.text.toList = render program.words ++ if program.isEmpty then [] else ['\n'] := by
  rw [Program.text, Program.words, Node.phrases_eq_map, Node.printAll_eq_map]
  cases program with
  | nil => rfl
  | cons e es =>
    have hs := SpellAll.map fun s hs => (h s (List.mem_cons_of_mem e hs)).spells_words (.spread 0) 0
    have hl := toList_statementLines 0 hs (e.print (.spread 0) 0)
    have he := (h e (List.mem_cons_self ..)).spells_words (.spread 0) 0 .start
    rw [show (Layout.spread 0).margin = "" from rfl] at hl
    rw [List.map_cons, List.map_cons, hl, statements, joined, render_append, he]
    simp [Lead.chars]

end DispatchLang
