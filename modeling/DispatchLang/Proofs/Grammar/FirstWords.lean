import DispatchLang.Proofs.Grammar.Words

/-!
# First words

What a tree begins with decides how the words before it are scanned and read: whether they may touch it, and
whether a line that it begins goes on with the line before. A tree begins with a number, a string, a name, a reserved
word, an opening bracket or a sign, the same one wherever it stands. So does everything else that stands in lists.

## Main results

* `Node.Printable.words_opens`: what the first word of a tree can be.
-/

namespace DispatchLang

open Phrase

theorem Token.ofWord_of_isName {text : String} (h : Printer.isName text) :
    ofWord text = .ident text := by
  simp only [Printer.isName, Bool.and_eq_true, Option.isNone_iff_eq_none] at h
  rw [ofWord, h.2]

/-- The reserved words that can begin a tree. -/
def Keyword.openers : List String := ["true", "false", "type", "abstract", "fn", "match"]

/-- The symbols that can begin a tree. -/
def Symbol.openers : List Symbol := [.openParen, .openBracket, .openBrace, .minus, .bang, .hash, .question]

/-- The words that can begin a tree. -/
inductive Word.Opens : Word → Prop where
  /-- An integer. -/
  | int {lead : Lead} {value : Int64} (nonneg : 0 ≤ value) : Opens (.int lead value)
  /-- A number with a decimal point. -/
  | float {lead : Lead} {whole fraction : List Char} (whole_run : Decimal.IsRun whole)
    (fraction_run : Decimal.IsRun fraction) : Opens (.float lead (whole ++ '.' :: fraction))
  /-- A string. -/
  | string {lead : Lead} {text : String} : Opens (.string lead text)
  /-- A name, or a reserved word that begins an expression. -/
  | name {lead : Lead} {text : String} (isName : Printer.isName text ∨ text ∈ Keyword.openers) : Opens (.name lead text)
  /-- An opening bracket or a sign. -/
  | symbol {lead : Lead} {s : Symbol} (opening : s ∈ Symbol.openers) : Opens (.symbol lead s)

theorem Word.Opens.set_lead {w : Word} (h : w.Opens) (lead : Lead) :
    Opens { w with lead := lead } := by
  cases h with
  | int nonneg => exact .int nonneg
  | float whole_run fraction_run => exact .float whole_run fraction_run
  | string => exact .string
  | name isName => exact .name isName
  | symbol opening => exact .symbol opening

namespace Phrase

/-- Whether a phrase begins with a word that can begin a tree, set off as asked for. -/
def Opens (p : Phrase) : Prop :=
  ∃ w : Word, w.Opens ∧ ∀ lead, ∃ ws, p lead = { w with lead := lead } :: ws

namespace Opens

variable {p : Phrase}

theorem head (h : p.Opens) (lead : Lead) : ∃ w ws, p lead = w :: ws ∧ w.lead = lead ∧ w.Opens := by
  obtain ⟨w, hw, hp⟩ := h
  obtain ⟨ws, hp⟩ := hp lead
  exact ⟨_, ws, hp, rfl, hw.set_lead lead⟩

theorem length_pos (h : p.Opens) (lead : Lead) : 0 < (p lead).length := by
  obtain ⟨w, ws, hp, -⟩ := h.head lead
  rw [hp]
  exact Nat.zero_lt_succ _

theorem exists_succ (h : p.Opens) {lead : Lead} {ws : List Word} {n : Nat} (hn : (p lead ++ ws).length ≤ n) :
    ∃ m, n = m + 1 := by
  have hpos := h.length_pos lead
  rw [List.length_append] at hn
  exact ⟨n - 1, by omega⟩

theorem append (h : p.Opens) (rest : List Word) : Opens fun lead => p lead ++ rest := by
  obtain ⟨w, hw, hp⟩ := h
  refine ⟨w, hw, fun lead => ?_⟩
  obtain ⟨ws, hp⟩ := hp lead
  exact ⟨ws ++ rest, congrArg (· ++ rest) hp⟩

theorem name {text : String} (h : Printer.isName text ∨ text ∈ Keyword.openers) (ws : Lead → List Word) :
    Opens fun lead => .name lead text :: ws lead :=
  ⟨.name .tight text, .name h, fun lead => ⟨ws lead, rfl⟩⟩

theorem symbol {s : Symbol} (h : s ∈ Symbol.openers) (ws : Lead → List Word) :
    Opens fun lead => .symbol lead s :: ws lead :=
  ⟨.symbol .tight s, .symbol h, fun lead => ⟨ws lead, rfl⟩⟩

theorem encloseBelow (h : p.Opens) (asked own : Nat) : (p.encloseBelow asked own).Opens := by
  unfold Phrase.encloseBelow
  split
  · exact Opens.symbol (by decide) _
  · exact h

theorem arm {q : Phrase} (h : p.Opens) : (p.arm q).Opens := h.append _

theorem labelled {text : String} (h : Printer.isName text) : (p.labelled (.name · text)).Opens :=
  Opens.name (.inl h) _

theorem key (text : String) : (p.labelled (.key · text)).Opens := by
  unfold Phrase.labelled Word.key
  split
  · next h => exact Opens.name (.inl h) _
  · exact ⟨.string .tight text, .string, fun lead => ⟨_, rfl⟩⟩

end Opens

end Phrase

/-! ## What stands in declarations -/

theorem TypeExpr.Lexical.words_opens {type : TypeExpr} (h : type.Lexical) : type.words.Opens := by
  cases h with
  | named isName | applied isName =>
    rw [words]
    exact Opens.name (.inl isName) _

theorem Param.Lexical.words_opens {p : Param} (h : p.Lexical) : p.words.Opens := Opens.name (.inl h.isName) _

theorem TypeParam.Lexical.words_opens {p : TypeParam} (h : p.Lexical) : p.words.Opens := Opens.name (.inl h.isName) _

theorem FieldDecl.Lexical.words_opens {f : FieldDecl} (h : f.Lexical) : f.words.Opens := Opens.labelled h.isName

theorem VariantDecl.Lexical.words_opens {v : VariantDecl} (h : v.Lexical) : v.words.Opens :=
  Opens.name (.inl h.isName) _

/-! ## Trees -/

/-- A literal begins with a number, a string, a reserved word or the sign of a number. -/
theorem Literal.words_opens {value : Literal} (h : value.Signed) (hr : value.Restored) : value.words.Opens := by
  cases value with
  | int value =>
    by_cases hn : value < 0
    · exact ⟨.symbol .tight .minus, .symbol (by decide), fun lead => ⟨_, if_pos hn⟩⟩
    · exact ⟨.int .tight value, .int (Int64.not_lt.1 hn), fun lead => ⟨[], if_neg hn⟩⟩
  | float x =>
    obtain ⟨whole, fraction, hw, hf, ⟨hwords, -⟩ | ⟨-, hwords, -⟩⟩ := hr.words_float
    · rw [hwords]
      exact ⟨.float .tight _, .float hw hf, fun lead => ⟨[], rfl⟩⟩
    · rw [hwords]
      exact Opens.symbol (by decide) _
  | string text => exact ⟨.string .tight text, .string, fun lead => ⟨[], rfl⟩⟩
  | bool value =>
    cases value
    · exact @Opens.name "false" (.inr (by decide)) _
    · exact @Opens.name "true" (.inr (by decide)) _

/-- A pattern begins with a word that can begin a tree. -/
theorem Node.PrintablePattern.words_opens {e : Node} (h : e.PrintablePattern) (layout : Layout) (asked : Nat) :
    (e.words layout asked).Opens := by
  cases h with
  | literal signed restored =>
    rw [words]
    exact Literal.words_opens signed restored
  | ident isName | construct isName =>
    rw [words]
    exact Opens.name (.inl isName) _
  | capture | refine =>
    rw [words]
    exact Opens.symbol (by decide) _

/-- A tree begins with a word that can begin a tree. -/
theorem Node.Printable.words_opens {e : Node} (h : e.Printable) (layout : Layout) (asked : Nat) :
    (e.words layout asked).Opens := by
  induction h generalizing asked with
  | literal unsigned restored =>
    rw [words]
    exact Literal.words_opens unsigned.signed restored
  | ident isName =>
    rw [words]
    exact Opens.name (.inl isName) _
  | binary _ _ _ ihl _ =>
    rw [words]
    exact ((ihl _).append _).encloseBelow _ _
  | @unary span op operand _ _ _ =>
    rw [words]
    exact Opens.encloseBelow (Opens.symbol (by cases op <;> decide) _) _ _
  | assign _ _ _ iht _ =>
    rw [words]
    exact ((iht _).append _).encloseBelow _ _
  | field _ _ _ ih =>
    rw [words]
    exact (ih _).append _
  | call _ isCallee _ _ =>
    rw [words]
    exact Opens.name (isCallee.imp_right fun h => by rw [h]; decide) _
  | send _ _ _ _ ih _ =>
    rw [words]
    exact (ih _).append _
  | block | array | object | quoted =>
    rw [words]
    exact Opens.symbol (by decide) _
  | cases | function =>
    rw [words]
    exact Opens.name (.inr (by decide)) _
  | construct _ isName =>
    rw [words]
    exact Opens.name (.inl isName) _
  | typeDecl =>
    rw [words]
    exact Opens.name (.inr (by split <;> decide)) _
  | capture printable | refine printable => exact printable.words_opens layout asked
  | pair _ _ _ ihk _ =>
    rw [words]
    exact (ihk _).append _

end DispatchLang
