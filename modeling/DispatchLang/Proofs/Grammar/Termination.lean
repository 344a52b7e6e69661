import DispatchLang.Proofs.Grammar.FollowingForms

/-!
# Reading comes to an end

No call of the grammar runs on: from every state within a text, whatever its flags, it has an outcome as soon as
it is given more rounds than there are words left, and more rounds change nothing of its answer. It has not gone past
the end of the text then, and the flags are those from before, whether it accepts or not. A call that accepts an
expression, a pattern, a block, a match, a declaration or a type has taken something, and one that accepts a program
stands at the end.

## Main definitions

* `Machine.Call`: the calls of the grammar.

## Main results

* `Text.reading_ends`: every call comes to an end, and programs are read as they are parsed.
-/

namespace DispatchLang

open Machine (State)

/-! ## All calls -/

/-- The calls of the grammar, and what they answer. -/
inductive Machine.Call : Type → Type
  /-- A program. -/
  | program : Call Program
  /-- The end of a statement. -/
  | statementEnd (inBlock : Bool) : Call Unit
  /-- An expression that stands alone or in brackets. -/
  | nested (least : Nat) : Call Node
  /-- An expression. -/
  | expression (least : Nat) : Call Node
  /-- What an expression begins with. -/
  | primary : Call Node
  /-- What may follow a name. -/
  | afterName (head : Located String) : Call Node
  /-- Arguments. -/
  | arguments : Call (List Node × Span)
  /-- The fields of a construction. -/
  | fields : Call (List (Located String × Node) × Span)
  /-- An array or an object. -/
  | list : Call Node
  /-- A block or a closure. -/
  | block : Call Node
  /-- The parameters of a closure and the bar after them. -/
  | closureParams : Call (List Param)
  /-- A match. -/
  | cases : Call Node
  /-- A pattern. -/
  | pattern : Call Node
  /-- A capture. -/
  | capture : Call Node
  /-- The fields of a construction in a pattern. -/
  | patternFields : Call (List (Located String × Node) × Span)
  /-- A function declaration. -/
  | function : Call Node
  /-- A type declaration. -/
  | typeDecl : Call Node
  /-- A declaration of an abstract type. -/
  | abstractDecl : Call Node
  /-- A type. -/
  | typeExpr : Call TypeExpr
  /-- A parameter. -/
  | param : Call Param
  /-- Type parameters, which may be missing. -/
  | typeParams : Call (List TypeParam)
  /-- A parent type, which may be missing. -/
  | parent : Call (Option TypeExpr)
  /-- An alternative. -/
  | variantDecl : Call VariantDecl
  /-- Fields of a declaration, of which there may be none. -/
  | fieldDecls (close : Symbol) : Call (List FieldDecl)

namespace Machine.Call

variable {α : Type}

def run (n : Nat) : Call α → Machine α
  | program => Machine.program n
  | statementEnd inBlock => Machine.statementEnd inBlock
  | nested least => Machine.nested (Machine.expression n least)
  | expression least => Machine.expression n least
  | primary => Machine.primary (Machine.expression n) n
  | afterName head => Machine.afterName (Machine.expression n) n head
  | arguments => Machine.arguments (Machine.expression n) n
  | fields => Machine.constructFields (Machine.nested (Machine.expression n 0)) n
  | list => Machine.list (Machine.expression n) n
  | block => Machine.block (Machine.expression n) n
  | closureParams => Machine.closureParams n
  | cases => Machine.cases (Machine.expression n) n
  | pattern => Machine.pattern n
  | capture => Machine.capture n
  | patternFields => Machine.constructFields (Machine.pattern n) n
  | function => Machine.function (Machine.expression n) n
  | typeDecl => Machine.typeDecl n
  | abstractDecl => Machine.abstractDecl n
  | typeExpr => Machine.typeExpr n
  | param => Machine.param n
  | typeParams => Machine.typeParams n
  | parent => Machine.typeAfter .below n
  | variantDecl => Machine.variantDecl n
  | fieldDecls close => Machine.lines close (Machine.fieldDecl n) n

def reader (n : Nat) (ctx : Grammar.Context) : Call α → Reader α
  | program => Grammar.program n
  | statementEnd inBlock => Grammar.statementEnd inBlock
  | nested least => Grammar.expression n .nested least
  | expression least => Grammar.expression n ctx least
  | primary => Grammar.primary (Grammar.expression n) n ctx
  | afterName head => Grammar.afterName (Grammar.expression n) n ctx head
  | arguments => Grammar.arguments (Grammar.expression n) n
  | fields => Grammar.constructFields (Grammar.expression n .nested 0) n
  | list => Grammar.list (Grammar.expression n) n
  | block => Grammar.block (Grammar.expression n) n
  | closureParams => Grammar.closureParams n
  | cases => Grammar.cases (Grammar.expression n) n
  | pattern => Grammar.pattern n
  | capture => Grammar.capture n
  | patternFields => Grammar.constructFields (Grammar.pattern n) n
  | function => Grammar.function (Grammar.expression n) n
  | typeDecl => Grammar.typeDecl n
  | abstractDecl => Grammar.abstractDecl n
  | typeExpr => Grammar.typeExpr n
  | param => Grammar.param n
  | typeParams => Grammar.typeParams n
  | parent => Grammar.typeAfter .below n
  | variantDecl => Grammar.variantDecl n
  | fieldDecls close => Reader.lines close (Grammar.fieldDecl n) n

/-- How far a call comes that accepts: a program to the end, what may be missing or empty anywhere, and everything else
past where it began. -/
def Comes (stop i j : Nat) : Call α → Prop
  | program => i ≤ j ∧ j = stop
  | statementEnd _ | afterName _ | typeParams | parent | fieldDecls _ => i ≤ j
  | _ => i < j

end Machine.Call

namespace Text

open Text.Follows

variable {text : Text} {α : Type} {s : State} {c : Cursor} {n m : Nat}

theorem follows_call (call : Machine.Call α) (hn : text.words.length < s.position + n)
    (hm : text.words.length < s.position + m) :
    text.Follows s c (call.run n) (call.reader m s.flags.context)
      fun _ i => call.Comes text.words.length s.position i := by
  have he := expressions hn hm
  cases call with
  | program => exact follows_program hn hm
  | statementEnd inBlock => exact follows_statementEnd inBlock
  | nested least =>
    exact .within (follows_expression (s := ⟨s.position, ⟨false, false⟩⟩) hn hm least)
  | expression least => exact follows_expression hn hm least
  | primary => exact follows_primary he hn hm
  | afterName head => exact follows_afterName he hn hm head
  | arguments => exact follows_arguments he hn hm
  | fields => exact follows_constructFields (fun t c ht => he.nested ht) hn hm
  | list => exact follows_list he hn hm
  | block => exact follows_block he hn hm
  | closureParams => exact follows_closureParams hn hm
  | cases => exact follows_cases he hn hm
  | pattern => exact follows_pattern hn hm
  | capture => exact follows_capture hn hm
  | patternFields => exact follows_constructFields (fun t c ht => follows_pattern (by omega) (by omega)) hn hm
  | function => exact follows_function he hn hm
  | typeDecl => exact follows_typeDecl hn hm
  | abstractDecl => exact follows_abstractDecl hn hm
  | typeExpr => exact follows_typeExpr hn hm
  | param => exact follows_param hn hm
  | typeParams => exact follows_typeParams hn hm
  | parent => exact follows_typeAfter hn hm
  | variantDecl => exact follows_variantDecl hn hm
  | fieldDecls close => exact follows_fieldDecls hn hm

/-- Where there is a lexeme a cursor can stand. -/
theorem exists_standsAt {i : Nat} (hi : i ≤ text.words.length) : ∃ c, text.StandsAt c i := by
  have hlt : i < text.lexemes.length := by
    rw [length_lexemes]
    exact Nat.lt_succ_of_le hi
  exact ⟨⟨Machine.spanBefore text.lexemes i, text.lexemes[i], text.lexemes.drop (i + 1)⟩,
    List.drop_eq_getElem_cons hlt, rfl⟩

theorem run_call (call : Machine.Call α) (hs : s.position ≤ text.words.length) :
    ∃ answer : Except SyntaxError α, ∀ n, text.words.length < s.position + n →
      ∃ t, call.run n text.lexemes s = some (answer, t) ∧ t.flags = s.flags ∧
        t.position ≤ text.words.length ∧
        ∀ a, answer = .ok a → call.Comes text.words.length s.position t.position := by
  obtain ⟨c, hc⟩ := exists_standsAt hs
  -- any number of rounds will do for the reader, so the answer is the same for all machines
  have hfollows (n : Nat) (hn : text.words.length < s.position + n) := follows_call call hn
    (show text.words.length < s.position + (text.words.length + 1) by omega) hc
  generalize call.reader (text.words.length + 1) s.flags.context c = x at hfollows
  rcases x with e | ⟨a, c'⟩
  · refine ⟨.error e, fun n hn => ?_⟩
    have h := hfollows n hn
    generalize call.run n text.lexemes s = y at h ⊢
    cases h with
    | refused inside flags cause => exact ⟨_, rfl, flags, inside, nofun⟩
  · refine ⟨.ok a, fun n hn => ?_⟩
    have h := hfollows n hn
    generalize call.run n text.lexemes s = y at h ⊢
    cases h with
    | accepted stands flags answer => exact ⟨_, rfl, flags, stands.le, fun _ _ => answer⟩

/-- A program is parsed as the machine reads it from the beginning, and never refused because the rounds ran out. -/
theorem run_program (hn : text.words.length < n) :
    ∃ t, Machine.program n text.lexemes .start = some (Grammar.parse text.lexemes, t) ∧
      ∀ span, Grammar.parse text.lexemes ≠ .error ⟨.outOfRounds, span⟩ := by
  have hm : text.words.length < State.start.position + (text.lexemes.length + 1) := by
    rw [length_lexemes]
    omega
  have h := follows_program (s := .start) (hn.trans_eq (Nat.zero_add n).symm) hm StandsAt.start
  have hparse : Grammar.parse text.lexemes =
      (Grammar.program (text.lexemes.length + 1) (.start text.lexemes) >>= fun x => Except.ok x.1) := rfl
  rw [hparse]
  generalize Grammar.program (text.lexemes.length + 1) (.start text.lexemes) = x at h ⊢
  generalize Machine.program n text.lexemes .start = y at h ⊢
  cases h with
  | accepted stands flags answer => exact ⟨_, rfl, fun _ => nofun⟩
  | refused inside flags cause =>
    refine ⟨_, rfl, fun span hspan => ?_⟩
    cases hspan
    exact cause rfl

/-- Reading comes to an end. From every state within a text every call of the grammar has an answer, the same for every
number of rounds that is larger than that of the words left. It leaves the flags as they were and does not go past the
end, whether it accepts or not, and where it accepts it comes as far as calls of its kind do. A program is parsed
as it is read from the beginning: it is accepted only at the end of the text, and never refused because the rounds ran
out. -/
theorem reading_ends (text : Text) :
    (∀ {α : Type} (call : Machine.Call α) (s : State), s.position ≤ text.words.length →
      ∃ answer : Except SyntaxError α, ∀ n, text.words.length < s.position + n →
        ∃ t, call.run n text.lexemes s = some (answer, t) ∧ t.flags = s.flags ∧
          t.position ≤ text.words.length ∧
          ∀ a, answer = .ok a → call.Comes text.words.length s.position t.position) ∧
    ∀ n, text.words.length < n →
      ∃ t, Machine.program n text.lexemes .start = some (Grammar.parse text.lexemes, t) ∧
        t.flags = State.start.flags ∧ t.position ≤ text.words.length ∧
        (∀ program, Grammar.parse text.lexemes = .ok program → t.position = text.words.length) ∧
        ∀ span, Grammar.parse text.lexemes ≠ .error ⟨.outOfRounds, span⟩ := by
  refine ⟨fun call s hs => run_call call hs, fun n hn => ?_⟩
  obtain ⟨t, hrun, hrounds⟩ := run_program hn
  obtain ⟨answer, hanswer⟩ := run_call (s := .start) Machine.Call.program (Nat.zero_le _)
  obtain ⟨t', hrun', hflags, hinside, hcomes⟩ := hanswer n (hn.trans_eq (Nat.zero_add n).symm)
  obtain ⟨rfl, rfl⟩ : answer = Grammar.parse text.lexemes ∧ t' = t :=
    Prod.mk.inj (Option.some.inj (hrun'.symm.trans hrun))
  exact ⟨t', hrun, hflags, hinside, fun program hprogram => (hcomes program hprogram).2, hrounds⟩

/-- A block without its closing brace, and the end of the text inside of it. -/
def unclosed : Text where
  words := [⟨.symbol .openBrace, .nowhere, false, false⟩, ⟨.ident "a", .nowhere, false, false⟩]
  stop := ⟨.eof, .nowhere, false, false⟩
  word := by simp
  stops := rfl

/-- Three rounds are enough for such a block, with flags that no text begins with, and for such a text. -/
theorem reading_unclosed :
    (∃ answer t, Machine.Call.block.run 3 unclosed.lexemes ⟨0, ⟨true, true⟩⟩ = some (answer, t) ∧
      t.flags = ⟨true, true⟩ ∧ t.position ≤ 2) ∧
    ∃ t, Machine.program 3 unclosed.lexemes .start = some (Grammar.parse unclosed.lexemes, t) ∧ t.position ≤ 2 := by
  obtain ⟨hcall, hprogram⟩ := reading_ends unclosed
  obtain ⟨answer, hanswer⟩ := hcall .block ⟨0, ⟨true, true⟩⟩ (by decide)
  obtain ⟨t, hrun, hflags, hinside, -⟩ := hanswer 3 (by decide)
  obtain ⟨t', hrun', -, hinside', -⟩ := hprogram 3 (by decide)
  exact ⟨⟨answer, t, hrun, hflags, hinside⟩, t', hrun', hinside'⟩

end Text

end DispatchLang
