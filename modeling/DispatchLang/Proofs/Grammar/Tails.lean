import DispatchLang.Proofs.Grammar.Joining
import Mathlib.Data.List.TakeWhile

/-!
# Scanning a text before different ends

A text is put before two others, on the same line: before `:=` and a value, and before `=>` and the rest of a match. The
lexemes of the text are the same in both, up to the point where the two differ.

It is not quite true that the pieces of the text are the same. A quote, two slashes or a hash sign may swallow what comes
after the text, and they do so in both cases if the ends hold neither quotes nor line feeds. A piece therefore either
lies in the text, or takes up everything that is left.

## Main definitions

* `Lexeme.Alongside`: lexemes that are alike up to a point where no pattern goes on.
* `Token.Tail`: what a text may be put before.

## Main results

* `Token.scanFrom_alongside`: the lexemes of a text before two ends.
-/

namespace DispatchLang

/-! ## Lexemes up to the end of a pattern -/

/-- The tokens that stand in no pattern and that may come after one: `=>`, `:=`, and the end of the text. -/
def Token.followsPattern : Token → Bool
  | .symbol .arrow | .symbol .assign | .eof => true
  | _ => false

namespace Lexeme

/-- Lexemes that are alike up to a point where no pattern goes on in either of the two lists. -/
inductive Alongside : List Lexeme → List Lexeme → Prop where
  /-- The point where they differ. -/
  | edge {l l' : Lexeme} {ls ls' : List Lexeme} (stop : l.token.followsPattern = true)
    (stop' : l'.token.followsPattern = true) : Alongside (l :: ls) (l' :: ls')
  /-- A word before it. -/
  | word {l l' : Lexeme} {ls ls' : List Lexeme} (like : l.Like l') (rest : Alongside ls ls') :
    Alongside (l :: ls) (l' :: ls')

/-- The same, but for how the first lexemes are set off from what is before them. -/
inductive Abreast : List Lexeme → List Lexeme → Prop where
  /-- The point where they differ. -/
  | edge {l l' : Lexeme} {ls ls' : List Lexeme} (stop : l.token.followsPattern = true)
    (stop' : l'.token.followsPattern = true) : Abreast (l :: ls) (l' :: ls')
  /-- A word before it. -/
  | word {l l' : Lexeme} {ls ls' : List Lexeme} (token : l.token = l'.token) (rest : Alongside ls ls') :
    Abreast (l :: ls) (l' :: ls')

end Lexeme

namespace Token

/-! ## Pieces before a tail -/

/-- What a text is put before on the same line: it begins with a space and holds nothing that could end a string, escape a
character or end a line, and its first token stands in no pattern. -/
structure Tail (ds : List Char) : Prop where
  begins : ds.head? = some ' '
  plain : ∀ d ∈ ds, d ≠ '"' ∧ d ≠ '\\' ∧ d ≠ '\n'
  stops : ∀ p gap, ∃ l ls, scanFrom p gap ds = l :: ls ∧ l.token.followsPattern = true

theorem Tail.exists_cons {ds : List Char} (h : Tail ds) : ∃ es, ds = ' ' :: es :=
  ⟨ds.tail, (List.cons_head?_tail h.begins).symm⟩

/-- What is read at the front of a text before a tail: either it ends in the text and is the same for all tails, or nothing
is found and everything is taken. -/
def Settles {α : Type} (f : List Char → Option α × Nat) (cs : List Char) : Prop :=
  (∃ a n, n ≤ cs.length ∧ ∀ ds, Tail ds → f (cs ++ ds) = (a, n)) ∨
    ∀ ds, Tail ds → f (cs ++ ds) = (none, (cs ++ ds).length)

section Settles

variable {α β : Type} {f : List Char → Option α × Nat} {g : List Char → Option β × Nat} {cs : List Char}

theorem Settles.of_eq {a : Option α} {n : Nat} (hn : n ≤ cs.length) (h : ∀ ds, Tail ds → f (cs ++ ds) = (a, n)) :
    Settles f cs := .inl ⟨a, n, hn, h⟩

theorem Settles.congr {f' : List Char → Option α × Nat} (h : Settles f cs)
    (hf : ∀ ds, Tail ds → f' (cs ++ ds) = f (cs ++ ds)) : Settles f' cs := by
  rcases h with ⟨a, n, hn, h⟩ | h
  · exact .of_eq hn fun ds hds => (hf ds hds).trans (h ds hds)
  · exact .inr fun ds hds => (hf ds hds).trans (h ds hds)

/-- More characters are read as well, and what is found of the rest is made into something. -/
theorem Settles.map (h : Settles f cs) (ws : List Char) (step : α → β)
    (hg : ∀ ds, Tail ds → g (ws ++ cs ++ ds) = ((f (cs ++ ds)).1.map step, (f (cs ++ ds)).2 + ws.length)) :
    Settles g (ws ++ cs) := by
  rcases h with ⟨a, n, hn, h⟩ | h
  · refine .inl ⟨a.map step, n + ws.length, ?_, fun ds hds => ?_⟩
    · rw [List.length_append]
      omega
    · rw [hg ds hds, h ds hds]
  · refine .inr fun ds hds => ?_
    have hlength : (cs ++ ds).length + ws.length = (ws ++ (cs ++ ds)).length := by
      rw [ws.length_append, Nat.add_comm]
    rw [hg ds hds, h ds hds, List.append_assoc, ← hlength]
    rfl

end Settles

section

variable (c : Char) (cs : List Char)

/-- Where there is no quote, no string ends. -/
theorem stringBody_plain {ds : List Char} (h : ∀ d ∈ ds, d ≠ '"' ∧ d ≠ '\\') : stringBody ds = (none, ds.length) := by
  induction ds with
  | nil => rfl
  | cons d ds ih =>
    obtain ⟨⟨hq, hb⟩, hds⟩ := List.forall_mem_cons.1 h
    rw [stringBody_cons hq hb, ih hds]
    rfl

theorem settles_stringBody : Settles stringBody cs := by
  induction cs using stringBody.induct with
  | case1 => exact .inr fun ds hds => stringBody_plain fun d hd => ⟨(hds.plain d hd).1, (hds.plain d hd).2.1⟩
  | case2 cs => exact .of_eq (by simp) fun ds _ => rfl
  | case3 =>
    refine .inr fun ds hds => ?_
    obtain ⟨es, rfl⟩ := hds.exists_cons
    have hes := stringBody_plain fun d hd =>
      ⟨(hds.plain d (List.mem_cons_of_mem _ hd)).1, (hds.plain d (List.mem_cons_of_mem _ hd)).2.1⟩
    show stringBody ('\\' :: ' ' :: es) = _
    rw [stringBody, if_neg (by decide), hes]
    rfl
  | case4 cs =>
    refine .of_eq (a := none) (n := 1) (by simp) fun ds _ => ?_
    rw [List.cons_append, List.cons_append, stringBody, if_pos rfl]
  | case5 e cs he body n hb ih =>
    refine ih.map ['\\', e] (fun inside => '\\' :: e :: inside) fun ds _ => ?_
    show stringBody ('\\' :: e :: (cs ++ ds)) = _
    rw [stringBody, if_neg he]
    rfl
  | case6 c cs hq hnil hcons body n hb ih =>
    have hc : c ≠ '\\' := by
      rintro rfl
      cases cs with
      | nil => exact hnil rfl rfl
      | cons e cs => exact hcons e cs rfl rfl
    exact ih.map [c] (fun inside => c :: inside) fun ds _ => stringBody_cons hq hc (cs ++ ds)

/-- No three quotes are found after a text in which there are none. -/
theorem beforeTripleQuote?_tail {ds : List Char} (hds : Tail ds) (h : beforeTripleQuote? cs = none) :
    beforeTripleQuote? (cs ++ ds) = none := by
  have hplain (es : List Char) (hes : ∀ e ∈ es, e ≠ '"') : beforeTripleQuote? es = none := by
    induction es with
    | nil => rfl
    | cons e es ih =>
      obtain ⟨he, hes⟩ := List.forall_mem_cons.1 hes
      rw [beforeTripleQuote?, ih hes]
      · rfl
      · exact fun _ heq _ => he heq
  induction cs using beforeTripleQuote?.induct with
  | case1 => exact hplain ds fun d hd => (hds.plain d hd).1
  | case2 cs => cases h
  | case3 c cs hc ih =>
    rw [beforeTripleQuote?] at h
    · rw [List.cons_append, beforeTripleQuote?, ih (Option.map_eq_none_iff.1 h)]
      · rfl
      · -- three quotes that reach into the tail would have one there
        rintro rest rfl hrest
        obtain ⟨es, rfl⟩ := hds.exists_cons
        obtain ⟨tail, rfl⟩ := exists_tail_of_notMem ['"', '"'] hrest (by simp)
        exact hc tail rfl rfl
    · exact hc

theorem settles_stringPiece : Settles stringPiece cs := by
  by_cases hlong : ∃ rest, cs = '"' :: '"' :: rest
  · obtain ⟨rest, rfl⟩ := hlong
    cases hr : beforeTripleQuote? rest with
    | none =>
      refine .of_eq (a := none) (n := 2) (by simp) fun ds hds => ?_
      show stringPiece ('"' :: '"' :: (rest ++ ds)) = _
      rw [stringPiece, beforeTripleQuote?_tail rest hds hr]
    | some inside =>
      have hlength := beforeTripleQuote?_length hr
      refine .of_eq (a := some (.string (String.ofList (Escape.decode inside)))) (n := inside.length + 5) ?_ fun ds _ => ?_
      · simp only [List.length_cons]
        omega
      · show stringPiece ('"' :: '"' :: (rest ++ ds)) = _
        rw [stringPiece, beforeTripleQuote?_before ds hr]
  · refine (settles_stringBody cs).map [] (fun inside => .string (String.ofList (Escape.decode inside)))
      fun ds hds => ?_
    obtain ⟨es, rfl⟩ := hds.exists_cons
    rw [List.nil_append, stringPiece.eq_2]
    · rfl
    · intro rest hrest
      exact hlong (exists_tail_of_notMem ['"', '"'] hrest (by simp))

/-- A comment ends with the line, or else nothing is left after it. -/
theorem settles_comment : Settles (fun cs => ((none : Option Token), lineRest cs)) cs := by
  by_cases hn : '\n' ∈ cs
  · obtain ⟨as, bs, rfl⟩ := List.append_of_mem hn
    refine .of_eq (a := none) (n := lineRest as) ?_ fun ds _ => ?_
    · exact ((List.takeWhile_prefix _).length_le).trans (by simp)
    · rw [List.append_assoc, List.cons_append, lineRest, lineRest, takeWhile_before _ as _ (by simp)]
  · refine .inr fun ds hds => ?_
    have hall : ∀ d ∈ cs ++ ds, decide (d ≠ '\n') = true := by
      rw [List.forall_mem_append]
      exact ⟨fun d hd => decide_eq_true fun heq => hn (heq ▸ hd), fun d hd => decide_eq_true (hds.plain d hd).2.2⟩
    dsimp only
    rw [lineRest, List.takeWhile_eq_self_iff.2 hall]

/-- Every piece of a text either lies in it or takes up everything after it. -/
theorem settles_piece : Settles (piece c) cs := by
  have hhead {ds : List Char} (hds : Tail ds) {d : Char} (hd : d ≠ ' ') :
      (cs ++ ds).head? = some d ↔ cs.head? = some d := by
    obtain ⟨es, rfl⟩ := hds.exists_cons
    cases cs with
    | nil => simpa using hd.symm
    | cons e cs => rfl
  by_cases hquote : c = '"'
  · subst hquote
    exact (settles_stringPiece cs).congr fun ds _ => rfl
  by_cases hslashes : c = '/' ∧ cs.head? = some '/'
  · obtain ⟨rfl, hcs⟩ := hslashes
    refine (settles_comment cs).congr fun ds hds => ?_
    simp [piece, isBlank, isWordStart, (hhead hds (d := '/') (by decide)).2 hcs]
  by_cases hhash : c = '#' ∧ ∀ d ∈ cs.head?, d = ' ' ∨ d = '\t'
  · obtain ⟨rfl, hcs⟩ := hhash
    refine (settles_comment cs).congr fun ds hds => ?_
    have hblank : (decide ((cs ++ ds).head? = some ' ') || decide ((cs ++ ds).head? = some '\t')) = true := by
      cases cs with
      | nil => simp [hds.begins]
      | cons d cs => simpa using hcs d rfl
    show (if (true && (decide ((cs ++ ds).head? = some ' ') || decide ((cs ++ ds).head? = some '\t'))) = true then _
      else _) = _
    rw [hblank]
    rfl
  · -- all other pieces end before a space
    refine .of_eq (a := (piece c cs).1) (piece_length c cs) fun ds hds => ?_
    have hslash : (decide (c = '/') && decide (cs.head? = some '/')) = false := by simpa using hslashes
    have hblank : (decide (c = '#') && (decide (cs.head? = some ' ') || decide (cs.head? = some '\t'))) = false := by
      refine eq_false_of_ne_true fun h => hhash ?_
      simp only [Bool.and_eq_true, Bool.or_eq_true, decide_eq_true_eq] at h
      refine ⟨h.1, fun d hd => h.2.imp (fun h => ?_) fun h => ?_⟩
      all_goals exact Option.some.inj (hd.symm.trans h)
    have hblank' : (decide (c = '#') && (decide ((cs ++ ds).head? = some ' ') ||
        decide ((cs ++ ds).head? = some '\t'))) = false := by
      cases cs with
      | nil =>
        have hc : c ≠ '#' := fun hc => hhash ⟨hc, fun d hd => by cases hd⟩
        simp [hc]
      | cons d cs => exact hblank
    have hdouble : Symbol.double? c ' ' = none := by
      unfold Symbol.double?
      split <;> first | rfl | contradiction
    obtain ⟨es, rfl⟩ := hds.exists_cons
    show piece c (cs ++ ' ' :: es) = piece c cs
    unfold piece
    simp only [hhead hds (d := '/') (by decide), hslash, hblank, hblank', if_neg hquote,
      Bool.false_eq_true, if_false,
      numberPiece_before c cs es (e := ' ') rfl (by decide), symbolPiece_before c cs es hdouble,
      takeWhile_before ' ' cs es (p := isWordRest) rfl]

end

/-! ## Lexemes before two tails -/

/-- The lexemes of a text before two tails: alike up to where the tails begin, but for how the first of them is set off from
what is before the text. -/
theorem scanFrom_alongside {ds es : List Char} (hds : Tail ds) (hes : Tail es) (p p' : Place) (gap gap' : Gap)
    (cs : List Char) : Lexeme.Abreast (scanFrom p gap (cs ++ ds)) (scanFrom p' gap' (cs ++ es)) ∧
      (gap = gap' → Lexeme.Alongside (scanFrom p gap (cs ++ ds)) (scanFrom p' gap' (cs ++ es))) := by
  induction hn : cs.length using Nat.strong_induction_on generalizing p p' gap gap' cs with
  | _ n ih =>
    subst hn
    cases cs with
    | nil =>
      obtain ⟨l, ls, hl, hstop⟩ := hds.stops p gap
      obtain ⟨l', ls', hl', hstop'⟩ := hes.stops p' gap'
      rw [List.nil_append, List.nil_append, hl, hl']
      exact ⟨.edge hstop hstop', fun _ => .edge hstop hstop'⟩
    | cons c cs =>
      rw [List.cons_append, List.cons_append, scanFrom, scanFrom]
      rcases settles_piece c cs with ⟨token, n, hn, hpiece⟩ | hpiece
      · rw [hpiece ds hds, hpiece es hes]
        dsimp only
        rw [List.drop_append_of_le_length hn, List.drop_append_of_le_length hn, List.take_append_of_le_length hn,
          List.take_append_of_le_length hn]
        have hlt : (cs.drop n).length < (c :: cs).length := by
          rw [List.length_drop, List.length_cons]
          omega
        have hrest (q q' : Place) (gap gap' : Gap) := ih _ hlt q q' gap gap' (cs.drop n) rfl
        cases token with
        | some token =>
          refine ⟨.word rfl ((hrest _ _ _ _).2 rfl), ?_⟩
          rintro rfl
          exact .word ⟨rfl, rfl, rfl⟩ ((hrest _ _ _ _).2 rfl)
        | none =>
          refine ⟨(hrest _ _ _ _).1, ?_⟩
          rintro rfl
          exact (hrest _ _ _ _).2 rfl
      · rw [hpiece ds hds, hpiece es hes]
        dsimp only
        rw [List.drop_length, List.drop_length, scanFrom, scanFrom]
        exact ⟨.edge rfl rfl, fun _ => .edge rfl rfl⟩

end Token

end DispatchLang
