import DispatchLang.Eval.Fault
import DispatchLang.Text.Template

/-!
# The grammar of templates

A template is a sequence of *parts*: characters that are no braces, doubled braces, and placeholders. `fill` reads
it with one character of lookahead and decides at every brace which part begins there. It never has to go back: an
opening brace that another one follows is half of a doubled brace, because no placeholder begins with a brace, and
what opens otherwise goes on to the next closing brace, because no placeholder has one inside.

So `fill` takes one written part after another (`fill_part`), and whatever it accepts is made of parts
(`exists_parts`). The placeholders hang together only by the count of the empty ones, which is passed on from each
part to the next. `Part.index?` says it without passing anything on: an empty placeholder takes the argument whose
index is the number of empty placeholders before it.

## Main definitions

* `Template.Part`: the parts of templates, with the way they are written and what is put in their place.
* `Template.Consists`: whether a template consists of given parts.

## Main results

* `Template.fill_parts`: filling a template is filling its parts, and then what comes after them.
* `Template.format_grammar`: which templates can be filled, and with what result.
-/

namespace DispatchLang.Template

/-! ## Inside a placeholder -/

section Inside

variable {args : List String} {n : Nat} {c : Char} {cs ds spec : List Char}

theorem fill_close : fill args (some spec) n ('}' :: cs) = (do
    let (arg, n) ← select args n spec.reverse
    return arg.toList ++ (← fill args none n cs)) := rfl

theorem fill_inside (h : c ≠ '}') : fill args (some spec) n (c :: cs) = fill args (some (c :: spec)) n cs := by
  rw [fill]
  exact h

/-- An open placeholder goes on to the next closing brace. -/
theorem fill_spec (h : '}' ∉ ds) : fill args (some spec) n (ds ++ '}' :: cs) = (do
    let (arg, n) ← select args n (spec.reverse ++ ds)
    return arg.toList ++ (← fill args none n cs)) := by
  induction ds generalizing spec with
  | nil => rw [List.nil_append, fill_close, List.append_nil]
  | cons d ds ih =>
    simp only [List.mem_cons, not_or] at h
    rw [List.cons_append, fill_inside (Ne.symm h.1), ih h.2]
    simp

end Inside

/-! ## Parts -/

/-- Whether a text is the decimal form of an index, with or without a plus sign. -/
inductive IsIndex : List Char → Nat → Prop where
  | plain {digits : List Char} (nonempty : digits ≠ []) (decimal : ∀ d ∈ digits, d.isDigit = true) :
      IsIndex digits (Decimal.digitsValue digits)
  | signed {digits : List Char} (nonempty : digits ≠ []) (decimal : ∀ d ∈ digits, d.isDigit = true) :
      IsIndex ('+' :: digits) (Decimal.digitsValue digits)

inductive Part where
  /-- A character that stands for itself. -/
  | char (c : Char)
  /-- A doubled opening brace. -/
  | openBrace
  /-- A doubled closing brace. -/
  | closeBrace
  /-- A placeholder for the next argument. -/
  | next (spec : List Char)
  /-- A placeholder for the argument with an index. -/
  | item (spec : List Char) (index : Nat)

namespace Part

def written : Part → List Char
  | char c => [c]
  | openBrace => ['{', '{']
  | closeBrace => ['}', '}']
  | next spec => '{' :: (spec ++ ['}'])
  | item spec _ => '{' :: (spec ++ ['}'])

/-- Whether a text can stand in a placeholder. -/
def IsSpec (spec : List Char) : Prop := spec.head? ≠ some '{' ∧ '}' ∉ spec

def WellFormed : Part → Prop
  | char c => c ≠ '{' ∧ c ≠ '}'
  | openBrace | closeBrace => True
  | next spec => IsSpec spec ∧ Text.trimChars spec = []
  | item spec index => IsSpec spec ∧ IsIndex (Text.trimChars spec) index

def isNext : Part → Bool
  | next _ => true
  | _ => false

def index? (before : List Part) : Part → Option Nat
  | next _ => some (before.countP isNext)
  | item _ index => some index
  | _ => none

/-- What is put in the place of a part. -/
def shown (args : List String) (before : List Part) : Part → List Char
  | char c => [c]
  | openBrace => ['{']
  | closeBrace => ['}']
  | next _ => (args.getD (before.countP isNext) "").toList
  | item _ index => (args.getD index "").toList

end Part

/-- Whether a template consists of the given parts. -/
structure Consists (template : String) (parts : List Part) : Prop where
  /-- The parts are what they say. -/
  wellFormed : ∀ p ∈ parts, p.WellFormed
  /-- Written one after the other they are the template. -/
  written : parts.flatMap Part.written = template.toList

/-- Whether every placeholder takes one of the arguments that there are, when `before` are the parts before. -/
def InRange (args : List String) (before parts : List Part) : Prop :=
  ∀ i (p : Part), parts[i]? = some p → ∀ index, p.index? (before ++ parts.take i) = some index → index < args.length

/-- What is put in the place of each of some parts, when `before` are the parts before them. -/
def shownAll (args : List String) (before parts : List Part) : List Char :=
  (parts.mapIdx fun i p => p.shown args (before ++ parts.take i)).flatten

/-! ## Single parts -/

section Steps

variable {args : List String} {n : Nat} {c : Char} {cs spec : List Char}

/-- A text that begins with a plus sign is no run of digits. -/
theorem not_forall_isDigit (digits : List Char) : ¬∀ d ∈ '+' :: digits, d.isDigit = true := by
  intro h
  exact absurd (h '+' List.mem_cons_self) (by decide)

/-- The decimal forms of indices are what the reader takes for them, up to the largest index there is. -/
theorem index?_eq_some_iff {index : Nat} :
    index? spec = some index ↔ IsIndex spec index ∧ index < indexLimit := by
  unfold index?
  split
  · next digits =>
    simp only [Bool.and_eq_true, Bool.not_eq_true', List.isEmpty_eq_false_iff, List.all_eq_true, decide_eq_true_eq,
      Option.ite_none_right_eq_some, Option.some.injEq]
    constructor
    · rintro ⟨⟨⟨hne, hd⟩, hlt⟩, rfl⟩
      exact ⟨.signed hne hd, hlt⟩
    · rintro ⟨h, hlt⟩
      cases h with
      | plain _ hd => exact absurd hd (not_forall_isDigit digits)
      | signed hne hd => exact ⟨⟨⟨hne, hd⟩, hlt⟩, rfl⟩
  · next hsign =>
    simp only [Bool.and_eq_true, Bool.not_eq_true', List.isEmpty_eq_false_iff, List.all_eq_true, decide_eq_true_eq,
      Option.ite_none_right_eq_some, Option.some.injEq]
    constructor
    · rintro ⟨⟨⟨hne, hd⟩, hlt⟩, rfl⟩
      exact ⟨.plain hne hd, hlt⟩
    · rintro ⟨h, hlt⟩
      cases h with
      | plain hne hd => exact ⟨⟨⟨hne, hd⟩, hlt⟩, rfl⟩
      | signed _ _ => exact absurd rfl (hsign _)

theorem IsIndex.ne_nil {index : Nat} (h : IsIndex spec index) : spec ≠ [] := by
  cases h with
  | plain nonempty _ => exact nonempty
  | signed _ _ => exact List.cons_ne_nil _ _

theorem IsIndex.unique {index index' : Nat} (h : IsIndex spec index) (h' : IsIndex spec index') : index = index' := by
  cases h with
  | plain _ decimal =>
    cases h' with
    | plain _ _ => rfl
    | signed _ _ => exact absurd decimal (not_forall_isDigit _)
  | signed _ _ =>
    cases h' with
    | plain _ decimal => exact absurd decimal (not_forall_isDigit _)
    | signed _ _ => rfl

theorem fill_nil : fill args none n [] = .ok [] := rfl

theorem fill_openBrace : fill args none n ('{' :: '{' :: cs) = (do return '{' :: (← fill args none n cs)) := rfl

theorem fill_closeBrace : fill args none n ('}' :: '}' :: cs) = (do return '}' :: (← fill args none n cs)) := rfl

theorem fill_open (h : ∀ rest, cs ≠ '{' :: rest) : fill args none n ('{' :: cs) = fill args (some []) n cs := by
  rw [fill]
  exact h

theorem fill_unmatched (h : ∀ rest, cs ≠ '}' :: rest) : fill args none n ('}' :: cs) = .error .unmatched := by
  rw [fill]
  exact h

theorem fill_char (h : c ≠ '{' ∧ c ≠ '}') :
    fill args none n (c :: cs) = (do return c :: (← fill args none n cs)) := by
  rw [fill]
  all_goals simp_all

/-- A placeholder is read to its end. -/
theorem fill_placeholder (h : Part.IsSpec spec) : fill args none n ('{' :: (spec ++ ['}']) ++ cs) = (do
    let (arg, n) ← select args n spec
    return arg.toList ++ (← fill args none n cs)) := by
  rw [List.cons_append, List.append_assoc, List.singleton_append]
  rw [fill_open, fill_spec h.2]
  · simp
  · -- it does not begin with a second brace
    intro rest hrest
    cases spec with
    | nil => exact absurd (List.cons.inj hrest).1 (by decide)
    | cons d ds => exact h.1 (congrArg some (List.cons.inj hrest).1)

theorem fill_placeholder_only (h : Part.IsSpec spec) :
    fill args none n ('{' :: (spec ++ ['}'])) = (select args n spec).map (·.1.toList) := by
  rw [← List.append_nil ('{' :: (spec ++ ['}'])), fill_placeholder h]
  cases select args n spec with
  | error fault => rfl
  | ok found => simp only [fill_nil, bind, Except.bind, pure, Except.pure, List.append_nil, Except.map]

theorem taken_eq_ok_iff {found : Option String} {next m : Nat} {fault : Fault} {arg : String} :
    (match found with
      | some arg => pure (arg, next)
      | none => throw fault : Except Fault (String × Nat)) = .ok (arg, m) ↔ found = some arg ∧ m = next := by
  cases found with
  | none => simp [throw, throwThe, MonadExceptOf.throw]
  | some found => simp [pure, Except.pure, eq_comm]

/-- What a placeholder takes: an empty one the next argument, and one with an index the argument with that index. -/
theorem select_eq_ok_iff {arg : String} {m : Nat} : select args n spec = .ok (arg, m) ↔
    Text.trimChars spec = [] ∧ args[n]? = some arg ∧ m = n + 1 ∨
      ∃ index, IsIndex (Text.trimChars spec) index ∧ index < indexLimit ∧ args[index]? = some arg ∧ m = n := by
  by_cases hblank : Text.trimChars spec = []
  · simp only [select, hblank, List.isEmpty_nil, if_true, pure_bind, true_and]
    refine taken_eq_ok_iff.trans ⟨.inl, ?_⟩
    rintro (h | ⟨index, hindex, -⟩)
    · exact h
    · exact absurd rfl hindex.ne_nil
  · have hne : (Text.trimChars spec).isEmpty = false := List.isEmpty_eq_false_iff.2 hblank
    simp only [select, hne, Bool.false_eq_true, if_false]
    constructor
    · intro h
      cases hindex : index? (Text.trimChars spec) with
      | none =>
        rw [hindex] at h
        cases h
      | some index =>
        rw [hindex] at h
        obtain ⟨hdecimal, hlt⟩ := index?_eq_some_iff.1 hindex
        exact .inr ⟨index, hdecimal, hlt, taken_eq_ok_iff.1 h⟩
    · rintro (⟨h, -⟩ | ⟨index, hindex, hlt, h⟩)
      · exact absurd h hblank
      · rw [index?_eq_some_iff.2 ⟨hindex, hlt⟩]
        exact taken_eq_ok_iff.2 h

end Steps

/-! ## Filling parts -/

section Parts

variable {args : List String} {n : Nat} {cs out : List Char} {p : Part} {before parts : List Part}

/-- A placeholder is filled by itself, and then what comes after it is filled, if the placeholder adds `k` to the count
of empty ones whenever it can be filled. -/
theorem fill_counted {spec : List Char} {k : Nat} (h : Part.IsSpec spec)
    (hk : ∀ arg m, select args n spec = .ok (arg, m) → m = n + k) :
    fill args none n ('{' :: (spec ++ ['}']) ++ cs) = (do
      let shown ← fill args none n ('{' :: (spec ++ ['}']))
      return shown ++ (← fill args none (n + k) cs)) := by
  rw [fill_placeholder h, fill_placeholder_only h]
  cases hselect : select args n spec with
  | error fault => rfl
  | ok found =>
    obtain ⟨arg, m⟩ := found
    obtain rfl := hk arg m hselect
    rfl

/-- Two things can be filled one after the other if both can be filled. -/
theorem append_eq_ok_iff {x y : Except Fault (List Char)} :
    (do return (← x) ++ (← y)) = .ok out ↔ ∃ a b, x = .ok a ∧ y = .ok b ∧ out = a ++ b := by
  cases x with
  | error fault => simp [bind, Except.bind]
  | ok a =>
    cases y with
    | error fault => simp [bind, Except.bind]
    | ok b => simp [bind, Except.bind, pure, Except.pure, eq_comm]

theorem fill_part (h : p.WellFormed) : fill args none n (p.written ++ cs) = (do
    let shown ← fill args none n p.written
    return shown ++ (← fill args none (n + [p].countP Part.isNext) cs)) := by
  cases p with
  | char c =>
    show fill args none n (c :: cs) = _
    rw [fill_char h, Part.written, fill_char h, fill_nil]
    rfl
  | openBrace =>
    show fill args none n ('{' :: '{' :: cs) = _
    rw [fill_openBrace, Part.written, fill_openBrace, fill_nil]
    rfl
  | closeBrace =>
    show fill args none n ('}' :: '}' :: cs) = _
    rw [fill_closeBrace, Part.written, fill_closeBrace, fill_nil]
    rfl
  | next spec =>
    refine fill_counted h.1 fun arg m hselect => ?_
    rcases select_eq_ok_iff.1 hselect with ⟨-, -, hm⟩ | ⟨index, hindex, -⟩
    · exact hm
    · exact absurd h.2 hindex.ne_nil
  | item spec index =>
    refine fill_counted h.1 fun arg m hselect => ?_
    rcases select_eq_ok_iff.1 hselect with ⟨hblank, -⟩ | ⟨-, -, -, -, hm⟩
    · exact absurd hblank h.2.ne_nil
    · exact hm

theorem fill_parts (h : ∀ p ∈ parts, p.WellFormed) : fill args none n (parts.flatMap Part.written ++ cs) = (do
    let shown ← fill args none n (parts.flatMap Part.written)
    return shown ++ (← fill args none (n + parts.countP Part.isNext) cs)) := by
  induction parts generalizing n with
  | nil =>
    rw [List.flatMap_nil, List.nil_append, List.countP_nil, fill_nil]
    cases fill args none n cs <;> rfl
  | cons p parts ih =>
    obtain ⟨hp, hparts⟩ := List.forall_mem_cons.1 h
    have hcount : n + (p :: parts).countP Part.isNext =
        n + [p].countP Part.isNext + parts.countP Part.isNext := by
      rw [← List.singleton_append, List.countP_append, Nat.add_assoc]
    rw [List.flatMap_cons, List.append_assoc, fill_part hp, fill_part hp, ih hparts, hcount]
    simp only [bind_assoc, pure_bind, List.append_assoc]

theorem fill_written_eq_ok_iff (hargs : args.length ≤ indexLimit) (h : p.WellFormed) :
    fill args none (before.countP Part.isNext) p.written = .ok out ↔
      (∀ index, p.index? before = some index → index < args.length) ∧ out = p.shown args before := by
  have htaken (index : Nat) : (∃ arg, args[index]? = some arg ∧ out = arg.toList) ↔
      index < args.length ∧ out = (args.getD index "").toList := by
    rw [List.getD_eq_getElem?_getD]
    cases hfound : args[index]? with
    | none => simp [Nat.not_lt.2 (List.getElem?_eq_none_iff.1 hfound)]
    | some arg =>
      have hlt := (List.getElem?_eq_some_iff.1 hfound).1
      simp [hlt]
  have hplaceholder {spec : List Char} (hspec : Part.IsSpec spec) :
      fill args none (before.countP Part.isNext) ('{' :: (spec ++ ['}'])) = .ok out ↔
        ∃ arg m, select args (before.countP Part.isNext) spec = .ok (arg, m) ∧ out = arg.toList := by
    rw [fill_placeholder_only hspec]
    cases select args (before.countP Part.isNext) spec with
    | error fault => simp [Except.map]
    | ok found => simp [Except.map, Prod.ext_iff, eq_comm]
  cases p with
  | char c =>
    rw [Part.written, fill_char h]
    simp [fill_nil, Part.index?, Part.shown, eq_comm, pure, Except.pure, bind, Except.bind]
  | openBrace =>
    simp [Part.written, fill_openBrace, fill_nil, Part.index?, Part.shown, eq_comm, pure, Except.pure, bind, Except.bind]
  | closeBrace =>
    simp [Part.written, fill_closeBrace, fill_nil, Part.index?, Part.shown, eq_comm, pure, Except.pure, bind, Except.bind]
  | next spec =>
    rw [Part.written, hplaceholder h.1]
    simp only [Part.index?, Part.shown, Option.some.injEq, forall_eq', ← htaken]
    constructor
    · rintro ⟨arg, m, hselect, hout⟩
      rcases select_eq_ok_iff.1 hselect with ⟨-, hfound, -⟩ | ⟨index, hindex, -⟩
      · exact ⟨arg, hfound, hout⟩
      · exact absurd h.2 hindex.ne_nil
    · rintro ⟨arg, hfound, hout⟩
      exact ⟨arg, _, select_eq_ok_iff.2 (.inl ⟨h.2, hfound, rfl⟩), hout⟩
  | item spec index =>
    rw [Part.written, hplaceholder h.1]
    simp only [Part.index?, Part.shown, Option.some.injEq, forall_eq', ← htaken]
    constructor
    · rintro ⟨arg, m, hselect, hout⟩
      rcases select_eq_ok_iff.1 hselect with ⟨hblank, -⟩ | ⟨index', hindex', -, hfound, -⟩
      · exact absurd hblank h.2.ne_nil
      · exact ⟨arg, h.2.unique hindex' ▸ hfound, hout⟩
    · rintro ⟨arg, hfound, hout⟩
      have hlt : index < args.length := (List.getElem?_eq_some_iff.1 hfound).1
      exact ⟨arg, _, select_eq_ok_iff.2 (.inr ⟨index, h.2, Nat.lt_of_lt_of_le hlt hargs, hfound, rfl⟩), hout⟩

theorem inRange_nil : InRange args before [] := nofun

theorem inRange_cons : InRange args before (p :: parts) ↔
    (∀ index, p.index? before = some index → index < args.length) ∧ InRange args (before ++ [p]) parts := by
  constructor
  · intro h
    constructor
    · simpa using h 0 p rfl
    · intro i q hq
      simpa using h (i + 1) q hq
  · rintro ⟨hp, hparts⟩ i q hq
    cases i with
    | zero =>
      obtain rfl : p = q := Option.some.inj hq
      simpa using hp
    | succ i => simpa using hparts i q hq

theorem shownAll_cons :
    shownAll args before (p :: parts) = p.shown args before ++ shownAll args (before ++ [p]) parts := by
  simp [shownAll, List.mapIdx_cons]

theorem fill_parts_eq_ok_iff (hargs : args.length ≤ indexLimit) (h : ∀ p ∈ parts, p.WellFormed) :
    fill args none (before.countP Part.isNext) (parts.flatMap Part.written) = .ok out ↔
      InRange args before parts ∧ out = shownAll args before parts := by
  induction parts generalizing before out with
  | nil => simp [fill_nil, inRange_nil, shownAll, eq_comm]
  | cons p parts ih =>
    obtain ⟨hp, hparts⟩ := List.forall_mem_cons.1 h
    have hcount : before.countP Part.isNext + [p].countP Part.isNext = (before ++ [p]).countP Part.isNext := by
      rw [List.countP_append]
    rw [List.flatMap_cons, fill_part hp, inRange_cons, shownAll_cons, hcount, append_eq_ok_iff]
    constructor
    · rintro ⟨shown, rest, hshown, hrest, rfl⟩
      obtain ⟨hindex, rfl⟩ := (fill_written_eq_ok_iff hargs hp).1 hshown
      obtain ⟨hinside, rfl⟩ := (ih hparts).1 hrest
      exact ⟨⟨hindex, hinside⟩, rfl⟩
    · rintro ⟨⟨hindex, hinside⟩, rfl⟩
      exact ⟨_, _, (fill_written_eq_ok_iff hargs hp).2 ⟨hindex, rfl⟩, (ih hparts).2 ⟨hinside, rfl⟩, rfl⟩

/-- An open placeholder is closed. -/
theorem exists_close {spec : List Char} (h : fill args (some spec) n cs = .ok out) :
    ∃ inside rest, '}' ∉ inside ∧ cs = inside ++ '}' :: rest := by
  induction cs generalizing spec with
  | nil => cases h
  | cons c cs ih =>
    by_cases hc : c = '}'
    · exact ⟨[], cs, List.not_mem_nil, by rw [hc, List.nil_append]⟩
    · rw [fill_inside hc] at h
      obtain ⟨inside, rest, hinside, rfl⟩ := ih h
      exact ⟨c :: inside, rest, by simp [Ne.symm hc, hinside], rfl⟩

/-- Whatever can be filled and is not empty begins with a part. -/
theorem exists_first {c : Char} (h : fill args none n (c :: cs) = .ok out) :
    ∃ p rest, Part.WellFormed p ∧ c :: cs = p.written ++ rest := by
  by_cases hopen : c = '{'
  · subst hopen
    by_cases hdouble : ∃ rest, cs = '{' :: rest
    · obtain ⟨rest, rfl⟩ := hdouble
      exact ⟨.openBrace, rest, trivial, rfl⟩
    · have hopened := h
      rw [fill_open fun rest hrest => hdouble ⟨rest, hrest⟩] at hopened
      obtain ⟨spec, rest, hspec, rfl⟩ := exists_close hopened
      have hcs : '{' :: (spec ++ '}' :: rest) = '{' :: (spec ++ ['}']) ++ rest := by simp
      have hhead : Part.IsSpec spec := by
        refine ⟨fun hhead => hdouble ?_, hspec⟩
        obtain ⟨tail, rfl⟩ := List.head?_eq_some_iff.1 hhead
        exact ⟨_, rfl⟩
      rw [hcs, fill_placeholder hhead] at h
      cases hselect : select args n spec with
      | error fault =>
        rw [hselect] at h
        cases h
      | ok found =>
        rcases select_eq_ok_iff.1 hselect with ⟨hblank, -⟩ | ⟨index, hindex, -⟩
        · exact ⟨.next spec, rest, ⟨hhead, hblank⟩, hcs⟩
        · exact ⟨.item spec index, rest, ⟨hhead, hindex⟩, hcs⟩
  by_cases hclose : c = '}'
  · subst hclose
    by_cases hdouble : ∃ rest, cs = '}' :: rest
    · obtain ⟨rest, rfl⟩ := hdouble
      exact ⟨.closeBrace, rest, trivial, rfl⟩
    · -- a closing brace cannot stand alone
      rw [fill_unmatched fun rest hrest => hdouble ⟨rest, hrest⟩] at h
      cases h
  · exact ⟨.char c, cs, ⟨hopen, hclose⟩, rfl⟩

theorem exists_parts (h : fill args none n cs = .ok out) :
    ∃ parts : List Part, (∀ p ∈ parts, p.WellFormed) ∧ parts.flatMap Part.written = cs := by
  induction hlength : cs.length using Nat.strongRecOn generalizing n cs out with
  | ind length ih =>
    subst hlength
    cases cs with
    | nil => exact ⟨[], nofun, rfl⟩
    | cons c cs =>
      obtain ⟨p, rest, hp, hcs⟩ := exists_first h
      rw [hcs, fill_part hp] at h
      obtain ⟨_, _, -, hrest, -⟩ := append_eq_ok_iff.1 h
      have hlt : rest.length < (c :: cs).length := by
        rw [hcs, List.length_append]
        cases p <;> simp [Part.written]
      obtain ⟨parts, hparts, rfl⟩ := ih _ hlt hrest rfl
      exact ⟨p :: parts, List.forall_mem_cons.2 ⟨hp, hparts⟩, hcs.symm⟩

end Parts

/-! ## Templates -/

def doubled (text : String) : String :=
  String.ofList (text.toList.flatMap fun c => if c = '{' ∨ c = '}' then [c, c] else [c])

/-- Fills a template whose empty placeholders are counted from `n` on. -/
def formatFrom (n : Nat) (template : String) (args : List String) : Except Fault String := do
  return String.ofList (← fill args none n template.toList)

/-- The part that stands for a character. -/
def Part.ofChar (c : Char) : Part := if c = '{' then .openBrace else if c = '}' then .closeBrace else .char c

/-- The part of a character is well formed, is written as that character or as two of it, takes no argument, and has the
character put in its place. -/
theorem Part.ofChar_cases (c : Char) : (ofChar c).WellFormed ∧
    (ofChar c).written = (if c = '{' ∨ c = '}' then [c, c] else [c]) ∧
    (∀ before, (ofChar c).index? before = none) ∧ ∀ args before, (ofChar c).shown args before = [c] := by
  by_cases hopen : c = '{'
  · simp [ofChar, hopen, WellFormed, written, index?, shown]
  by_cases hclose : c = '}'
  · simp [ofChar, hclose, WellFormed, written, index?, shown]
  · simp [ofChar, hopen, hclose, WellFormed, written, index?, shown]

theorem consists_doubled (text : String) : Consists (doubled text) (text.toList.map Part.ofChar) := by
  constructor
  · intro p hp
    obtain ⟨c, -, rfl⟩ := List.mem_map.1 hp
    exact (Part.ofChar_cases c).1
  · rw [doubled, String.toList_ofList, List.flatMap_map]
    exact congrArg (text.toList.flatMap ·) (funext fun c => (Part.ofChar_cases c).2.1)

theorem shownAll_ofChar (args : List String) (before : List Part) (cs : List Char) :
    shownAll args before (cs.map Part.ofChar) = cs := by
  induction cs generalizing before with
  | nil => rfl
  | cons c cs ih => rw [List.map_cons, shownAll_cons, ih, (Part.ofChar_cases c).2.2.2, List.singleton_append]

theorem formatFrom_eq_ok_iff {n : Nat} {template out : String} {args : List String} :
    formatFrom n template args = .ok out ↔ fill args none n template.toList = .ok out.toList := by
  unfold formatFrom
  cases fill args none n template.toList with
  | error fault => simp [bind, Except.bind]
  | ok shown =>
    simp only [bind, Except.bind, pure, Except.pure, Except.ok.injEq]
    constructor
    · rintro rfl
      exact String.toList_ofList.symm
    · rintro rfl
      exact String.ofList_toList

/-- Which templates can be filled, and with what. -/
theorem format_eq_ok_iff {args : List String} (hargs : args.length ≤ indexLimit) {template out : String} :
    format template args = .ok out ↔
      ∃ parts, Consists template parts ∧ InRange args [] parts ∧ out.toList = shownAll args [] parts := by
  refine formatFrom_eq_ok_iff.trans ⟨fun h => ?_, ?_⟩
  · obtain ⟨parts, hparts, hwritten⟩ := exists_parts h
    rw [← hwritten] at h
    exact ⟨parts, ⟨hparts, hwritten⟩, (fill_parts_eq_ok_iff hargs hparts).1 h⟩
  · rintro ⟨parts, hconsists, h⟩
    rw [← hconsists.written]
    exact (fill_parts_eq_ok_iff hargs hconsists.wellFormed).2 h

/-- A text with all its braces doubled stands for itself. -/
theorem format_doubled (text : String) : format (doubled text) [] = .ok text := by
  refine (format_eq_ok_iff (Nat.zero_le _)).2 ⟨_, consists_doubled text, ?_, (shownAll_ofChar _ _ _).symm⟩
  intro i p hp index hindex
  obtain ⟨c, -, rfl⟩ := List.mem_map.1 (List.mem_of_getElem? hp)
  rw [(Part.ofChar_cases c).2.2.1] at hindex
  cases hindex

theorem formatFrom_append {front rest : String} {parts : List Part} {args : List String} (h : Consists front parts)
    (n : Nat) : formatFrom n (front ++ rest) args = (do
      let shown ← formatFrom n front args
      return shown ++ (← formatFrom (n + parts.countP Part.isNext) rest args)) := by
  rw [formatFrom, String.toList_append, ← h.written, fill_parts h.wellFormed, h.written]
  unfold formatFrom
  cases fill args none n front.toList with
  | error fault => rfl
  | ok shown =>
    cases fill args none (n + parts.countP Part.isNext) rest.toList with
    | error fault => rfl
    | ok shown' => simp [bind, Except.bind, pure, Except.pure, String.ofList_append]

/-- A template can be filled exactly if it consists of parts and every placeholder takes one of the arguments; it is
filled with what is put in the place of its parts, and everything else is a format error. So a text with all its braces
doubled stands for itself, and a template that consists of parts can be filled before what comes after it, which counts
its own empty placeholders from there on. There can be no more arguments than indices. -/
theorem format_grammar (args : List String) (hargs : args.length ≤ indexLimit) :
    (∀ template out, format template args = .ok out ↔
      ∃ parts, Consists template parts ∧ InRange args [] parts ∧ out.toList = shownAll args [] parts) ∧
    (∀ template, (¬∃ parts, Consists template parts ∧ InRange args [] parts) →
      ∃ fault, format template args = .error fault ∧ (DispatchLang.Fault.template fault).kind.name = "FormatError") ∧
    (∀ text, format (doubled text) [] = .ok text) ∧
    ∀ front parts, Consists front parts → ∀ n rest, formatFrom n (front ++ rest) args = (do
      let shown ← formatFrom n front args
      return shown ++ (← formatFrom (n + parts.countP Part.isNext) rest args)) := by
  refine ⟨fun template out => format_eq_ok_iff hargs, fun template h => ?_, format_doubled,
    fun front parts hfront n rest => formatFrom_append hfront n⟩
  cases hformat : format template args with
  | error fault => exact ⟨fault, rfl, rfl⟩
  | ok out =>
    obtain ⟨parts, hconsists, hinside, -⟩ := (format_eq_ok_iff hargs).1 hformat
    exact absurd ⟨parts, hconsists, hinside⟩ h

/-- An empty placeholder between doubled braces, before one with the index that the empty one has taken as well. -/
theorem braced_formatted : ["x"].length ≤ indexLimit ∧
    format "\x7b\x7b\x7b\x7d\x7d\x7d\x7b +0 \x7d" ["x"] = .ok "\x7bx\x7dx" := by
  have hargs : ["x"].length ≤ indexLimit := by decide
  refine ⟨hargs, ((format_grammar ["x"] hargs).1 _ _).2
    ⟨[.openBrace, .next [], .closeBrace, .item [' ', '+', '0', ' '] 0], ⟨?_, by decide⟩, ?_, by decide⟩⟩
  · simp only [List.forall_mem_cons, Part.WellFormed, Part.IsSpec]
    have hindex : IsIndex ['+', '0'] 0 := .signed (List.cons_ne_nil '0' []) (List.forall_mem_singleton.2 rfl)
    exact ⟨trivial, ⟨by decide, rfl⟩, trivial, ⟨by decide, hindex⟩, nofun⟩
  · simp [inRange_cons, inRange_nil, Part.index?, Part.isNext]

end DispatchLang.Template
