import DispatchLang.Proofs.Grammar.Heads

/-!
# Reading printed trees

The printer puts parentheses by precedence, on a scale from 0 to 10; the reader compares binding powers, on a
scale from 0 to 19 that has two numbers for each operator. A place that asks for a precedence is therefore
two things to the reader. A tree printed there has only operators outside parentheses that bind to their
left with a certain power at least, its `floor`: a reader that was asked for no more than that reads all of
them. And the last of them gives its right side a certain power at least, its `reach`: what follows the tree
is not drawn into it if it binds to its left with less. Pairs and quotations are never put in parentheses, so they have a
floor and a reach of their own.

Powers are not all. A function declaration at the end of a tree takes all operators, a type declaration takes a brace and
a name takes the fields of a construction. Where a tree *stands* none of this follows it.

That a phrase *reads as* a tree says what its readers do up to the point where the tree ends and more
operators may follow; what they do then is up to the place. Stated in this way the property is closed under
all forms.

## Main results

* `tables_agree`: the two scales fit together at every operator.
* `Node.Stands.left`, `Node.Stands.right` and the others: where a tree stands, so do its parts.
* `readsAs_binary`, `readsAs_unary`, …: a form reads as a tree if its parts do.
-/

namespace DispatchLang

open Grammar Reader

/-! ## Precedences and powers -/

namespace Grammar

/-- The least power with which an operator outside parentheses binds to its left in a tree that is printed
where a precedence is asked for. -/
def floor : Nat → Nat
  | 0 => 2
  | 1 => 6
  | 2 => 8
  | 3 => 10
  | 4 => 12
  | 5 => 14
  | 6 => 16
  | 7 | 8 => 19
  | _ => 20

/-- The least power that an operator outside parentheses asks of its right side in a tree that is printed
where a precedence is asked for. -/
def reach : Nat → Nat
  | 0 => 0
  | 1 => 7
  | 2 => 9
  | 3 => 11
  | 4 => 13
  | 5 => 15
  | 6 => 17
  | 7 | 8 => 18
  | _ => 20

/-- The power with which a token binds to what stands before it, where pairs are allowed or not. A point binds more
tightly than all that a reader may be asked for, and an opening bracket more tightly than a point. -/
def leftPower? (pairs : Bool) : Token → Option Nat
  | .symbol .dot => some 19
  | .symbol .openParen | .symbol .openBracket => some 20
  | .symbol s => (Connective.ofSymbol? pairs s).map (·.powers.1)
  | _ => none

theorem leftPower?_connective {pairs : Bool} {s : Symbol} {connective : Connective}
    (h : Connective.ofSymbol? pairs s = some connective) :
    leftPower? pairs (.symbol s) = some connective.powers.1 := by
  cases s <;> cases pairs <;> cases h <;> rfl

/-- At every place where an operator is not put in parentheses it is read there, it ends its left operand,
and its right operand takes in nothing that follows. -/
theorem tables_agree (op : BinaryOp) {asked : Nat} (h : asked ≤ Printer.precedence op) :
    floor asked ≤ (Connective.binary op).powers.1 ∧
      floor asked ≤ floor (Printer.operandPrecedences op).1 ∧
      (Connective.binary op).powers.1 < reach (Printer.operandPrecedences op).1 ∧
      (Connective.binary op).powers.2 ≤ floor (Printer.operandPrecedences op).2 ∧
      reach asked ≤ (Connective.binary op).powers.2 ∧
      reach asked ≤ reach (Printer.operandPrecedences op).2 := by
  revert asked
  cases op <;> decide

/-- The same for the operators with one operand. -/
theorem unary_table {asked : Nat} (h : asked ≤ Printer.unaryPrecedence) :
    operandPower ≤ floor (Printer.precedence .pow) ∧ reach asked ≤ operandPower ∧
      reach asked ≤ reach (Printer.precedence .pow) := by
  revert asked
  decide

theorem floor_le (asked : Nat) : floor asked ≤ 20 := by
  unfold floor
  split <;> decide

theorem reach_le (asked : Nat) : reach asked ≤ 20 := by
  unfold reach
  split <;> decide

end Grammar

namespace Node

/-- The least power with which a connective outside parentheses binds to its left in a tree at a place. -/
def floor (asked : Nat) : Node → Nat
  | .pair _ _ _ => (Connective.pair).powers.1
  | _ => Grammar.floor asked

/-- The least power that a connective outside parentheses asks of its right side in a tree at a place. -/
def reach (asked : Nat) : Node → Nat
  | .pair _ _ _ => (Connective.pair).powers.2
  | .quoted _ _ => min operandPower (Grammar.reach asked)
  | _ => Grammar.reach asked

variable {e : Node} {asked : Nat}

theorem floor_eq (h : e.endsInPair = false) : e.floor asked = Grammar.floor asked := by
  cases e <;> first | rfl | cases h

theorem le_floor {k : Nat} (hk : k ≤ (Connective.pair).powers.1) (hf : k ≤ Grammar.floor asked) : k ≤ e.floor asked := by
  cases e with
  | pair => exact hk
  | _ => exact hf

theorem reach_le (h : e.endsInPair = false) : e.reach asked ≤ Grammar.reach asked := by
  cases e with
  | pair => cases h
  | quoted => exact Nat.min_le_right _ _
  | _ => exact Nat.le_refl _

theorem le_reach {k : Nat} (h : e.endsInPair = false) (hk : e.isQuoted = true → k ≤ operandPower)
    (hr : k ≤ Grammar.reach asked) : k ≤ e.reach asked := by
  cases e with
  | pair => cases h
  | quoted => exact Nat.le_min.2 ⟨hk rfl, hr⟩
  | _ => exact hr

theorem reach_le_twenty : e.reach asked ≤ 20 := by
  cases h : e.endsInPair with
  | false => exact Nat.le_trans (reach_le h) (Grammar.reach_le asked)
  | true =>
    cases e with
    | pair => exact (by decide : (5 : Nat) ≤ 20)
    | assign => exact Grammar.reach_le asked
    | _ => cases h

end Node

/-! ## What may follow a tree -/

/-- Whether a word ends a tree whose operators ask a given power of their right sides: it begins a line that
does not continue the line before it, or it does not bind to its left with this power. -/
def Word.Stops (pairs : Bool) (power : Nat) (w : Word) : Prop :=
  w.lead.breaks = true ∧ w.token.continuesLine = false ∨ ∀ k ∈ leftPower? pairs w.token, k < power

/-- What may follow a tree whose operators ask a given power of their right sides, whatever it ends in. -/
structure Follows (pairs : Bool) (power : Nat) (ws : List Word) : Prop where
  /-- The first word ends the tree. -/
  stops : ∀ w ∈ ws.head?, w.Stops pairs power
  /-- No capture is limited by it. -/
  apart : ∀ w ∈ ws.head?, w.Apart
  /-- No declaration goes on. -/
  noneOf : NoneOf [.below, .equals, .bar] ws

namespace Follows

variable {pairs : Bool} {power least : Nat} {ws : List Word}

theorem mono {q : Nat} (h : Follows pairs power ws) (hq : power ≤ q) : Follows pairs q ws where
  stops := fun w hw => (h.stops w hw).imp_right fun hk k hm => Nat.lt_of_lt_of_le (hk k hm) hq
  apart := h.apart
  noneOf := h.noneOf

/-- After a tree comes no parenthesis or bracket that would make it the function of a call. -/
theorem not_open (h : Follows pairs power ws) (hp : power ≤ 20) : NoneOf [.openParen, .openBracket] ws := by
  intro s hs
  have hcont : s.continuesLine = true ∧ 20 ∈ leftPower? pairs (.symbol s) := by
    simp only [List.mem_cons, List.not_mem_nil, or_false] at hs
    obtain rfl | rfl := hs <;> exact ⟨rfl, rfl⟩
  cases ws with
  | nil => rfl
  | cons w ws =>
    show isSymbol s w.token = false
    cases ht : w.token with
    | symbol t =>
      refine decide_eq_false fun he => ?_
      subst he
      obtain ⟨-, hc⟩ | hk := h.stops w rfl
      · rw [ht, Token.continuesLine, hcont.1] at hc
        cases hc
      · rw [ht] at hk
        exact absurd (hk 20 hcont.2) (by omega)
    | _ => rfl

theorem nil : Follows pairs power [] := ⟨nofun, nofun, fun _ _ => rfl⟩

theorem symbol {lead : Lead} {s : Symbol} (hk : ∀ k ∈ leftPower? pairs (.symbol s), k < power)
    (hs : s ∉ [.question, .below, .equals, .bar]) : Follows pairs power (.symbol lead s :: ws) where
  stops w hw := by
    obtain rfl := Option.some.inj hw
    exact .inr hk
  apart w hw := by
    obtain rfl := Option.some.inj hw
    exact .inr ⟨s, rfl, fun he => hs (by simp [he])⟩
  noneOf := .symbol fun hm => hs (List.mem_cons_of_mem _ hm)

end Follows

/-! ## Where a tree stands -/

namespace Node

/-- Whether a tree may stand before some words: nothing that follows is drawn into it, and the context allows the pairs
and the constructions that it shows. -/
structure Stands (e : Node) (asked : Nat) (ctx : Context) (ws : List Word) : Prop where
  /-- No operator at the end of the tree takes what follows. -/
  follows : Follows ctx.pairs (e.reach asked) ws
  /-- Nor does a function declaration. -/
  function : e.endsIn isFunction asked = true → Follows false bodyPower ws
  /-- A type declaration takes no brace. -/
  decl : e.endsIn isOpenDecl asked = true → isSymbol .openBrace (headToken ws) = false
  /-- A name takes no fields. -/
  name : e.endsIn isIdent asked = true → beginsFields ws = false
  /-- Pairs stand where they are allowed. -/
  pairs : e.endsInPair = true → ctx.pairs = true
  /-- What ends in a pair stands in no parentheses. -/
  bare : e.endsInPair = true → 0 < asked → isPair e = true
  /-- Constructions stand where they are allowed. -/
  constructs : e.shows isConstruct asked = true → ctx.constructs = true

theorem Legible.endsInPair_eq_false {e child : Node} (h : Legible e) (hc : child ∈ e.children) (hm : ¬e.MayHold child) :
    child.endsInPair = false :=
  Bool.eq_false_iff.mpr fun hends => hm (h.wellFormed.pairs child hc hends)

theorem endsIn_self {p : Node → Bool} {e : Node} {asked : Nat} (h : p e = true) : e.endsIn p asked = true := by
  unfold endsIn
  rw [h, Bool.true_or]

theorem shows_self {p : Node → Bool} {e : Node} {asked : Nat} (h : p e = true) : e.shows p asked = true := by
  unfold shows
  rw [h, Bool.true_or]

end Node

def Symbol.enders : List Symbol := [.closeParen, .closeBracket, .closeBrace, .comma, .semicolon]

theorem Symbol.leftPower?_ender {s : Symbol} (h : s ∈ enders) (pairs : Bool) : leftPower? pairs (.symbol s) = none := by
  simp only [enders, List.mem_cons, List.not_mem_nil, or_false] at h
  obtain rfl | rfl | rfl | rfl | rfl := h <;> rfl

/-- What ends an item of a list may follow every tree. -/
theorem Follows.of_endsItem {pairs : Bool} {power : Nat} {close : Symbol} {ws : List Word}
    (h : Accepts.EndsItem close ws) (hclose : close ∈ Symbol.enders) : Follows pairs power ws := by
  have hender {lead : Lead} {s : Symbol} {vs : List Word} (hs : s ∈ Symbol.enders) :
      Follows pairs power (.symbol lead s :: vs) := by
    refine .symbol (fun k hk => ?_) ?_
    · rw [s.leftPower?_ender hs] at hk
      cases hk
    · revert hs
      cases s <;> decide
  obtain ⟨lead, s, vs, rfl | rfl, rfl⟩ := h
  · exact hender (by decide)
  · exact hender hclose

/-- Patterns declare nothing. -/
theorem Node.PrintablePattern.endsIn_isFunction {e : Node} (h : e.PrintablePattern) (asked : Nat) :
    e.endsIn isFunction asked = false := by
  induction h generalizing asked with
  | refine _ _ _ ih =>
    rw [endsIn, ih 0]
    rfl
  | _ => rfl

namespace Node.Stands

variable {e : Node} {asked : Nat} {ctx : Context} {ws vs : List Word}

/-- A tree stands before a symbol that binds to its left with too little power. -/
theorem of_symbol {lead : Lead} {s : Symbol} (hk : ∀ k ∈ leftPower? ctx.pairs (.symbol s), k < e.reach asked)
    (hs : s ∉ [.question, .below, .equals, .bar, .openBrace])
    (function : e.endsIn isFunction asked = true → ∀ k ∈ leftPower? false (.symbol s), k < bodyPower)
    (pairs : e.endsInPair = true → ctx.pairs = true) (bare : e.endsInPair = true → 0 < asked → isPair e = true)
    (constructs : e.shows isConstruct asked = true → ctx.constructs = true) :
    e.Stands asked ctx (.symbol lead s :: vs) := by
  have hs' : s ∉ [.question, .below, .equals, .bar] := fun h => hs (List.mem_append_left [Symbol.openBrace] h)
  have hbrace : isSymbol .openBrace (headToken (.symbol lead s :: vs)) = false := by
    refine decide_eq_false fun he => ?_
    obtain rfl := he
    exact hs (by decide)
  exact ⟨.symbol hk hs', fun h => .symbol (function h) hs', fun _ => hbrace, fun _ => beginsFields_eq_false hbrace,
    pairs, bare, constructs⟩

/-- Of a tree that does not end in a pair less is asked. -/
theorem of_pairless (hpair : e.endsInPair = false) (follows : Follows ctx.pairs (e.reach asked) ws)
    (function : e.endsIn isFunction asked = true → Follows false bodyPower ws)
    (decl : e.endsIn isOpenDecl asked = true → isSymbol .openBrace (headToken ws) = false)
    (name : e.endsIn isIdent asked = true → beginsFields ws = false)
    (constructs : e.shows isConstruct asked = true → ctx.constructs = true) : e.Stands asked ctx ws :=
  ⟨follows, function, decl, name, fun hp => absurd hp (by simp [hpair]), fun hp => absurd hp (by simp [hpair]), constructs⟩

theorem nil (hpair : e.endsInPair = false) (hc : ctx.constructs = true) : e.Stands asked ctx [] :=
  of_pairless hpair .nil (fun _ => .nil) (fun _ => rfl) (fun _ => rfl) fun _ => hc

/-- Where no precedence is asked for a tree stands before every symbol that ends it. -/
theorem of_ender {lead : Lead} {s : Symbol} (hs : s ∈ Symbol.enders) (hp : e.endsInPair = true → ctx.pairs = true)
    (hc : ctx.constructs = true) : e.Stands 0 ctx (.symbol lead s :: vs) := by
  refine of_symbol ?_ ?_ (fun _ => ?_) hp (fun _ h => absurd h (Nat.lt_irrefl 0)) fun _ => hc
  · rw [s.leftPower?_ender hs]
    exact nofun
  · revert hs
    cases s <;> decide
  · rw [s.leftPower?_ender hs]
    exact nofun

theorem of_endsItem {close : Symbol} (h : Accepts.EndsItem close vs) (hclose : close ∈ Symbol.enders)
    (hp : e.endsInPair = true → ctx.pairs = true) (hc : ctx.constructs = true) : e.Stands 0 ctx vs := by
  obtain ⟨lead, s, vs, rfl | rfl, rfl⟩ := h
  · exact of_ender (by decide) hp hc
  · exact of_ender hclose hp hc

/-- What ends a tree stands where the tree does. -/
theorem inherit {part : Node} {asked' : Nat} (h : e.Stands asked ctx ws)
    (hr : Follows ctx.pairs (part.reach asked') ws)
    (hends : ∀ p, part.endsIn p asked' = true → e.endsIn p asked = true)
    (hpairs : part.endsInPair = true → e.endsInPair = true ∧ (0 < asked' → isPair part = true))
    (hshows : part.shows isConstruct asked' = true → e.shows isConstruct asked = true) : part.Stands asked' ctx ws where
  follows := hr
  function hp := h.function (hends _ hp)
  decl hp := h.decl (hends _ hp)
  name hp := h.name (hends _ hp)
  pairs hp := h.pairs (hpairs hp).1
  bare hp := (hpairs hp).2
  constructs hp := h.constructs (hshows hp)

/-! ### Operators -/

section Binary

variable {span : Span} {op : BinaryOp} {l r : Node} (hl : Legible (.binary span op l r))
  (ha : asked ≤ Printer.precedence op) (h : (binary span op l r).Stands asked ctx ws)
include hl

theorem left_endsInPair : l.endsInPair = false := hl.endsInPair_eq_false List.mem_cons_self nofun

theorem right_endsInPair : r.endsInPair = false :=
  hl.endsInPair_eq_false (List.mem_cons_of_mem _ List.mem_cons_self) nofun

include ha h

theorem left (lead : Lead) (vs : List Word) :
    l.Stands (Printer.operandPrecedences op).1 ctx (.symbol lead op.symbol :: vs) := by
  have hlegible := hl.isLegible
  simp only [isLegible, Bool.and_eq_true, Bool.not_eq_true'] at hlegible
  obtain ⟨hfunction, hquoted⟩ := hlegible
  have hpair := left_endsInPair hl
  refine of_symbol (fun k hk => ?_) (by cases op <;> decide) (fun hf => absurd hf (by simp [hfunction]))
    (fun hp => absurd hp (by simp [hpair])) (fun hp => absurd hp (by simp [hpair])) fun hc => h.constructs ?_
  · have hop : Connective.ofSymbol? ctx.pairs op.symbol = some (.binary op) := by cases op <;> rfl
    rw [leftPower?_connective hop] at hk
    obtain rfl := Option.some.inj hk
    -- A quotation reaches no further than a power, and on the left of one it would not be legible.
    refine Nat.lt_of_succ_le (le_reach hpair (fun hq => ?_) (tables_agree op ha).2.2.1)
    rw [hq, Bool.and_true, decide_eq_false_iff_not] at hquoted
    cases op <;> first | decide | exact absurd rfl hquoted
  · rw [shows]
    simp [ha, hc]

theorem right : r.Stands (Printer.operandPrecedences op).2 ctx ws := by
  have hpair := right_endsInPair hl
  obtain ⟨-, -, -, -, hr, hr'⟩ := tables_agree op ha
  have hop : (Connective.binary op).powers.2 ≤ operandPower := by cases op <;> decide
  refine h.inherit (h.follows.mono (le_reach hpair (fun _ => Nat.le_trans hr hop) hr')) (fun p hp => ?_)
    (fun hp => absurd hp (by simp [hpair])) fun hc => ?_
  · rw [endsIn]
    simp [ha, hp]
  · rw [shows]
    simp [ha, hc]

end Binary

theorem operand {span : Span} {op : UnaryOp} {operand : Node} (hl : Legible (.unary span op operand))
    (ha : asked ≤ Printer.unaryPrecedence) (h : (unary span op operand).Stands asked ctx ws) :
    operand.Stands (Printer.precedence .pow) ctx ws := by
  have hpair := hl.endsInPair_eq_false List.mem_cons_self nofun
  obtain ⟨-, hr, hr'⟩ := unary_table ha
  refine h.inherit (h.follows.mono (le_reach hpair (fun _ => hr) hr')) (fun p hp => ?_) (fun hp => absurd hp (by simp [hpair]))
    fun hc => ?_
  · rw [endsIn]
    simp [ha, hp]
  · rw [shows]
    simp [ha, hc]

section Assign

variable {span : Span} {t v : Node} (h : (assign span t v).Stands 0 ctx ws)
include h

theorem target (hl : Legible (.assign span t v)) (lead : Lead) (vs : List Word) :
    t.Stands 1 ctx (.symbol lead .assign :: vs) := by
  have htarget := hl.wellFormed.target rfl
  have hshows (hc : t.shows isConstruct 1 = true) : ctx.constructs = true := by
    refine h.constructs ?_
    rw [shows]
    simp [hc]
  have hpower {k : Nat} (hk : k ∈ leftPower? ctx.pairs (.symbol .assign)) : k < Grammar.reach 1 := by
    obtain rfl := Option.some.inj hk
    decide
  cases t with
  | ident | construct =>
    exact of_symbol (fun _ => hpower) (by decide) (fun hp => by cases hp) (fun hp => by cases hp) (fun hp => by cases hp) hshows
  | _ => cases htarget

theorem value : v.Stands 0 ctx ws := by
  refine h.inherit (h.follows.mono (Nat.zero_le _)) (fun p hp => ?_) (fun hp => ⟨hp, nofun⟩) fun hc => ?_
  · rw [endsIn]
    simp [hp]
  · rw [shows]
    simp [hc]

end Assign

/-! ### Pairs -/

section Pair

variable {span : Span} {k v : Node} (hl : Legible (.pair span k v))
include hl

theorem key_not_assignment : k.isAssignment = false := by
  have h := hl.isLegible
  simp only [isLegible, Bool.and_eq_true, Bool.not_eq_true'] at h
  exact h.1.1

theorem pairValue_endsInPair : v.isAssignment = false ∧ v.endsInPair = false := by
  have h := hl.isLegible
  simp only [isLegible, Bool.and_eq_true, Bool.not_eq_true'] at h
  refine ⟨h.1.2, ?_⟩
  cases v with
  | assign => cases h.1.2
  | pair => cases h.2
  | _ => rfl

variable (h : (pair span k v).Stands asked ctx ws)
include h

theorem key (lead : Lead) (vs : List Word) : k.Stands 1 ctx (.symbol lead .colon :: vs) := by
  have hassign := key_not_assignment hl
  refine of_symbol (fun n hn => ?_) (by decide) (fun _ => nofun) (fun _ => h.pairs rfl) (fun hp _ => ?_) fun hc => ?_
  · have hpower : n = 4 := by
      cases hctx : ctx.pairs <;> rw [hctx] at hn
      · cases hn
      · exact (Option.some.inj hn).symm
    subst hpower
    -- A colon binds to its left with less power than a pair asks of its right side.
    cases k with
    | pair => exact (by decide : (4 : Nat) < 5)
    | _ => exact (by decide : (4 : Nat) < 7)
  · cases k with
    | pair => rfl
    | assign => cases hassign
    | _ => cases hp
  · refine h.constructs ?_
    rw [shows]
    simp [shows_one hassign ▸ hc]

theorem pairValue : v.Stands 1 ctx ws := by
  obtain ⟨hassign, hpair⟩ := pairValue_endsInPair hl
  have hreach : reach asked (pair span k v) ≤ v.reach 1 :=
    le_reach (k := 5) hpair (fun _ => by decide) (by decide)
  refine h.inherit (h.follows.mono hreach) (fun p hp => ?_) (fun hp => absurd hp (by simp [hpair])) fun hc => ?_
  · rw [endsIn]
    simp [endsIn_one hassign ▸ hp]
  · rw [shows]
    simp [shows_one hassign ▸ hc]

end Pair

/-! ### Prefixes -/

/-- The body of a function declaration is read in a context of its own. -/
theorem body {span : Span} {head : FunctionHead} {body : Node} (hl : Legible (.function span head body))
    (h : (Node.function span head body).Stands asked ctx ws) : body.Stands 1 .nested ws := by
  have hpair := hl.endsInPair_eq_false List.mem_cons_self nofun
  have hfollows : Follows false bodyPower ws := h.function (endsIn_self rfl)
  have hends (p : Node → Bool) (hp : body.endsIn p 1 = true) : (Node.function span head body).endsIn p asked = true := by
    rw [endsIn]
    simp [hp]
  exact .of_pairless hpair (hfollows.mono (le_reach hpair (fun _ => by decide) (by decide))) (fun _ => hfollows)
    (fun hp => h.decl (hends _ hp)) (fun hp => h.name (hends _ hp)) fun _ => rfl

theorem quotedBody {span : Span} {body : Node} (hl : Legible (.quoted span body))
    (h : (quoted span body).Stands asked ctx ws) : body.Stands Printer.memberPrecedence ctx ws := by
  have hpair := hl.endsInPair_eq_false List.mem_cons_self nofun
  refine h.inherit (h.follows.mono ?_) (fun p hp => ?_) (fun hp => absurd hp (by simp [hpair])) fun hc => ?_
  · exact Nat.le_trans (Nat.min_le_left _ _) (le_reach hpair (fun _ => by decide) (by decide))
  · rw [endsIn]
    simp [hp]
  · rw [shows]
    simp [hc]

/-- What a match looks at stands before the brace. -/
theorem scrutinee {span : Span} {scrutinee : Node} {arms : List (Node × Node)}
    (hl : Legible (.cases span scrutinee arms)) {lead : Lead} (hb : beginsFields (.symbol lead .openBrace :: vs) = false) :
    scrutinee.Stands 1 .scrutinee (.symbol lead .openBrace :: vs) := by
  have hpair := hl.endsInPair_eq_false List.mem_cons_self nofun
  have h := hl.isLegible
  simp only [isLegible, Bool.and_eq_true, Bool.not_eq_true'] at h
  have hfollows {pairs : Bool} {reach : Nat} : Follows pairs reach (.symbol lead .openBrace :: vs) :=
    .symbol (fun k hk => by cases hk) (by decide)
  exact .of_pairless hpair hfollows (fun _ => hfollows) (fun hp => absurd hp (by simp [h.1])) (fun _ => hb)
    fun hp => absurd hp (by simp [h.2])

/-! ### Members -/

theorem subject {subject : Node} (hs : subject.Printable) (hpair : subject.endsInPair = false)
    (hf : subject.isFunction = false) (hq : subject.isQuoted = false)
    (hc : subject.shows isConstruct Printer.memberPrecedence = true → ctx.constructs = true) (lead : Lead) (vs : List Word) :
    subject.Stands Printer.memberPrecedence ctx (.symbol lead .dot :: vs) := by
  -- Everything else that ends in a declaration is in parentheses before a point.
  have hends : subject.endsIn isFunction Printer.memberPrecedence = false := by
    cases hs with
    | @binary span op => cases op <;> rfl
    | function => cases hf
    | quoted => cases hq
    | pair => cases hpair
    | refine printable => exact printable.endsIn_isFunction _
    | _ => rfl
  refine of_symbol (fun n hn => ?_) (by decide) (fun hp => absurd hp (by simp [hends]))
    (fun hp => absurd hp (by simp [hpair])) (fun hp => absurd hp (by simp [hpair])) hc
  obtain rfl := Option.some.inj hn
  exact Nat.lt_of_succ_le (le_reach hpair (fun h => absurd h (by simp [hq])) (by decide))

end Node.Stands

/-! ## Steps -/

section

variable {expr : ExpressionReader} {rounds least : Nat} {ctx : Context} {left : Node}
  {ws ws₁ ws' : List Word} {P : Node → Prop}

theorem accepts_extend_stop (h : Follows ctx.pairs least ws) (hl : least ≤ 19) :
    Accepts (extend expr rounds ctx least left) ws ws (· = none) := by
  cases ws with
  | nil =>
    refine Accepts.here_token.bind fun l hl => ?_
    simp only [hl, headToken]
    split <;> exact Accepts.pure rfl
  | cons w ws =>
    refine Accepts.here.bind fun l hl => ?_
    simp only [hl.token, hl.afterBreak]
    split
    · exact Accepts.pure rfl
    · next hb =>
      have hk := (h.stops w rfl).resolve_left (by simpa using hb)
      split
      · next ht => rw [ht] at hk; exact absurd (hk 19 rfl) (by omega)
      · next ht => rw [ht] at hk; exact absurd (hk 20 rfl) (by omega)
      · next s _ _ ht =>
        split
        · exact Accepts.pure rfl
        · next connective hs =>
          rw [ht, leftPower?_connective hs] at hk
          rw [if_pos (hk _ rfl)]
          exact Accepts.pure rfl
      · exact Accepts.pure rfl

/-- A connective that binds tightly enough is read with its right side. -/
theorem accepts_extend_connective {s : Symbol} {connective : Connective} (lead : Lead)
    (hs : Connective.ofSymbol? ctx.pairs s = some connective) (hb : lead.breaks = false)
    (hl : least ≤ connective.powers.1) (ht : connective = .assign → left.isTarget = true)
    (hr : Accepts (expr ctx connective.powers.2) ws ws' P) :
    Accepts (extend expr rounds ctx least left) (.symbol lead s :: ws) ws'
      fun o => ∃ longer, o = some longer ∧ ∃ right, longer = join left connective right ∧ P right := by
  have hright : Accepts
      (expr ctx connective.powers.2 >>= fun right => pure (some (join left connective right))) ws ws'
      fun o => ∃ longer, o = some longer ∧ ∃ right, longer = join left connective right ∧ P right :=
    hr.bind fun right hp => Accepts.pure ⟨_, rfl, right, rfl, hp⟩
  refine Accepts.here.bind fun l hl' => ?_
  simp only [hl'.token, hl'.afterBreak]
  rw [if_neg (by simp [Word.symbol, hb]), show (Word.symbol lead s).token = .symbol s from rfl]
  split
  · next hd => obtain rfl := Token.symbol.inj hd; cases hs
  · next hd => obtain rfl := Token.symbol.inj hd; cases hs
  · next s' _ _ hd =>
    obtain rfl := Token.symbol.inj hd
    rw [hs]
    simp only [if_neg (Nat.not_lt.2 hl)]
    refine Accepts.take.bind fun _ _ => ?_
    split
    · rw [if_pos rfl, if_neg (by simp [ht rfl])]
      exact hright
    · rw [if_neg Bool.false_ne_true]
      exact hright
  · next hd => exact absurd rfl (hd s)

theorem accepts_extend_field {text : String} {lead : Lead} (ht : Printer.isName text)
    (hw : isSymbol .openParen (headToken ws) = false) :
    Accepts (extend expr rounds ctx least left) (.symbol .tight .dot :: .name lead text :: ws) ws
      fun o => ∃ longer, o = some longer ∧
        ∃ span member, longer = .field span left member ∧ member.val = text := by
  refine Accepts.here.bind fun l hl => ?_
  simp only [hl.token, hl.afterBreak]
  refine Accepts.take.bind fun _ _ => (Accepts.name ht).bind fun member hm => ?_
  refine (Accepts.isAt _).bind fun b hb => ?_
  rw [hb, hw]
  exact Accepts.pure ⟨_, rfl, _, member, rfl, hm⟩

theorem accepts_extend_send {text : String} {lead : Lead} {R : List Node × Span → Prop}
    (ht : Printer.isName text) (hw : isSymbol .openParen (headToken ws) = true)
    (ha : Accepts (arguments expr rounds) ws ws' R) :
    Accepts (extend expr rounds ctx least left) (.symbol .tight .dot :: .name lead text :: ws) ws'
      fun o => ∃ longer, o = some longer ∧
        ∃ span method r, longer = .send span left method r.1 ∧ method.val = text ∧ R r := by
  refine Accepts.here.bind fun l hl => ?_
  simp only [hl.token, hl.afterBreak]
  refine Accepts.take.bind fun _ _ => (Accepts.name ht).bind fun method hm => ?_
  refine (Accepts.isAt _).bind fun b hb => ?_
  rw [hb, hw]
  exact ha.bind fun r hr => Accepts.pure ⟨_, rfl, _, method, r, rfl, hm, hr⟩

theorem accepts_climb_stop (h : Follows ctx.pairs least ws) (hl : least ≤ 19) (m : Nat) :
    Accepts (climb expr rounds ctx least (m + 1) left) ws ws (· = left) := by
  refine (accepts_extend_stop h hl).bind fun o ho => ?_
  rw [ho]
  exact Accepts.pure rfl

theorem accepts_climb_step {m : Nat} {R : Node → Prop}
    (h : Accepts (extend expr rounds ctx least left) ws ws₁ fun o =>
      ∃ longer, o = some longer ∧ R longer)
    (hk : ∀ longer, R longer → Accepts (climb expr rounds ctx least m longer) ws₁ ws' P) :
    Accepts (climb expr rounds ctx least (m + 1) left) ws ws' P := by
  refine h.bind fun o ho => ?_
  obtain ⟨longer, rfl, hr⟩ := ho
  exact hk longer hr

end

/-! ## Phrases that read as trees -/

/-- Whether a phrase, at a place that asks for a precedence, reads as a tree. A reader comes to the end of the
phrase with the tree in hand; whether it then stops or extends the tree by what follows is not said. -/
structure Phrase.ReadsAs (p : Phrase) (asked : Nat) (e : Node) : Prop where
  /-- A reader accepts the phrase with what follows if it accepts what follows after the tree. -/
  reads {lead : Lead} {ctx : Context} {least n : Nat} {ws ws' : List Word} {Q : Node → Prop}
    (hl : least ≤ e.floor asked) (hs : e.Stands asked ctx ws) (hn : (p lead ++ ws).length ≤ n)
    (hk : ∀ m e', ws.length < m → e'.erase = e.erase →
      Accepts (climb (expression n) (n + 1) ctx least m e') ws ws' Q) :
    Accepts (expression (n + 1) ctx least) (p lead ++ ws) ws' Q

namespace Phrase.ReadsAs

variable {p : Phrase} {asked least : Nat} {e : Node} {ws : List Word}

/-- If what follows the phrase does not extend it, the reader answers the tree. -/
theorem accepts (h : p.ReadsAs asked e) (lead : Lead) {ctx : Context} {k : Nat} (hl : least ≤ e.floor asked)
    (hl' : least ≤ 19) (hs : e.Stands asked ctx ws) (hw : Follows ctx.pairs least ws)
    (hk : (p lead ++ ws).length < k) :
    Accepts (expression k ctx least) (p lead ++ ws) ws (·.erase = e.erase) := by
  obtain ⟨n, rfl⟩ : ∃ n, k = n + 1 := ⟨k - 1, by omega⟩
  refine h.reads hl hs (Nat.le_of_lt_succ hk) fun m e' hm he => ?_
  obtain ⟨m, rfl⟩ : ∃ m', m = m' + 1 := ⟨m - 1, by omega⟩
  exact (accepts_climb_stop hw hl' m).mono fun e'' he' => he' ▸ he

theorem accepts_alone (h : p.ReadsAs 0 e) (lead : Lead) {ctx : Context} {close : Symbol} {k : Nat}
    (hp : e.endsInPair = true → ctx.pairs = true) (hc : ctx.constructs = true) (hw : Accepts.EndsItem close ws)
    (hclose : close ∈ Symbol.enders) (hk : (p lead ++ ws).length < k) :
    Accepts (expression k ctx 0) (p lead ++ ws) ws (·.erase = e.erase) :=
  h.accepts lead (Nat.zero_le _) (Nat.zero_le _) (.of_endsItem hw hclose hp hc) (.of_endsItem hw hclose) hk

theorem of_primary
    (h : ∀ {lead ctx n ws}, e.Stands asked ctx ws → (p lead ++ ws).length ≤ n →
      Accepts (primary (expression n) (n + 1) ctx) (p lead ++ ws) ws (·.erase = e.erase)) :
    p.ReadsAs asked e := by
  refine ⟨fun {lead ctx least n ws ws' Q} _ hs hn hk => ?_⟩
  refine (h hs hn).bind fun e' he => hk (n + 1) e' ?_ he
  rw [List.length_append] at hn
  omega

theorem enclosed (h : p.ReadsAs 0 e) (he : isPair e = false) (ha : 0 < asked) : p.enclosed.ReadsAs asked e := by
  refine of_primary fun {lead ctx n ws} hs hn => ?_
  have hpair : e.endsInPair = true → Context.nested.pairs = true := fun hp => absurd (hs.bare hp ha) (by simp [he])
  simp only [Phrase.enclosed, List.cons_append, List.append_assoc, List.length_cons] at hn ⊢
  refine Accepts.here.bind fun l hl => ?_
  simp only [hl.token, Word.symbol]
  refine Accepts.take.bind fun _ _ => ?_
  refine (h.accepts_alone .tight hpair rfl ⟨_, _, _, .inr rfl, rfl⟩
    (show Symbol.closeParen ∈ Symbol.enders by decide) hn).bind fun e' he => ?_
  exact Accepts.expect.bind fun _ _ => Accepts.pure he

/-- A phrase in parentheses where its precedence is too low for the place reads as a tree if the phrase itself
does wherever its precedence is high enough. -/
theorem encloseBelow {own : Nat} (he : isPair e = false) (h : ∀ {asked}, asked ≤ own → p.ReadsAs asked e) :
    (p.encloseBelow asked own).ReadsAs asked e := by
  unfold Phrase.encloseBelow
  split
  · next hn => exact (h (Nat.zero_le own)).enclosed he (Nat.zero_lt_of_lt hn)
  · next hn => exact h (Nat.not_lt.1 hn)

end Phrase.ReadsAs

/-! ## Forms -/

open Phrase

section

variable {asked : Nat} {span : Span}

theorem accepts_primary_literal {expr : ExpressionReader} {rounds : Nat} {ctx : Context} {w : Word} {ws : List Word}
    {value : Literal} (h : literal? w.token = some value) :
    Accepts (primary expr rounds ctx) (w :: ws) ws (·.erase = .literal .nowhere value) := by
  refine Accepts.here.bind fun l hl => ?_
  rw [hl.token]
  generalize w.token = token at h
  unfold literal? at h
  split at h
  case h_6 => cases h
  all_goals
    cases h
    exact Accepts.take.bind fun _ _ => Accepts.pure rfl

theorem readsAs_literal {value : Literal} (hu : value.Unsigned) (hr : value.Restored) :
    value.words.ReadsAs asked (.literal span value) := by
  obtain ⟨w, hw, hwords⟩ := Literal.words_eq hu hr
  rw [hwords]
  exact ReadsAs.of_primary fun _ _ => accepts_primary_literal hw

theorem readsAs_ident {name : String} (h : Printer.isName name) :
    ReadsAs (fun lead => [.name lead name]) asked (.ident span name) := by
  refine ReadsAs.of_primary fun {lead ctx n ws} hs hn => Accepts.here.bind fun l hl => ?_
  rw [hl.token, show (Word.name lead name).token = .ident name from Token.ofWord_of_isName h]
  refine (Accepts.name h).bind fun head hh => (Accepts.isAt _).bind fun b hb => ?_
  have hparen : b = false := hb.trans (hs.follows.not_open Node.reach_le_twenty .openParen (by decide))
  rw [hparen, if_neg Bool.false_ne_true]
  refine accepts_fieldsAhead.bind fun b hb => ?_
  have hfields : b = false := hb.trans (hs.name (Node.endsIn_self rfl))
  rw [hfields, Bool.and_false, if_neg Bool.false_ne_true]
  exact Accepts.pure (by rw [Node.erase, Node.erase, hh])

theorem readsAs_unary {op : UnaryOp} {operand : Node} {p : Phrase} (hl : Node.Legible (.unary span op operand))
    (hp : p.ReadsAs (Printer.precedence .pow) operand) (h : asked ≤ Printer.unaryPrecedence) :
    ReadsAs (fun lead => .symbol lead op.sign :: p .tight) asked (.unary span op operand) := by
  obtain ⟨hf, hr, -⟩ := unary_table h
  have hpair : operand.endsInPair = false := hl.endsInPair_eq_false List.mem_cons_self nofun
  refine ReadsAs.of_primary fun {lead ctx n ws} hs hn => Accepts.here.bind fun l hl' => ?_
  simp only [List.cons_append, List.length_cons] at hn
  have ho : Accepts (expression n ctx operandPower) (p .tight ++ ws) ws (·.erase = operand.erase) :=
    hp.accepts .tight (hf.trans_eq (Node.floor_eq hpair).symm) (by decide) (hs.operand hl h) (hs.follows.mono hr) hn
  rw [hl'.token]
  cases op
  all_goals
    refine Accepts.take.bind fun _ _ => ho.bind fun e' he => Accepts.pure ?_
    simp only [Node.erase, he]

theorem readsAs_quoted {body : Node} {p : Phrase} (hl : Node.Legible (.quoted span body))
    (hp : p.ReadsAs Printer.memberPrecedence body) :
    ReadsAs (fun lead => .symbol lead .hash :: p .tight) asked (.quoted span body) := by
  have hpair : body.endsInPair = false := hl.endsInPair_eq_false List.mem_cons_self nofun
  refine ReadsAs.of_primary fun {lead ctx n ws} hs hn => Accepts.here.bind fun l hl' => ?_
  simp only [List.cons_append, List.length_cons] at hn
  have ho : Accepts (expression n ctx operandPower) (p .tight ++ ws) ws (·.erase = body.erase) :=
    hp.accepts .tight (by rw [Node.floor_eq hpair]; decide) (by decide) (hs.quotedBody hl)
      (hs.follows.mono (Nat.min_le_left _ _)) hn
  rw [hl'.token]
  refine Accepts.take.bind fun _ _ => ho.bind fun e' he => Accepts.pure ?_
  simp only [Node.erase, he]

/-- The words of a connective between those of its sides. -/
theorem readsAs_connective (connective : Connective) {s : Symbol} {lead' : Lead} {e left right : Node}
    {leftAsked rightAsked : Nat} {p q : Phrase}
    (hp : p.ReadsAs leftAsked left) (hq : q.ReadsAs rightAsked right) (hlead : lead'.breaks = false)
    (hs : ∀ {ctx : Context} {ws}, e.Stands asked ctx ws → Connective.ofSymbol? ctx.pairs s = some connective)
    (hleft : ∀ {ctx : Context} {ws vs}, e.Stands asked ctx ws → left.Stands leftAsked ctx (.symbol lead' s :: vs))
    (hright : ∀ {ctx : Context} {ws}, e.Stands asked ctx ws → right.Stands rightAsked ctx ws)
    (hfloor : e.floor asked ≤ left.floor leftAsked) (hpower : e.floor asked ≤ connective.powers.1)
    (hrightFloor : connective.powers.2 ≤ right.floor rightAsked) (hbound : connective.powers.2 ≤ 19)
    (hreach : e.reach asked ≤ connective.powers.2)
    (htarget : ∀ left' : Node, left'.erase = left.erase → connective = .assign → left'.isTarget = true)
    (hjoin : ∀ left' right' : Node, left'.erase = left.erase → right'.erase = right.erase →
      (join left' connective right').erase = e.erase) :
    ReadsAs (fun lead => p lead ++ .symbol lead' s :: q .space) asked e := by
  refine ⟨fun {lead ctx least n ws ws' Q} hleast hstands hn hk => ?_⟩
  simp only [List.append_assoc, List.cons_append] at hn ⊢
  -- The reader that comes to the end of the left side is the one that takes the connective.
  refine hp.reads (Nat.le_trans hleast hfloor) (hleft hstands) hn fun m left' hm he => ?_
  obtain ⟨m, rfl⟩ : ∃ m', m = m' + 1 := ⟨m - 1, by omega⟩
  have hr := hq.accepts .space (k := n) hrightFloor hbound (hright hstands) (hstands.follows.mono hreach)
    (by simp at hn ⊢; omega)
  refine accepts_climb_step
    (accepts_extend_connective lead' (hs hstands) hlead (Nat.le_trans hleast hpower) (htarget left' he) hr) ?_
  rintro longer ⟨right', rfl, he'⟩
  exact hk m _ (by simp at hm; omega) (hjoin left' right' he he')

theorem readsAs_binary {op : BinaryOp} {left right : Node} {p q : Phrase}
    (hl : Node.Legible (.binary span op left right)) (hp : p.ReadsAs (Printer.operandPrecedences op).1 left)
    (hq : q.ReadsAs (Printer.operandPrecedences op).2 right) (h : asked ≤ Printer.precedence op) :
    ReadsAs (fun lead => p lead ++ .symbol .space op.symbol :: q .space) asked
      (.binary span op left right) := by
  obtain ⟨hpower, hfloor, -, hright, hreach, -⟩ := tables_agree op h
  refine readsAs_connective (.binary op) hp hq rfl (fun _ => by cases op <;> rfl)
    (fun hs => hs.left hl h _ _) (fun hs => hs.right hl h) ?_ hpower ?_ (by cases op <;> decide) hreach nofun ?_
  · rwa [Node.floor_eq (Node.Stands.left_endsInPair hl)]
  · rwa [Node.floor_eq (Node.Stands.right_endsInPair hl)]
  · intro left' right' he he'
    simp only [join, Node.erase, he, he']

mutual

theorem Node.holdsCapture_erase : (e : Node) → e.erase.holdsCapture = e.holdsCapture
  | .construct _ _ fields => by
    rw [Node.erase, Node.holdsCapture, Node.holdsCapture]
    exact fieldsHoldCapture_erase fields
  | .literal .. | .ident .. | .binary .. | .unary .. | .assign .. | .field .. | .call .. | .send .. | .block .. | .cases ..
  | .typeDecl .. | .function .. | .capture .. | .refine .. | .quoted .. | .array .. | .object .. | .pair .. => rfl

theorem Node.fieldsHoldCapture_erase :
    (fields : List (Located String × Node)) → Node.fieldsHoldCapture (Node.eraseEntries fields) = Node.fieldsHoldCapture fields
  | [] => rfl
  | (_, value) :: fields => congrArg₂ (· || ·) (holdsCapture_erase value) (fieldsHoldCapture_erase fields)

end

theorem Node.isTarget_erase (e : Node) : e.erase.isTarget = e.isTarget := by
  cases e with
  | construct span name fields => exact holdsCapture_erase (.construct span name fields)
  | _ => rfl

theorem readsAs_assign {target value : Node} {p q : Phrase} (hl : Node.Legible (.assign span target value))
    (hp : p.ReadsAs 1 target) (hq : q.ReadsAs 0 value) :
    ReadsAs (fun lead => p lead ++ .symbol .space .assign :: q .space) 0 (.assign span target value) := by
  have htarget := hl.wellFormed.target rfl
  refine readsAs_connective .assign hp hq rfl (fun _ => rfl)
    (fun hs => hs.target hl _ _) (fun hs => hs.value) ?_ (Nat.le_refl 2) ?_ (by decide) (Nat.zero_le _) ?_ ?_
  · exact Node.le_floor (k := 2) (by decide) (by decide)
  · exact Node.le_floor (k := 1) (by decide) (by decide)
  · intro target' he _
    rw [← target'.isTarget_erase, he, target.isTarget_erase, htarget]
  · intro left' right' he he'
    simp only [join, Node.erase, he, he']

theorem readsAs_pair {key value : Node} {p q : Phrase} (hl : Node.Legible (.pair span key value))
    (hp : p.ReadsAs 1 key) (hq : q.ReadsAs 1 value) :
    ReadsAs (fun lead => p lead ++ .symbol .tight .colon :: q .space) asked (.pair span key value) := by
  refine readsAs_connective .pair hp hq rfl (fun hs => ?_) (fun hs => hs.key hl _ _)
    (fun hs => hs.pairValue hl) ?_ (Nat.le_refl 4) ?_ (by decide) (Nat.le_refl 5) nofun ?_
  · rw [hs.pairs rfl]
    rfl
  · exact Node.le_floor (k := 4) (by decide) (by decide)
  · rw [Node.floor_eq (Node.Stands.pairValue_endsInPair hl).2]
    decide
  · intro left' right' he he'
    simp only [join, Node.erase, he, he']

end

end DispatchLang
