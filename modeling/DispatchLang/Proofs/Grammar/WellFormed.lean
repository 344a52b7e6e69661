import DispatchLang.Grammar.Expression
import DispatchLang.Proofs.Node.Parts

/-!
# Trees that are read are well-formed

One kind of node serves as expression and as pattern, and a reader may answer a pair `key: value` that no list takes in.
What the readers of expressions make of a text is *well-formed* nevertheless: only names and constructions that hold a
capture are assigned to, and the arms of a match begin with patterns.

Pairs are a different matter. Whoever reads an element of a list allows pairs in it, and the right side of an assignment
is read in the context of the assignment. So in `[x := a: 1]` the pair becomes the value of the assignment, where no list
looks for it. That is the only way in which a pair is left over. Nothing can follow a pair but a colon or an assignment,
since the value of the pair has been read as far as possible with all operators that bind more tightly
(`Cursor.Ends`), so no operator, no member access and no call gets hold of one.

## Main definitions

* `Node.isPattern`: a node is a capture, a name, a literal or a construction of patterns.
* `Node.WellFormed`: what is true of a node and its children in a text that has been read.
* `Reader.Yields`: what is known of that which a reader accepts.

## Main results

* `Program.parse_wellFormed`: all nodes of a program that has been read are well-formed, and no statement ends in a pair.
-/

namespace DispatchLang

/-! ## Well-formed nodes -/

namespace Node

mutual

/-- Whether a node is a pattern: a capture, a name, a literal, or a construction of patterns. -/
def isPattern : Node → Bool
  | .capture _ _ | .ident _ _ | .literal _ _ => true
  | .refine _ _ pattern => isPattern pattern
  | .construct _ _ fields => arePatterns fields
  | _ => false

/-- Whether all fields of a construction are patterns. -/
def arePatterns : List (Located String × Node) → Bool
  | [] => true
  | (_, pattern) :: fields => isPattern pattern && arePatterns fields

end

theorem arePatterns_iff {fields : List (Located String × Node)} :
    arePatterns fields = true ↔ ∀ field ∈ fields, field.2.isPattern = true := by
  induction fields with
  | nil => simp [arePatterns]
  | cons field fields ih => rw [arePatterns, Bool.and_eq_true, List.forall_mem_cons, ih]

def endsInPair : Node → Bool
  | .pair _ _ _ => true
  | .assign _ _ value => endsInPair value
  | _ => false

/-- A node may have a child that ends in a pair: an array has one among its elements, which is no pair itself; an
assignment has it for its value, and a pair for its key. -/
def MayHold (node child : Node) : Prop :=
  match node with
  | .array _ _ => Grammar.isPair child = false
  | .assign _ _ value => child = value
  | .pair _ key _ => child = key
  | _ => False

/-- What is assigned to is a name or a construction that holds a capture, arms begin with patterns, and children only end
in pairs where they may. -/
structure WellFormed (node : Node) : Prop where
  target : ∀ {span : Span} {target value : Node}, node = .assign span target value → target.isTarget = true
  arms : ∀ {span : Span} {scrutinee : Node} {arms : List (Node × Node)}, node = .cases span scrutinee arms →
    ∀ arm ∈ arms, arm.1.isPattern = true
  pairs : ∀ child ∈ node.children, child.endsInPair = true → node.MayHold child

/-- A node and all nodes inside it have a property. -/
def Everywhere (p : Node → Prop) (node : Node) : Prop := p node ∧ ∀ n ∈ node.inside, p n

variable {p q : Node → Prop} {node : Node}

theorem everywhere_iff : node.Everywhere p ↔ p node ∧ ∀ child ∈ node.children, child.Everywhere p := by
  rw [Everywhere, inside_eq]
  refine and_congr_right fun _ => ⟨fun h child hchild => ?_, fun h n hn => ?_⟩
  · exact ⟨h child (mem_insideAll.mpr ⟨child, hchild, .inl rfl⟩),
      fun n hn => h n (mem_insideAll.mpr ⟨child, hchild, .inr hn⟩)⟩
  · obtain ⟨child, hchild, rfl | hn⟩ := mem_insideAll.mp hn
    · exact (h n hchild).1
    · exact (h child hchild).2 n hn

theorem Everywhere.mono (h : node.Everywhere p) (hpq : ∀ n, p n → q n) : node.Everywhere q :=
  ⟨hpq node h.1, fun n hn => hpq n (h.2 n hn)⟩

theorem Everywhere.child (h : node.Everywhere p) {child : Node} (hc : child ∈ node.children) : child.Everywhere p :=
  (everywhere_iff.mp h).2 child hc

/-- What nodes hand on to their children, all nodes inside them have. -/
theorem everywhere_of_child (h : ∀ node, p node → ∀ child ∈ node.children, p child) (node : Node) (hnode : p node) :
    node.Everywhere p :=
  everywhere_iff.mpr ⟨hnode, fun child hc => everywhere_of_child h child (h node hnode child hc)⟩
termination_by node
decreasing_by exact sizeOf_lt_of_mem_children hc

theorem forall_nodes_iff {program : Program} :
    (∀ node ∈ program.nodes, p node) ↔ ∀ statement ∈ program, statement.Everywhere p := by
  refine ⟨fun h statement hs => ⟨h _ (Program.mem_nodes_of_mem hs), fun n hn => ?_⟩, fun h n hn => ?_⟩
  · exact h n (mem_insideAll.mpr ⟨statement, hs, .inr hn⟩)
  · obtain ⟨statement, hs, rfl | hn⟩ := mem_insideAll.mp hn
    · exact (h n hs).1
    · exact (h statement hs).2 n hn

/-- A node and all nodes inside it are well-formed. -/
abbrev Sound (node : Node) : Prop := node.Everywhere WellFormed

/-- Of a node that is neither an assignment nor a match, only the pairs among its children matter. -/
theorem wellFormed_of_pairs (hassign : ∀ span target value, node ≠ .assign span target value)
    (hcases : ∀ span scrutinee arms, node ≠ .cases span scrutinee arms)
    (h : ∀ child ∈ node.children, child.endsInPair = true → node.MayHold child) : node.WellFormed :=
  ⟨fun heq => (hassign _ _ _ heq).elim, fun heq => (hcases _ _ _ heq).elim, h⟩

/-- A node is sound and does not end in a pair. -/
def Plain (node : Node) : Prop := node.Sound ∧ node.endsInPair = false

theorem Plain.absurd (h : node.Plain) {a : Prop} (hends : node.endsInPair = true) : a := by
  rw [h.2] at hends
  cases hends

theorem sound_of_children (hassign : ∀ span target value, node ≠ .assign span target value)
    (hcases : ∀ span scrutinee arms, node ≠ .cases span scrutinee arms)
    (h : ∀ child ∈ node.children, child.Plain) : node.Sound :=
  everywhere_iff.mpr ⟨wellFormed_of_pairs hassign hcases fun child hc => (h child hc).absurd,
    fun child hc => (h child hc).1⟩

theorem plain_of_isTarget {target : Node} (h : target.isTarget = true) (hs : target.Sound) : target.Plain := by
  refine ⟨hs, ?_⟩
  cases target with
  | ident _ _ | construct _ _ _ => rfl
  | _ => cases h

theorem sound_assign {span : Span} {target value : Node} (htarget : target.isTarget = true) (ht : target.Sound)
    (hv : value.Sound) : (assign span target value).Sound := by
  refine everywhere_iff.mpr ⟨⟨fun heq => ?_, nofun, ?_⟩, ?_⟩
  · cases heq
    exact htarget
  · exact List.forall_mem_cons.mpr ⟨(plain_of_isTarget htarget ht).absurd, List.forall_mem_singleton.mpr fun _ => rfl⟩
  · exact List.forall_mem_cons.mpr ⟨ht, List.forall_mem_singleton.mpr hv⟩

theorem sound_pair {span : Span} {key value : Node} (hk : key.Sound) (hv : value.Plain) :
    (pair span key value).Sound := by
  refine everywhere_iff.mpr ⟨wellFormed_of_pairs nofun nofun ?_, ?_⟩
  · exact List.forall_mem_cons.mpr ⟨fun _ => rfl, List.forall_mem_singleton.mpr hv.absurd⟩
  · exact List.forall_mem_cons.mpr ⟨hk, List.forall_mem_singleton.mpr hv.1⟩

theorem sound_array {span : Span} {elements : List Node}
    (h : ∀ element ∈ elements, element.Sound ∧ Grammar.isPair element = false) : (array span elements).Sound :=
  everywhere_iff.mpr ⟨wellFormed_of_pairs nofun nofun fun child hc _ => (h child hc).2, fun child hc => (h child hc).1⟩

theorem sound_cases {span : Span} {scrutinee : Node} {arms : List (Node × Node)} (hs : scrutinee.Plain)
    (ha : ∀ arm ∈ arms, arm.1.isPattern = true ∧ arm.1.Plain ∧ arm.2.Plain) : (cases span scrutinee arms).Sound := by
  have hchildren : ∀ child ∈ (cases span scrutinee arms).children, child.Plain := by
    refine List.forall_mem_cons.mpr ⟨hs, fun child hc => ?_⟩
    obtain ⟨arm, harm, hc⟩ := List.mem_flatMap.mp hc
    obtain ⟨-, hpattern, hbody⟩ := ha arm harm
    exact List.forall_mem_cons.mpr ⟨hpattern, List.forall_mem_singleton.mpr hbody⟩ child hc
  refine everywhere_iff.mpr ⟨⟨nofun, fun heq => ?_, fun child hc => (hchildren child hc).absurd⟩,
    fun child hc => (hchildren child hc).1⟩
  cases heq
  exact fun arm harm => (ha arm harm).1

mutual

/-- Patterns are sound, as nothing is assigned to in them and there are no pairs. -/
theorem sound_of_isPattern (pattern : Node) (h : pattern.isPattern = true) :
    pattern.Plain := by
  cases pattern with
  | capture _ _ | ident _ _ | literal _ _ =>
    exact ⟨sound_of_children nofun nofun (List.forall_mem_nil _), rfl⟩
  | refine _ _ inner =>
    exact ⟨sound_of_children nofun nofun (List.forall_mem_singleton.mpr (sound_of_isPattern inner h)), rfl⟩
  | construct _ _ fields =>
    exact ⟨sound_of_children nofun nofun (List.forall_mem_map.mpr (sound_of_arePatterns fields h)), rfl⟩
  | _ => cases h
termination_by structural pattern

theorem sound_of_arePatterns (fields : List (Located String × Node)) (h : arePatterns fields = true) :
    ∀ field ∈ fields, field.2.Plain := by
  cases fields with
  | nil => exact List.forall_mem_nil _
  | cons field fields =>
    obtain ⟨name, pattern⟩ := field
    rw [arePatterns, Bool.and_eq_true] at h
    exact List.forall_mem_cons.mpr ⟨sound_of_isPattern pattern h.1, sound_of_arePatterns fields h.2⟩
termination_by structural fields

end

end Node

/-! ## What readers accept -/

namespace Reader

/-- If a reader accepts what follows a cursor, then `P` holds of its answer and of the cursor that it leaves. -/
def Yields {α : Type} (c : Cursor) (r : Reader α) (P : α → Cursor → Prop) : Prop := ∀ a c', r c = .ok (a, c') → P a c'

namespace Yields

variable {α β : Type} {c : Cursor} {r : Reader α} {f : α → Reader β} {P : α → Cursor → Prop} {Q : β → Cursor → Prop}

theorem pure {a : α} (h : P a c) : Yields c (Pure.pure a) P := by
  rintro _ _ ⟨⟩
  exact h

theorem bind (hr : Yields c r P) (hf : ∀ a c', P a c' → Yields c' (f a) Q) : Yields c (r >>= f) Q := by
  intro b c'' h
  change (r c).bind (fun (a, c') => f a c') = .ok (b, c'') at h
  cases hrun : r c with
  | error e =>
    rw [hrun] at h
    cases h
  | ok result =>
    obtain ⟨a, c'⟩ := result
    rw [hrun] at h
    exact hf a c' (hr a c' hrun) b c'' h

/-- What comes first may be passed over if nothing has to be known of it. -/
theorem skip (hf : ∀ a c', Yields c' (f a) Q) : Yields c (r >>= f) Q :=
  bind (P := fun _ _ => True) (fun _ _ _ => trivial) fun a c' _ => hf a c'

theorem mono {P' : α → Cursor → Prop} (h : Yields c r P) (hP : ∀ a c', P a c' → P' a c') : Yields c r P' :=
  fun a c' hrun => hP a c' (h a c' hrun)

/-- To look at the cursor does not move it. -/
theorem look {f : Lexeme → Reader β} (h : Yields c (f c.here) Q) : Yields c (here >>= f) Q := h

theorem get {f : Cursor → Reader β} (h : Yields c (f c) Q) : Yields c (MonadState.get >>= f) Q := h

theorem fail (cause : SyntaxCause) (span : Span) : Yields c (Reader.fail cause span : Reader α) P := nofun

theorem failHere (cause : Token → SyntaxCause) : Yields c (Reader.failHere cause : Reader α) P := nofun

/-- All that is collected has a property if each round gives only things that have it. -/
theorem collect {p : α → Prop} {item : Bool → Reader (Option α)}
    (h : ∀ first c, Yields c (item first) fun found _ => ∀ a ∈ found, p a) (n : Nat) (first : Bool) :
    Yields c (Reader.collect item n first) fun as _ => ∀ a ∈ as, p a := by
  induction n generalizing c first with
  | zero => exact look (fail _ _)
  | succ n ih =>
    refine (h first c).bind fun found c' hfound => ?_
    cases found with
    | none => exact pure (List.forall_mem_nil _)
    | some a => exact ih false |>.bind fun as c'' has => pure (List.forall_mem_cons.mpr ⟨hfound a rfl, has⟩)

section

variable {p : α → Prop} {item : Reader α} (h : ∀ c, Yields c item fun a _ => p a) (close : Symbol)
include h

theorem some_item : Yields c (do return some (← item)) fun found _ => ∀ a ∈ found, p a :=
  (h c).bind fun _ _ ha => pure fun _ hb => Option.some.inj hb ▸ ha

theorem separated ( trailing : Bool) (rounds : Nat) :
    Yields c (Reader.separated close trailing item rounds) fun as _ => ∀ a ∈ as, p a := by
  refine collect (fun first c => skip fun closed c => ?_) rounds true
  have hnone {c : Cursor} : Yields c (Pure.pure none) fun (found : Option α) _ => ∀ a ∈ found, p a := pure nofun
  split
  · exact hnone
  · split
    · refine skip fun _ c => ?_
      cases trailing with
      | false => exact some_item h
      | true =>
        refine skip fun closed c => ?_
        split
        · exact hnone
        · exact some_item h
    · exact some_item h

theorem lines (rounds : Nat) : Yields c (Reader.lines close item rounds) fun as _ => ∀ a ∈ as, p a := by
  refine collect (fun first c => skip fun _ c => skip fun closed c => ?_) rounds true
  split
  · exact pure nofun
  · refine (h _).bind fun a c ha => look ?_
    split
    · exact pure fun b hb => Option.some.inj hb ▸ ha
    · exact failHere _

end

end Yields

end Reader

/-! ## Patterns -/

namespace Grammar

open Reader

variable {c : Cursor}

theorem constructFields_yields {p : Node → Prop} {item : Reader Node} (h : ∀ c, Yields c item fun node _ => p node)
    (rounds : Nat) : Yields c (constructFields item rounds) fun fields _ => ∀ field ∈ fields.1, p field.2 := by
  refine Yields.skip fun _ c => ?_
  have hfield (c : Cursor) : Yields c (do
      let head ← name
      let _ ← expect .colon
      return (head, ← item)) fun field _ => p field.2 :=
    Yields.skip fun head c => Yields.skip fun _ c => (h c).bind fun node _ hnode => Yields.pure hnode
  exact (Yields.lines hfield .closeBrace rounds).bind fun fields c hfields => Yields.skip fun _ c => Yields.pure hfields

theorem captureWith_yields {pattern : Reader Node} (h : ∀ c, Yields c pattern fun node _ => node.isPattern = true) :
    Yields c (captureWith pattern) fun node _ => node.isPattern = true := by
  have hlimit (bound : Option String) (span : Span) (c : Cursor) : Yields c (do
      let l ← here
      if !l.afterBreak && beginsRefinement l.token then
        let inner ← pattern
        return Node.refine (span.cover inner.span) bound inner
      else return Node.capture span bound) fun node _ => node.isPattern = true := by
    refine Yields.look ?_
    split
    · exact (h c).bind fun inner _ hinner => Yields.pure hinner
    · exact Yields.pure rfl
  refine Yields.skip fun first c => Yields.look ?_
  dsimp only
  split
  · exact Yields.skip fun head c => hlimit _ _ c
  · exact hlimit _ _ c

theorem pattern_yields (n : Nat) : Yields c (pattern n) fun node _ => node.isPattern = true := by
  induction n generalizing c with
  | zero => exact Yields.look (Yields.fail _ _)
  | succ n ih =>
    refine Yields.look ?_
    split
    · exact captureWith_yields fun c => ih
    · refine Yields.skip fun head c => Yields.skip fun ahead c => ?_
      split
      · refine (constructFields_yields (fun c => ih) (n + 1)).bind fun fields _ hfields => Yields.pure ?_
        exact Node.arePatterns_iff.mpr hfields
      · exact Yields.pure rfl
    · refine Yields.skip fun _ c => Yields.look ?_
      split
      · exact Yields.skip fun _ c => Yields.pure rfl
      · exact Yields.failHere _
    · split
      · exact Yields.skip fun _ c => Yields.pure rfl
      · exact Yields.failHere _

end Grammar

/-! ## Where expressions end -/

/-- An expression that is read with the given least power, in a context that allows pairs or not, ends at a cursor: no
member access and no operator that binds tightly enough continues it. -/
def Cursor.Ends (pairs : Bool) (least : Nat) (c : Cursor) : Prop :=
  (c.here.afterBreak && !c.here.token.continuesLine) = true ∨
    match c.here.token with
    | .symbol .dot | .symbol .openBracket => False
    | .symbol s => ∀ connective, Grammar.Connective.ofSymbol? pairs s = some connective → connective.powers.1 < least
    | _ => True

theorem Cursor.ends_of_symbol {pairs : Bool} {least : Nat} {c : Cursor} {symbol : Symbol}
    (htoken : c.here.token = .symbol symbol) (hdot : symbol ≠ .dot) (hbracket : symbol ≠ .openBracket)
    (h : ∀ connective, Grammar.Connective.ofSymbol? pairs symbol = some connective → connective.powers.1 < least) :
    c.Ends pairs least := by
  refine .inr ?_
  rw [htoken]
  cases symbol with
  | dot => exact hdot rfl
  | openBracket => exact hbracket rfl
  | _ => exact h

theorem Cursor.Ends.mono {pairs : Bool} {least least' : Nat} {c : Cursor} (h : c.Ends pairs least)
    (hle : least ≤ least') : c.Ends pairs least' := by
  refine h.imp_right fun h => ?_
  split at h
  · exact h
  · exact h
  · exact fun connective hs => Nat.lt_of_lt_of_le (h connective hs) hle
  · trivial

namespace Grammar

open Reader

variable {c : Cursor} {ctx : Context} {least : Nat} {expr : ExpressionReader}

/-- What is read so far of an expression: it is sound, and if it ends in a pair, then pairs are allowed, the power asked
for is no greater than that of a pair, and nothing follows that binds more tightly than a pair. -/
structure Partial (ctx : Context) (least : Nat) (node : Node) (c : Cursor) : Prop where
  sound : node.Sound
  pairs : node.endsInPair = true → ctx.pairs = true ∧ least ≤ 4 ∧ c.Ends true 5

/-- What is read of an expression in the end. -/
structure Whole (ctx : Context) (least : Nat) (node : Node) (c : Cursor) : Prop extends Partial ctx least node c where
  ends : c.Ends ctx.pairs least

theorem Partial.of_plain {node : Node} (h : node.Plain) : Partial ctx least node c :=
  ⟨h.1, h.absurd⟩

/-- Where no pairs are allowed, or something is asked for that binds more tightly, an expression does not end in a pair. -/
theorem Partial.plain {node : Node} (h : Partial ctx least node c) (hctx : ctx.pairs = true → 4 < least) :
    node.Plain := by
  refine ⟨h.sound, Bool.eq_false_iff.mpr fun hends => ?_⟩
  obtain ⟨hpairs, hle, -⟩ := h.pairs hends
  exact absurd (hctx hpairs) (Nat.not_lt.mpr hle)

def ReadsWell (expr : ExpressionReader) : Prop := ∀ ctx least c, Yields c (expr ctx least) (Whole ctx least)

/-! ## Compound forms -/

section

variable (hexpr : ReadsWell expr) (rounds : Nat)
include hexpr

theorem nested_yields (least : Nat) (c : Cursor) :
    Yields c (expr .nested least) fun node _ => node.Plain :=
  (hexpr .nested least c).mono fun _ _ h => h.plain nofun

theorem arguments_yields :
    Yields c (arguments expr rounds) fun args _ => ∀ arg ∈ args.1, arg.Plain :=
  Yields.skip fun _ _ => (Yields.separated (nested_yields hexpr 0) .closeParen true rounds).bind fun _ _ hargs =>
    Yields.skip fun _ _ => Yields.pure hargs

theorem afterName_yields (head : Located String) :
    Yields c (afterName expr rounds ctx head) fun node _ => node.Plain := by
  refine Yields.skip fun isCall c => ?_
  split
  · refine (arguments_yields hexpr rounds).bind fun (args, close) c hargs => Yields.pure ⟨?_, rfl⟩
    exact Node.sound_of_children nofun nofun hargs
  · have hname {c : Cursor} : Yields c (Pure.pure (Node.ident head.span head.val)) fun node _ => node.Plain :=
      Yields.pure ⟨Node.sound_of_children nofun nofun (List.forall_mem_nil _), rfl⟩
    cases ctx.constructs with
    | false => exact hname
    | true =>
      refine Yields.skip fun ahead c => ?_
      split
      · refine (constructFields_yields (nested_yields hexpr 0) rounds).bind fun (fields, close) c hfields => ?_
        exact Yields.pure ⟨Node.sound_of_children nofun nofun (List.forall_mem_map.mpr hfields), rfl⟩
      · exact hname

end

/-- The values of an object are what stands on the right sides of pairs. -/
theorem entries_plain {elements : List Node} {fields : List (Located String × Node)}
    (h : ∀ element ∈ elements, element.Sound ∧ isPair element = true) (he : entries elements = .ok fields) :
    ∀ field ∈ fields, field.2.Plain := by
  have hvalue {span : Span} {key value : Node} (hs : (Node.pair span key value).Sound) (hk : key.endsInPair = false) :
      value.Plain := by
    refine ⟨hs.child (List.mem_cons_of_mem _ List.mem_cons_self), Bool.eq_false_iff.mpr fun hends => ?_⟩
    -- A pair may only have a pair for its key.
    have heq : value = key := hs.1.pairs value (List.mem_cons_of_mem _ List.mem_cons_self) hends
    rw [heq, hk] at hends
    cases hends
  induction elements generalizing fields with
  | nil =>
    cases he
    exact List.forall_mem_nil _
  | cons element elements ih =>
    obtain ⟨⟨hsound, hpair⟩, hrest⟩ := List.forall_mem_cons.mp h
    have hentry {key : Located String} {value : Node} (hv : value.Plain)
        (he : (do return (key, value) :: (← entries elements)) = Except.ok fields) : ∀ field ∈ fields, field.2.Plain := by
      cases hr : entries elements with
      | error e =>
        rw [hr] at he
        cases he
      | ok rest =>
        rw [hr] at he
        cases he
        exact List.forall_mem_cons.mpr ⟨hv, ih hrest hr⟩
    cases element with
    | pair span key value =>
      cases key with
      | ident _ _ => exact hentry (hvalue hsound rfl) he
      | literal _ literal =>
        cases literal with
        | string _ => exact hentry (hvalue hsound rfl) he
        | _ => cases he
      | _ => cases he
    | _ => cases hpair

/-- An array or an object is sound if its elements are. -/
theorem ofElements_plain {span : Span} {elements : List Node} {node : Node} (h : ∀ element ∈ elements, element.Sound)
    (he : ofElements span elements = .ok node) : node.Plain := by
  rw [ofElements] at he
  split at he
  · next hnone =>
    cases he
    refine ⟨Node.sound_array fun element hmem => ⟨h element hmem, ?_⟩, rfl⟩
    simpa using List.all_eq_true.mp hnone element hmem
  · split at he
    · next hall =>
      cases hentries : entries elements with
      | error e =>
        rw [hentries] at he
        cases he
      | ok fields =>
        rw [hentries] at he
        cases he
        have hfields := entries_plain (fun element hmem => ⟨h element hmem, List.all_eq_true.mp hall element hmem⟩) hentries
        exact ⟨Node.sound_of_children nofun nofun (List.forall_mem_map.mpr hfields), rfl⟩
    · cases he

section

variable (hexpr : ReadsWell expr) (rounds : Nat)
include hexpr

theorem list_yields : Yields c (list expr rounds) fun node _ => node.Plain := by
  refine Yields.skip fun opening c => Yields.get ?_
  split
  · refine Yields.skip fun _ c => Yields.skip fun closing c => Yields.pure ⟨?_, rfl⟩
    exact Node.sound_of_children nofun nofun (List.forall_mem_nil _)
  · have helement (c : Cursor) : Yields c (expr .element 0) fun node _ => node.Sound :=
      (hexpr .element 0 c).mono fun _ _ h => h.sound
    refine (Yields.separated helement .closeBracket true rounds).bind fun elements c helements => ?_
    refine Yields.skip fun closing c node c' hnode => ?_
    cases hof : ofElements (opening.cover closing) elements with
    | error e =>
      rw [hof] at hnode
      cases hnode
    | ok node =>
      rw [hof] at hnode
      cases hnode
      exact ofElements_plain helements hof

theorem block_yields : Yields c (block expr rounds) fun node _ => node.Plain := by
  refine Yields.skip fun opening c => Yields.skip fun params c => ?_
  have hround (first : Bool) (c : Cursor) : Yields c (do
      skipWhile (isSymbol .semicolon)
      if ← isAt .closeBrace then return none
      if ← atEnd then fail .unclosedBlock opening
      let statement ← expr .nested 0
      statementEnd true
      return some statement) fun found _ => ∀ node ∈ found, node.Plain := by
    refine Yields.skip fun _ c => Yields.skip fun closed c => ?_
    split
    · exact Yields.pure nofun
    · refine Yields.skip fun atEnd c => ?_
      split
      · exact Yields.fail _ _
      · exact (nested_yields hexpr 0 c).bind fun statement c hs => Yields.skip fun _ c =>
          Yields.pure fun node hnode => Option.some.inj hnode ▸ hs
  refine (Yields.collect hround rounds true).bind fun body c hbody => Yields.skip fun closing c => ?_
  exact Yields.pure ⟨Node.sound_of_children nofun nofun hbody, rfl⟩

theorem cases_yields : Yields c (cases expr rounds) fun node _ => node.Plain := by
  refine Yields.skip fun first c => ((hexpr .scrutinee 0 c).mono fun _ _ h => h.plain nofun).bind fun scrutinee c hs => ?_
  refine Yields.skip fun opening c => ?_
  have hround (first : Bool) (c : Cursor) : Yields c (do
      skipWhile fun t => isSymbol .comma t || isSymbol .semicolon t
      if ← isAt .closeBrace then return none
      if ← atEnd then fail .unclosedMatch opening
      let pat ← pattern rounds
      let _ ← expect .arrow
      let body ← expr .nested 0
      let l ← here
      if isSymbol .comma l.token || isSymbol .closeBrace l.token || l.afterBreak then
        return some (pat, body)
      else failHere .expectedArmEnd) fun found _ => ∀ arm ∈ found, arm.1.isPattern = true ∧ arm.1.Plain ∧ arm.2.Plain := by
    refine Yields.skip fun _ c => Yields.skip fun closed c => ?_
    split
    · exact Yields.pure nofun
    · refine Yields.skip fun atEnd c => ?_
      split
      · exact Yields.fail _ _
      · refine (pattern_yields rounds).bind fun pat c hpat => Yields.skip fun _ c => ?_
        refine (nested_yields hexpr 0 c).bind fun body c hbody => Yields.look ?_
        split
        · exact Yields.pure fun arm harm => Option.some.inj harm ▸ ⟨hpat, Node.sound_of_isPattern pat hpat, hbody⟩
        · exact Yields.failHere _
  refine (Yields.collect hround rounds true).bind fun arms c harms => Yields.skip fun closing c => ?_
  exact Yields.pure ⟨Node.sound_cases hs harms, rfl⟩

theorem function_yields : Yields c (function expr rounds) fun node _ => node.Plain :=
  Yields.skip fun _ c => (nested_yields hexpr bodyPower c).bind fun _ _ hbody =>
    Yields.pure ⟨Node.sound_of_children nofun nofun (List.forall_mem_singleton.mpr hbody), rfl⟩

/-! ## Primary expressions -/

/-- What begins an expression does not end in a pair. -/
theorem primary_yields : Yields c (primary expr rounds ctx) fun node _ => node.Plain := by
  have hleaf {node : Node} (h : node.children = []) (hends : node.endsInPair = false)
      (hform : ∀ span scrutinee arms, node ≠ .cases span scrutinee arms) : node.Plain := by
    refine ⟨Node.sound_of_children (fun _ _ _ heq => ?_) hform (h ▸ List.forall_mem_nil _), hends⟩
    rw [heq] at h
    cases h
  have hliteral {span : Span} {literal : Literal} {c : Cursor} : Yields c (do
      let _ ← take
      return .literal span literal) fun (node : Node) _ => node.Plain :=
    Yields.skip fun _ c => Yields.pure (hleaf rfl rfl nofun)
  have hoperand {join : Node → Node} (hjoin : ∀ node, node.Plain → (join node).Plain) {c : Cursor} : Yields c (do
      let _ ← take
      let operand ← expr ctx operandPower
      return join operand) fun node _ => node.Plain := by
    refine Yields.skip fun _ c => (hexpr ctx operandPower c).bind fun operand c h => Yields.pure (hjoin _ ?_)
    exact h.plain fun _ => by decide
  have hunary {span : Span} {op : UnaryOp} (node : Node) (h : node.Plain) : (Node.unary span op node).Plain :=
    ⟨Node.sound_of_children nofun nofun (List.forall_mem_singleton.mpr h), rfl⟩
  have hdecl (span : Span) (decl : TypeDecl) : (Node.typeDecl span decl).Plain := hleaf rfl rfl nofun
  have htype {c : Cursor} : Yields c (typeDecl rounds) fun node _ => node.Plain :=
    Yields.skip fun _ c => Yields.skip fun _ c => Yields.skip fun _ c => Yields.skip fun _ c =>
      Yields.skip fun _ c => Yields.get (Yields.pure (hdecl _ _))
  have habstract {c : Cursor} : Yields c (abstractDecl rounds) fun node _ => node.Plain := by
    have hrest {first : Span} {c : Cursor} : Yields c (do
        let head ← name
        let parent ← typeAfter .below rounds
        return .typeDecl (first.cover (← MonadState.get).last) ⟨head, [], parent, .abstract⟩) fun (node : Node) _ =>
          node.Plain :=
      Yields.skip fun _ c => Yields.skip fun _ c => Yields.get (Yields.pure (hdecl _ _))
    refine Yields.skip fun _ c => Yields.look ?_
    dsimp only
    split
    · exact Yields.skip fun _ c => hrest
    · exact hrest
  refine Yields.look ?_
  split
  · exact hliteral
  · exact hliteral
  · exact hliteral
  · exact Yields.fail _ _
  · exact Yields.skip fun head c => afterName_yields hexpr rounds head
  · exact Yields.fail _ _
  · exact hliteral
  · exact hliteral
  · exact function_yields hexpr rounds
  · refine Yields.get ?_
    split
    · exact Yields.skip fun _ c => afterName_yields hexpr rounds _
    · exact htype
  · exact habstract
  · exact cases_yields hexpr rounds
  · exact Yields.fail _ _
  · exact Yields.skip fun _ c => (nested_yields hexpr 0 c).bind fun inner c h => Yields.skip fun _ c => Yields.pure h
  · exact list_yields hexpr rounds
  · exact block_yields hexpr rounds
  · exact hoperand fun node h => hunary node h
  · exact hoperand fun node h => hunary node h
  · refine hoperand fun node h => ⟨?_, rfl⟩
    exact Node.sound_of_children nofun nofun (List.forall_mem_singleton.mpr h)
  · exact (captureWith_yields fun c => pattern_yields rounds).mono fun node _ h => Node.sound_of_isPattern node h
  · exact Yields.fail _ _
  · exact Yields.fail _ _

end

/-! ## Operators and members -/

/-- Only a connective that binds as loosely as a pair continues an expression that ends in one. -/
theorem power_lt {pairs : Bool} {symbol : Symbol} {connective : Connective} (hends : c.Ends true 5)
    (hgoes : ¬(c.here.afterBreak && !c.here.token.continuesLine) = true) (htoken : c.here.token = .symbol symbol)
    (hs : Connective.ofSymbol? pairs symbol = some connective) : connective.powers.1 < 5 := by
  have hs : Connective.ofSymbol? true symbol = some connective := by
    cases pairs with
    | true => exact hs
    | false => cases symbol <;> first | exact hs | cases hs
  rcases hends with h | h
  · exact (hgoes h).elim
  · rw [htoken] at h
    cases symbol <;> first | exact h connective hs | exact h.elim

/-- Whatever joins two expressions, it goes on well: only assignments and pairs may end in a pair. -/
theorem join_partial {left right : Node} {connective : Connective} {symbol : Symbol} {c' : Cursor}
    (hs : Connective.ofSymbol? ctx.pairs symbol = some connective) (hleast : least ≤ connective.powers.1)
    (htarget : connective = .assign → left.isTarget = true) (hleft : left.Sound)
    (hplain : 5 ≤ connective.powers.1 → left.Plain)
    (hright : Whole ctx connective.powers.2 right c') : Partial ctx least (join left connective right) c' := by
  cases connective with
  | assign =>
    have hends : c'.Ends ctx.pairs 5 := hright.ends.mono (by decide)
    refine ⟨Node.sound_assign (htarget rfl) hleft hright.sound, fun h => ?_⟩
    have hpairs := (hright.pairs h).1
    exact ⟨hpairs, Nat.le_trans hleast (by decide), hpairs ▸ hends⟩
  | pair =>
    have hpairs : ctx.pairs = true := by
      cases hp : ctx.pairs with
      | true => rfl
      | false =>
        rw [hp] at hs
        cases symbol <;> cases hs
    exact ⟨Node.sound_pair hleft (hright.plain fun _ => by decide), fun _ => ⟨hpairs, hleast, hpairs ▸ hright.ends⟩⟩
  | binary op =>
    have hleft : left.Plain := hplain (by cases op <;> decide)
    have hright : right.Plain := hright.plain fun _ => by cases op <;> decide
    refine .of_plain ⟨Node.sound_of_children nofun nofun ?_, rfl⟩
    exact List.forall_mem_cons.mpr ⟨hleft, List.forall_mem_singleton.mpr hright⟩

section

variable (hexpr : ReadsWell expr) (rounds : Nat)
include hexpr

/-- What has been read so far goes on well, or it is whole. -/
theorem extend_yields {left : Node} (hleft : Partial ctx least left c) :
    Yields c (extend expr rounds ctx least left) fun longer c' =>
      match longer with
      | none => Whole ctx least left c'
      | some node => Partial ctx least node c' := by
  have hwhole (hends : c.Ends ctx.pairs least) : Yields c (Pure.pure none) fun (longer : Option Node) c' =>
      match longer with
      | none => Whole ctx least left c'
      | some node => Partial ctx least node c' := Yields.pure ⟨hleft, hends⟩
  refine Yields.look ?_
  dsimp only
  split
  · next hbreak => exact hwhole (.inl hbreak)
  · next hgoes =>
    -- A member access binds more tightly than all operators, so what it belongs to is no pair.
    have hmember (h : ¬c.Ends true 5) : left.Plain := by
      refine ⟨hleft.sound, Bool.eq_false_iff.mpr fun hends => h (hleft.pairs hends).2.2⟩
    split
    · next htoken =>
      have hsubject := hmember fun h => h.elim hgoes fun h => by rw [htoken] at h; exact h
      refine Yields.skip fun _ c => Yields.skip fun member c => Yields.skip fun isCall c => ?_
      split
      · refine (arguments_yields hexpr rounds).bind fun args c hargs => Yields.pure (.of_plain ⟨?_, rfl⟩)
        exact Node.sound_of_children nofun nofun (List.forall_mem_cons.mpr ⟨hsubject, hargs⟩)
      · refine Yields.pure (.of_plain ⟨?_, rfl⟩)
        exact Node.sound_of_children nofun nofun (List.forall_mem_singleton.mpr hsubject)
    · next htoken =>
      have hsubject := hmember fun h => h.elim hgoes fun h => by rw [htoken] at h; exact h
      refine Yields.skip fun _ c => (nested_yields hexpr 0 c).bind fun index c hindex => Yields.skip fun close c => ?_
      refine Yields.pure (.of_plain ⟨Node.sound_of_children nofun nofun ?_, rfl⟩)
      exact List.forall_mem_cons.mpr ⟨hsubject, List.forall_mem_singleton.mpr hindex⟩
    · next symbol hdot hbracket htoken =>
      split
      · next hnone =>
        refine hwhole (Cursor.ends_of_symbol htoken hdot hbracket fun connective hs => ?_)
        rw [hnone] at hs
        cases hs
      · next connective hs =>
        split
        · next hlt =>
          refine hwhole (Cursor.ends_of_symbol htoken hdot hbracket fun other hother => ?_)
          rw [hs] at hother
          cases hother
          exact hlt
        · next hle =>
          have hplain (h5 : 5 ≤ connective.powers.1) : left.Plain := hmember fun hends =>
            absurd (power_lt hends hgoes htoken hs) (Nat.not_lt.mpr h5)
          have hright {c : Cursor} (htarget : connective = .assign → left.isTarget = true) : Yields c (do
              let right ← expr ctx connective.powers.2
              return some (join left connective right)) fun longer c' =>
                match longer with
                | none => Whole ctx least left c'
                | some node => Partial ctx least node c' :=
            (hexpr ctx connective.powers.2 c).bind fun right c' h =>
              Yields.pure (join_partial hs (Nat.not_lt.mp hle) htarget hleft.sound hplain h)
          refine Yields.skip fun _ c => ?_
          -- Only what is assigned to is looked at once more.
          split
          · rw [if_pos rfl]
            split
            · exact Yields.bind (P := fun _ _ => False) (Yields.fail _ _) fun _ _ h => False.elim h
            · next htarget =>
              rw [Bool.not_eq_true', Bool.not_eq_false] at htarget
              exact hright fun _ => htarget
          · next hne =>
            rw [if_neg Bool.false_ne_true]
            exact hright fun heq => False.elim (hne heq)
    · next hsymbol =>
      refine hwhole (.inr ?_)
      split
      · next hdot => exact (hsymbol _ hdot).elim
      · next hbracket => exact (hsymbol _ hbracket).elim
      · next hs => exact (hsymbol _ hs).elim
      · trivial

theorem climb_yields (n : Nat) {left : Node} (hleft : Partial ctx least left c) :
    Yields c (climb expr rounds ctx least n left) (Whole ctx least) := by
  induction n generalizing c left with
  | zero => exact Yields.look (Yields.fail _ _)
  | succ n ih =>
    refine (extend_yields hexpr rounds hleft).bind fun longer c' h => ?_
    cases longer with
    | none => exact Yields.pure h
    | some node => exact ih h

end

/-! ## Programs -/

theorem expression_yields (n : Nat) : ReadsWell (expression n) := by
  induction n with
  | zero => exact fun _ _ _ => Yields.look (Yields.fail _ _)
  | succ n ih =>
    exact fun ctx least c => (primary_yields ih (n + 1)).bind fun left c' hleft =>
      climb_yields ih (n + 1) (n + 1) (.of_plain hleft)

theorem program_yields (rounds : Nat) :
    Yields c (program rounds) fun statements _ => ∀ statement ∈ statements, statement.Plain := by
  refine Yields.collect (fun first c => Yields.skip fun _ c => Yields.skip fun atEnd c => ?_) rounds true
  split
  · exact Yields.pure nofun
  · exact (nested_yields (expression_yields rounds) 0 c).bind fun statement c hs => Yields.skip fun _ c =>
      Yields.pure fun node hnode => Option.some.inj hnode ▸ hs

end Grammar

namespace Program

variable {source : String} {program : Program}

theorem parse_wellFormed (h : Program.parse source = .ok program) :
    (∀ node ∈ program.nodes, node.WellFormed) ∧ ∀ statement ∈ program, statement.endsInPair = false := by
  have hplain : ∀ statement ∈ program, statement.Plain := by
    rw [Program.parse, Grammar.parse] at h
    cases hrun : Grammar.program ((Token.scan source).length + 1) (.start (Token.scan source)) with
    | error e =>
      rw [hrun] at h
      cases h
    | ok result =>
      rw [hrun] at h
      cases h
      exact Grammar.program_yields _ result.1 result.2 hrun
  exact ⟨Node.forall_nodes_iff.mpr fun statement hs => (hplain statement hs).1, fun statement hs => (hplain statement hs).2⟩

def contains (p : Node → Bool) (source : String) : Bool :=
  match Program.parse source with
  | .ok program => program.nodes.any p
  | .error _ => false

theorem exists_of_contains {p : Node → Bool} (h : contains p source = true) :
    ∃ program, Program.parse source = .ok program ∧ ∃ node ∈ program.nodes, p node = true := by
  rw [contains] at h
  split at h
  · next program hparse => exact ⟨program, hparse, List.any_eq_true.mp h⟩
  · cases h

end Program

end DispatchLang
