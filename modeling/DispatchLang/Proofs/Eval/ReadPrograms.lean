import DispatchLang.Proofs.Eval.Feeding
import DispatchLang.Proofs.Grammar.Printable
import DispatchLang.Proofs.Typing.Targets

/-!
# Programs that have been read

In a program that has been read, only targets are assigned to and all arms begin with patterns. This outlives reading:
closures, functions and quoted code are made of nodes of programs, so whatever sources a session is fed, no evaluation
assigns to what is no target, and no match meets a tree that is no pattern.

The fault that a tree is no pattern cannot simply be shown not to be raised, as an assignment may still raise it: a
construction that is assigned to is read as an expression, in which there may be anything besides captures. So matches are
singled out by an evaluator that does something else where the pattern of an arm is refused (`Eval.evalOr`). Whatever
that is, the evaluator does the same as the usual one.

A pair `key: value` is meant for object literals, which take the pairs among their elements in. Nevertheless there are
programs with pairs in them. The right side of an assignment is read in the context of the assignment, and an element of
a list allows pairs: in `[x := a: 1]` the element is no pair, but an assignment that ends in one, and nothing takes it in.
That is the only way. A program has a pair in it exactly if an element of one of its arrays ends in a pair, and an
evaluation meets a pair only if one of the sources that were fed is such a program.

## Main definitions

* `Discipline.sound`: the discipline of well-formed nodes.
* `Eval.evalOr`: evaluation where matches do something else with what is no pattern.

## Main results

* `Value.exists_matchPattern`: a value is matched against a pattern without an error.
* `Session.wellFormed_of_parse`: assignments and matches of programs that have been read are well-formed, and neither
  evaluation nor the checker ever meets ones that are not.
* `Session.strayPair_origin`: where pairs, and the fault of evaluating one, come from.
* `Session.strayPair_met`: `[x := a: 1]` is a program with a pair, and evaluating it meets the pair.
-/

namespace DispatchLang

/-! ## Patterns -/

namespace Value

mutual

theorem exists_matchPattern (pattern : Node) (h : pattern.isPattern = true) (value : Value) :
    ∃ found, value.matchPattern pattern = .ok found := by
  cases pattern with
  | capture span name | literal span literal | ident span name => exact ⟨_, rfl⟩
  | refine span name inner =>
    obtain ⟨found, hfound⟩ := exists_matchPattern inner h value
    rw [matchPattern, hfound]
    cases found <;> exact ⟨_, rfl⟩
  | construct span name fields =>
    rw [matchPattern]
    cases value.fieldsOf? name.val with
    | none => exact ⟨_, rfl⟩
    | some actual => exact exists_matchFields fields h actual
  | _ => cases h

theorem exists_matchFields (fields : List (Located String × Node)) (h : Node.arePatterns fields = true)
    (actual : List (String × Value)) : ∃ found, matchFields fields actual = .ok found := by
  cases fields with
  | nil => exact ⟨_, rfl⟩
  | cons field fields =>
    obtain ⟨hfield, hfields⟩ := Bool.and_eq_true_iff.mp h
    rw [matchFields]
    cases actual.lookup field.1.val with
    | none => exact ⟨_, rfl⟩
    | some value =>
      obtain ⟨found, hfound⟩ := exists_matchPattern field.2 hfield value
      obtain ⟨more, hmore⟩ := exists_matchFields fields hfields actual
      dsimp only
      rw [hfound]
      cases found with
      | none => exact ⟨_, rfl⟩
      | some bindings =>
        rw [hmore]
        cases more <;> exact ⟨_, rfl⟩

end

end Value

/-! ## Evaluation that treats refused patterns differently -/

namespace Eval

variable (refused : RuntimeError → Eval Value)

/-- Runs the first arm whose pattern matches a value, and `refused` where something else than a pattern is met. -/
def runArmsOr (self : NodeEval) (value : Value) (scope : ScopeId) : List (Node × Node) → Eval Value
  | [] => do fail (.pattern (.noMatch (← repr value)))
  | (pattern, body) :: arms =>
    match value.matchPattern pattern with
    | .error e => refused e
    | .ok none => runArmsOr self value scope arms
    | .ok (some bindings) => do
      let inner ← newScope scope
      defineAll inner bindings
      runBody self body inner

/-- What a form does if a match does `refused` where an arm has no pattern. -/
def evalFormOr (strategy : Strategy) (self : NodeEval) (node : Node) (scope : ScopeId) : Eval Value :=
  match node with
  | .cases _ scrutinee arms => do
    let value ← self scrutinee scope
    runArmsOr refused self value scope arms
  | node => evalForm strategy self node scope

/-- Evaluation in which a match does `refused` where an arm has no pattern. -/
def evalOr (strategy : Strategy) : Nat → NodeEval
  | 0 => fun _ _ => throw .exhausted
  | n + 1 => fun node scope => located node.span (evalFormOr refused strategy (evalOr strategy n) node scope)

end Eval

/-! ## Well-formed programs -/

/-- Programs may be evaluated that are well-formed, and then nothing is assigned to but targets. -/
def Discipline.sound : Discipline where
  admits := Node.Sound
  raises fault := fault ≠ .mismatch .assignmentTarget
  child h hc := h.child hc
  others h heq := by
    rw [heq] at h
    cases h
  target h := .inl (h.1.target rfl)
  pair _ := nofun

/-- All programs are well-formed that are read from sources. -/
theorem Discipline.sound_reads (source : String) : Discipline.sound.Reads source := fun _ hparse =>
  Node.forall_nodes_iff.mp (Program.parse_wellFormed hparse).1

namespace Obey

variable {strategy : Strategy} {s : Session} {self self' : NodeEval} (refused : RuntimeError → Eval Value)

theorem runArmsOr {d : Discipline} (hself : SelfObeys d strategy self self') {value : Value}
    (h : value.Kept d strategy s.heap) (scope : ScopeId) {arms : List (Node × Node)}
    (harms : ∀ arm ∈ arms, arm.1.isPattern = true ∧ d.admits arm.2) :
    Obey d strategy s (Eval.runArmsOr refused self value scope arms) (Eval.runArms self' value scope arms)
      (kept d strategy) := by
  induction arms with
  | nil => exact (repr value).bind fun _ _ _ _ => fail rfl
  | cons arm arms ih =>
    obtain ⟨pattern, body⟩ := arm
    obtain ⟨⟨hpattern, hbody⟩, harms⟩ := List.forall_mem_cons.mp harms
    have hmeets := Value.matchPattern_meets Value.inherited_kept pattern h
    obtain ⟨found, hfound⟩ := Value.exists_matchPattern pattern hpattern value
    rw [hfound] at hmeets
    rw [Eval.runArmsOr, Eval.runArms, Eval.matchValue, hfound]
    cases found with
    | none => exact ih harms
    | some bindings =>
      dsimp only
      rw [pure_bind]
      refine (newScope scope).bind fun inner t hst _ => ?_
      have hbindings : entriesKept d strategy s bindings := hmeets.2
      exact (defineAll inner (hbindings.later hst)).bind fun _ _ _ _ => runBody hself hbody inner

/-- So what a match does with something that is no pattern makes no difference. -/
theorem evalOr (depth : Nat) :
    SelfObeys .sound strategy (Eval.evalOr refused strategy depth) (Eval.eval strategy depth) := by
  induction depth with
  | zero => exact fun _ _ _ _ => throw trivial
  | succ depth ih =>
    intro node scope s h
    refine located node.span ?_
    cases node with
    | cases span scrutinee arms =>
      refine (ih scrutinee scope s (h.child List.mem_cons_self)).bind fun value _ _ hv => ?_
      refine runArmsOr refused ih hv scope fun arm harm => ⟨h.1.arms rfl arm harm, ?_⟩
      exact h.child (List.mem_cons_of_mem _ (List.mem_flatMap.mpr ⟨arm, harm, by simp⟩))
    | _ => exact form ih h scope

end Obey

namespace Session

/-- In a program that has been read, assignments have targets and arms have patterns. So whatever sources have been fed,
by neither strategy the next one raises that something cannot be assigned to, whatever a match does with something that is
no pattern makes no difference, and the checker reports no invalid assignment. -/
theorem wellFormed_of_parse (sources : List String) (source : String) :
    (∀ program, Program.parse source = .ok program →
      (∀ node ∈ program.nodes,
        (∀ span target value, node = .assign span target value → target.isTarget = true) ∧
        ∀ span scrutinee arms, node = .cases span scrutinee arms → ∀ arm ∈ arms, arm.1.isPattern = true) ∧
      ∀ finding ∈ ((Checker.checked sources).check program).1.findings, finding.kind ≠ .invalidAssignment) ∧
    ∀ strategy options,
      (∀ e, ((fed strategy options sources).feed strategy source).1 = .error (.failed e) →
        e.fault ≠ .mismatch .assignmentTarget) ∧
      ∀ refused, (fed strategy options sources).feedWith (Eval.evalOr refused strategy depthLimit) source =
        (fed strategy options sources).feed strategy source := by
  refine ⟨fun program hparse => ⟨fun node hnode => ?_, ?_⟩, fun strategy options => ?_⟩
  · have hwell := (Program.parse_wellFormed hparse).1 node hnode
    exact ⟨fun _ _ _ => hwell.target, fun _ _ _ => hwell.arms⟩
  · exact Checker.no_invalidAssignment hparse (Checker.findings_checked sources)
  · have horderly : (fed strategy options sources).Orderly .sound strategy :=
      orderly_fed fun text _ => Discipline.sound_reads text
    have hreads := Discipline.sound_reads source
    exact ⟨(feed_leaves hreads horderly).fault, fun refused => (feedWith_obeys (Obey.evalOr refused _) hreads horderly).1⟩

/-- A match that takes an arm in which a construction is assigned to that does not match. -/
def mismatchedArm : String := "match 1 \x7b ?n => Point \x7b x: ?a \x7d := n \x7d"

/-- The assignment in it has a target, and that it goes wrong is not due to what is assigned to. -/
theorem mismatchedArm_wellFormed :
    (∃ program, Program.parse mismatchedArm = .ok program ∧
      ∃ span target value, Node.assign span target value ∈ program.nodes ∧ target.isTarget = true) ∧
    ∀ strategy, ∃ e, ((fed strategy .standard []).feed strategy mismatchedArm).1 = .error (.failed e) ∧
      e.fault ≠ .mismatch .assignmentTarget := by
  have hreads : Program.contains Node.isAssignment mismatchedArm = true := by decide +kernel
  obtain ⟨program, hparse, node, hnode, hassign⟩ := Program.exists_of_contains hreads
  have hwell := wellFormed_of_parse [] mismatchedArm
  refine ⟨⟨program, hparse, ?_⟩, fun strategy => ?_⟩
  · cases node with
    | assign span target value => exact ⟨span, target, value, hnode, ((hwell.1 program hparse).1 _ hnode).1 _ _ _ rfl⟩
    | _ => cases hassign
  · have hfails : fails (fun _ => true) strategy [] mismatchedArm = true := by cases strategy <;> decide +kernel
    obtain ⟨e, he, -⟩ := exists_of_fails hfails
    exact ⟨e, he, (hwell.2 strategy .standard).1 e he⟩

end Session

/-! ## Programs with pairs -/

theorem Node.endsInPair_eq_false {node : Node} (h : node.Everywhere fun n => Grammar.isPair n = false) :
    node.endsInPair = false := by
  cases node with
  | pair span key value => cases h.1
  | assign span target value =>
    rw [endsInPair]
    exact endsInPair_eq_false (h.child (by simp [children]))
  | _ => rfl

namespace Program

variable {source : String} {program : Program}

/-- One of the arrays of a program has an element that ends in a pair. -/
def KeepsPair (program : Program) : Prop :=
  ∃ span elements, Node.array span elements ∈ program.nodes ∧ ∃ element ∈ elements, element.endsInPair = true

/-- A program that has been read has a pair in it exactly if an element of an array ends in one. -/
theorem exists_pair_iff (h : Program.parse source = .ok program) :
    (∃ node ∈ program.nodes, Grammar.isPair node = true) ↔ program.KeepsPair := by
  obtain ⟨hwell, hstatements⟩ := parse_wellFormed h
  constructor
  · intro ⟨pair, hpair, hisPair⟩
    by_contra hnone
    -- A node that does not end in a pair has no child that ends in one, as only elements of arrays could.
    have hchild : ∀ node, node ∈ program.nodes ∧ node.endsInPair = false →
        ∀ child ∈ node.children, child ∈ program.nodes ∧ child.endsInPair = false := by
      rintro node ⟨hnode, hends⟩ child hc
      refine ⟨child_mem_nodes hnode hc, Bool.eq_false_iff.mpr fun hlast => ?_⟩
      have hmay := (hwell node hnode).pairs child hc hlast
      cases node with
      | array span elements => exact hnone ⟨span, elements, hnode, child, hc, hlast⟩
      | assign span target value =>
        rw [Node.MayHold] at hmay
        rw [Node.endsInPair, ← hmay, hlast] at hends
        cases hends
      | pair span key value => cases hends
      | _ => exact hmay
    have hall := Node.forall_nodes_iff.mpr fun statement hs =>
      Node.everywhere_of_child hchild statement ⟨mem_nodes_of_mem hs, hstatements statement hs⟩
    have hends := (hall pair hpair).2
    cases pair with
    | pair span key value => cases hends
    | _ => cases hisPair
  · rintro ⟨span, elements, harray, element, he, hends⟩
    by_contra hnone
    have hinside : element.Everywhere (· ∈ program.nodes) :=
      Node.everywhere_of_child (fun _ hnode _ => child_mem_nodes hnode) element (child_mem_nodes harray he)
    have hfalse := Node.endsInPair_eq_false (hinside.mono fun n hn => Bool.eq_false_iff.mpr fun hpair =>
      hnone ⟨n, hn, hpair⟩)
    rw [hends] at hfalse
    cases hfalse

end Program

/-! ## Sessions that meet pairs -/

/-- Programs may be evaluated that have no pairs in them, and then evaluation never meets one. -/
def Discipline.pairless : Discipline where
  admits node := node.Everywhere fun n => Grammar.isPair n = false
  raises fault := fault ≠ .mismatch .strayPair
  child h hc := h.child hc
  others h heq := by
    rw [heq] at h
    cases h
  target _ := .inr nofun
  pair h := by cases h.1

namespace Session

/-- A program that has been read has a pair in it exactly if an element of one of its arrays ends in a pair. And only if
such a program has been fed, evaluation ever meets a pair. -/
theorem strayPair_origin (sources : List String) (source : String) :
    (∀ program, Program.parse source = .ok program →
      ((∃ node ∈ program.nodes, Grammar.isPair node = true) ↔ program.KeepsPair)) ∧
    ∀ strategy options e, ((fed strategy options sources).feed strategy source).1 = .error (.failed e) →
      e.fault = .mismatch .strayPair →
        ∃ text ∈ source :: sources, ∃ program, Program.parse text = .ok program ∧ program.KeepsPair := by
  refine ⟨fun program h => Program.exists_pair_iff h, fun strategy options e he hfault => ?_⟩
  by_contra hnone
  have hreads : ∀ text ∈ source :: sources, Discipline.pairless.Reads text := by
    intro text ht program hparse
    refine Node.forall_nodes_iff.mp fun node hnode => Bool.eq_false_iff.mpr fun hpair => ?_
    exact hnone ⟨text, ht, program, hparse, (Program.exists_pair_iff hparse).mp ⟨node, hnode, hpair⟩⟩
  obtain ⟨hsource, hsources⟩ := List.forall_mem_cons.mp hreads
  exact (feed_leaves hsource (orderly_fed hsources)).fault e he hfault

/-- Whether a fault is that a pair has been met. -/
def isStrayPair : Fault → Bool
  | .mismatch .strayPair => true
  | _ => false

theorem meets_of_fails {strategy : Strategy} {sources : List String} {source : String}
    (h : fails isStrayPair strategy sources source = true) :
    ∃ e, ((fed strategy .standard sources).feed strategy source).1 = .error (.failed e) ∧
      e.fault = .mismatch .strayPair := by
  obtain ⟨e, he, hmeets⟩ := exists_of_fails h
  refine ⟨e, he, ?_⟩
  unfold isStrayPair at hmeets
  split at hmeets
  · next hfault => exact hfault
  · cases hmeets

/-- A function keeps an array with such an element, which is evaluated when the function is called. -/
theorem strayPair_called :
    (∃ program, Program.parse "f := \x7b [x := a: 1] \x7d" = .ok program ∧ program.KeepsPair) ∧
    ∀ strategy, ∃ e,
      ((fed strategy .standard ["f := \x7b [x := a: 1] \x7d"]).feed strategy "f()").1 = .error (.failed e) ∧
      ∃ text ∈ ["f()", "f := \x7b [x := a: 1] \x7d"], ∃ program,
        Program.parse text = .ok program ∧ program.KeepsPair := by
  have hreads : Program.contains Grammar.isPair "f := \x7b [x := a: 1] \x7d" = true := by decide +kernel
  obtain ⟨program, hparse, hpair⟩ := Program.exists_of_contains hreads
  refine ⟨⟨program, hparse, ((strayPair_origin [] _).1 program hparse).mp hpair⟩, fun strategy => ?_⟩
  have hmeets : fails isStrayPair strategy ["f := \x7b [x := a: 1] \x7d"] "f()" = true := by cases strategy <;> decide +kernel
  obtain ⟨e, he, hfault⟩ := meets_of_fails hmeets
  exact ⟨e, he, (strayPair_origin _ _).2 strategy .standard e he hfault⟩

/-- The element of the array is no pair, but an assignment that ends in one. -/
theorem strayPair_met :
    (∃ program, Program.parse "[x := a: 1]" = .ok program ∧ ∃ node ∈ program.nodes, Grammar.isPair node = true) ∧
    ∀ strategy, ∃ e, ((fed strategy .standard []).feed strategy "[x := a: 1]").1 = .error (.failed e) ∧
      e.fault = .mismatch .strayPair :=
  ⟨Program.exists_of_contains (by decide +kernel), fun strategy =>
    meets_of_fails (by cases strategy <;> decide +kernel)⟩

end Session

end DispatchLang
