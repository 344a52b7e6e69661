import DispatchLang.Proofs.Eval.Constraints
import DispatchLang.Proofs.Eval.ReadPrograms
import DispatchLang.Proofs.Eval.Seeing
import DispatchLang.Proofs.Grammar.PatternReading
import DispatchLang.Proofs.Eval.Runs
import DispatchLang.Proofs.Value.Matching

/-!
# Destructuring

A value is taken apart in two ways: by an assignment to a pattern and by an arm of a match. What is assigned to is read
as an expression, but it is the tree of the pattern of the arm, and both hand it to the same matcher. So the assignment
succeeds exactly if the arm is taken. The assignment then binds in the scope it stands in what the arm binds in a scope
of its own.

A name is different. As a pattern it stands for the alternative of that name, while an assignment to a name always
succeeds.

An assignment evaluates its right-hand side, and only then is anything bound. A pattern that the value does not match is
found out before the first of its captures is assigned to, so an assignment that fails after its right-hand side has been
evaluated leaves the session as the right-hand side did: not only the variables, but also objects and types.

## Main definitions

* `Session.TakesArm`: an arm with a pattern is taken in a match that looks at `v`.

## Main results

* `Eval.assignTo_error`: a failed assignment changes nothing.
* `Eval.pattern_assignment`: matching does what the shape of a pattern and the positions of its names say, and an
  assignment to a pattern that does not match fails without having bound anything.
* `Session.destructures_iff_takesArm`: destructuring and matching agree.
* `Session.feed_signed`: a pattern with a minus sign in it is never assigned to.
* `Session.name_unmatched`: a name may be assigned to without being matched.
-/

namespace DispatchLang

/-! ## Assignments that fail -/

namespace Eval

variable {strategy : Strategy} {scope : ScopeId} {value : Value} {pattern : Node} {s t : Session}

/-- Binding what captures have met cannot fail. -/
theorem exists_run_assignAll (scope : ScopeId) (bindings : List (String × Value)) (s : Session) :
    ∃ t, (bindings.forM fun (name, bound) => assign scope name bound) s = .ok () t := by
  induction bindings generalizing s with
  | nil => exact ⟨s, rfl⟩
  | cons binding bindings ih => exact ih _

/-- A failed assignment changes nothing. -/
theorem assignTo_error {target : Node} {e : Halt} (h : assignTo target value scope s = .error e t) : t = s := by
  cases target with
  | ident span name => cases h
  | construct span name fields =>
    rcases hfound : value.matchPattern (.construct span name fields) with refused | _ | bindings <;>
      rw [assignTo, matchValue, hfound] at h
    · cases h
      rfl
    · cases h
      rfl
    · obtain ⟨u, hu⟩ := exists_run_assignAll scope bindings s
      cases hu.symm.trans h
  | _ =>
    cases h
    rfl

theorem assignTo_of_not_matches {place : Span} {name : Located String} {fields : List (Located String × Node)}
    (hpattern : (Node.construct place name fields).isPattern = true)
    (h : ¬value.Matches (.construct place name fields)) : assignTo (.construct place name fields) value scope s =
      .error (.error ⟨.pattern (.destructuring (value.repr s.heap)), some place⟩) s := by
  rw [assignTo, matchValue, (Value.matchPattern_eq_none_iff hpattern).mpr h]
  rfl

/-- An assignment evaluates its right-hand side first. -/
theorem eval_assign {n : Nat} {span : Span} {target node : Node} (h : eval strategy n node scope s = .ok value t) :
    eval strategy (n + 1) (.assign span target node) scope s =
      located span (assignTo target value scope >>= fun _ => Pure.pure value) t := by
  have hform : evalForm strategy (eval strategy n) (.assign span target node) scope s =
      (assignTo target value scope >>= fun _ => Pure.pure value) t := bind_of_ok h
  rw [eval, evalNode, located, located, hform]
  rfl

/-- **Matching.** A value is matched if it has the shape of the pattern. Then the matcher answers one binding for every
named capture, inner ones first and fields in their order, each with what the value holds at the position of the capture.
Where the value does not have the shape, an assignment to the pattern fails, under either strategy, in the session that
its right-hand side leaves. -/
theorem pattern_assignment (hpattern : pattern.isPattern = true) (value : Value) :
    (∀ bindings, value.matchPattern pattern = .ok (some bindings) ↔
        value.Matches pattern ∧ List.Forall₂ value.Fills pattern.slots bindings) ∧
      (value.matchPattern pattern = .ok none ↔ ¬value.Matches pattern) ∧
      ∀ (strategy : Strategy) (n : Nat) (span place : Span) (name : Located String)
        (fields : List (Located String × Node)) (node : Node) (scope : ScopeId) (s t : Session),
        pattern = .construct place name fields → ¬value.Matches pattern → eval strategy n node scope s = .ok value t →
          eval strategy (n + 1) (.assign span pattern node) scope s =
            .error (.error ⟨.pattern (.destructuring (value.repr t.heap)), some place⟩) t := by
  refine ⟨fun bindings => Value.matchPattern_eq_some_iff hpattern, Value.matchPattern_eq_none_iff hpattern, ?_⟩
  rintro strategy n span place name fields node scope _ t rfl hmatches hnode
  rw [eval_assign hnode, located, bind_of_error (assignTo_of_not_matches hpattern hmatches)]
  rfl

/-- The first field of the point meets the capture `a`, but as the second is no zero, the assignment binds nothing. -/
theorem point_binds_nothing : ∃ (pattern : Node) (point : Value) (s : Session) (e : Halt),
    pattern.slots = [⟨["x"], "a"⟩] ∧ point.partAt? ["x"] = some (.int 3) ∧
      eval .dispatch 1 (.ident .nowhere "p") ScopeTree.root s = .ok point s ∧
      eval .dispatch 2 (.assign .nowhere pattern (.ident .nowhere "p")) ScopeTree.root s = .error e s := by
  let pattern : Node := .construct .nowhere ⟨"Point", .nowhere⟩
    [(⟨"x", .nowhere⟩, .capture .nowhere (some "a")), (⟨"y", .nowhere⟩, .literal .nowhere (.int 0))]
  let point : Value := .inst .any "Point" none [("x", .int 3), ("y", .int 4)]
  let fresh := Session.fresh .dispatch .standard
  let s : Session := { fresh with scopes := fresh.scopes.define ScopeTree.root "p" point }
  have hpattern : pattern.isPattern = true := rfl
  have hmismatch : point.matchPattern pattern = .ok none := rfl
  have hnode : eval .dispatch 1 (.ident .nowhere "p") ScopeTree.root s = .ok point s := rfl
  obtain ⟨-, hnone, hfails⟩ := pattern_assignment hpattern point
  exact ⟨pattern, point, s, _, rfl, rfl, hnode, hfails _ _ _ _ _ _ _ _ _ _ rfl (hnone.mp hmismatch) hnode⟩

end Eval

/-! ## The matcher does not look at places -/

namespace Node

mutual

theorem isPattern_erase : (node : Node) → node.erase.isPattern = node.isPattern
  | .construct _ _ fields => arePatterns_erase fields
  | .refine _ _ pattern => isPattern_erase pattern
  | .literal .. | .ident .. | .unary .. | .binary .. | .assign .. | .field .. | .call .. | .send .. | .block ..
  | .cases .. | .typeDecl .. | .function .. | .capture .. | .quoted .. | .array .. | .object .. | .pair .. => rfl

theorem arePatterns_erase : (fields : List (Located String × Node)) →
    arePatterns (eraseEntries fields) = arePatterns fields
  | [] => rfl
  | (_, pattern) :: fields => congrArg₂ (· && ·) (isPattern_erase pattern) (arePatterns_erase fields)

end

def name? : Node → Option String
  | .ident _ name => some name
  | _ => none

end Node

namespace Value

mutual

theorem matchPattern_erase (pattern : Node) (h : pattern.isPattern = true) (value : Value) :
    value.matchPattern pattern.erase = value.matchPattern pattern := by
  cases pattern with
  | capture span name | literal span literal | ident span name => rfl
  | refine span name inner => rw [Node.erase, matchPattern, matchPattern, matchPattern_erase inner h]
  | construct span name fields =>
    rw [Node.erase, matchPattern, matchPattern, Located.erase]
    cases value.fieldsOf? name.val with
    | none => rfl
    | some actual => exact matchFields_erase fields h actual
  | _ => cases h

theorem matchFields_erase (fields : List (Located String × Node)) (h : Node.arePatterns fields = true)
    (actual : List (String × Value)) : matchFields (Node.eraseEntries fields) actual = matchFields fields actual := by
  cases fields with
  | nil => rfl
  | cons field fields =>
    obtain ⟨hfield, hfields⟩ := Bool.and_eq_true_iff.mp h
    rw [Node.eraseEntries, matchFields, matchFields, Located.erase]
    cases actual.lookup field.1.val with
    | none => rfl
    | some value =>
      dsimp only
      rw [matchPattern_erase field.2 hfield, matchFields_erase fields hfields]

end

theorem matchPattern_same {pattern target : Node} (hsame : pattern.Same target) (h : pattern.isPattern = true)
    (value : Value) : value.matchPattern target = value.matchPattern pattern := by
  have ht : target.isPattern = true := by
    rw [← Node.isPattern_erase, ← show pattern.erase = target.erase from hsame, Node.isPattern_erase, h]
  rw [← matchPattern_erase target ht, ← show pattern.erase = target.erase from hsame, matchPattern_erase pattern h]

mutual

theorem matchPattern_signed (pattern : Node) (h : pattern.signed = true) (value : Value)
    (bindings : List (String × Value)) : value.matchPattern pattern ≠ .ok (some bindings) := by
  cases pattern with
  | construct span name fields =>
    rw [matchPattern]
    cases value.fieldsOf? name.val with
    | none => exact nofun
    | some actual => exact matchFields_signed fields h actual bindings
  | unary => exact nofun
  | _ => cases h

theorem matchFields_signed (fields : List (Located String × Node)) (h : Node.fieldsSigned fields = true)
    (actual : List (String × Value)) (bindings : List (String × Value)) :
    matchFields fields actual ≠ .ok (some bindings) := by
  cases fields with
  | nil => cases h
  | cons field fields =>
    rw [matchFields]
    cases actual.lookup field.1.val with
    | none => exact nofun
    | some value =>
      intro heq
      rcases hfound : value.matchPattern field.2 with e | _ | found
      · simp only [hfound] at heq
        cases heq
      · simp only [hfound] at heq
        cases heq
      · rcases hmore : matchFields fields actual with e | _ | more
        · simp only [hfound, hmore] at heq
          cases heq
        · simp only [hfound, hmore] at heq
          cases heq
        · rcases Bool.or_eq_true_iff.mp h with hfield | hfields
          · exact matchPattern_signed field.2 hfield value found hfound
          · exact matchFields_signed fields hfields actual more hmore

end

end Value

/-! ## Binding several names -/

namespace Assoc

variable {α : Type}

/-- Puts several things under their names, one after the other. -/
def insertAll (bindings entries : List (String × α)) : List (String × α) :=
  bindings.foldl (fun entries binding => insert binding.1 binding.2 entries) entries

theorem lookup_insert_or (name other : String) (value : α) (entries : List (String × α)) :
    (insert name value entries).lookup other = ((insert name value []).lookup other).or (entries.lookup other) := by
  by_cases h : other = name
  · rw [h, lookup_insert_self, lookup_insert_self, Option.some_or]
  · rw [lookup_insert_of_ne h, lookup_insert_of_ne h, List.lookup_nil, Option.none_or]

/-- What is not among the things that are put there is what was there before. -/
theorem lookup_insertAll (bindings entries : List (String × α)) (name : String) :
    (insertAll bindings entries).lookup name = ((insertAll bindings []).lookup name).or (entries.lookup name) := by
  induction bindings generalizing entries with
  | nil => rfl
  | cons binding bindings ih =>
    show (insertAll bindings (insert binding.1 binding.2 entries)).lookup name =
      ((insertAll bindings (insert binding.1 binding.2 [])).lookup name).or _
    rw [ih, lookup_insert_or, ih (insert binding.1 binding.2 []), Option.or_assoc]

end Assoc

namespace ScopeTree

variable {α : Type} {t : ScopeTree α} {s : ScopeId}

/-- Binds several names in a scope, one after the other. -/
def defineAll (t : ScopeTree α) (s : ScopeId) (bindings : List (String × α)) : ScopeTree α :=
  bindings.foldl (fun t binding => t.define s binding.1 binding.2) t

theorem frame_defineAll (hs : s < t.frames.size) (bindings : List (String × α)) :
    (t.defineAll s bindings).frame s = ⟨Assoc.insertAll bindings (t.frame s).vars, (t.frame s).parent⟩ := by
  induction bindings generalizing t with
  | nil => rfl
  | cons binding bindings ih =>
    have hf : (t.define s binding.1 binding.2).frame s = (t.frame s).define binding.1 binding.2 := by
      have hget := Array.getElem?_eq_getElem hs
      rw [frame_of_getElem? hget]
      refine frame_of_getElem? ?_
      rw [define, Array.getElem?_modify, if_pos rfl, hget, Option.map_some]
    have hsize : s < (t.define s binding.1 binding.2).frames.size := by
      rw [define, Array.size_modify]
      exact hs
    show ((t.define s binding.1 binding.2).defineAll s bindings).frame s = _
    rw [ih hsize, hf]
    rfl

theorem grows_defineAll (t : ScopeTree α) (s : ScopeId) (bindings : List (String × α)) :
    t.Grows (t.defineAll s bindings) := by
  induction bindings generalizing t with
  | nil => exact .refl t
  | cons binding bindings ih => exact (grows_define t s binding.1 binding.2).trans (ih _)

theorem chain_root (t : ScopeTree α) : t.chain root = [root] := by
  rw [chain, root, chainWithin]
  cases (t.frame 0).parent <;> rfl

theorem get?_root (t : ScopeTree α) (name : String) : t.get? root name = (t.frame root).vars.lookup name := by
  rw [get?, chain_root, List.findSome?_singleton]

/-- In the root it makes no difference where a name is bound that has no binding yet. -/
theorem assign_root (t : ScopeTree α) (rule : AssignmentScope) (name : String) (value : α) :
    t.assign rule root name value = t.define root name value := by
  have hbinder : (t.binder? root name).getD root = root := by
    rw [binder?, chain_root, List.find?_singleton]
    split <;> rfl
  cases rule with
  | «local» => rw [assign, assignLocal, hbinder]
  | global =>
    rw [assign, assignGlobal, chain_root]
    exact congrArg (t.define · name value) hbinder

theorem root_lt {name : String} {value : α} (h : t.get? root name = some value) : root < t.frames.size := by
  refine Nat.lt_of_not_le fun hle => ?_
  rw [get?_root, frame, Array.getElem?_eq_none hle] at h
  cases h

theorem contains_root {name : String} {value : α} (h : t.get? root name = some value) : t.contains root name = true := by
  refine contains_self ?_
  rw [Frame.binds, ← get?_root, h]
  rfl

end ScopeTree

/-! ## Evaluating the two forms -/

namespace Session

/-- The session in which the root binds what captures have met. -/
def rebound (s : Session) (bindings : List (String × Value)) : Session :=
  { s with scopes := s.scopes.defineAll ScopeTree.root bindings }

/-- The session in which a new scope inside the root binds what captures have met. -/
def entering (s : Session) (bindings : List (String × Value)) : Session :=
  { s with scopes := (s.scopes.child ScopeTree.root).2.defineAll (s.scopes.child ScopeTree.root).1 bindings }

end Session

namespace Eval

variable {strategy : Strategy} {n : Nat} {s : Session} {scope : ScopeId} {v : Value}

theorem run_defineAll (scope : ScopeId) (bindings : List (String × Value)) (s : Session) :
    Eval.defineAll scope bindings s = .ok () { s with scopes := s.scopes.defineAll scope bindings } := by
  induction bindings generalizing s with
  | nil => rfl
  | cons binding bindings ih => exact ih { s with scopes := s.scopes.define scope binding.1 binding.2 }

theorem run_assignAll (bindings : List (String × Value)) (s : Session) :
    (bindings.forM fun (name, bound) => Eval.assign ScopeTree.root name bound) s = .ok () (s.rebound bindings) := by
  induction bindings generalizing s with
  | nil => rfl
  | cons binding bindings ih =>
    show (bindings.forM fun (name, bound) => Eval.assign ScopeTree.root name bound)
      { s with scopes := s.scopes.assign s.options.assignment ScopeTree.root binding.1 binding.2 } = _
    rw [ScopeTree.assign_root]
    exact ih _

theorem eval_ident {span : Span} {name : String} (h : s.scopes.get? scope name = some v) :
    eval strategy (n + 1) (.ident span name) scope s = .ok v s := by
  refine located_ok.mpr ?_
  have hlookup : lookup scope name s = .ok (some v) s := congrArg (EStateM.Result.ok · s) h
  exact bind_of_ok hlookup

/-- A match looks at what the name means, and then at its arms. -/
theorem eval_cases {span place : Span} {name : String} {arms : List (Node × Node)}
    (h : s.scopes.get? scope name = some v) : eval strategy (n + 2) (.cases span (.ident place name) arms) scope s =
      located span (runArms (eval strategy (n + 1)) v scope arms) s := by
  have hform : evalForm strategy (eval strategy (n + 1)) (.cases span (.ident place name) arms) scope s =
      runArms (eval strategy (n + 1)) v scope arms s := bind_of_ok (eval_ident h)
  rw [eval, evalNode, located, located, hform]
  rfl

theorem eval_assign_ok {span place : Span} {name : String} {target : Node} {value : Value} {after : Session}
    (h : s.scopes.get? scope name = some v) :
    eval strategy (n + 2) (.assign span target (.ident place name)) scope s = .ok value after ↔
      assignTo target v scope s = .ok () after ∧ value = v := by
  have hform : evalForm strategy (eval strategy (n + 1)) (.assign span target (.ident place name)) scope s =
      (assignTo target v scope >>= fun _ => Pure.pure v) s := bind_of_ok (eval_ident h)
  rw [eval, evalNode]
  show located span _ s = _ ↔ _
  rw [located_ok, hform, bind_ok]
  constructor
  · rintro ⟨_, t, hassign, hv⟩
    obtain ⟨rfl, rfl⟩ := pure_ok.mp hv
    exact ⟨hassign, rfl⟩
  · rintro ⟨hassign, rfl⟩
    exact ⟨_, _, hassign, rfl⟩

/-- The assignment to a construction binds what the captures of the pattern have met. -/
theorem assignTo_ok {span : Span} {name : Located String} {fields : List (Located String × Node)} {after : Session} :
    assignTo (.construct span name fields) v ScopeTree.root s = .ok () after ↔
      ∃ bindings, v.matchPattern (.construct span name fields) = .ok (some bindings) ∧ after = s.rebound bindings := by
  rw [assignTo, matchValue]
  rcases v.matchPattern (.construct span name fields) with e | found
  · constructor
    · rintro ⟨⟩
    · rintro ⟨_, ⟨⟩, -⟩
  · cases found with
    | none =>
      constructor
      · rintro ⟨⟩
      · rintro ⟨_, ⟨⟩, -⟩
    | some bindings =>
      refine Iff.trans (Eq.congr_left (run_assignAll bindings s)) ?_
      constructor
      · rintro ⟨⟩
        exact ⟨_, rfl, rfl⟩
      · rintro ⟨_, ⟨⟩, rfl⟩
        rfl

section Arms

variable {self : NodeEval} {pattern body : Node} {arms : List (Node × Node)}

theorem runArms_of_some {bindings : List (String × Value)} (h : v.matchPattern pattern = .ok (some bindings)) :
    runArms self v ScopeTree.root ((pattern, body) :: arms) s =
      runBody self body (s.scopes.child ScopeTree.root).1 (s.entering bindings) := by
  rw [runArms, matchValue, h]
  exact bind_of_ok (run_defineAll _ bindings _)

theorem runArms_of_none (h : v.matchPattern pattern = .ok none) :
    runArms self v scope ((pattern, body) :: arms) s = runArms self v scope arms s := by
  rw [runArms, matchValue, h]
  rfl

end Arms

end Eval

/-! ## Destructuring and matching -/

namespace Session

variable {strategy : Strategy} {s after : Session} {v value : Value} {pattern target : Node} {text : String}

/-- In a match that looks at `v` an arm with the pattern is taken: whatever its body is and whatever arms come after it,
the match is the body of the arm, run in the scope `inner` of the session `entered`. -/
def TakesArm (strategy : Strategy) (s : Session) (pattern : Node) (inner : ScopeId) (entered : Session) : Prop :=
  ∀ (n : Nat) (span place : Span) (body : Node) (arms : List (Node × Node)),
    Eval.eval strategy (n + 2) (.cases span (.ident place "v") ((pattern, body) :: arms)) ScopeTree.root s =
      Eval.located span (Eval.runBody (Eval.eval strategy (n + 1)) body inner) entered

/-- An arm is taken in one way only. -/
theorem TakesArm.unique {inner inner' : ScopeId} {entered entered' : Session}
    (h : s.TakesArm strategy pattern inner entered) (h' : s.TakesArm strategy pattern inner' entered') :
    inner = inner' ∧ entered = entered' := by
  -- a literal shows the session, and a block keeps the scope
  have hliteral := (h 0 .nowhere .nowhere (.literal .nowhere (.bool true)) []).symm.trans (h' 0 ..)
  obtain ⟨-, rfl⟩ := EStateM.Result.ok.inj hliteral
  have hblock := (h 0 .nowhere .nowhere (.block .nowhere [⟨⟨"x", .nowhere⟩, none⟩] []) []).symm.trans (h' 0 ..)
  obtain ⟨hclosure, -⟩ := EStateM.Result.ok.inj hblock
  cases hclosure
  exact ⟨rfl, rfl⟩

theorem takesArm_iff (hv : s.scopes.get? ScopeTree.root "v" = some v) (hpattern : pattern.isPattern = true)
    {inner : ScopeId} {entered : Session} : s.TakesArm strategy pattern inner entered ↔
      ∃ bindings, v.matchPattern pattern = .ok (some bindings) ∧ inner = (s.scopes.child ScopeTree.root).1 ∧
        entered = s.entering bindings := by
  have htaken {bindings : List (String × Value)} (h : v.matchPattern pattern = .ok (some bindings)) :
      s.TakesArm strategy pattern (s.scopes.child ScopeTree.root).1 (s.entering bindings) := by
    intro n span place body arms
    rw [Eval.eval_cases hv, Eval.located, Eval.located, Eval.runArms_of_some h]
  constructor
  · intro h
    obtain ⟨found, hfound⟩ := Value.exists_matchPattern pattern hpattern v
    cases found with
    | none =>
      -- a match without other arms would fail
      have hfails := h 0 .nowhere .nowhere (.literal .nowhere (.bool true)) []
      rw [Eval.eval_cases hv, Eval.located, Eval.runArms_of_none hfound] at hfails
      cases hfails
    | some bindings =>
      obtain ⟨rfl, rfl⟩ := h.unique (htaken hfound)
      exact ⟨bindings, hfound, rfl, rfl⟩
  · rintro ⟨bindings, h, rfl, rfl⟩
    exact htaken h

/-- What a new scope sees that has just been entered. -/
theorem exists_get?_entering (hv : s.scopes.get? ScopeTree.root "v" = some v) (bindings : List (String × Value)) :
    ∃ u, (s.entering bindings).scopes.get? (s.scopes.child ScopeTree.root).1 "v" = some u := by
  have hchild := ScopeTree.contains_child (ScopeTree.root_lt hv) (ScopeTree.contains_root hv)
  exact Option.isSome_iff_exists.mp (ScopeTree.isSome_get? ((ScopeTree.grows_defineAll _ _ bindings).contains hchild))

theorem get?_rebound (hv : s.scopes.get? ScopeTree.root "v" = some v) (bindings : List (String × Value)) (name : String) :
    (s.rebound bindings).scopes.get? ScopeTree.root name =
      (((s.entering bindings).scopes.frame (s.scopes.child ScopeTree.root).1).vars.lookup name).or
        (s.scopes.get? ScopeTree.root name) := by
  have hinner : ((s.scopes.child ScopeTree.root).2.frame (s.scopes.child ScopeTree.root).1).vars = [] := by
    have hf : (s.scopes.child ScopeTree.root).2.frames[(s.scopes.child ScopeTree.root).1]? = some ⟨[], some ScopeTree.root⟩ := by
      rw [ScopeTree.child, Array.getElem?_push_size]
    rw [ScopeTree.frame_of_getElem? hf]
  rw [rebound, entering, ScopeTree.get?_root, ScopeTree.get?_root,
    ScopeTree.frame_defineAll (ScopeTree.root_lt hv), ScopeTree.frame_defineAll (ScopeTree.child_lt _ _), hinner]
  exact Assoc.lookup_insertAll ..

/-- A program of one statement answers what the statement does. -/
theorem feed_ok {source : String} {node : Node} (h : Program.parse source = .ok [node]) :
    s.feed strategy source = (.ok value, after) ↔
      Eval.eval strategy depthLimit node ScopeTree.root s = .ok value after := by
  rw [feed, h]
  show s.run strategy [node] = _ ↔ _
  rw [run]
  rcases hrun : Eval.eval strategy depthLimit node ScopeTree.root s with ⟨u, t⟩ | ⟨e, t⟩
  · have hlist : Eval.runStatements (Eval.eval strategy depthLimit) ScopeTree.root .nothing [node] s = .ok u t :=
      Eval.bind_of_ok hrun
    rw [hlist]
    simp
  · have hlist : Eval.runStatements (Eval.eval strategy depthLimit) ScopeTree.root .nothing [node] s = .error e t :=
      Eval.bind_of_error hrun
    rw [hlist]
    cases e <;> simp

/-- An assignment to a pattern succeeds if the pattern matches. -/
theorem feed_assign_ok (htarget : Program.target? text = some target) (hname : ∀ span name, target ≠ .ident span name)
    (hv : s.scopes.get? ScopeTree.root "v" = some v) : s.feed strategy (text ++ " := v") = (.ok value, after) ↔
      (∃ bindings, v.matchPattern target = .ok (some bindings) ∧ after = s.rebound bindings) ∧ value = v := by
  obtain ⟨span, place, hparse⟩ := Program.exists_of_target? htarget
  have hdepth : Eval.eval strategy depthLimit = Eval.eval strategy (999998 + 2) := rfl
  rw [feed_ok hparse, hdepth, Eval.eval_assign_ok hv]
  have htarget : target.isTarget = true :=
    ((Program.parse_wellFormed hparse).1 _ (Program.mem_nodes_of_mem (List.mem_singleton_self _))).target rfl
  cases target with
  | ident span name => exact absurd rfl (hname span name)
  | construct span name fields => rw [Eval.assignTo_ok]
  | _ => cases htarget

/-- An assignment to a pattern with a minus sign in it never succeeds. -/
theorem feed_signed (htarget : Program.target? text = some target) (hsigned : target.signed = true)
    (hv : s.scopes.get? ScopeTree.root "v" = some v) : s.feed strategy (text ++ " := v") ≠ (.ok value, after) := by
  have hname : ∀ span name, target ≠ .ident span name := by
    rintro span name rfl
    cases hsigned
  rw [Ne, feed_assign_ok htarget hname hv]
  rintro ⟨⟨bindings, hbindings, -⟩, -⟩
  exact Value.matchPattern_signed target hsigned v bindings hbindings

theorem feed_match_ok (harm : Program.arm? text = some pattern) (hpattern : pattern.isPattern = true)
    (hv : s.scopes.get? ScopeTree.root "v" = some v) :
    (∃ value after, s.feed strategy ("match v \x7b " ++ text ++ " => v \x7d") = (.ok value, after)) ↔
      ∃ bindings, v.matchPattern pattern = .ok (some bindings) := by
  obtain ⟨span, first, last, hparse⟩ := Program.exists_of_arm? harm
  have hdepth : Eval.eval strategy depthLimit = Eval.eval strategy (999998 + 2) := rfl
  simp only [feed_ok hparse, hdepth, Eval.eval_cases hv, Eval.located_ok]
  obtain ⟨found, hfound⟩ := Value.exists_matchPattern pattern hpattern v
  cases found with
  | none =>
    rw [hfound, Eval.runArms_of_none hfound]
    exact ⟨nofun, nofun⟩
  | some bindings =>
    obtain ⟨u, hu⟩ := exists_get?_entering hv bindings
    rw [Eval.runArms_of_some hfound]
    exact ⟨fun _ => ⟨bindings, hfound⟩, fun _ => ⟨u, _, Eval.eval_ident hu⟩⟩

/-- Destructuring and matching agree, for all texts that are both what is assigned to and the pattern of an arm. The
assignment succeeds exactly if the arm is taken, and then it binds in the root what the arm binds in a scope of its own.
Names are left out, which may always be assigned to, and so are minus signs in the fields of a pattern. -/
theorem destructures_iff_takesArm (htarget : Program.target? text = some target)
    (harm : Program.arm? text = some pattern) (hname : ∀ span name, target ≠ .ident span name)
    (hsigned : target.signed = false) (hv : s.scopes.get? ScopeTree.root "v" = some v) :
    ((∃ value after, s.feed strategy (text ++ " := v") = (.ok value, after)) ↔
        ∃ inner entered, s.TakesArm strategy pattern inner entered) ∧
      ((∃ value after, s.feed strategy (text ++ " := v") = (.ok value, after)) ↔
        ∃ value after, s.feed strategy ("match v \x7b " ++ text ++ " => v \x7d") = (.ok value, after)) ∧
      ∀ value after inner entered, s.feed strategy (text ++ " := v") = (.ok value, after) →
        s.TakesArm strategy pattern inner entered → ∀ name, after.scopes.get? ScopeTree.root name =
          ((entered.scopes.frame inner).vars.lookup name).or (s.scopes.get? ScopeTree.root name) := by
  have hpattern : pattern.isPattern = true := by
    obtain ⟨span, first, last, hparse⟩ := Program.exists_of_arm? harm
    have hwell := (Program.parse_wellFormed hparse).1 _ (Program.mem_nodes_of_mem (List.mem_singleton_self _))
    exact hwell.arms rfl _ (List.mem_singleton_self _)
  have hmatch : v.matchPattern target = v.matchPattern pattern :=
    Value.matchPattern_same (Program.same_of_texts htarget harm hsigned) hpattern v
  have hassign : (∃ value after, s.feed strategy (text ++ " := v") = (.ok value, after)) ↔
      ∃ bindings, v.matchPattern pattern = .ok (some bindings) := by
    simp only [feed_assign_ok htarget hname hv, hmatch]
    exact ⟨fun ⟨_, _, ⟨bindings, h, _⟩, _⟩ => ⟨bindings, h⟩, fun ⟨bindings, h⟩ => ⟨v, _, ⟨bindings, h, rfl⟩, rfl⟩⟩
  refine ⟨hassign.trans ?_, hassign.trans (feed_match_ok harm hpattern hv).symm, ?_⟩
  · simp only [takesArm_iff hv hpattern]
    exact ⟨fun ⟨bindings, h⟩ => ⟨_, _, bindings, h, rfl, rfl⟩, fun ⟨_, _, bindings, h, _⟩ => ⟨bindings, h⟩⟩
  · intro value after inner entered hfeed htaken name
    obtain ⟨⟨bindings, hbindings, rfl⟩, -⟩ := (feed_assign_ok htarget hname hv).mp hfeed
    obtain ⟨bindings', hbindings', rfl, rfl⟩ := (takesArm_iff hv hpattern).mp htaken
    rw [hmatch, hbindings'] at hbindings
    cases hbindings
    exact get?_rebound hv bindings name

/-- The integer that a name means in the root. -/
def integer? (s : Session) (name : String) : Option Int64 :=
  match s.scopes.get? ScopeTree.root name with
  | some (.int n) => some n
  | _ => none

theorem get?_of_integer? {name : String} {n : Int64} (h : s.integer? name = some n) :
    s.scopes.get? ScopeTree.root name = some (.int n) := by
  rw [integer?] at h
  split at h
  · next heq => rw [heq, Option.some.inj h]
  · cases h

theorem exists_of_isOk {result : Except ProgramError Value × Session} (h : result.1.isOk = true) :
    ∃ value, result = (.ok value, result.2) := by
  obtain ⟨outcome, after⟩ := result
  cases outcome with
  | ok value => exact ⟨value, rfl⟩
  | error e => cases h

/-- A point takes the arm, which binds `a` to one of its fields. -/
theorem point_takesArm : ∃ pattern, Program.arm? "Point \x7b x: ?a, y: 2 \x7d" = some pattern ∧
    ∀ strategy, ∃ inner entered,
      (fed strategy .standard ["type Point \x7b x: Int, y: Int \x7d", "v := Point \x7b x: 1, y: 2 \x7d"]).TakesArm
        strategy pattern inner entered ∧
      (entered.scopes.frame inner).vars.lookup "a" = some (.int 1) := by
  obtain ⟨hreads, htext⟩ : (Program.arm? "Point \x7b x: ?a, y: 2 \x7d").isSome = true ∧
      ((Program.target? "Point \x7b x: ?a, y: 2 \x7d").any fun target =>
        target.name?.isNone && !target.signed) = true := by decide +kernel
  obtain ⟨pattern, harm⟩ := Option.isSome_iff_exists.mp hreads
  obtain ⟨target, htarget, hnode⟩ := (Option.any_eq_true _ _).mp htext
  obtain ⟨hform, hsigned⟩ := Bool.and_eq_true_iff.mp hnode
  have hname : ∀ span name, target ≠ .ident span name := by
    rintro span name rfl
    cases hform
  refine ⟨pattern, harm, fun strategy => ?_⟩
  generalize hs : fed strategy .standard ["type Point \x7b x: Int, y: Int \x7d", "v := Point \x7b x: 1, y: 2 \x7d"] = s
  obtain ⟨hv, ha, hok, hafter⟩ : (s.scopes.get? ScopeTree.root "v").isSome = true ∧
      (s.scopes.get? ScopeTree.root "a").isNone = true ∧
      (s.feed strategy ("Point \x7b x: ?a, y: 2 \x7d" ++ " := v")).1.isOk = true ∧
      (s.feed strategy ("Point \x7b x: ?a, y: 2 \x7d" ++ " := v")).2.integer? "a" = some 1 := by
    rw [← hs]
    cases strategy <;> decide +kernel
  obtain ⟨v, hv⟩ := Option.isSome_iff_exists.mp hv
  obtain ⟨value, hfeed⟩ := exists_of_isOk hok
  obtain ⟨htakes, -, hbinds⟩ := destructures_iff_takesArm htarget harm hname (Bool.not_eq_true' _ ▸ hsigned) hv
  obtain ⟨inner, entered, htaken⟩ := htakes.mp ⟨value, _, hfeed⟩
  refine ⟨inner, entered, htaken, ?_⟩
  have hroot := hbinds value _ inner entered hfeed htaken "a"
  rwa [get?_of_integer? hafter, Option.isNone_iff_eq_none.mp ha, Option.or_none, eq_comm] at hroot

/-- A name may be assigned to, but a number does not take an arm with the name. -/
theorem name_unmatched : ∃ target pattern, Program.target? "x" = some target ∧ Program.arm? "x" = some pattern ∧
    ∀ strategy,
      (∃ value after, (fed strategy .standard ["v := 1"]).feed strategy ("x" ++ " := v") = (.ok value, after)) ∧
      ¬∃ inner entered, (fed strategy .standard ["v := 1"]).TakesArm strategy pattern inner entered := by
  obtain ⟨hreads, htext⟩ : (Program.target? "x").isSome = true ∧
      ((Program.arm? "x").any fun pattern => pattern.name?.isSome) = true := by decide +kernel
  obtain ⟨target, htarget⟩ := Option.isSome_iff_exists.mp hreads
  obtain ⟨pattern, harm, hform⟩ := (Option.any_eq_true _ _).mp htext
  refine ⟨target, pattern, htarget, harm, fun strategy => ?_⟩
  generalize hs : fed strategy .standard ["v := 1"] = s
  obtain ⟨hv, hok⟩ : s.integer? "v" = some 1 ∧ (s.feed strategy ("x" ++ " := v")).1.isOk = true := by
    rw [← hs]
    cases strategy <;> decide +kernel
  obtain ⟨value, hfeed⟩ := exists_of_isOk hok
  refine ⟨⟨value, _, hfeed⟩, ?_⟩
  rintro ⟨inner, entered, htaken⟩
  cases pattern with
  | ident span name =>
    obtain ⟨bindings, hbindings, -⟩ := (takesArm_iff (get?_of_integer? hv) rfl).mp htaken
    cases hbindings
  | _ => cases hform

end Session

end DispatchLang
