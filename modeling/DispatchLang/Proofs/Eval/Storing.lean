import DispatchLang.Proofs.Eval.Feeding
import DispatchLang.Proofs.Typing.Histories

/-!
# Heaps in all states of a session

A session is in order if its heap is and if all values that are bound to names belong to the heap. It is so in every
state that it gets into: between two sources, and whenever an evaluation is stopped on the way. For evaluation obeys the
discipline that allows everything, and an evaluation that obeys a discipline leaves an orderly session behind also when
it halts.

Evaluation by shape is stopped after a node (`Direct.evalUntil`), evaluation by type before one (`Eval.evalUntil`).

## Main definitions

* `Session.Tidy`: a session is in order.
* `Session.Reaches`: the states that a session may get into under the direct strategy.
* `Session.Arises`: the states of sessions under either strategy.

## Main results

* `Session.Reaches.orderly`, `Session.LeadsTo.orderly`: a session stays orderly, under either strategy.
* `Session.Arises.tidy`: the heap of a session is in order in every state.
-/

namespace DispatchLang

/-- The heap is in order, and all values that are bound to names belong to it. -/
structure Session.Tidy (strategy : Strategy) (s : Session) : Prop where
  /-- The heap is in order. -/
  heap : s.heap.Tidy strategy
  /-- The values that are bound to names belong to the heap. -/
  scopes : s.scopes.All (Value.Stored strategy s.heap)

/-! ## Everything is allowed -/

theorem Session.Orderly.tidy {d : Discipline} {strategy : Strategy} {s : Session} (h : s.Orderly d strategy) :
    s.Tidy strategy :=
  ⟨h.heap, h.scopes.mono fun _ hv => hv.stored⟩

/-! ## Evaluation that is stopped -/

/-- Evaluation by shape that is stopped where `stop` says so, after a node has been evaluated. -/
def Direct.evalUntil (stop : Node → ScopeId → Session → Bool) : Nat → NodeEval
  | 0 => fun _ _ => throw .exhausted
  | n + 1 => fun node scope => do
    let value ← Eval.evalNode .direct (Direct.evalUntil stop n) node scope
    if stop node scope (← get) then throw .exhausted else return value

theorem Direct.evalUntil_never (n : Nat) : Direct.evalUntil (fun _ _ _ => false) n = Eval.eval .direct n := by
  induction n with
  | zero => rfl
  | succ n ih =>
    funext node scope s
    rw [Direct.evalUntil, Eval.eval, ih]
    change EStateM.bind (Eval.evalNode .direct (Eval.eval .direct n) node scope) (fun value => pure value) s = _
    rw [EStateM.bind]
    cases Eval.evalNode .direct (Eval.eval .direct n) node scope s <;> rfl

namespace Obeys

variable (d : Discipline) (stop : Node → ScopeId → Session → Bool)

theorem directUntil (n : Nat) : SelfObeys d .direct (Direct.evalUntil stop n) (Direct.evalUntil stop n) := by
  induction n with
  | zero => exact fun _ _ _ _ => Obey.throw trivial
  | succ n ih =>
    refine fun node scope s h => ((Obey.form ih h scope).located node.span).bind fun value t _ hv => Obey.get ?_
    split
    · exact Obey.throw trivial
    · exact Obey.pure hv

theorem dispatchUntil (n : Nat) : SelfObeys d .dispatch (Eval.evalUntil stop n) (Eval.evalUntil stop n) := by
  induction n with
  | zero => exact fun _ _ _ _ => Obey.throw trivial
  | succ n ih =>
    intro node scope s h
    have hform := (Obey.form ih h scope).located (s := s) node.span
    by_cases hstop : stop node scope (s.equip ⟨false, [], [], [], []⟩) = true
    · have hthrow : Obeys d .dispatch s (throw .exhausted) (kept d .dispatch) := Obey.throw trivial
      exact hthrow.after (fun hs => ⟨.refl _, hs⟩) (if_pos hstop) (if_pos hstop)
    · exact hform.after (fun hs => ⟨.refl _, hs⟩) (if_neg hstop) (if_neg hstop)

end Obeys

/-! ## What a session goes through -/

namespace Session

variable {strategy : Strategy} {options : Options} {s t : Session}

/-- The session after a program has been run by shape until `stop` says so, and at most so deeply. -/
def stopped (stop : Node → ScopeId → Session → Bool) (depth : Nat) (program : Program) (s : Session) : Session :=
  match Eval.runStatements (Direct.evalUntil stop depth) ScopeTree.root .nothing program s with
  | .ok _ t => t
  | .error _ t => t

/-- What a session may become under the direct strategy: it may be fed sources, whether these fail or not, and what it
is in the middle of running a program counts as well. -/
inductive Reaches (s : Session) : Session → Prop where
  | refl : Reaches s s
  | fed {t : Session} (h : Reaches s t) (source : String) : Reaches s (t.feed .direct source).2
  | stopped {t : Session} (h : Reaches s t) (stop : Node → ScopeId → Session → Bool) (depth : Nat)
      (program : Program) : Reaches s (t.stopped stop depth program)

/-- However running a program ends, the session is orderly. -/
theorem Orderly.ran {self : NodeEval} (hself : SelfObeys .lax strategy self self) (h : s.Orderly .lax strategy)
    (program : Program) :
    Orderly .lax strategy (match Eval.runStatements self ScopeTree.root .nothing program s with
      | .ok _ t => t
      | .error _ t => t) := by
  obtain ⟨-, hrun⟩ := Obey.runStatements hself ScopeTree.root (fun _ _ => trivial) kept_nothing h
  generalize Eval.runStatements self ScopeTree.root .nothing program s = result at *
  cases result with
  | ok value t => exact hrun.2.1
  | error halt t => exact hrun.1

theorem Orderly.fed (h : s.Orderly .lax strategy) (source : String) : (s.feed strategy source).2.Orderly .lax strategy :=
  (feed_leaves (fun _ _ _ _ => trivial) h).orderly

theorem Reaches.orderly (h : s.Reaches t) (hs : s.Orderly .lax .direct) : t.Orderly .lax .direct := by
  induction h with
  | refl => exact hs
  | fed _ source ih => exact ih.fed source
  | stopped _ stop depth program ih => exact ih.ran (Obeys.directUntil _ stop depth) program

theorem LeadsTo.orderly (h : s.LeadsTo t) (hs : s.Orderly .lax .dispatch) : t.Orderly .lax .dispatch := by
  induction h with
  | refl => exact hs
  | fed _ source ih => exact ih.fed source
  | stopped _ stop depth program ih => exact ih.ran (Obeys.dispatchUntil _ stop depth) program
  | cleared _ ih => exact ⟨ih.heap, ih.cells, ih.scopes, ih.types, ih.functions⟩

def Arises (strategy : Strategy) (options : Options) (s : Session) : Prop :=
  match strategy with
  | .direct => (fresh .direct options).Reaches s
  | .dispatch => (fresh .dispatch options).LeadsTo s

theorem Arises.orderly (h : s.Arises strategy options) : s.Orderly .lax strategy := by
  cases strategy with
  | direct => exact Reaches.orderly h (orderly_fresh .lax _ _)
  | dispatch => exact LeadsTo.orderly h (orderly_fresh .lax _ _)

/-- In every state of a session the heap is in order. -/
theorem Arises.tidy (h : s.Arises strategy options) : s.Tidy strategy := h.orderly.tidy

end Session

end DispatchLang
