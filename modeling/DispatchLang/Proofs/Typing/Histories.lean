import DispatchLang.Proofs.Arena.Representation
import DispatchLang.Proofs.Eval.Caching
import DispatchLang.Proofs.Typing.Inference

/-!
# Arenas in all states

A session goes from one state to the next by being fed sources, and a checker by checking programs. But it also
matters what an arena is like while that happens. So an evaluation may be stopped before any node that it is about
to evaluate (`Eval.evalUntil`), and a checker may be left at any step that inference consists of (`LeadsTo`).

In all these states the arena is regular, and from one to a later one it has only grown. So types keep their
descriptors, and the indices of types that are made of others never disagree with these.

## Main results

* `Session.LeadsTo.formed`: what an evaluation leads to, stopped or not, has a regular arena that has grown.
* `Checker.LeadsTo.sound`: so has what a step of the checker leads to.
* `arenas_represent`: in all states the arena represents types, and no type ever changes.
-/

namespace DispatchLang

open TypeArena

/-! ## Evaluation that is stopped -/

/-- Evaluation by types that is stopped where `stop` says so, before a node is evaluated. That may depend on the
node, the scope and the session, but not on what the dispatcher remembers. -/
def Eval.evalUntil (stop : Node → ScopeId → Session → Bool) : Nat → NodeEval
  | 0 => fun _ _ => throw .exhausted
  | n + 1 => fun node scope s =>
    if stop node scope (s.equip ⟨false, [], [], [], []⟩) then .error .exhausted s
    else Eval.evalNode .dispatch (Eval.evalUntil stop n) node scope s

theorem Eval.evalUntil_never (n : Nat) : Eval.evalUntil (fun _ _ _ => false) n = Eval.eval .dispatch n := by
  induction n with
  | zero => rfl
  | succ n ih =>
    rw [Eval.evalUntil, Eval.eval, ih]
    rfl

theorem evalUntil_transparent (stop : Node → ScopeId → Session → Bool) (n : Nat) :
    SelfTwins (Eval.evalUntil stop n) (Eval.evalUntil stop n) := by
  induction n with
  | zero => exact fun _ _ _ _ => Alike.throw _
  | succ n ih =>
    intro node scope t d hl
    have hnode := (Twins.form ih nativesTwins_builtin node scope).located node.span d hl
    rw [Natives.form_builtin] at hnode
    rw [Eval.evalUntil]
    dsimp only
    rw [Session.equip_equip]
    by_cases hstop : stop node scope (t.equip ⟨false, [], [], [], []⟩) = true
    · rw [if_pos hstop, if_pos hstop]
      exact .halted hl (.refl _)
    · rw [if_neg hstop, if_neg hstop]
      exact hnode

/-! ## What a session goes through -/

namespace Session

variable {t t' : Session}

/-- The session after a program has been run until `stop` says so, and at most so deeply. -/
def runUntil (stop : Node → ScopeId → Session → Bool) (depth : Nat) (program : Program) (t : Session) : Session :=
  match Eval.runStatements (Eval.evalUntil stop depth) ScopeTree.root .nothing program t with
  | .ok _ s => s
  | .error _ s => s

/-- What a session may become: it may be fed sources, whether these fail or not, and what it is in the middle of
running a program counts as well. -/
inductive LeadsTo (t : Session) : Session → Prop where
  | refl : LeadsTo t t
  | fed {s : Session} (h : LeadsTo t s) (source : String) : LeadsTo t (s.feed .dispatch source).2
  | stopped {s : Session} (h : LeadsTo t s) (stop : Node → ScopeId → Session → Bool) (depth : Nat)
      (program : Program) : LeadsTo t (s.runUntil stop depth program)
  | cleared {s : Session} (h : LeadsTo t s) : LeadsTo t s.cleared

/-- Wherever a run is stopped, the session is as it should be and its arena has grown. -/
theorem Like.runUntil {d : Dispatcher} (h : t.Like d) (stop : Node → ScopeId → Session → Bool) (depth : Nat)
    (program : Program) : ∃ d', (t.runUntil stop depth program).Like d' ∧
      t.arena.Extends (t.runUntil stop depth program).arena := by
  have hrun := Twins.runStatements (evalUntil_transparent stop depth) ScopeTree.root program
    (Value.in_of_types_nil rfl : valueIn t .nothing) d h
  rw [Session.runUntil]
  generalize Eval.runStatements _ ScopeTree.root .nothing program t = r,
    Eval.runStatements _ ScopeTree.root .nothing program (t.equip d) = r' at hrun
  cases hrun with
  | given hl he _ => exact ⟨_, hl, he⟩
  | halted hl he => exact ⟨_, hl, he⟩

theorem feed_eq_runUntil (source : String) (t : Session) :
    (t.feed .dispatch source).2 = t ∨
      ∃ program, (t.feed .dispatch source).2 = t.runUntil (fun _ _ _ => false) depthLimit program := by
  rw [Session.feed]
  cases Program.parse source with
  | error e => exact .inl rfl
  | ok program =>
    refine .inr ⟨program, ?_⟩
    dsimp only
    rw [Session.run, Session.runUntil, Eval.evalUntil_never]
    cases Eval.runStatements (Eval.eval .dispatch depthLimit) ScopeTree.root .nothing program t with
    | ok value s => rfl
    | error halt s => cases halt <;> rfl

/-- Whatever a session becomes, its arena is regular and has grown. -/
theorem LeadsTo.formed (h : t.LeadsTo t') {d : Dispatcher} (hl : t.Like d) :
    ∃ d', t'.Like d' ∧ t.arena.Extends t'.arena := by
  induction h with
  | refl => exact ⟨d, hl, .refl _⟩
  | fed _ source ih =>
    obtain ⟨d', hl', he⟩ := ih
    rcases feed_eq_runUntil source _ with heq | ⟨program, heq⟩
    · rw [heq]
      exact ⟨d', hl', he⟩
    · rw [heq]
      obtain ⟨d'', hl'', he'⟩ := hl'.runUntil _ depthLimit program
      exact ⟨d'', hl'', he.trans he'⟩
  | stopped _ stop depth program ih =>
    obtain ⟨d', hl', he⟩ := ih
    obtain ⟨d'', hl'', he'⟩ := hl'.runUntil stop depth program
    exact ⟨d'', hl'', he.trans he'⟩
  | cleared _ ih =>
    obtain ⟨d', hl', he⟩ := ih
    exact ⟨_, hl'.cleared, he⟩

end Session

/-! ## What a checker goes through -/

namespace Checker

variable {base : TypeArena} {c c' : Checker}

/-- What a checker may become: it may check programs, and what it is in the middle of that counts as well. These
are the steps that the inference of a type consists of, each with types that are there: nodes that are parts of
others, scopes with what patterns and parameters bind, type variables, and methods whose bodies are not known
yet. -/
inductive LeadsTo (c : Checker) : Checker → Prop where
  | refl : LeadsTo c c
  | checked {d : Checker} (h : LeadsTo c d) (program : Program) : LeadsTo c (d.check program).2
  | inferred {d : Checker} (h : LeadsTo c d) (inPlace : Bool) (node : Node) :
      LeadsTo c ((Check.infer inPlace node).run d).2
  | scopeEntered {d : Checker} (h : LeadsTo c d) : LeadsTo c { d with scopes := [] :: d.scopes }
  | scopeLeft {d : Checker} (h : LeadsTo c d) : LeadsTo c { d with scopes := d.scopes.tail }
  | defined {d : Checker} (h : LeadsTo c d) (name : String) {type : TypeId} (ht : type < d.arena.size) :
      LeadsTo c ((Check.define name type).run d).2
  | matched {d : Checker} (h : LeadsTo c d) {type : TypeId} (ht : type < d.arena.size) (pattern : Node) :
      LeadsTo c ((Check.bindPattern type pattern).run d).2
  | paramsDefined {d : Checker} (h : LeadsTo c d) (params : List Param) :
      LeadsTo c ((Check.defineParams params).run d).2
  | typeParamsEntered {d : Checker} (h : LeadsTo c d) (params : List TypeParam) :
      LeadsTo c ((Check.enterTypeParams params).run d).2
  | typeParamsLeft {d : Checker} (h : LeadsTo c d) {outer : Bindings} (ho : outer.In d.arena) :
      LeadsTo c { d with typeVars := outer }
  | paramsResolved {d : Checker} (h : LeadsTo c d) (params : List Param) :
      LeadsTo c ((Check.resolveParams params).run d).2
  | methodAdded {d : Checker} (h : LeadsTo c d) (name : String) (vars : List TypeId) {params : List TypeId}
      {result : TypeId} (hp : ∀ x ∈ params, x < d.arena.size) (hr : result < d.arena.size) :
      LeadsTo c ((do
        let type ← Check.modifyTypes (·.function params result)
        Check.addMethod name ⟨vars, params, type⟩ : Check Unit).run d).2
  | typeDeclared {d : Checker} (h : LeadsTo c d) (decl : TypeDecl) :
      LeadsTo c ((Check.declareType decl).run d).2

theorem LeadsTo.sound (h : c.LeadsTo c') (hs : c.Sound base) : c'.Sound base := by
  induction h with
  | refl => exact hs
  | checked _ program ih =>
    have hs' := (Check.Keeps.inferPlaced program ih).1
    exact ⟨hs'.regular, hs'.extension, ⟨hs'.known.scopes, hs'.known.types, hs'.known.functions, hs'.known.variants,
      hs'.known.typeVars⟩, hs'.declared⟩
  | inferred _ inPlace node ih => exact (Check.Keeps.infer inPlace node ih).1
  | scopeEntered _ ih =>
    exact ⟨ih.regular, ih.extension, ⟨List.forall_mem_cons.mpr ⟨nofun, ih.known.scopes⟩, ih.known.types,
      ih.known.functions, ih.known.variants, ih.known.typeVars⟩, ih.declared⟩
  | scopeLeft _ ih =>
    exact ⟨ih.regular, ih.extension, ⟨fun scope hmem => ih.known.scopes scope (List.mem_of_mem_tail hmem),
      ih.known.types, ih.known.functions, ih.known.variants, ih.known.typeVars⟩, ih.declared⟩
  | defined _ name ht ih => exact (Check.Keeps.define name ht ih).1
  | matched _ ht pattern ih => exact (Check.Keeps.bindPattern ht pattern ih).1
  | paramsDefined _ params ih => exact (Check.Keeps.defineParams params ih).1
  | typeParamsEntered _ params ih => exact (Check.Keeps.enterTypeParams params ih).1
  | typeParamsLeft _ ho ih =>
    exact ⟨ih.regular, ih.extension, ⟨ih.known.scopes, ih.known.types, ih.known.functions, ih.known.variants, ho⟩,
      ih.declared⟩
  | paramsResolved _ params ih => exact (Check.Keeps.resolveParams params ih).1
  | methodAdded _ name vars hp hr ih =>
    exact ((Check.Keeps.function hp hr).bind fun type _ hn ht =>
      Check.Keeps.addMethod name (m := ⟨vars, _, type⟩) (Check.typesBelow.mono hp hn) ht) ih |>.1
  | typeDeclared _ decl ih => exact (Check.Keeps.declareType decl ih).1

end Checker

/-! ## All states -/

/-- In whatever state a session or a checker is, its arena represents types as it should, and all types that it
mentions are there. Whatever it goes through from there on, no type ever changes. -/
theorem arenas_represent :
    (∀ options t, (Session.fresh .dispatch options).LeadsTo t →
      t.arena.Represents ∧ (t.heap.In t.arena.size ∧ t.scopes.All (Value.In t.arena.size)) ∧
        ∀ t', t.LeadsTo t' → t.arena.Extends t'.arena) ∧
    ∀ c, Checker.initial.LeadsTo c →
      c.arena.Represents ∧ c.In c.arena.size ∧ ∀ c', c.LeadsTo c' → c.arena.Extends c'.arena := by
  constructor
  · intro options t h
    obtain ⟨d, hl, -⟩ := h.formed (Session.fresh_like options.assignment options.cache options.cache)
    exact ⟨hl.formed.regular.represents, ⟨hl.formed.heap, hl.formed.scopes⟩,
      fun t' h' => (h'.formed hl).elim fun _ h => h.2⟩
  · intro c h
    have hs := h.sound Checker.initial_sound
    exact ⟨hs.regular.represents, hs.known, fun c' h' => (h'.sound hs.self).extension⟩

/-- A type of nodes that hold arrays of nodes, and an attempt to declare one with a field of a type that is not
known. -/
def nodeTypes : String := "type Tree { children: Array[Tree] }; type Leaf <: Tree { next: Lost }"

/-- The failed declaration leaves a type without fields behind, and the type of arrays of trees is newer than the
type of trees that mentions it. -/
theorem nodeTypes_represented :
    let session := ((Session.fresh .dispatch .standard).feed .dispatch nodeTypes).2
    let checker := (Checker.initial.check ((Program.parse nodeTypes).toOption.getD [])).2
    (session.arena.Represents ∧ session.arena.ancestors 16 = [16, 14, 0] ∧
      session.arena.keyed? (.applied .array [14]) = some 15) ∧
    checker.arena.Represents := by
  have hevaluated := (arenas_represent.1 .standard _ (.fed .refl nodeTypes)).1
  have hchecked := (arenas_represent.2 _ (.checked .refl ((Program.parse nodeTypes).toOption.getD []))).1
  refine ⟨⟨hevaluated, ?_, ?_⟩, hchecked⟩
  · decide +kernel
  · decide +kernel

end DispatchLang
