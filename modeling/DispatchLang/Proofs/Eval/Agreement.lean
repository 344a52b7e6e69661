import DispatchLang.Proofs.Eval.Builtins
import DispatchLang.Proofs.Eval.Fresh

/-!
# The two strategies agree on basic programs

Every form of a tree but the call of a function and the declaration of one is evaluated alike by both strategies
if its parts are (`Agree.evalForm`), and so is a call if calling a value is (`Agree.evalCall`). In basic
trees there are no declarations, and all functions that are called by name are built-in ones. So, by
induction on the depth to which the dispatch strategy may nest, all basic trees are evaluated alike, and so
are programs that begin in fresh sessions.

A program may need more depth under one strategy than under the other, so each of the two runs comes with a
bound of its own.

## Main results

* `eval_agrees`: evaluating a basic tree agrees.
* `Session.strategies_agree`: if a basic program ends under both strategies, it fails under both, or else
  succeeds under both with the same text, the same name of the type and the same output.
-/

namespace DispatchLang

variable {D : Dialect}

theorem TypeArena.initial_kind_ne_struct {id : TypeId} (h : id < builtinTypes.length)
    {params : List String} {fields : FieldTypes} :
    (TypeArena.initial.get id).kind ≠ .struct params fields := by
  have hname : ∀ id < builtinTypes.length, (TypeArena.initial.get id).kind.name ≠ "struct" := by
    decide
  exact fun hk => hname id h (hk ▸ rfl)

/-- Two evaluators agree on all trees of a dialect. -/
def SelfAgrees (D : Dialect) (self self' : NodeEval) : Prop :=
  ∀ (node : Node) (scope : ScopeId), D.Tree node →
    ∀ t, Agree D t (self node scope) (self' node scope) (basicValue D)

theorem Assoc.insert_basic {t : Session} {name : String} {value : Value}
    {entries : List (String × Value)} (h : basicEntries D t entries) (hv : value.Basic D t.heap) :
    basicEntries D t (Assoc.insert name value entries) := by
  intro e he
  rcases ScopeTree.mem_insert he with heq | he
  · exact heq ▸ hv
  · exact h e he

namespace Agree

variable {t : Session} {self self' : NodeEval} {scope : ScopeId}

/-! ## Bodies -/

theorem nothing_basic {heap : Heap} : Value.nothing.Basic D heap := trivial

/-- Running the body of a function or a closure in a scope of its own agrees. -/
theorem enter (who : String) (params : List String) (outer : ScopeId) {args : List Value}
    (hargs : basicValues D t args) {run run' : ScopeId → Eval Value}
    (hrun : ∀ inner t, Agree D t (run inner) (run' inner) (basicValue D)) :
    Agree D t
      (do
        Eval.check (checkArity who params.length args.length)
        let inner ← Eval.newScope outer
        Eval.defineAll inner (params.zip args)
        run inner)
      (do
        Eval.check (checkArity who params.length args.length)
        let inner ← Eval.newScope outer
        Eval.defineAll inner (params.zip args)
        run' inner) (basicValue D) := by
  refine (check (P := anything) _ fun _ _ => trivial).bind fun _ t₁ hg₁ _ => ?_
  refine (newScope outer).bind fun inner t₂ hg₂ _ => ?_
  have hbound : basicEntries D t₂ (params.zip args) := fun e he =>
    ((hargs e.2 (List.of_mem_zip he).2).grows hg₁).grows hg₂
  exact (defineAll inner hbound).bind fun _ t₃ _ _ => hrun inner t₃

section

variable (hself : SelfAgrees D self self')
include hself

theorem runStatements {statements : List Node} (h : ∀ node ∈ statements, D.Tree node) {last : Value}
    (hlast : last.Basic D t.heap) :
    Agree D t (Eval.runStatements self scope last statements)
      (Eval.runStatements self' scope last statements) (basicValue D) := by
  induction statements generalizing t last with
  | nil => exact pure hlast
  | cons statement statements ih =>
    obtain ⟨hstatement, h⟩ := List.forall_mem_cons.mp h
    exact (hself statement scope hstatement t).bind fun value t' _ hv => ih h hv

theorem runBody {body : Node} (h : D.Tree body) :
    Agree D t (Eval.runBody self body scope) (Eval.runBody self' body scope) (basicValue D) := by
  cases body with
  | block span params statements =>
    cases params with
    | nil => exact runStatements hself (fun node hn => D.child h hn) nothing_basic
    | cons _ _ => exact hself _ scope h t
  | _ => exact hself _ scope h t

/-- Evaluating several nodes agrees, and there are as many values as nodes. -/
theorem evalAll {nodes : List Node} (h : ∀ node ∈ nodes, D.Tree node) :
    Agree D t (Eval.evalAll self nodes scope) (Eval.evalAll self' nodes scope)
      fun t values => basicValues D t values ∧ values.length = nodes.length := by
  rw [Eval.evalAll, Eval.evalAll]
  induction nodes generalizing t with
  | nil => exact pure ⟨fun _ hv => absurd hv List.not_mem_nil, rfl⟩
  | cons node nodes ih =>
    obtain ⟨hnode, h⟩ := List.forall_mem_cons.mp h
    rw [List.mapM_cons, List.mapM_cons]
    refine (hself node scope hnode t).bind fun value t' _ hv =>
      (ih h).bind fun values t'' hg hvs => ?_
    exact pure ⟨List.forall_mem_cons.mpr ⟨hv.grows hg, hvs.1⟩, congrArg (· + 1) hvs.2⟩

theorem evalEntries {entries : List (Located String × Node)} (h : ∀ e ∈ entries, D.Tree e.2)
    {done : List (String × Value)} (hdone : basicEntries D t done) :
    Agree D t (Eval.evalEntries self scope done entries) (Eval.evalEntries self' scope done entries)
      (basicEntries D) := by
  induction entries generalizing t done with
  | nil => exact pure hdone
  | cons entry entries ih =>
    obtain ⟨hentry, h⟩ := List.forall_mem_cons.mp h
    exact (hself entry.2 scope hentry t).bind fun value t' hg hv =>
      ih h (Assoc.insert_basic (basicEntries.grows hdone hg) hv)

/-! ## Calls -/

theorem callValue {callee : Value} (hcallee : callee.Basic D t.heap)
    (hbuiltin : ∀ name, callee = .generic name → name ∈ Direct.functionNames)
    (htype : D.steady = true ∨ callee ≠ .generic "type") {args : List Value}
    (hargs : basicValues D t args) (hlength : args.length ≤ Tables.variadicLimit) :
    Agree D t (Eval.callValue .direct self callee args scope)
      (Eval.callValue .dispatch self' callee args scope) (basicValue D) := by
  cases callee with
  | closure id params body outer =>
    exact enter _ params outer hargs fun inner t => runStatements hself hcallee nothing_basic
  | generic name =>
    exact callFunction hargs hlength (fun node hnode t => hself node scope hnode t) (hbuiltin name rfl)
      (htype.imp_right fun hne heq => hne (congrArg _ heq))
  | inst _ _ _ _ => exact hcallee.elim
  | function _ _ _ _ _ => exact hcallee.elim
  | constructor _ _ => exact hcallee.elim
  | _ => exact fails ⟨_, _, rfl⟩ ⟨_, _, rfl⟩

/-- A call agrees if calling what the name means does. -/
theorem evalCall {call call' : Value → List Value → Eval Value} (function : Located String)
    {args : List Node} (h : ∀ arg ∈ args, D.Tree arg)
    (hcall : ∀ callee values t, callee.Basic D t.heap → basicValues D t values →
      values.length = args.length → Agree D t (call callee values) (call' callee values) (basicValue D)) :
    Agree D t
      (do
        match ← Eval.lookup scope function.val with
        | none => Eval.fail (.undefinedVariable function.val)
        | some callee => call callee (← Eval.evalAll self args scope))
      (do
        match ← Eval.lookup scope function.val with
        | none => Eval.fail (.undefinedVariable function.val)
        | some callee => call' callee (← Eval.evalAll self' args scope)) (basicValue D) := by
  refine (lookup scope function.val).bind fun found t₁ _ hfound => ?_
  cases found with
  | none => exact fails ⟨_, _, rfl⟩ ⟨_, _, rfl⟩
  | some callee =>
    refine (evalAll hself h).bind fun values t₂ hg hvalues => ?_
    exact hcall callee values t₂ ((hfound callee rfl).grows hg) hvalues.1 hvalues.2

end

/-! ## Instances -/

/-- No program without declarations has a type to build an instance of. -/
theorem construct (name : Located String) {fields : List (Located String × Node)} :
    Agree D t (Eval.construct .direct self name fields scope)
      (Eval.construct .dispatch self' name fields scope) (basicValue D) := by
  refine (lookup scope name.val).bind fun found t' _ hfound => ?_
  cases found with
  | none => exact fails ⟨_, _, rfl⟩ ⟨_, _, rfl⟩
  | some value =>
    have hvalue := hfound value rfl
    cases value with
    | constructor _ _ => exact hvalue.elim
    | typeRef id typeName =>
      refine ofSound fun hs => get ?_
      have hget : t'.arena.get id = t'.untyped.arena.get id := hs.grown.extension.get_eq hvalue
      rw [hget]
      dsimp only [Session.untyped]
      cases hk : (TypeArena.initial.get id).kind with
      | struct _ _ => exact absurd hk (TypeArena.initial_kind_ne_struct hvalue)
      | _ => exact fails ⟨_, _, rfl⟩ ⟨_, _, rfl⟩
    | _ => exact fails ⟨_, _, rfl⟩ ⟨_, _, rfl⟩

/-! ## Members -/

theorem fieldOf {receiver : Value} (h : receiver.Basic D t.heap) (field : String) :
    Agree D t (Eval.fieldOf .direct receiver field) (Eval.fieldOf .dispatch receiver field)
      (basicValue D) := by
  refine ofSound fun hs => get ?_
  have hlength : receiver.length? t.untyped.heap = receiver.length? t.heap :=
    Value.length?_untyped t.heap receiver
  have hown : receiver.ownField? t.untyped.heap field = receiver.ownField? t.heap field :=
    Value.ownField?_untyped t.heap field receiver
  dsimp only
  rw [hlength]
  split
  · exact pure trivial
  · cases receiver with
    | inst _ _ _ _ => exact h.elim
    | object address =>
      dsimp only
      rw [hown]
      cases hfield : (Value.object address).ownField? t.heap field with
      | none => exact fails ⟨_, _, rfl⟩ ⟨_, _, rfl⟩
      | some value => exact pure (hs.heap.entries_basic _ (Assoc.mem_of_lookup hfield))
    | _ => exact fails ⟨_, _, rfl⟩ ⟨_, _, rfl⟩

/-! ## Patterns -/

theorem matchValue (pattern : Node) {value : Value} (h : value.Basic D t.heap) :
    Agree D t (Eval.matchValue pattern value) (Eval.matchValue pattern value)
      fun t found => ∀ bindings, found = some bindings → basicEntries D t bindings := by
  rw [Eval.matchValue]
  cases hm : value.matchPattern pattern with
  | error e => exact fails ⟨_, _, rfl⟩ ⟨_, _, rfl⟩
  | ok found =>
    refine pure fun bindings hfound b hb => ?_
    rw [hfound] at hm
    rw [Value.matchPattern_eq (Value.fieldsOf?_eq_none_of_basic h) pattern hm b hb]
    exact h

theorem assignAll {bindings : List (String × Value)} (h : basicEntries D t bindings) :
    Agree D t (bindings.forM fun (name, bound) => Eval.assign scope name bound)
      (bindings.forM fun (name, bound) => Eval.assign scope name bound) anything := by
  induction bindings generalizing t with
  | nil => exact pure trivial
  | cons binding bindings ih =>
    obtain ⟨hb, hbs⟩ := List.forall_mem_cons.mp h
    exact (assign scope binding.1 hb).bind fun _ t' hg _ => ih (basicEntries.grows hbs hg)

theorem assignTo (target : Node) {value : Value} (h : value.Basic D t.heap) :
    Agree D t (Eval.assignTo target value scope) (Eval.assignTo target value scope) anything := by
  cases target with
  | ident _ name => exact assign scope name h
  | construct span name fields =>
    refine (matchValue _ h).bind fun found t' _ hfound => ?_
    cases found with
    | none => exact fails ⟨_, _, rfl⟩ ⟨_, _, rfl⟩
    | some bindings => exact assignAll (hfound bindings rfl)
  | _ => exact fails ⟨_, _, rfl⟩ ⟨_, _, rfl⟩

theorem runArms (hself : SelfAgrees D self self') {arms : List (Node × Node)}
    (h : ∀ arm ∈ arms, D.Tree arm.2) {value : Value} (hv : value.Basic D t.heap) :
    Agree D t (Eval.runArms self value scope arms) (Eval.runArms self' value scope arms)
      (basicValue D) := by
  induction arms generalizing t with
  | nil => exact fails ⟨_, _, rfl⟩ ⟨_, _, rfl⟩
  | cons arm arms ih =>
    obtain ⟨pattern, body⟩ := arm
    obtain ⟨hbody, h⟩ := List.forall_mem_cons.mp h
    refine (matchValue pattern hv).bind fun found t₁ hg₁ hfound => ?_
    cases found with
    | none => exact ih h (hv.grows hg₁)
    | some bindings =>
      refine (newScope scope).bind fun inner t₂ hg₂ _ => ?_
      refine (defineAll inner ((hfound bindings rfl).grows hg₂)).bind fun _ t₃ _ _ => ?_
      exact runBody hself hbody

/-! ## Nodes -/

theorem ofLiteral_basic {heap : Heap} (literal : Literal) :
    (Value.ofLiteral literal).Basic D heap := by
  cases literal <;> exact trivial

theorem evalForm (hself : SelfAgrees D self self') {node : Node} (h : D.Tree node)
    (hcall : ∀ span function args, node ≠ .call span function args)
    (hsend : ∀ span receiver method args, node ≠ .send span receiver method args)
    (hfunction : ∀ span head body, node ≠ .function span head body) :
    Agree D t (Eval.evalForm .direct self node scope) (Eval.evalForm .dispatch self' node scope)
      (basicValue D) := by
  have hchild : ∀ child ∈ node.children, D.Tree child := fun child hc => D.child h hc
  cases node with
  | literal span value => exact pure (ofLiteral_basic value)
  | ident span name =>
    refine (lookup scope name).bind fun found t' _ hfound => ?_
    cases found with
    | none => exact fails ⟨_, _, rfl⟩ ⟨_, _, rfl⟩
    | some value => exact pure (hfound value rfl)
  | binary span op left right =>
    exact binaryNode op (hself left scope (hchild left (by simp [Node.children])))
      (hself right scope (hchild right (by simp [Node.children])))
  | unary span op operand =>
    exact (hself operand scope (hchild operand (List.mem_singleton_self _)) t).bind
      fun value t' _ hv => unary hv op
  | assign span target value =>
    refine (hself value scope (hchild value (by simp [Node.children])) t).bind fun v t' _ hv => ?_
    exact (assignTo target hv).bind fun _ t'' hg _ => pure (hv.grows hg)
  | field span subject member =>
    exact (hself subject scope (hchild subject (List.mem_singleton_self _)) t).bind
      fun receiver t' _ hr => fieldOf hr member.val
  | block span params body => exact newId.bind fun _ _ _ _ => pure hchild
  | cases span scrutinee arms =>
    have harms : ∀ arm ∈ arms, D.Tree arm.2 := fun arm ha =>
      hchild arm.2 (List.mem_cons_of_mem _ (List.mem_flatMap.mpr ⟨arm, ha, by simp⟩))
    exact (hself scrutinee scope (hchild scrutinee List.mem_cons_self) t).bind
      fun value t' _ hv => runArms hself harms hv
  | construct span name fields => exact construct name
  | capture span name => exact fails ⟨_, _, rfl⟩ ⟨_, _, rfl⟩
  | refine span name pattern => exact fails ⟨_, _, rfl⟩ ⟨_, _, rfl⟩
  | quoted span body => exact pure (hchild body (List.mem_singleton_self _))
  | array span elements =>
    exact (evalAll hself hchild).bind fun values t' _ hvalues => newArray hvalues.1
  | object span entries =>
    have hentries : ∀ e ∈ entries, D.Tree e.2 := fun e he => hchild e.2 (List.mem_map_of_mem he)
    exact (evalEntries hself hentries fun _ he => absurd he List.not_mem_nil).bind
      fun values t' _ hvalues => newObject hvalues
  | pair span key value => exact fails ⟨_, _, rfl⟩ ⟨_, _, rfl⟩
  | call span function args => exact absurd rfl (hcall span function args)
  | function span head body => exact absurd rfl (hfunction span head body)
  | send span receiver method args => exact absurd rfl (hsend span receiver method args)
  | typeDecl span decl => cases D.isSimple h rfl

theorem evalForm_basic (hself : SelfAgrees .basic self self') {node : Node}
    (h : node.isBasic = true) :
    Agree .basic t (Eval.evalForm .direct self node scope)
      (Eval.evalForm .dispatch self' node scope) (basicValue .basic) := by
  cases node with
  | call span function args =>
    have hargs : ∀ arg ∈ args, Dialect.basic.Tree arg := fun arg ha => Node.isBasic_of_mem_children h ha
    refine evalCall hself function hargs fun callee values t hcallee hvalues hlength => ?_
    refine callValue hself hcallee (fun name heq => ?_) (.inl rfl) hvalues ?_
    · -- No function is declared in a basic tree.
      obtain rfl := heq
      rcases hcallee with hname | ⟨params, body, _, _, htree, -⟩
      · exact hname
      · cases htree
    · rw [hlength]
      exact of_decide_eq_true (Dialect.basic.isSimple h rfl)
  | send span receiver method args => cases h
  | function span head body => cases h
  | _ => exact evalForm hself h nofun nofun nofun

end Agree

/-! ## Programs -/

/-- Evaluators of any two depths agree. -/
theorem eval_agrees (m n : Nat) :
    SelfAgrees .basic (Eval.eval .direct n) (Eval.eval .dispatch m) := by
  induction m generalizing n with
  | zero => exact fun node scope _ t _ => .exhausted
  | succ m ih =>
    have hnode : ∀ n, SelfAgrees .basic (Eval.eval .direct (n + 1)) (Eval.eval .dispatch (m + 1)) :=
      fun n node scope h t => (Agree.evalForm_basic (ih n) h).located node.span
    cases n with
    | zero =>
      -- A direct evaluation without any depth says nothing, and one that is a level deep says more.
      exact fun node scope h t hs => (hnode 0 node scope h t hs).giveUp _
    | succ n => exact hnode n

/-- What computations that agree end with is shown alike. -/
theorem Agrees.shown {t : Session} {result result' : Except RuntimeError Value}
    {session session' : Session}
    (h : Agrees D (basicValue D) t
      (match result with
        | .ok value => .ok value session
        | .error e => .error (.error e) session)
      (match result' with
        | .ok value => .ok value session'
        | .error e => .error (.error e) session')) :
    (∃ value value', result = .ok value ∧ result' = .ok value' ∧
        session.display value = session'.display value' ∧
        (D.steady = true → session.typeText .direct value = session'.typeText .dispatch value') ∧
        session.output = session'.output) ∨
      ∃ e e', result = .error e ∧ result' = .error e' := by
  cases result with
  | ok value =>
    cases result' with
    | ok value' =>
      refine .inl ⟨value, value', rfl, rfl, ?_⟩
      cases h with
      | given hg hs hp =>
        refine ⟨Value.text_untyped session'.heap value, fun hD => ?_, rfl⟩
        exact (Value.shapeName_untyped session'.heap value).trans
          (hs.heap.name_tag hs.grown hs.named hD hp).symm
    | error e => cases h
  | error e =>
    cases result' with
    | ok value' => cases h
    | error e' => exact .inr ⟨e, e', rfl, rfl⟩

namespace Session

/-- A program that is run in a fresh session ends, with a value or an error, if it may nest deeply
enough. -/
def Ends (strategy : Strategy) (options : Options) (program : Program)
    (result : Except RuntimeError Value) (session : Session) : Prop :=
  ∃ depth, Eval.runStatements (Eval.eval strategy depth) ScopeTree.root .nothing program
      (fresh strategy options) =
    match result with
    | .ok value => .ok value session
    | .error e => .error (.error e) session

/-- If a basic program ends under both strategies, it fails under both, or else it succeeds under both with
the same text, the same name of the type and the same output. -/
theorem strategies_agree (options : Options) {program : Program}
    (hbasic : Node.allBasic program = true) {result result' : Except RuntimeError Value}
    {session session' : Session} (h : Ends .direct options program result session)
    (h' : Ends .dispatch options program result' session') :
    (∃ value value', result = .ok value ∧ result' = .ok value' ∧
        session.display value = session'.display value' ∧
        session.typeText .direct value = session'.typeText .dispatch value' ∧
        session.output = session'.output) ∨
      ∃ e e', result = .error e ∧ result' = .error e' := by
  obtain ⟨n, h⟩ := h
  obtain ⟨m, h'⟩ := h'
  have hagree := @Agree.runStatements _ _ _ _ ScopeTree.root (eval_agrees m n) program
    (Node.allBasic_iff.mp hbasic) .nothing trivial (fresh_sound options .basic)
  rw [untyped_fresh, h, h'] at hagree
  refine hagree.shown.imp_left ?_
  rintro ⟨value, value', hv, hv', hdisplay, htype, houtput⟩
  exact ⟨value, value', hv, hv', hdisplay, htype rfl, houtput⟩

/-- The tree of `print(type([[1], [2]]))` and `[1] + ["a"]`. -/
def arrayProgram : Program :=
  let array (nodes : List Node) : Node := .array default nodes
  let one : Node := .literal default (.int 1)
  let two : Node := .literal default (.int 2)
  [.call default ⟨"print", default⟩
      [.call default ⟨"type", default⟩ [array [array [one], array [two]]]],
   .binary default .add (array [one]) (array [.literal default (.string "a")])]

/-- Whether a program ends with a value when it may nest so deeply. -/
def succeeds (strategy : Strategy) (depth : Nat) (program : Program) : Bool :=
  match Eval.runStatements (Eval.eval strategy depth) ScopeTree.root .nothing program
      (fresh strategy .standard) with
  | .ok _ _ => true
  | .error _ _ => false

theorem ends_of_succeeds {strategy : Strategy} {depth : Nat} {program : Program}
    (h : succeeds strategy depth program = true) :
    ∃ value session, Ends strategy .standard program (.ok value) session := by
  rw [succeeds] at h
  split at h
  · rename_i value session hrun
    exact ⟨value, session, depth, hrun⟩
  · cases h

theorem arrayProgram_agrees :
    Node.allBasic arrayProgram = true ∧
      ∃ value value' session session', Ends .direct .standard arrayProgram (.ok value) session ∧
        Ends .dispatch .standard arrayProgram (.ok value') session' ∧
        session.display value = session'.display value' ∧
        session.typeText .direct value = session'.typeText .dispatch value' ∧
        session.output = session'.output := by
  have hbasic : Node.allBasic arrayProgram = true := by decide +kernel
  have hdirect : succeeds .direct 5 arrayProgram = true := by decide +kernel
  have hdispatch : succeeds .dispatch 5 arrayProgram = true := by decide +kernel
  obtain ⟨value, session, h⟩ := ends_of_succeeds hdirect
  obtain ⟨value', session', h'⟩ := ends_of_succeeds hdispatch
  rcases strategies_agree .standard hbasic h h' with ⟨_, _, hv, hv', hsame⟩ | ⟨_, _, hv, _⟩
  · cases hv
    cases hv'
    exact ⟨hbasic, value, value', session, session', h, h', hsame⟩
  · cases hv

end Session

end DispatchLang
