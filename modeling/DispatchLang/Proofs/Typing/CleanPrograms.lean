import DispatchLang.Proofs.Eval.Agreement
import DispatchLang.Proofs.Eval.SafeForms
import DispatchLang.Proofs.Typing.Visibility

/-!
# Programs in which nothing is found wrong

If a program in which the checker finds nothing wrong meets a name without a meaning when it is run in a fresh session,
by either strategy, then the name is a loose one, and the program reads it somewhere where it is not visible. Such names
there are: the checker takes what the right operand of `&&` binds for bound, though the operand may be skipped, and it
lists a function for the whole program, though a block may have declared it in its own scope.

Whether a loose name has a meaning where it is not visible depends on the run. The right operand of `&&` may have been
evaluated, and a function may be called only in the block that declares it.

## Main results

* `Session.undefinedName_of_check`: the names without a meaning that a program may meet although it checks.
* `Session.cleanPrograms_meetUndefinedName`: programs that check and meet one.
-/

namespace DispatchLang

/-! ## What is known at the beginning -/

/-- The names that are bound at the beginning. -/
def Session.builtinNames : List String := builtinBindings.map Prod.fst

/-- The first checker knows no other names than those that are bound at the beginning. -/
theorem Checker.known_initial : initial.Known [] Session.builtinNames := by
  have hscopes : initial.scopes = [[]] := by decide +kernel
  have hlisted : ∀ name ∈ initial.types.map Prod.fst ++ initial.functions.map Prod.fst,
      name ∈ Session.builtinNames := by decide +kernel
  have hkey {α : Type} {name : String} {entries : List (String × α)} (h : (entries.lookup name).isSome = true) :
      name ∈ entries.map Prod.fst := by
    obtain ⟨value, hvalue⟩ := Option.isSome_iff_exists.mp h
    exact List.mem_map.mpr ⟨_, Assoc.mem_of_lookup hvalue, rfl⟩
  rintro name (⟨scope, hscope, hbound⟩ | hlists)
  · rw [hscopes, List.mem_singleton] at hscope
    rw [hscope] at hbound
    cases hbound
  · exact .inl (hlisted name (List.mem_append.mpr (hlists.imp hkey hkey)))

namespace Session

variable {strategy : Strategy} {watched : String → Bool} {options : Options} {program : Program}

theorem sees_fresh (strategy : Strategy) (options : Options) :
    (fresh strategy options).Sees ScopeTree.root builtinNames := by
  have hsees : ScopeTree.root < (rootBinding builtinBindings).frames.size ∧
      ∀ name ∈ builtinNames, (rootBinding builtinBindings).contains ScopeTree.root name = true := by decide
  constructor <;> rw [scopes_fresh]
  · exact hsees.1
  · exact hsees.2

/-- All built-in functions are there from the beginning. -/
theorem knows_fresh {name : String} (h : name ∈ Direct.functionNames) :
    strategy.Knows (fresh strategy options) name := by
  cases strategy with
  | direct => exact h
  | dispatch =>
    have hall : ∀ name ∈ Direct.functionNames, ((Tables.build options.cache
        (Tables.functions.map fun e => ⟨e.name, e.typeVars, e.signature, FunctionBody.primitive e.body⟩)).lookup
          name).isSome = true := by
      cases options.cache <;> decide
    rw [Strategy.Knows, functions_fresh]
    exact hall name h

theorem closed_fresh (hlocal : options.assignment = .local) : (fresh strategy options).Closed strategy watched where
  assignment := by cases strategy <;> exact hlocal
  scopes := by
    rw [scopes_fresh]
    refine rootBinding_all fun b hb => ?_
    rcases builtinBindings_cases hb with ⟨name, hname, hb⟩ | ⟨id, -, name, hb⟩ <;> rw [hb]
    · exact (Value.closed_iff rfl).mpr (knows_fresh hname)
    · exact (Value.closed_iff rfl).mpr trivial
  heap := by
    rw [heap_fresh]
    intro cell hcell
    cases hcell
  functions := by
    cases strategy with
    | direct => exact List.forall_mem_nil _
    | dispatch =>
      rw [functions_fresh]
      refine functions_keep (fun m operation hm => ?_) options.cache
      rw [Method.Closed, hm]
      trivial

/-! ## Running -/

/-- A program that is run in a fresh session stops at a name without a meaning, if it may nest deeply enough. -/
def MeetsUndefinedName (strategy : Strategy) (options : Options) (program : Program) : Prop :=
  ∃ e session, Ends strategy options program (.error e) session ∧ e.fault.kind = .undefinedVariable

/-- Whether a program stops at a name without a meaning when it may nest so deeply. -/
def stopsAtUndefinedName (strategy : Strategy) (depth : Nat) (program : Program) : Bool :=
  match Eval.runStatements (Eval.eval strategy depth) ScopeTree.root .nothing program (fresh strategy .standard) with
  | .error (.error e) _ => e.fault.kind = .undefinedVariable
  | _ => false

theorem meetsUndefinedName_of_stops {depth : Nat} (h : stopsAtUndefinedName strategy depth program = true) :
    MeetsUndefinedName strategy .standard program := by
  rw [stopsAtUndefinedName] at h
  split at h
  · next e session hrun => exact ⟨e, session, ⟨depth, hrun⟩, of_decide_eq_true h⟩
  · cases h

/-- A program in which all watched names are visible where they are read meets none of them without a meaning. -/
theorem unwatched_of_ends (hlocal : options.assignment = .local)
    (hscoped : Node.wellScopedAll watched builtinNames program = true) {e : RuntimeError} {session : Session}
    (hends : Ends strategy options program (.error e) session) {name : String}
    (hname : e.fault = .undefinedVariable name) : watched name = false := by
  obtain ⟨depth, hrun⟩ := hends
  have hsafe := Safe.runStatements (Safe.eval strategy depth) hscoped (sees_fresh strategy options) closed_nothing
    (closed_fresh hlocal)
  rw [hrun] at hsafe
  have hunwatched : e.fault.isUndefined watched = false := hsafe
  rwa [hname] at hunwatched

/-- If a program without quoted trees that checks without findings meets a name without a meaning, the name is loose,
and the program reads it somewhere where it is not visible. -/
theorem undefinedName_of_check (hlocal : options.assignment = .local)
    (hquoted : ∀ node ∈ program.nodes, node.isQuoted = false) (hok : (Checker.initial.check program).1.ok = true)
    {e : RuntimeError} {session : Session} (hends : Ends strategy options program (.error e) session)
    (hkind : e.fault.kind = .undefinedVariable) :
    ∃ name ∈ program.loose, e.fault = .undefinedVariable name ∧ program.readsScoped builtinNames name = false := by
  obtain ⟨name, hname⟩ := Fault.exists_name_of_kind hkind
  have hfirm {watched : String → Bool} (hscoped : Node.wellScopedAll watched builtinNames program = true) :
      Node.firm watched program.loose name = false :=
    unwatched_of_ends hlocal (Checker.firm_of_check Checker.known_initial hscoped hok) hends hname
  refine ⟨name, ?_, hname, Bool.eq_false_iff.mpr fun hscoped => ?_⟩
  · simpa [Node.firm] using hfirm (Node.wellScopedAll_unwatched builtinNames program hquoted)
  · simpa [Node.firm] using hfirm hscoped

/-- The trees of `fn twice(n : Int) := n + n`, `add := { n | fn more(m) := m + n; more(twice(n)) }`,
`true && (y := add(2) == 6)` and `add(3)`. -/
def nestedAdder : Program :=
  let name (text : String) : Node := .ident default text
  let call (function : String) (arg : Node) : Node := .call default ⟨function, default⟩ [arg]
  let int (n : Int64) : Node := .literal default (.int n)
  let param (text : String) (type : Option TypeExpr) : Param := ⟨⟨text, default⟩, type⟩
  [.function default ⟨⟨"twice", default⟩, [], [param "n" (some (.named default "Int"))]⟩
      (.binary default .add (name "n") (name "n")),
    .assign default (name "add") (.block default [param "n" none]
      [.function default ⟨⟨"more", default⟩, [], [param "m" none]⟩ (.binary default .add (name "m") (name "n")),
        call "more" (call "twice" (name "n"))]),
    .binary default .and (.literal default (.bool true)) (.assign default (name "y")
      (.binary default .eq (call "add" (int 2)) (int 6))),
    call "add" (int 3)]

/-- The trees of `false && (x := true)` and `x`. -/
def skippedBinding : Program :=
  [.binary default .and (.literal default (.bool false))
      (.assign default (.ident default "x") (.literal default (.bool true))), .ident default "x"]

/-- The loose names of one program are read only where they are visible, so all names that it meets have a meaning. The
name without a meaning that the other one meets is its loose name. -/
theorem nestedAdder_skippedBinding :
    ((∀ node ∈ nestedAdder.nodes, node.isQuoted = false) ∧ (Checker.initial.check nestedAdder).1.ok = true ∧
      nestedAdder.loose = ["more", "y"] ∧ ¬MeetsUndefinedName .dispatch .standard nestedAdder) ∧
    (∀ node ∈ skippedBinding.nodes, node.isQuoted = false) ∧ (Checker.initial.check skippedBinding).1.ok = true ∧
      ∃ e session, Ends .dispatch .standard skippedBinding (.error e) session ∧
        e.fault = .undefinedVariable "x" ∧ skippedBinding.readsScoped builtinNames "x" = false := by
  have hquoted : ∀ node ∈ nestedAdder.nodes, node.isQuoted = false := by decide
  have hok : (Checker.initial.check nestedAdder).1.ok = true := by decide +kernel
  have hquoted' : ∀ node ∈ skippedBinding.nodes, node.isQuoted = false := by decide
  have hok' : (Checker.initial.check skippedBinding).1.ok = true := by decide +kernel
  refine ⟨⟨hquoted, hok, by decide, ?_⟩, hquoted', hok', ?_⟩
  · rintro ⟨e, session, hends, hkind⟩
    obtain ⟨name, hloose, -, hread⟩ := undefinedName_of_check rfl hquoted hok hends hkind
    have hscoped : ∀ name ∈ nestedAdder.loose, nestedAdder.readsScoped builtinNames name = true := by decide
    rw [hscoped name hloose] at hread
    cases hread
  · obtain ⟨e, session, hends, hkind⟩ :=
      meetsUndefinedName_of_stops (show stopsAtUndefinedName .dispatch 4 skippedBinding = true by decide)
    obtain ⟨name, hloose, hname, hread⟩ := undefinedName_of_check rfl hquoted' hok' hends hkind
    obtain rfl := List.mem_singleton.mp (show name ∈ ["x"] from hloose)
    exact ⟨e, session, hends, hname, hread⟩

/-! ## Programs that slip through -/

/-- The trees of `f := { fn g() := 1 }` and `g()`. -/
def innerDeclaration : Program :=
  [.assign default (.ident default "f") (.block default []
      [.function default ⟨⟨"g", default⟩, [], []⟩ (.literal default (.int 1))]), .call default ⟨"g", default⟩ []]

/-- Nothing is found wrong in a program without quoted trees, and still it meets a name without a meaning. -/
structure SlipsThrough (program : Program) : Prop where
  unquoted : ∀ node ∈ program.nodes, node.isQuoted = false
  clean : (Checker.initial.check program).1.ok = true
  stops (strategy : Strategy) : MeetsUndefinedName strategy .standard program

/-- Programs slip through that read a name which is bound by an operand that is skipped, or that call a function outside
of the block in which it is declared. -/
theorem cleanPrograms_meetUndefinedName : SlipsThrough skippedBinding ∧ SlipsThrough innerDeclaration := by
  have hstops : ∀ program ∈ [skippedBinding, innerDeclaration],
      stopsAtUndefinedName .direct 4 program = true ∧ stopsAtUndefinedName .dispatch 4 program = true := by
    decide
  have hslips {program : Program} (hp : program ∈ [skippedBinding, innerDeclaration])
      (hquoted : ∀ node ∈ program.nodes, node.isQuoted = false)
      (hclean : (Checker.initial.check program).1.ok = true) : SlipsThrough program := by
    refine ⟨hquoted, hclean, fun strategy => ?_⟩
    cases strategy with
    | direct => exact meetsUndefinedName_of_stops (hstops program hp).1
    | dispatch => exact meetsUndefinedName_of_stops (hstops program hp).2
  exact ⟨hslips (.head _) (by decide) (by decide +kernel), hslips (.tail _ (.head _)) (by decide) (by decide +kernel)⟩

end Session

end DispatchLang
