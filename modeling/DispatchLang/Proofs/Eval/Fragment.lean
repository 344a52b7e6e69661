import DispatchLang.Eval.Direct
import DispatchLang.Eval.Tables
import DispatchLang.Proofs.Node.Parts

/-!
# Basic programs and their values

Declarations and method calls are where the two strategies differ by design. What is left without them are
the *basic* trees. A *dialect* is a set of trees that may declare functions besides, as long as the name
of a function tells its parameters and its body. The values that a program of a dialect computes with are
basic: none of them is an instance or a constructor, functions are known by their names, and the trees
inside closures and quoted forms are trees of the dialect.

Both strategies keep the same heap for such a program, but for the types that arrays are built with, which
the direct strategy does not know. Nothing that is shown or compared depends on these types, so they can
be taken away (`Heap.untyped`).

## Main definitions

* `Dialect`: a set of trees that both strategies have a meaning for.
* `Dialect.basic`: the basic trees as a dialect, which declares no functions.

## Main results

* `Value.text_untyped`, `Value.equal_untyped`, `Value.shapeName_untyped`: texts, equality and names of shapes
  do not depend on the types of arrays.
* `Value.matchPattern_eq`: all captures of a pattern that a basic value matches are that value.
-/

namespace DispatchLang

/-! ## Basic trees -/

namespace Node

mutual

/-- Whether a tree has no declarations and no method calls in it and no call with more arguments than a
built-in function takes, also where it is quoted. -/
def isBasic : Node → Bool
  | .literal _ _ | .ident _ _ | .capture _ _ => true
  | .typeDecl _ _ | .function _ _ _ | .send _ _ _ _ => false
  | .unary _ _ node | .field _ node _ | .refine _ _ node | .quoted _ node => isBasic node
  | .binary _ _ left right | .assign _ left right | .pair _ left right =>
    isBasic left && isBasic right
  | .call _ _ args => args.length ≤ Tables.variadicLimit && allBasic args
  | .block _ _ nodes | .array _ nodes => allBasic nodes
  | .cases _ scrutinee arms => isBasic scrutinee && armsBasic arms
  | .construct _ _ fields | .object _ fields => fieldsBasic fields

def allBasic : List Node → Bool
  | [] => true
  | node :: nodes => isBasic node && allBasic nodes

/-- Whether all trees under names are basic. -/
def fieldsBasic : List (Located String × Node) → Bool
  | [] => true
  | (_, node) :: fields => isBasic node && fieldsBasic fields

def armsBasic : List (Node × Node) → Bool
  | [] => true
  | (pattern, body) :: arms => isBasic pattern && isBasic body && armsBasic arms

end

theorem allBasic_iff {nodes : List Node} : allBasic nodes = true ↔ ∀ node ∈ nodes, node.isBasic = true := by
  induction nodes with
  | nil => simp [allBasic]
  | cons node nodes ih => simp [allBasic, ih]

theorem fieldsBasic_eq (fields : List (Located String × Node)) :
    fieldsBasic fields = allBasic (fields.map (·.2)) := by
  induction fields with
  | nil => rfl
  | cons field fields ih => rw [fieldsBasic, List.map_cons, allBasic, ih]

theorem armsBasic_eq (arms : List (Node × Node)) :
    armsBasic arms = allBasic (arms.flatMap fun arm => [arm.1, arm.2]) := by
  induction arms with
  | nil => rfl
  | cons arm arms ih =>
    obtain ⟨pattern, body⟩ := arm
    simp [armsBasic, List.flatMap_cons, allBasic, ih, Bool.and_assoc]

theorem isBasic_of_mem_children {node child : Node} (h : node.isBasic = true)
    (hc : child ∈ node.children) : child.isBasic = true := by
  have hall : allBasic node.children = true := by
    cases node <;>
      simp_all [isBasic, children, allBasic, fieldsBasic_eq, armsBasic_eq]
  exact allBasic_iff.mp hall child hc

/-! ## Dialects -/

/-- Whether both strategies can know what to do with a tree if they know what to do with its children: it is no
type declaration and no method call, it has no more arguments than a built-in function takes, and if it
declares a function, then one without annotated parameters under a name that no built-in function has. -/
def isSimple : Node → Bool
  | .typeDecl _ _ | .send _ _ _ _ => false
  | .call _ _ args => args.length ≤ Tables.variadicLimit
  | .function _ head _ =>
    !Direct.functionNames.contains head.name.val && head.params.all fun p => p.annotation.isNone
  | _ => true

/-- Whether a tree calls a method with no more arguments than a built-in function takes besides the receiver. -/
def isShortSend : Node → Bool
  | .send _ _ _ args => args.length < Tables.variadicLimit
  | _ => false

end Node

/-- A set of trees with a meaning for both strategies. In a steady dialect arrays go on to hold what they were made of,
since no methods are called. In another one the strategies may have different names for the types of values. -/
structure Dialect where
  /-- The trees. -/
  Tree : Node → Prop
  /-- Whether arrays are left as they are. -/
  steady : Bool
  /-- Each form of a tree has a meaning. -/
  simple {node : Node} (h : Tree node) : node.isSimple = true ∨ steady = false ∧ node.isShortSend = true
  /-- The children of a tree are trees. -/
  child {node child : Node} (h : Tree node) (hc : child ∈ node.children) : Tree child
  /-- Functions of the same name have the same parameters and the same body. -/
  unique {span span' : Span} {head head' : FunctionHead} {body body' : Node}
    (h : Tree (.function span head body)) (h' : Tree (.function span' head' body'))
    (hname : head.name.val = head'.name.val) :
    head.params.map (·.name.val) = head'.params.map (·.name.val) ∧ body = body'

namespace Dialect

def basic : Dialect where
  Tree node := node.isBasic = true
  steady := true
  simple {node} h := by
    left
    cases node with
    | call _ _ args =>
      rw [Node.isBasic, Bool.and_eq_true] at h
      exact h.1
    | send _ _ _ _ | typeDecl _ _ | function _ _ _ => cases h
    | _ => rfl
  child h hc := Node.isBasic_of_mem_children h hc
  unique h := by cases h

def Declares (D : Dialect) (name : String) (params : List String) (body : Node) : Prop :=
  ∃ span head, D.Tree (.function span head body) ∧ head.name.val = name ∧
    head.params.map (·.name.val) = params

variable {D : Dialect} {name : String} {params params' : List String} {body body' : Node}

/-- A tree that is no method call is simple. -/
theorem isSimple {node : Node} (h : D.Tree node) (hn : node.isShortSend = false) : node.isSimple = true :=
  (D.simple h).resolve_right fun hs => Bool.false_ne_true (hn.symm.trans hs.2)

theorem isSimple_of_steady (hD : D.steady = true) {node : Node} (h : D.Tree node) : node.isSimple = true :=
  (D.simple h).resolve_right fun hs => Bool.false_ne_true (hs.1.symm.trans hD)

theorem Declares.not_builtin (h : D.Declares name params body) : name ∉ Direct.functionNames := by
  obtain ⟨span, head, htree, rfl, -⟩ := h
  have hsimple := D.isSimple htree rfl
  simp only [Node.isSimple, Bool.and_eq_true, Bool.not_eq_true', List.contains_eq_mem,
    decide_eq_false_iff_not] at hsimple
  exact hsimple.1

theorem Declares.tree (h : D.Declares name params body) : D.Tree body := by
  obtain ⟨span, head, htree, -, -⟩ := h
  exact D.child htree (List.mem_singleton_self body)

theorem Declares.unique (h : D.Declares name params body) (h' : D.Declares name params' body') :
    params = params' ∧ body = body' := by
  obtain ⟨span, head, htree, hname, rfl⟩ := h
  obtain ⟨span', head', htree', hname', rfl⟩ := h'
  exact D.unique htree htree' (hname.trans hname'.symm)

end Dialect

/-! ## Basic values -/

/-- A value that a program of a dialect can compute with: arrays are in the heap, functions are known by name
and either built-in or declared, types are built-in ones, and the trees of closures and quoted forms
are trees of the dialect. -/
def Value.Basic (D : Dialect) (heap : Heap) : Value → Prop
  | .array address => ∃ items type, heap.cells[address]? = some (.array items type)
  | .closure _ _ body _ => ∀ node ∈ body, D.Tree node
  | .generic name => name ∈ Direct.functionNames ∨ ∃ params body, D.Declares name params body
  | .typeRef id _ => id < builtinTypes.length
  | .quoted body => D.Tree body
  | .inst _ _ _ _ | .function _ _ _ _ _ | .constructor _ _ => False
  | .nothing | .int _ | .float _ | .string _ | .bool _ | .object _ => True

namespace Value

variable {D : Dialect} {heap : Heap} {value : Value}

theorem fieldsOf?_eq_none_of_basic (h : value.Basic D heap) (name : String) :
    value.fieldsOf? name = none := by
  cases value with
  | inst type typeName variant fields => exact h.elim
  | _ => rfl

theorem matchPattern_eq (h : ∀ name, value.fieldsOf? name = none) :
    ∀ (pattern : Node) {bindings : List (String × Value)},
      value.matchPattern pattern = .ok (some bindings) → ∀ b ∈ bindings, b.2 = value
  | .capture _ name, bindings, hm, b, hb => by
    rw [matchPattern, Except.ok.injEq, Option.some.injEq] at hm
    rw [← hm] at hb
    obtain ⟨_, _, rfl⟩ := List.mem_map.mp hb
    rfl
  | .refine _ name pattern, bindings, hm, b, hb => by
    rw [matchPattern] at hm
    cases hp : value.matchPattern pattern with
    | error e => rw [hp] at hm; cases hm
    | ok found =>
      rw [hp] at hm
      cases found with
      | none => cases hm
      | some inner =>
        cases hm
        rcases List.mem_append.mp hb with hb | hb
        · exact matchPattern_eq h pattern hp b hb
        · obtain ⟨_, _, rfl⟩ := List.mem_map.mp hb
          rfl
  | .literal _ literal, bindings, hm, b, hb => by
    rw [matchPattern] at hm
    split at hm
    · cases hm
      cases hb
    · cases hm
  | .ident _ name, bindings, hm, b, hb => by
    rw [matchPattern] at hm
    split at hm
    · cases hm
      cases hb
    · cases hm
  | .construct _ name fields, bindings, hm, _, _ => by
    rw [matchPattern, h] at hm
    cases hm
  | .binary _ _ _ _, _, hm, _, _ | .unary _ _ _, _, hm, _, _ | .assign _ _ _, _, hm, _, _
  | .field _ _ _, _, hm, _, _ | .call _ _ _, _, hm, _, _ | .send _ _ _ _, _, hm, _, _
  | .block _ _ _, _, hm, _, _ | .cases _ _ _, _, hm, _, _ | .typeDecl _ _, _, hm, _, _
  | .function _ _ _, _, hm, _, _ | .quoted _ _, _, hm, _, _ | .array _ _, _, hm, _, _
  | .object _ _, _, hm, _, _ | .pair _ _ _, _, hm, _, _ => by
    rw [matchPattern] at hm
    · cases hm
    all_goals exact nofun

end Value

/-! ## Heaps without the types of arrays -/

/-- A cell without the type an array was built with. -/
def Cell.untyped : Cell → Cell
  | .array items _ => .array items .any
  | .object entries => .object entries

/-- A heap without the types arrays were built with. -/
def Heap.untyped (heap : Heap) : Heap := ⟨heap.cells.map Cell.untyped⟩

variable (heap : Heap)

@[simp] theorem Heap.size_untyped : heap.untyped.size = heap.size := Array.size_map

@[simp] theorem Heap.cells_untyped (address : Nat) :
    heap.untyped.cells[address]? = heap.cells[address]?.map Cell.untyped := Array.getElem?_map

@[simp] theorem Heap.items_untyped (address : Nat) :
    heap.untyped.items address = heap.items address := by
  rw [items, items, cells_untyped]
  rcases heap.cells[address]? with _ | _ | _ <;> rfl

@[simp] theorem Heap.entries_untyped (address : Nat) :
    heap.untyped.entries address = heap.entries address := by
  rw [entries, entries, cells_untyped]
  rcases heap.cells[address]? with _ | _ | _ <;> rfl

namespace Value

@[simp] theorem length?_untyped (value : Value) :
    value.length? heap.untyped = value.length? heap := by
  cases value <;> simp [length?]

@[simp] theorem ownField?_untyped (name : String) (value : Value) :
    value.ownField? heap.untyped name = value.ownField? heap name := by
  cases value <;> simp [ownField?]

theorem containerText_untyped (n : Nat) (opened : List Nat) :
    containerText heap.untyped n opened = containerText heap n opened := by
  induction n generalizing opened with
  | zero => rfl
  | succ n ih =>
    funext address
    rw [containerText, containerText, ih, Heap.cells_untyped]
    rcases heap.cells[address]? with _ | _ | _ <;> rfl

theorem repr_untyped (value : Value) : value.repr heap.untyped = value.repr heap := by
  rw [repr, repr, containerText_untyped, Heap.size_untyped]

@[simp] theorem text_untyped (value : Value) : value.text heap.untyped = value.text heap := by
  cases value <;> simp [text, repr_untyped]

theorem containersEqual_untyped (n : Nat) (assumed : List (Nat × Nat)) :
    containersEqual heap.untyped n assumed = containersEqual heap n assumed := by
  induction n generalizing assumed with
  | zero => rfl
  | succ n ih =>
    funext a b
    rw [containersEqual, containersEqual, ih, Heap.cells_untyped, Heap.cells_untyped]
    rcases heap.cells[a]? with _ | _ | _ <;> rcases heap.cells[b]? with _ | _ | _ <;> rfl

@[simp] theorem equal_untyped (a b : Value) : a.equal heap.untyped b = a.equal heap b := by
  rw [equal, equal, containersEqual_untyped, Heap.size_untyped]

theorem arrayShape_untyped (n : Nat) (opened : List Nat) :
    arrayShape heap.untyped n opened = arrayShape heap n opened := by
  induction n generalizing opened with
  | zero => rfl
  | succ n ih =>
    funext address
    rw [arrayShape, arrayShape, ih, Heap.items_untyped]

@[simp] theorem shapeName_untyped (value : Value) :
    value.shapeName heap.untyped = value.shapeName heap := by
  rw [shapeName, shapeName, arrayShape_untyped, Heap.size_untyped]

end Value

end DispatchLang
