import DispatchLang.Proofs.Node.Parts

/-!
# Which names are bound where

Names are bound in the scope in which a node is evaluated, or in scopes inside it. `Node.binds` are the names
that a node has bound in its own scope once it has been evaluated: those it assigns to and those it declares, but
not those that only the right operand of `&&` or `||` binds, as that operand may be skipped.

A node is *scoped* if every name that it reads is visible where it is read: the name was visible before, or is
bound by what was evaluated before in the same scope or in one around it. This can be asked of some names alone,
the ones that are *watched*. A quoted tree is read wherever it is evaluated, so it is not scoped.

The names of a program that are bound only now and then, or only in some inner scope, are *loose*: a right
operand of `&&` or `||` binds them, or a declaration that is not itself a statement of the program.

## Main definitions

* `Node.binds`: the names that a node binds in its scope.
* `Node.wellScoped`: every watched name is visible where it is read.
* `Node.firm`: a name is watched or not loose.
* `Program.loose`: the loose names of a program.
-/

namespace DispatchLang

/-! ## Names that are bound -/

/-- The names that a type declaration binds: those of its alternatives and its own. -/
def TypeDecl.bound (decl : TypeDecl) : List String :=
  (match decl.body with
    | .variants alternatives => alternatives.map (·.name.val)
    | _ => []) ++ [decl.name.val]

namespace Node

mutual

/-- The names of the captures of a pattern. -/
def captures : Node → List String
  | .capture _ name => name.toList
  | .refine _ name pattern => captures pattern ++ name.toList
  | .construct _ _ fields => capturesOf fields
  | _ => []

/-- The names of the captures in the fields of a pattern. -/
def capturesOf : List (Located String × Node) → List String
  | [] => []
  | (_, pattern) :: fields => captures pattern ++ capturesOf fields

end

/-- The names that an assignment to a node binds. -/
def targets : Node → List String
  | .ident _ name => [name]
  | pattern => captures pattern

mutual

/-- The names that a node binds in the scope in which it is evaluated. -/
def binds : Node → List String
  | .assign _ target value => binds value ++ targets target
  | .binary _ op left right => binds left ++ if op.isLogical then [] else binds right
  | .unary _ _ node | .field _ node _ | .cases _ node _ => binds node
  | .call _ _ nodes | .array _ nodes => bindsAll nodes
  | .send _ receiver _ args => binds receiver ++ bindsAll args
  | .construct _ _ fields | .object _ fields => bindsFields fields
  | .pair _ key value => binds key ++ binds value
  | .typeDecl _ decl => decl.bound
  | .function _ head _ => [head.name.val]
  | .literal _ _ | .ident _ _ | .block _ _ _ | .capture _ _ | .refine _ _ _ | .quoted _ _ => []

/-- The names that nodes bind one after the other. -/
def bindsAll : List Node → List String
  | [] => []
  | node :: nodes => binds node ++ bindsAll nodes

/-- The names that nodes under names bind one after the other. -/
def bindsFields : List (Located String × Node) → List String
  | [] => []
  | (_, node) :: fields => binds node ++ bindsFields fields

end

/-! ## Names that are read -/

section

variable (watched : String → Bool)

def sees (visible : List String) (name : String) : Bool := !watched name || visible.contains name

mutual

/-- Whether every watched name is visible where it is read, in a scope in which the given ones are. -/
def wellScoped (visible : List String) : Node → Bool
  | .ident _ name => sees watched visible name
  | .binary _ _ left right => wellScoped visible left && wellScoped (visible ++ binds left) right
  | .unary _ _ node | .field _ node _ | .assign _ _ node => wellScoped visible node
  | .call _ callee args => sees watched visible callee.val && wellScopedAll visible args
  | .send _ receiver _ args => wellScoped visible receiver && wellScopedAll (visible ++ binds receiver) args
  | .block _ params body => wellScopedAll (visible ++ params.map (·.name.val)) body
  | .cases _ scrutinee arms => wellScoped visible scrutinee && wellScopedArms (visible ++ binds scrutinee) arms
  | .construct _ _ fields | .object _ fields => wellScopedFields visible fields
  | .function _ head body => wellScoped (visible ++ head.name.val :: head.params.map (·.name.val)) body
  | .array _ nodes => wellScopedAll visible nodes
  | .pair _ key value => wellScoped visible key && wellScoped (visible ++ binds key) value
  | .quoted _ _ => false
  | .literal _ _ | .typeDecl _ _ | .capture _ _ | .refine _ _ _ => true

/-- Whether nodes that are evaluated one after the other are scoped. -/
def wellScopedAll (visible : List String) : List Node → Bool
  | [] => true
  | node :: nodes => wellScoped visible node && wellScopedAll (visible ++ binds node) nodes

/-- Whether nodes under names that are evaluated one after the other are scoped. -/
def wellScopedFields (visible : List String) : List (Located String × Node) → Bool
  | [] => true
  | (_, node) :: fields => wellScoped visible node && wellScopedFields (visible ++ binds node) fields

/-- Whether the bodies of arms are scoped, each in a scope in which its pattern has bound its captures. -/
def wellScopedArms (visible : List String) : List (Node × Node) → Bool
  | [] => true
  | (pattern, body) :: arms => wellScoped (visible ++ captures pattern) body && wellScopedArms visible arms

end

end

mutual

/-- If no name is watched, a tree is scoped as soon as nothing in it is quoted. -/
theorem wellScoped_unwatched (visible : List String) (node : Node) (hnode : node.isQuoted = false)
    (h : ∀ n ∈ node.inside, n.isQuoted = false) : wellScoped (fun _ => false) visible node = true := by
  cases node with
  | quoted span body => cases hnode
  | literal _ _ | typeDecl _ _ | capture _ _ | refine _ _ _ | ident _ _ => rfl
  | unary _ _ operand | field _ operand _ =>
    rw [inside, List.forall_mem_cons] at h
    rw [wellScoped]
    exact wellScoped_unwatched visible operand h.1 h.2
  | assign _ target value =>
    rw [inside, List.forall_mem_append, List.forall_mem_cons, List.forall_mem_cons] at h
    rw [wellScoped]
    exact wellScoped_unwatched visible value h.2.1 h.2.2
  | function _ head body =>
    rw [inside, List.forall_mem_cons] at h
    rw [wellScoped]
    exact wellScoped_unwatched _ body h.1 h.2
  | binary _ _ left right | pair _ left right =>
    rw [inside, List.forall_mem_append, List.forall_mem_cons, List.forall_mem_cons] at h
    rw [wellScoped, Bool.and_eq_true]
    exact ⟨wellScoped_unwatched visible left h.1.1 h.1.2, wellScoped_unwatched _ right h.2.1 h.2.2⟩
  | call _ _ nodes | block _ _ nodes | array _ nodes =>
    rw [inside] at h
    rw [wellScoped]
    exact wellScopedAll_unwatched _ nodes h
  | send _ receiver _ args =>
    rw [inside, List.forall_mem_append, List.forall_mem_cons] at h
    rw [wellScoped, Bool.and_eq_true]
    exact ⟨wellScoped_unwatched visible receiver h.1.1 h.1.2, wellScopedAll_unwatched _ args h.2⟩
  | cases _ scrutinee arms =>
    rw [inside, List.forall_mem_append, List.forall_mem_cons] at h
    rw [wellScoped, Bool.and_eq_true]
    exact ⟨wellScoped_unwatched visible scrutinee h.1.1 h.1.2, wellScopedArms_unwatched _ arms h.2⟩
  | construct _ _ fields | object _ fields =>
    rw [inside] at h
    rw [wellScoped]
    exact wellScopedFields_unwatched visible fields h

theorem wellScopedAll_unwatched (visible : List String) (nodes : List Node)
    (h : ∀ n ∈ insideAll nodes, n.isQuoted = false) : wellScopedAll (fun _ => false) visible nodes = true := by
  cases nodes with
  | nil => rfl
  | cons node nodes =>
    rw [insideAll, List.forall_mem_append, List.forall_mem_cons] at h
    rw [wellScopedAll, Bool.and_eq_true]
    exact ⟨wellScoped_unwatched visible node h.1.1 h.1.2, wellScopedAll_unwatched _ nodes h.2⟩

theorem wellScopedFields_unwatched (visible : List String) (fields : List (Located String × Node))
    (h : ∀ n ∈ insideFields fields, n.isQuoted = false) :
    wellScopedFields (fun _ => false) visible fields = true := by
  cases fields with
  | nil => rfl
  | cons field fields =>
    rw [insideFields, List.forall_mem_append, List.forall_mem_cons] at h
    rw [wellScopedFields, Bool.and_eq_true]
    exact ⟨wellScoped_unwatched visible field.2 h.1.1 h.1.2, wellScopedFields_unwatched _ fields h.2⟩

theorem wellScopedArms_unwatched (visible : List String) (arms : List (Node × Node))
    (h : ∀ n ∈ insideArms arms, n.isQuoted = false) : wellScopedArms (fun _ => false) visible arms = true := by
  cases arms with
  | nil => rfl
  | cons arm arms =>
    rw [insideArms, List.forall_mem_append, List.forall_mem_append, List.forall_mem_cons, List.forall_mem_cons] at h
    rw [wellScopedArms, Bool.and_eq_true]
    exact ⟨wellScoped_unwatched _ arm.2 h.1.2.1 h.1.2.2, wellScopedArms_unwatched visible arms h.2⟩

end

/-! ## Names that are bound now and then -/

mutual

/-- The names that right operands of `&&` and `||` and declarations in a node bind. -/
def loose : Node → List String
  | .binary _ op left right => loose left ++ loose right ++ if op.isLogical then binds right else []
  | .unary _ _ node | .field _ node _ | .assign _ _ node => loose node
  | .call _ _ nodes | .block _ _ nodes | .array _ nodes => looseAll nodes
  | .send _ receiver _ args => loose receiver ++ looseAll args
  | .cases _ scrutinee arms => loose scrutinee ++ looseArms arms
  | .construct _ _ fields | .object _ fields => looseFields fields
  | .pair _ key value => loose key ++ loose value
  | .typeDecl _ decl => decl.bound
  | .function _ head body => head.name.val :: loose body
  | .literal _ _ | .ident _ _ | .capture _ _ | .refine _ _ _ | .quoted _ _ => []

/-- The loose names of nodes. -/
def looseAll : List Node → List String
  | [] => []
  | node :: nodes => loose node ++ looseAll nodes

/-- The loose names of nodes under names. -/
def looseFields : List (Located String × Node) → List String
  | [] => []
  | (_, node) :: fields => loose node ++ looseFields fields

def looseArms : List (Node × Node) → List String
  | [] => []
  | (_, body) :: arms => loose body ++ looseArms arms

end

/-- The loose names of a statement of a program: what it declares itself is not loose. -/
def looseBelow : Node → List String
  | .typeDecl _ _ => []
  | .function _ _ body => loose body
  | node => loose node

def firm (watched : String → Bool) (loose : List String) (name : String) : Bool := watched name || !loose.contains name

theorem sees_of_known {watched : String → Bool} {loose visible : List String} {name : String}
    (hs : sees watched visible name = true) (h : name ∈ visible ∨ name ∈ loose) :
    sees (firm watched loose) visible name = true := by
  simp only [sees, firm, List.contains_eq_mem, Bool.or_eq_true, Bool.not_eq_true', Bool.or_eq_false_iff,
    Bool.not_eq_false', decide_eq_true_iff] at hs ⊢
  rcases h with hvisible | hloose
  · exact .inr hvisible
  · exact hs.imp_left fun hunwatched => ⟨hunwatched, hloose⟩

end Node

namespace Program

/-- The names of a program that are bound now and then. -/
def loose (program : Program) : List String := program.flatMap Node.looseBelow

/-- Whether a program reads a name only where it is visible. The names that are given are visible from the
beginning. -/
def readsScoped (visible : List String) (program : Program) (name : String) : Bool :=
  Node.wellScopedAll (· == name) visible program

end Program

end DispatchLang
