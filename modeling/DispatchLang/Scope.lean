import DispatchLang.Assoc

/-!
# Scopes

Scopes form a tree: every scope but the root has a parent that is older than it. A name is looked up
along the *chain* of a scope, from the scope itself to the root, and means what the nearest scope on the
chain binds it to.

Writes come in three kinds. `define` binds a name in the scope itself. `assignLocal` and `assignGlobal`
change the nearest binding; where there is none they bind the name in the scope itself and in the root.
-/

namespace DispatchLang

/-- A scope: its index in a tree. -/
abbrev ScopeId : Type := Nat

/-- One scope of a tree. -/
structure Frame (α : Type) where
  /-- What the scope binds itself. -/
  vars : List (String × α)
  /-- The scope around it. -/
  parent : Option ScopeId

namespace Frame

variable {α : Type}

def binds (frame : Frame α) (name : String) : Bool := (frame.vars.lookup name).isSome

/-- Binds a name. -/
def define (frame : Frame α) (name : String) (value : α) : Frame α :=
  { frame with vars := Assoc.insert name value frame.vars }

end Frame

/-- A tree of scopes, by index. -/
structure ScopeTree (α : Type) where
  /-- The scopes; the first one is the root. -/
  frames : Array (Frame α)

namespace ScopeTree

variable {α : Type}

def root : ScopeId := 0

/-- The tree that has only a root, which binds nothing. -/
def initial : ScopeTree α := ⟨#[⟨[], none⟩]⟩

def frame (t : ScopeTree α) (s : ScopeId) : Frame α := t.frames[s]?.getD ⟨[], none⟩

/-- Adds a scope inside `parent` and answers it. -/
def child (t : ScopeTree α) (parent : ScopeId) : ScopeId × ScopeTree α :=
  (t.frames.size, ⟨t.frames.push ⟨[], some parent⟩⟩)

/-- The first `n` scopes from `s` outward. -/
def chainWithin (t : ScopeTree α) : Nat → ScopeId → List ScopeId
  | 0, _ => []
  | n + 1, s =>
    s :: match (t.frame s).parent with
      | none => []
      | some parent => t.chainWithin n parent

/-- The scopes from `s` outward. A parent is older than its children, so there are no more than `s` of
them after the first. -/
def chain (t : ScopeTree α) (s : ScopeId) : List ScopeId := t.chainWithin (s + 1) s

/-! ## Looking up -/

/-- The nearest scope on the chain of `s` that binds a name. -/
def binder? (t : ScopeTree α) (s : ScopeId) (name : String) : Option ScopeId :=
  (t.chain s).find? fun s => (t.frame s).binds name

def get? (t : ScopeTree α) (s : ScopeId) (name : String) : Option α :=
  (t.chain s).findSome? fun s => (t.frame s).vars.lookup name

/-- Whether a name means anything in a scope. -/
def contains (t : ScopeTree α) (s : ScopeId) (name : String) : Bool := (t.binder? s name).isSome

def hasLocal (t : ScopeTree α) (s : ScopeId) (name : String) : Bool := (t.frame s).binds name

/-- The names a scope binds itself, in order. -/
def localNames (t : ScopeTree α) (s : ScopeId) : List String :=
  ((t.frame s).vars.map Prod.fst).mergeSort (· ≤ ·)

/-! ## Writing -/

def define (t : ScopeTree α) (s : ScopeId) (name : String) (value : α) : ScopeTree α :=
  ⟨t.frames.modify s (·.define name value)⟩

/-- Changes the nearest binding of a name, or binds it in the root. -/
def assignGlobal (t : ScopeTree α) (s : ScopeId) (name : String) (value : α) : ScopeTree α :=
  t.define ((t.binder? s name).getD (((t.chain s).getLast?).getD root)) name value

/-- Changes the nearest binding of a name, or binds it in the scope itself. -/
def assignLocal (t : ScopeTree α) (s : ScopeId) (name : String) (value : α) : ScopeTree α :=
  t.define ((t.binder? s name).getD s) name value

end ScopeTree

/-- Where an assignment to a name without a binding binds it. -/
inductive AssignmentScope where
  /-- In the scope of the assignment. -/
  | local
  /-- In the root. -/
  | global
deriving DecidableEq

def ScopeTree.assign {α : Type} (t : ScopeTree α) (rule : AssignmentScope) (s : ScopeId)
    (name : String) (value : α) : ScopeTree α :=
  match rule with
  | .local => t.assignLocal s name value
  | .global => t.assignGlobal s name value

end DispatchLang
