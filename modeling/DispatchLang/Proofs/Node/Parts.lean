import DispatchLang.Node.Basic

/-!
# The parts of a tree

A node has children, and the nodes inside it are its children and all nodes inside those. They are listed once
for every place at which they stand, so that whatever is to be told apart by its place in a program can be told
apart by its place in the list.

## Main definitions

* `Node.children`: the nodes that a node is made of, in the order in which they are written.
* `Node.inside`: the nodes inside a node.
* `Program.nodes`: the nodes of a program.
-/

namespace DispatchLang

/-- The nodes that a node is made of, in the order in which they are written. -/
def Node.children : Node → List Node
  | .literal _ _ | .ident _ _ | .typeDecl _ _ | .capture _ _ => []
  | .binary _ _ left right => [left, right]
  | .unary _ _ operand => [operand]
  | .assign _ target value => [target, value]
  | .field _ whole _ => [whole]
  | .call _ _ args => args
  | .send _ receiver _ args => receiver :: args
  | .block _ _ body => body
  | .cases _ scrutinee arms => scrutinee :: arms.flatMap fun arm => [arm.1, arm.2]
  | .construct _ _ fields => fields.map (·.2)
  | .function _ _ body => [body]
  | .refine _ _ pattern => [pattern]
  | .quoted _ body => [body]
  | .array _ elements => elements
  | .object _ entries => entries.map (·.2)
  | .pair _ key value => [key, value]

namespace Node

def isQuoted : Node → Bool
  | .quoted _ _ => true
  | _ => false

mutual

def inside : Node → List Node
  | .literal _ _ | .ident _ _ | .typeDecl _ _ | .capture _ _ => []
  | .binary _ _ left right | .assign _ left right | .pair _ left right =>
    left :: inside left ++ right :: inside right
  | .unary _ _ node | .field _ node _ | .function _ _ node | .refine _ _ node | .quoted _ node =>
    node :: inside node
  | .call _ _ nodes | .block _ _ nodes | .array _ nodes => insideAll nodes
  | .send _ receiver _ args => receiver :: inside receiver ++ insideAll args
  | .cases _ scrutinee arms => scrutinee :: inside scrutinee ++ insideArms arms
  | .construct _ _ fields | .object _ fields => insideFields fields

/-- The nodes of a list and all nodes inside them. -/
def insideAll : List Node → List Node
  | [] => []
  | node :: nodes => node :: inside node ++ insideAll nodes

/-- The nodes under names and all nodes inside them. -/
def insideFields : List (Located String × Node) → List Node
  | [] => []
  | (_, node) :: fields => node :: inside node ++ insideFields fields

/-- The patterns and bodies of arms and all nodes inside them. -/
def insideArms : List (Node × Node) → List Node
  | [] => []
  | (pattern, body) :: arms => pattern :: inside pattern ++ body :: inside body ++ insideArms arms

end

theorem insideFields_eq (fields : List (Located String × Node)) :
    insideFields fields = insideAll (fields.map (·.2)) := by
  induction fields with
  | nil => rfl
  | cons field fields ih => rw [insideFields, List.map_cons, insideAll, ih]

theorem insideArms_eq (arms : List (Node × Node)) :
    insideArms arms = insideAll (arms.flatMap fun arm => [arm.1, arm.2]) := by
  induction arms with
  | nil => rfl
  | cons arm arms ih =>
    obtain ⟨pattern, body⟩ := arm
    simp [insideArms, List.flatMap_cons, insideAll, ih]

theorem inside_eq (node : Node) : node.inside = insideAll node.children := by
  cases node <;> simp [inside, children, insideAll, insideFields_eq, insideArms_eq]

theorem mem_insideAll {n : Node} {nodes : List Node} :
    n ∈ insideAll nodes ↔ ∃ node ∈ nodes, n = node ∨ n ∈ node.inside := by
  induction nodes with
  | nil => simp [insideAll]
  | cons node nodes ih => simp [insideAll, ih, or_assoc]

theorem sizeOf_lt_of_mem_children {node child : Node} (h : child ∈ node.children) :
    sizeOf child < sizeOf node := by
  have hfields {fields : List (Located String × Node)} (hc : child ∈ fields.map (·.2)) :
      sizeOf child < sizeOf fields := by
    obtain ⟨⟨name, node⟩, hf, rfl⟩ := List.mem_map.mp hc
    have hlt := List.sizeOf_lt_of_mem hf
    rw [Prod.mk.sizeOf_spec] at hlt
    dsimp only
    omega
  have harms {arms : List (Node × Node)} (hc : child ∈ arms.flatMap fun arm => [arm.1, arm.2]) :
      sizeOf child < sizeOf arms := by
    obtain ⟨⟨pattern, body⟩, ha, hchild⟩ := List.mem_flatMap.mp hc
    have hlt := List.sizeOf_lt_of_mem ha
    rw [Prod.mk.sizeOf_spec] at hlt
    simp only [List.mem_cons, List.not_mem_nil, or_false] at hchild
    rcases hchild with rfl | rfl <;> omega
  cases node with
  | call _ _ nodes | block _ _ nodes | array _ nodes =>
    have : sizeOf child < sizeOf nodes := List.sizeOf_lt_of_mem h
    simp
    omega
  | construct _ _ fields | object _ fields =>
    have : sizeOf child < sizeOf fields := hfields h
    simp
    omega
  | send _ receiver _ args =>
    rcases List.mem_cons.mp h with rfl | h
    · simp
      omega
    · have : sizeOf child < sizeOf args := List.sizeOf_lt_of_mem h
      simp
      omega
  | cases _ scrutinee arms =>
    rcases List.mem_cons.mp h with rfl | h
    · simp
      omega
    · have := harms h
      simp
      omega
  | literal _ _ | ident _ _ | typeDecl _ _ | capture _ _ => cases h
  | _ =>
    simp only [children, List.mem_cons, List.not_mem_nil, or_false] at h
    rcases h with rfl | rfl <;> simp <;> omega

theorem child_mem_inside {n c : Node} (hc : c ∈ n.children) (node : Node) (h : n ∈ node.inside) :
    c ∈ node.inside := by
  rw [inside_eq, mem_insideAll] at h ⊢
  obtain ⟨child, hchild, rfl | h⟩ := h
  · refine ⟨n, hchild, .inr ?_⟩
    rw [inside_eq, mem_insideAll]
    exact ⟨c, hc, .inl rfl⟩
  · exact ⟨child, hchild, .inr (child_mem_inside hc child h)⟩
termination_by sizeOf node
decreasing_by exact sizeOf_lt_of_mem_children hchild

end Node

def Program.nodes (program : Program) : List Node := Node.insideAll program

namespace Program

variable {program : Program} {node child : Node}

theorem mem_nodes_of_mem (h : node ∈ program) : node ∈ program.nodes :=
  Node.mem_insideAll.mpr ⟨node, h, .inl rfl⟩

theorem child_mem_nodes (h : node ∈ program.nodes) (hc : child ∈ node.children) :
    child ∈ program.nodes := by
  obtain ⟨statement, hs, rfl | h⟩ := Node.mem_insideAll.mp h
  · refine Node.mem_insideAll.mpr ⟨node, hs, .inr ?_⟩
    rw [Node.inside_eq, Node.mem_insideAll]
    exact ⟨child, hc, .inl rfl⟩
  · exact Node.mem_insideAll.mpr ⟨statement, hs, .inr (Node.child_mem_inside hc statement h)⟩

end Program

end DispatchLang
