import DispatchLang.Arena.Basic

/-!
# Subtyping

Whether one type is below another. `obligations` is the table of rules: it reduces the question whether
one type is below another to the same question for other pairs. Nominal types are below their parents; a
type is below a type variable if it is below its constraint; applied types of one base are related
directly only if their arguments are the same; struct types are compared field by field, function types
by parameters the other way round and by result.

Structs may refer to themselves, so a comparison of two structs assumes that the pair is related while
its fields are compared. No more pairs can be assumed than there are, and between two assumptions the
indices go down, which bounds the depth of the comparison.
-/

namespace DispatchLang.TypeArena

/-! ## The rules -/

/-- The comparisons that relate the fields of a struct to those of one above it. -/
def fieldObligations (below above : FieldTypes) : Option (List (TypeId × TypeId)) :=
  above.mapM fun (name, type) => (below.lookup name).map (·, type)

/-- The comparison that moves up to the parent of the lower type. -/
def parentObligation (arena : TypeArena) (child parent : TypeId) :
    Option (List (TypeId × TypeId)) :=
  (arena.get child).parent.map fun up => [(up, parent)]

/-- The comparisons that must all hold for `child` to be below `parent`, or nothing if it is not. -/
def obligations (arena : TypeArena) (child parent : TypeId) : Option (List (TypeId × TypeId)) :=
  if child = parent ∨ parent = .any then some []
  else if child = .any then none
  else
    match (arena.get child).kind, (arena.get parent).kind with
    | _, .var constraint => some [(child, constraint)]
    | .applied base args, .applied base' args' =>
      if base = base' ∧ args = args' then some [] else arena.parentObligation child parent
    | .struct _ fields, .struct _ fields' => fieldObligations fields fields'
    | .function params result, .function params' result' =>
      if params.length = params'.length then some (params'.zip params ++ [(result, result')])
      else none
    | _, _ => arena.parentObligation child parent

def areStructs (arena : TypeArena) (child parent : TypeId) : Bool :=
  match (arena.get child).kind, (arena.get parent).kind with
  | .struct _ _, .struct _ _ => true
  | _, _ => false

/-! ## The comparison -/

/-- `isSubtype` with a bound on the depth of the comparison, where the pairs in `assumed` count as
related. -/
def isSubtypeWithin (arena : TypeArena) :
    Nat → List (TypeId × TypeId) → TypeId → TypeId → Bool
  | 0, _, _, _ => false
  | n + 1, assumed, child, parent =>
    match arena.obligations child parent with
    | none => false
    | some goals =>
      if arena.areStructs child parent then
        assumed.contains (child, parent) ||
          goals.all fun (c, p) => arena.isSubtypeWithin n ((child, parent) :: assumed) c p
      else goals.all fun (c, p) => arena.isSubtypeWithin n assumed c p

def comparisonDepth (arena : TypeArena) : Nat :=
  (arena.size * arena.size + 1) * (2 * arena.size + 1)

/-- Whether `child` is below `parent`. -/
def isSubtype (arena : TypeArena) (child parent : TypeId) : Bool :=
  arena.isSubtypeWithin arena.comparisonDepth [] child parent

def areSubtypes (arena : TypeArena) : List TypeId → List TypeId → Bool
  | [], [] => true
  | child :: children, parent :: parents =>
    arena.isSubtype child parent && arena.areSubtypes children parents
  | _, _ => false

end DispatchLang.TypeArena
