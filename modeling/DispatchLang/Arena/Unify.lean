import DispatchLang.Arena.Subtype

/-!
# Matching arguments against signatures

A signature type is matched against the type of an argument. A type variable takes the first type that it
meets, which has to be below its constraint, and has to meet the same type everywhere else. An applied
type that mentions variables looks for an applied type of the same base among the argument and what is
above it, and matches the arguments of the two exactly. Every other type just has to be above the type of
the argument.
-/

namespace DispatchLang.TypeArena

/-- Lets a variable stand for a type, if it stands for no other type and the type is below its
constraint. -/
def bind? (arena : TypeArena) (bindings : Bindings) (name : String) (constraint type : TypeId) :
    Option Bindings :=
  match bindings.lookup name with
  | some bound => if bound = type then some bindings else none
  | none => if arena.isSubtype type constraint then some ((name, type) :: bindings) else none

/-- Matches the elements of two lists of one length in turn. -/
def matchAll (step : Bindings → TypeId → TypeId → Option Bindings) :
    Bindings → List TypeId → List TypeId → Option Bindings
  | bindings, [], [] => some bindings
  | bindings, p :: ps, a :: as => do matchAll step (← step bindings p a) ps as
  | _, _, _ => none

/-- Matches without regard to subtyping, as inside the arguments of applied types, with a bound on the
depth of the signature type. -/
def matchExactly (arena : TypeArena) :
    Nat → Bindings → TypeId → TypeId → Option Bindings
  | 0, _, _, _ => none
  | n + 1, bindings, param, arg =>
    match (arena.get param).kind with
    | .var constraint => arena.bind? bindings (arena.name param) constraint arg
    | .applied base params =>
      match (arena.get arg).kind with
      | .applied base' args =>
        if base = base' then matchAll (arena.matchExactly n) bindings params args else none
      | _ => none
    | _ => if param = arg then some bindings else none

/-- Matches the type of an argument against a signature type. -/
def unify? (arena : TypeArena) (bindings : Bindings) (param arg : TypeId) : Option Bindings :=
  match (arena.get param).kind with
  | .var constraint => arena.bind? bindings (arena.name param) constraint arg
  | .applied base params =>
    if arena.hasVars param then
      (arena.ancestors arg).findSome? fun candidate =>
        match (arena.get candidate).kind with
        | .applied base' args =>
          if base = base' then matchAll (arena.matchExactly (arena.size + 1)) bindings params args
          else none
        | _ => none
    else if arena.isSubtype arg param then some bindings else none
  | _ => if arena.isSubtype arg param then some bindings else none

/-- Matches the types of all arguments against a signature. -/
def unifySignature? (arena : TypeArena) (signature args : List TypeId) : Option Bindings :=
  matchAll arena.unify? [] signature args

end DispatchLang.TypeArena
