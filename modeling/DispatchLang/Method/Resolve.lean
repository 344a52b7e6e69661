import DispatchLang.Arena.Unify
import DispatchLang.Decimal.Notation
import DispatchLang.Text.Escape

/-!
# Generic functions

A generic function is a list of methods under one name. A call is resolved by the types of its
arguments: of the methods whose signatures match, the one is chosen that is more specific than all
others. A method is more specific than another one if its signature, with its variables replaced by what
they stand for in the call, is below that of the other and not the other way round; if the two are
equally specific so far, the one whose signature the other matches, but which does not match the other,
is the more specific one.

What a call resolves to depends on nothing but the types of its arguments, so it can be remembered. A
function that gets a new method forgets what it remembered; what it remembers is kept in a copy.
-/

namespace DispatchLang

/-! ## Methods -/

/-- One method of a generic function, with an implementation of type `ι`. -/
structure Method (ι : Type) where
  /-- The type variables it was declared with. -/
  typeVars : List TypeId
  /-- The types of its parameters. -/
  signature : List TypeId
  /-- What it does. -/
  implementation : ι

/-- The method that a call resolves to. -/
structure Resolution (ι : Type) where
  /-- Its index in the list of methods. -/
  index : Nat
  /-- The method. -/
  method : Method ι
  /-- What its type variables stand for. -/
  bindings : TypeArena.Bindings

/-- Why a call resolves to no method. -/
inductive DispatchError where
  /-- No signature matches. -/
  | noMethod (function : String) (args : List String)
  /-- No matching method is more specific than all others. -/
  | ambiguous (function : String) (args candidates : List String)
  /-- An argument has no type. -/
  | untagged (function : String) (position : Nat)
deriving DecidableEq

/-- The text of an error. -/
def DispatchError.message : DispatchError → String
  | .noMethod function args =>
    "no method of '" ++ function ++ "' matches argument types (" ++ ", ".intercalate args ++ ")"
  | .ambiguous function args candidates =>
    "ambiguous call to '" ++ function ++ "' with argument types (" ++ ", ".intercalate args ++
      "): candidates " ++ " and ".intercalate candidates
  | .untagged function position =>
    "argument " ++ Decimal.natText position ++ " of '" ++ function ++ "' carries no runtime type"

/-- What can be observed while calls are resolved. -/
inductive DispatchEvent where
  /-- A remembered resolution was used. -/
  | hit (function : String) (args : List TypeId)
  /-- No resolution was remembered. -/
  | miss (function : String) (args : List TypeId)
  /-- A method was chosen. -/
  | resolved (function : String) (args : List TypeId) (index : Nat)

/-- How an event is shown. -/
def DispatchEvent.text (arena : TypeArena) (event : DispatchEvent) : String :=
  let call (function : String) (args : List TypeId) : String :=
    function ++ "(" ++ ", ".intercalate (arena.names args) ++ ")"
  match event with
  | .hit function args => "hit " ++ call function args
  | .miss function args => "miss " ++ call function args
  | .resolved function args index => "resolved " ++ call function args ++ " #" ++ Decimal.natText index

/-! ## Choosing a method -/

/-- A method whose signature matches a call. -/
structure Candidate (ι : Type) extends Resolution ι where
  /-- Its signature, with its variables replaced by what they stand for. -/
  inst : List TypeId

variable {ι : Type}

/-- The methods whose signatures match, with their indices from `index` on. -/
def applicable (arena : TypeArena) (args : List TypeId) :
    Nat → List (Method ι) → List (Resolution ι)
  | _, [] => []
  | index, m :: ms =>
    match arena.unifySignature? m.signature args with
    | some bindings => ⟨index, m, bindings⟩ :: applicable arena args (index + 1) ms
    | none => applicable arena args (index + 1) ms

/-- Replaces the variables in the signatures of matching methods by what they stand for. -/
def instantiate : List (Resolution ι) → TypeArena → List (Candidate ι) × TypeArena
  | [], arena => ([], arena)
  | r :: rs, arena =>
    let (inst, arena) :=
      TypeArena.mapTypes (fun id arena => arena.substitute r.bindings id) r.method.signature arena
    let (candidates, arena) := instantiate rs arena
    (⟨r, inst⟩ :: candidates, arena)

/-- Whether one candidate is more specific than another. -/
def Candidate.dominates (arena : TypeArena) (a b : Candidate ι) : Bool :=
  let below := arena.areSubtypes a.inst b.inst
  let above := arena.areSubtypes b.inst a.inst
  (below && !above) ||
    (below && above && (arena.unifySignature? b.method.signature a.method.signature).isSome &&
      (arena.unifySignature? a.method.signature b.method.signature).isNone)

/-- The candidate that is more specific than all others. -/
def winner? (arena : TypeArena) (candidates : List (Candidate ι)) : Option (Candidate ι) :=
  candidates.find? fun c =>
    candidates.all fun other => other.index = c.index || c.dominates arena other

/-- The candidates that an ambiguous call is reported with: those that no other one is more specific
than, or all if that leaves fewer than two. -/
def undominated (arena : TypeArena) (candidates : List (Candidate ι)) : List (Candidate ι) :=
  let best := candidates.filter fun c => candidates.all fun other => !other.dominates arena c
  if best.length < 2 then candidates else best

/-- Chooses the most specific method that matches the types of the arguments. -/
def choose (function : String) (methods : List (Method ι)) (args : List TypeId)
    (arena : TypeArena) : Except DispatchError (Resolution ι) × TypeArena :=
  match applicable arena args 0 methods with
  | [] => (.error (.noMethod function (arena.names args)), arena)
  | matching =>
    let (candidates, arena) := instantiate matching arena
    match winner? arena candidates with
    | some c => (.ok c.toResolution, arena)
    | none =>
      let shown (c : Candidate ι) : String :=
        "(" ++ ", ".intercalate (arena.names c.method.signature) ++ ")"
      (.error (.ambiguous function (arena.names args)
        ((undominated arena candidates).map shown)), arena)

/-! ## Generic functions -/

structure GenericFunction (ι : Type) where
  /-- Its name. -/
  name : String
  /-- Its methods, in the order in which they were added. -/
  methods : List (Method ι)
  /-- The resolutions it remembers, by the types of the arguments. -/
  cache : List (List TypeId × Resolution ι)
  /-- Whether it remembers resolutions. -/
  remembers : Bool

/-- What resolving a call gives. -/
structure Outcome (ι : Type) where
  /-- The method, or the reason why there is none. -/
  result : Except DispatchError (Resolution ι)
  /-- The function with what it remembers now. -/
  function : GenericFunction ι
  /-- The arena with the types that were added. -/
  arena : TypeArena
  /-- What could be observed, in order. -/
  events : List DispatchEvent

namespace GenericFunction

/-- A function without methods. -/
def empty (name : String) (remembers : Bool) : GenericFunction ι := ⟨name, [], [], remembers⟩

/-- A summary of a function: its name, and how many methods it has and resolutions it remembers. -/
def summary (f : GenericFunction ι) : String :=
  "GenericFunction \x7b name: \"" ++ Escape.escape f.name ++ "\", methods: " ++
    Decimal.natText f.methods.length ++ ", cached: " ++ Decimal.natText f.cache.length ++ " \x7d"

/-- Puts a method into a list, in the place of one with the same signature or else at the end. -/
def insertMethod (m : Method ι) : List (Method ι) → List (Method ι)
  | [] => [m]
  | m' :: ms => if m'.signature = m.signature then m :: ms else m' :: insertMethod m ms

/-- The function with one more method, which remembers nothing yet. -/
def withMethod (f : GenericFunction ι) (m : Method ι) : GenericFunction ι :=
  { f with methods := insertMethod m f.methods, cache := [] }

/-- Resolves a call without looking at what is remembered. -/
def resolveAfresh (f : GenericFunction ι) (args : List TypeId) (arena : TypeArena)
    (before : List DispatchEvent) : Outcome ι :=
  let (result, arena) := choose f.name f.methods args arena
  match result with
  | .error e => ⟨.error e, f, arena, before⟩
  | .ok r =>
    let f := if f.remembers then { f with cache := (args, r) :: f.cache } else f
    ⟨.ok r, f, arena, before ++ [.resolved f.name args r.index]⟩

/-- Resolves a call by the types of its arguments. -/
def resolve (f : GenericFunction ι) (args : List TypeId) (arena : TypeArena) : Outcome ι :=
  if f.remembers then
    match f.cache.lookup args with
    | some r => ⟨.ok r, f, arena, [.hit f.name args]⟩
    | none => f.resolveAfresh args arena [.miss f.name args]
  else f.resolveAfresh args arena []

/-- The types of the arguments, or the position of the first one that has none. -/
def tags (f : GenericFunction ι) (position : Nat) :
    List (Option TypeId) → Except DispatchError (List TypeId)
  | [] => .ok []
  | none :: _ => .error (.untagged f.name position)
  | some tag :: rest => do return tag :: (← f.tags (position + 1) rest)

/-- Resolves a call whose arguments may have no type. -/
def dispatch (f : GenericFunction ι) (args : List (Option TypeId)) (arena : TypeArena) :
    Outcome ι :=
  match f.tags 0 args with
  | .ok tags => f.resolve tags arena
  | .error e => ⟨.error e, f, arena, []⟩

end GenericFunction

end DispatchLang
