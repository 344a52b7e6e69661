import DispatchLang.Eval.Session

/-!
# The built-in generic functions

The tables of built-in methods that a session of the dispatch strategy begins with: for each operator,
function and method its signatures and what they do, in the order in which they are added.
-/

namespace DispatchLang

/-- A built-in method: the name of the generic function it belongs to, its type variables and its
signature, and what it does. -/
structure TableEntry (ι : Type) where
  /-- The name of the generic function. -/
  name : String
  /-- The type variables of the method. -/
  typeVars : List TypeId
  /-- The types of its parameters. -/
  signature : List TypeId
  /-- What it does. -/
  body : ι

namespace Tables

variable {ι : Type}

def build (cache : Bool) (table : List (TableEntry ι)) : List (String × GenericFunction ι) :=
  table.foldl (fun functions e =>
    let f := (functions.lookup e.name).getD (.empty e.name cache)
    Assoc.insert e.name (f.withMethod ⟨e.typeVars, e.signature, e.body⟩) functions) []

/-- The greatest number of further arguments that a built-in method with any number of them takes. -/
def variadicLimit : Nat := 8

/-- Methods that take arguments of the given types and any number of further ones. -/
def variadic (name : String) (first : List TypeId) (body : ι) : List (TableEntry ι) :=
  (List.range (variadicLimit + 1)).map fun n => ⟨name, [], first ++ List.replicate n .any, body⟩

def operators : List (TableEntry Primitive) :=
  ([.add, .sub, .mul, .mod, .pow].flatMap fun op : BinaryOp =>
    [⟨op.text, [], [.int, .int], .arithmetic op⟩,
     ⟨op.text, [], [.number, .number], .arithmetic op⟩]) ++
  [⟨"/", [], [.number, .number], .arithmetic .div⟩,
   ⟨"+", [], [.string, .string], .concat⟩,
   ⟨"+", [], [.string, .any], .concat⟩,
   ⟨"+", [], [.any, .string], .concat⟩,
   ⟨"+", [], [.array, .array], .concatArrays⟩,
   ⟨"*", [], [.string, .int], .repeatText⟩,
   ⟨"*", [], [.int, .string], .repeatText⟩] ++
  ([.lt, .gt, .le, .ge].flatMap fun op : BinaryOp =>
    [⟨op.text, [], [.number, .number], .comparison op⟩,
     ⟨op.text, [], [.string, .string], .comparison op⟩]) ++
  [⟨"==", [], [.any, .any], .equal⟩,
   ⟨"!=", [], [.any, .any], .unequal⟩,
   ⟨"&&", [], [.boolean, .boolean], .second⟩,
   ⟨"||", [], [.boolean, .boolean], .second⟩,
   ⟨"neg", [], [.int], .negate⟩,
   ⟨"neg", [], [.float], .negate⟩,
   ⟨"!", [], [.boolean], .not⟩]

def functions : List (TableEntry Primitive) :=
  variadic "print" [] .print ++
  [⟨"len", [], [.array], .len⟩,
   ⟨"len", [], [.string], .len⟩,
   ⟨"len", [], [.object], .len⟩,
   ⟨"type", [], [.any], .typeOf⟩,
   ⟨"str", [], [.any], .str⟩,
   ⟨"range", [], [.int], .range⟩,
   ⟨"range", [], [.int, .int], .range⟩,
   ⟨"eval", [], [.quoted], .eval⟩]

/-- The methods. Those of arrays are generic in the type `element` of the elements, for which `array` is
the type of arrays. -/
def methods (element array : TypeId) : List (TableEntry MethodBody) :=
  [⟨"map", [element], [array, .function], .callback .map⟩,
   ⟨"filter", [element], [array, .function], .callback .filter⟩,
   ⟨"reduce", [element], [array, .function, .any], .callback .reduce⟩,
   ⟨"join", [element], [array], .primitive .join⟩,
   ⟨"join", [element], [array, .string], .primitive .join⟩,
   ⟨"push", [element], [array, .any], .primitive .push⟩,
   ⟨"pop", [element], [array], .primitive .pop⟩,
   ⟨"format", [element], [array, .string], .primitive .formatArray⟩,
   ⟨"at", [element], [array, .int], .primitive .arrayAt⟩,
   ⟨"contains", [element], [array, .any], .primitive .arrayContains⟩,
   ⟨"reverse", [element], [array], .primitive .reverse⟩,
   ⟨"sum", [element], [array], .primitive .sum⟩,
   ⟨"upper", [], [.string], .primitive .upper⟩,
   ⟨"lower", [], [.string], .primitive .lower⟩,
   ⟨"trim", [], [.string], .primitive .trim⟩,
   ⟨"split", [], [.string, .string], .primitive .split⟩,
   ⟨"contains", [], [.string, .string], .primitive .stringContains⟩] ++
  variadic "format" [.string] (.primitive .formatString) ++
  [⟨"at", [], [.string, .int], .primitive .stringAt⟩,
   ⟨"keys", [], [.object], .primitive .keys⟩,
   ⟨"values", [], [.object], .primitive .values⟩,
   ⟨"at", [], [.object, .string], .primitive .objectAt⟩,
   ⟨"has", [], [.object, .string], .primitive .has⟩,
   ⟨"set", [], [.object, .string, .any], .primitive .set⟩] ++
  variadic "call" [.function] (.callback .call)

end Tables

end DispatchLang
