import DispatchLang.Node.Equal
import DispatchLang.Value.Basic

/-!
# Equality of values

Values are equal if they have the same content. Numbers are compared as floating-point numbers, objects
without regard to the order of their entries, callables and types by identity.

Containers may contain themselves. While two of them are compared the pair counts as equal, so a pair
that is met again has shown no difference so far. No more pairs can be open at a time than there are.
-/

namespace DispatchLang.Value

/-- Whether two lists have equal elements in the sense of `r`. -/
def allEqual (r : Value → Value → Bool) : List Value → List Value → Bool
  | [], [] => true
  | a :: as, b :: bs => r a b && allEqual r as bs
  | _, _ => false

/-- Whether two lists of entries hold equal values, in the sense of `r`, under the same keys. -/
def entriesEqual (r : Value → Value → Bool) (xs ys : List (String × Value)) : Bool :=
  xs.length = ys.length &&
    xs.all fun (key, value) => ys.any fun (key', value') => key = key' && r value value'

mutual

/-- Whether two values are equal, where containers are compared by `container`. -/
def equalWith (container : Nat → Nat → Bool) : Value → Value → Bool
  | .nothing, .nothing => true
  | .string a, .string b => a = b
  | .bool a, .bool b => a = b
  | .array a, .array b => container a b
  | .object a, .object b => container a b
  | .inst type name variant fields, .inst type' name' variant' fields' =>
    type = type' && name = name' && variant = variant' && fieldsEqualWith container fields fields'
  | .closure a _ _ _, .closure b _ _ _ => a = b
  | .function a _ _ _ _, .function b _ _ _ _ => a = b
  | .generic a, .generic b => a = b
  | .constructor a _, .constructor b _ => a = b
  | .typeRef a _, .typeRef b _ => a = b
  | .quoted a, .quoted b => a.sameForm b
  | .int a, .int b => Number.widen a == Number.widen b
  | .int a, .float b => Number.widen a == b
  | .float a, .int b => a == Number.widen b
  | .float a, .float b => a == b
  | _, _ => false
termination_by structural a _ => a

/-- Whether two lists of fields have the same names and equal values, in order. -/
def fieldsEqualWith (container : Nat → Nat → Bool) :
    List (String × Value) → List (String × Value) → Bool
  | [], [] => true
  | (name, value) :: fields, (name', value') :: fields' =>
    name = name' && equalWith container value value' && fieldsEqualWith container fields fields'
  | _, _ => false
termination_by structural fields _ => fields

end

/-- Whether two containers are equal, where the pairs in `assumed` count as equal and at most the given
number of pairs can be open. -/
def containersEqual (heap : Heap) : Nat → List (Nat × Nat) → Nat → Nat → Bool
  | 0, _, _, _ => false
  | n + 1, assumed, a, b =>
    if a = b || assumed.contains (a, b) then true
    else
      let inner := equalWith (containersEqual heap n ((a, b) :: assumed))
      match heap.cells[a]?, heap.cells[b]? with
      | some (.array items _), some (.array items' _) =>
        allEqual inner items.toList items'.toList
      | some (.object entries), some (.object entries') => entriesEqual inner entries entries'
      | _, _ => false

def equal (heap : Heap) (a b : Value) : Bool :=
  equalWith (containersEqual heap (heap.size * heap.size + 1) []) a b

end DispatchLang.Value
