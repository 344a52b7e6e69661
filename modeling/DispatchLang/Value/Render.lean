import DispatchLang.Node.Printer
import DispatchLang.Value.Basic

/-!
# Showing values

The text of a value. Strings are shown as they are by themselves and between quotes inside other values.
An array or object that is met again inside itself is cut off, so the text is finite even where the value
is not: no more containers can be open at a time than there are cells.
-/

namespace DispatchLang.Value

/-! ## Pieces -/

/-- What a container is shown as inside itself. -/
def cycleMark : String := "[...]"

def arrayText (items : List String) : String := "[" ++ ", ".intercalate items ++ "]"

def objectText (entries : List String) : String :=
  if entries.isEmpty then "[:]" else "[" ++ ", ".intercalate entries ++ "]"

def instText (typeName : String) (variant : Option String) (fields : List String) : String :=
  match variant, fields with
  | some name, [] => name
  | none, [] => typeName ++ " \x7b\x7d"
  | variant, fields => variant.getD typeName ++ " \x7b " ++ ", ".intercalate fields ++ " \x7d"

/-! ## Values -/

mutual

/-- The text of a value inside another one, with containers shown by `container`. -/
def reprWith (container : Nat → String) : Value → String
  | .nothing => "nothing"
  | .int value => Decimal.intText value.toInt
  | .float value => Decimal.floatText value
  | .string value => "\"" ++ value ++ "\""
  | .bool true => "true"
  | .bool false => "false"
  | .array address | .object address => container address
  | .inst _ typeName variant fields => instText typeName variant (fieldsWith container fields)
  | .closure _ params _ _ => "<closure/" ++ Decimal.natText params.length ++ ">"
  | .function _ name _ _ _ | .generic name => "<fn " ++ name ++ ">"
  | .constructor _ c => "<constructor " ++ c.variant ++ ">"
  | .typeRef _ name => name
  | .quoted body => "#(" ++ body.inlineText ++ ")"

/-- The texts of fields. -/
def fieldsWith (container : Nat → String) : List (String × Value) → List String
  | [] => []
  | (name, value) :: fields =>
    (name ++ ": " ++ reprWith container value) :: fieldsWith container fields

end

/-- The text of a container, where those in `opened` are cut off and at most the given number can be
opened. -/
def containerText (heap : Heap) : Nat → List Nat → Nat → String
  | 0, _, _ => cycleMark
  | n + 1, opened, address =>
    if opened.contains address then cycleMark
    else
      let inner := containerText heap n (address :: opened)
      match heap.cells[address]? with
      | some (.array items _) => arrayText (items.toList.map (reprWith inner))
      | some (.object entries) => objectText (fieldsWith inner entries)
      | none => cycleMark

/-- The text of a value inside another one. -/
def repr (heap : Heap) (value : Value) : String :=
  reprWith (containerText heap (heap.size + 1) []) value

def text (heap : Heap) (value : Value) : String :=
  match value with
  | .string value => value
  | value => value.repr heap

/-! ## Names of shapes -/

/-- The name of the shape of a value, with those of arrays given by `array`. -/
def shapeWith (array : Nat → String) : Value → String
  | .nothing => "Nothing"
  | .int _ => "Int"
  | .float _ => "Float"
  | .string _ => "String"
  | .bool _ => "Boolean"
  | .array address => array address
  | .object _ => "Object"
  | .inst _ typeName _ _ => typeName
  | .closure _ _ _ _ | .function _ _ _ _ _ | .generic _ | .constructor _ _ => "Function"
  | .typeRef _ _ => "Type"
  | .quoted _ => "Quoted"

/-- The common name of the shapes of some elements. -/
def commonShape : List String → String
  | [] => "Any"
  | first :: rest => if rest.all (· = first) then first else "Any"

/-- The name of the shape of an array, where those in `opened` are cut off and at most the given number
can be opened. -/
def arrayShape (heap : Heap) : Nat → List Nat → Nat → String
  | 0, _, _ => "Array[Any]"
  | n + 1, opened, address =>
    if opened.contains address then "Array[Any]"
    else
      let inner := arrayShape heap n (address :: opened)
      "Array[" ++ commonShape ((heap.items address).toList.map (shapeWith inner)) ++ "]"

def shapeName (heap : Heap) (value : Value) : String :=
  shapeWith (arrayShape heap (heap.size + 1) []) value

end DispatchLang.Value
