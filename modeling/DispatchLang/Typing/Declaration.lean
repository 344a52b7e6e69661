import DispatchLang.Typing.Checker

/-!
# Checking declarations

What written types mean, and what a type declaration makes known. A type whose name is not known is
reported once, where it is written, and taken for the type above all others.
-/

namespace DispatchLang.Check

/-! ## Written types -/

def headType (name : String) : Check (Option TypeId) := do
  match (← get).typeVars.lookup name with
  | some id => return some id
  | none => lookupType name

mutual

/-- The type that a written type means. -/
def resolveType : TypeExpr → Check TypeId
  | .named span name => do
    match ← headType name with
    | some id => return id
    | none =>
      report (.undefinedType name) span
      return .any
  | .applied span name args => do
    match ← headType name with
    | some base =>
      let args ← resolveTypes args
      modifyTypes (·.applied base args)
    | none =>
      report (.undefinedType name) span
      return .any

/-- The types that several written types mean. -/
def resolveTypes : List TypeExpr → Check (List TypeId)
  | [] => return []
  | type :: types => do
    let id ← resolveType type
    return id :: (← resolveTypes types)

end

/-- The type that a written type means, or the type above all others if nothing is written. -/
def resolveOption : Option TypeExpr → Check TypeId
  | none => return .any
  | some type => resolveType type

def resolveFields : List FieldDecl → Check FieldTypes
  | [] => return []
  | f :: fields => do
    let id ← resolveType f.type
    return (f.name.val, id) :: (← resolveFields fields)

def resolveParams : List Param → Check (List TypeId)
  | [] => return []
  | p :: params => do
    let id ← resolveOption p.annotation
    return id :: (← resolveParams params)

/-- Binds the parameters of a closure, one after the other, and answers their types. -/
def defineParams : List Param → Check (List TypeId)
  | [] => return []
  | p :: params => do
    let id ← resolveOption p.annotation
    define p.name.val id
    return id :: (← defineParams params)

/-- Enters the type variables of a declaration. A constraint may mention the variables before it. -/
def enterTypeParams : List TypeParam → Check (List TypeId)
  | [] => return []
  | p :: params => do
    let constraint ← resolveOption p.constraint
    let id ← modifyTypes (·.var p.name.val constraint)
    modify fun c => { c with typeVars := Assoc.insert p.name.val id c.typeVars }
    return id :: (← enterTypeParams params)

/-! ## Type declarations -/

/-- Makes an alternative known: as a value if it has no fields, and else as a function. -/
def declareVariant (vars : List TypeId) (type : TypeId) (name : String) (fields : FieldTypes) :
    Check Unit := do
  if fields.isEmpty then define name type
  else
    let signature := fields.map Prod.snd
    let constructor ← modifyTypes (·.function signature type)
    addMethod name ⟨vars, signature, constructor⟩
  defineVariant name ⟨type, fields⟩

/-- Makes the alternatives of a type known. -/
def declareVariants (vars : List TypeId) (type : TypeId) :
    List VariantDecl → Check (List (String × FieldTypes))
  | [] => return []
  | v :: alternatives => do
    let fields ← resolveFields v.fields
    declareVariant vars type v.name.val fields
    return (v.name.val, fields) :: (← declareVariants vars type alternatives)

/-- Makes a type known. Its name is known before its fields are looked at, so these may mention the
type. -/
def declareType (decl : TypeDecl) : Check Unit := do
  let name := decl.name.val
  let params := decl.typeParams.map (·.name.val)
  let id ← withTypeVars do
    let vars ← enterTypeParams decl.typeParams
    let parent ← resolveOption decl.parent
    let add (kind : TypeKind) : Check TypeId := modifyTypes (·.add ⟨name, kind, some parent⟩)
    let redefine (id : TypeId) (kind : TypeKind) : Check Unit :=
      modify fun c => { c with arena := c.arena.redefine id ⟨name, kind, some parent⟩ }
    match decl.body with
    | .abstract => add .abstract
    | .concrete => add .concrete
    | .struct fields =>
      let id ← add (.struct params [])
      defineType name id
      redefine id (.struct params (← resolveFields fields))
      return id
    | .variants alternatives =>
      let id ← add (.variants params [])
      defineType name id
      redefine id (.variants params (← declareVariants vars id alternatives))
      return id
  defineType name id

end DispatchLang.Check
