import DispatchLang.Typing.Call
import DispatchLang.Typing.Declaration

/-!
# Type inference

The type of every node is inferred from those of its parts and noted under the place of the node.
Comparisons and logical operators give truth values; arithmetic has the type of the left operand. What is
found wrong is noted, and inference goes on.
-/

namespace DispatchLang

namespace Check

/-! ## Patterns -/

def literalType : Literal → TypeId
  | .int _ => .int
  | .float _ => .float
  | .string _ => .string
  | .bool _ => .boolean

/-- The type and the fields that a construction in a pattern matches. -/
def patternFields (name : String) : Check (Option (TypeId × FieldTypes)) := do
  match ← lookupVariant name with
  | some variant => return some (variant.type, variant.fields)
  | none =>
    match ← lookupType name with
    | none => return none
    | some id =>
      match ((← get).arena.get id).kind with
      | .struct _ fields => return some (id, fields)
      | _ => return none

def patternFieldType (owner : String) (declared : FieldTypes) (field : Located String) :
    Check TypeId := do
  match declared.lookup field.val with
  | some type => return withoutVars (← get).arena type
  | none =>
    report (.patternWithoutField owner field.val) field.span
    return .any

mutual

/-- Binds the captures of a pattern that a value of the given type is matched against, and answers the
type that the value has if it matches. -/
def bindPattern (type : TypeId) (pattern : Node) : Check TypeId := do
  let narrowed : TypeId ←
    match pattern with
    | .capture _ name => do
      if let some name := name then define name type
      pure type
    | .refine _ name inner => do
      let bound ← bindPattern type inner
      if let some name := name then define name bound
      pure bound
    | .literal _ value => pure (literalType value)
    | .ident span name => do
      match ← lookupVariant name with
      | some variant => pure variant.type
      | none =>
        report (.unknownVariant name) span
        pure type
    | .construct _ name fields => do
      match ← patternFields name.val with
      | some (id, declared) =>
        bindFields name.val (some declared) fields
        pure id
      | none =>
        report (.unknownVariantOrType name.val) name.span
        bindFields name.val none fields
        pure type
    | other => do
      report .invalidPattern other.span
      pure type
  record pattern.span narrowed
  return narrowed
termination_by structural pattern

/-- Binds the captures in the fields of a pattern. Of what is not declared nothing is known. -/
def bindFields (owner : String) (declared : Option FieldTypes)
    (fields : List (Located String × Node)) : Check Unit := do
  match fields with
  | [] => return
  | (field, pattern) :: fields =>
    let type ←
      match declared with
      | some declared => patternFieldType owner declared field
      | none => pure .any
    let _ ← bindPattern type pattern
    bindFields owner declared fields
termination_by structural fields

end

def checkFieldValue (owner : String) (field : String) (expected actual : TypeId) (span : Span) :
    Check Unit := do
  let arena := (← get).arena
  if !compatible arena actual expected then
    report (.mismatch (.field field owner) (arena.name expected) (arena.name actual)) span

def reportMissing (owner : String) (given : List String) (span : Span) : FieldTypes → Check Unit
  | [] => return
  | (field, _) :: declared => do
    if !given.contains field then report (.missingField field owner) span
    reportMissing owner given span declared

/-- What the name of a construction means: the name and the fields of a type or an alternative, and the
type of the instance. -/
def constructed (name : Located String) : Check (Option (String × FieldTypes × TypeId)) := do
  match ← lookupType name.val with
  | some id =>
    let d := (← get).arena.get id
    match d.kind with
    | .struct _ fields => return some (d.name, fields, id)
    | _ =>
      report (.typeWithoutFields name.val) name.span
      return none
  | none =>
    match ← lookupVariant name.val with
    | some variant => return some (name.val, variant.fields, variant.type)
    | none =>
      report (.undefinedType name.val) name.span
      return none

/-- Binds the target of an assignment of a value of the given type. -/
def assignTo (target : Node) (type : TypeId) : Check Unit := do
  match target with
  | .ident span name =>
    assign name type
    record span type
  | .construct _ _ _ | .capture _ _ | .refine _ _ _ =>
    let _ ← bindPattern type target
    return
  | other => report .invalidTarget other.span

/-- The type of a choice between values of the given types. -/
def joinAll (arena : TypeArena) : List TypeId → TypeId
  | [] => .nothing
  | first :: rest => rest.foldl arena.join first

/-! ## Nodes -/

mutual

/-- Infers the type of a node and notes it. A block without parameters that stands `inPlace`, as the body
of a function or an arm, is run there and not a value. -/
def infer (inPlace : Bool) (node : Node) : Check TypeId := do
  let type : TypeId ←
    match node with
    | .literal _ value => pure (literalType value)
    | .ident span name => nameType name span
    | .binary _ op left right => do
      let left ← infer false left
      let _ ← infer false right
      pure (if op.isComparison || op.isLogical then .boolean else left)
    | .unary _ op operand => do
      let operand ← infer false operand
      pure (match op with
        | .not => .boolean
        | .neg => operand)
    | .assign _ target value => do
      let type ← infer false value
      assignTo target type
      pure type
    | .field _ object field => do
      let owner ← infer false object
      fieldType owner field
    | .call _ function args => do
      let callee ← lookup function.val
      let args ← inferPlaced args
      match callee with
      | some callee => pure (resultOf (← get).arena callee)
      | none => namedCallType function.val args function.span
    | .send _ receiver method args => do
      let receiver ← infer false receiver
      let type ← methodType receiver method
      type (← inferPlaced args)
    | .block _ params body =>
      if inPlace && params.isEmpty then inferLast .nothing body
      else do
        let (params, result) ← inScope do
          let params ← defineParams params
          pure (params, ← inferLast .nothing body)
        modifyTypes (·.function params result)
    | .cases _ scrutinee arms => do
      let scrutinee ← infer false scrutinee
      let types ← inferArms scrutinee arms
      pure (joinAll (← get).arena types)
    | .construct span name fields => do
      match ← constructed name with
      | some (owner, declared, type) =>
        let given ← inferFields owner declared [] fields
        reportMissing owner given span declared
        pure type
      | none =>
        inferEntries fields
        pure .any
    | .typeDecl _ decl => do
      declareType decl
      pure .type
    | .function _ head body => do
      let (vars, params, result) ← withTypeVars do
        let vars ← enterTypeParams head.typeParams
        let params ← resolveParams head.params
        let provisional ← modifyTypes (·.function params .any)
        addMethod head.name.val ⟨vars, params, provisional⟩
        let result ← inScope do
          ((head.params.map (·.name.val)).zip params).forM fun (name, type) => define name type
          infer true body
        pure (vars, params, result)
      let type ← modifyTypes (·.function params result)
      addMethod head.name.val ⟨vars, params, type⟩
      pure type
    | .capture span _ | .refine span _ _ => do
      report .strayCapture span
      pure .any
    | .quoted _ _ => pure .quoted
    | .array _ elements => do
      let types ← inferPlaced elements
      modifyTypes (·.arrayOf (commonType (types.map Prod.fst)))
    | .object _ entries => do
      inferEntries entries
      pure .object
    | .pair _ key value => do
      let _ ← infer false key
      let _ ← infer false value
      pure .any
  record node.span type
  return type
termination_by structural node

def inferPlaced (nodes : List Node) : Check (List (TypeId × Span)) := do
  match nodes with
  | [] => return []
  | node :: nodes =>
    let type ← infer false node
    return (type, node.span) :: (← inferPlaced nodes)
termination_by structural nodes

def inferLast (last : TypeId) (nodes : List Node) : Check TypeId := do
  match nodes with
  | [] => return last
  | node :: nodes => inferLast (← infer false node) nodes
termination_by structural nodes

/-- The types of the bodies of arms, each in a scope with what its pattern binds. -/
def inferArms (scrutinee : TypeId) (arms : List (Node × Node)) : Check (List TypeId) := do
  match arms with
  | [] => return []
  | (pattern, body) :: arms =>
    let type ← inScope do
      let _ ← bindPattern scrutinee pattern
      infer true body
    return type :: (← inferArms scrutinee arms)
termination_by structural arms

/-- Infers the types of the values of a construction and checks them against the declared fields. Answers
the names of the given fields, after those that were given before. -/
def inferFields (owner : String) (declared : FieldTypes) (given : List String)
    (fields : List (Located String × Node)) : Check (List String) := do
  match fields with
  | [] => return given
  | (field, value) :: fields =>
    if given.contains field.val then report (.duplicateField field.val owner) field.span
    match declared.lookup field.val with
    | some type =>
      let expected := withoutVars (← get).arena type
      let actual ← infer false value
      checkFieldValue owner field.val expected actual value.span
    | none =>
      report (.literalWithoutField owner field.val) field.span
      let _ ← infer false value
    inferFields owner declared (field.val :: given) fields
termination_by structural fields

/-- Infers the types of named values. -/
def inferEntries (entries : List (Located String × Node)) : Check Unit := do
  match entries with
  | [] => return
  | (_, value) :: entries =>
    let _ ← infer false value
    inferEntries entries
termination_by structural entries

end

end Check

/-! ## Programs -/

/-- What checking a program gives. -/
structure CheckReport where
  /-- What was found wrong, in the order in which it was found. -/
  findings : List Finding
  /-- The statements with their types. -/
  statements : List (TypeId × Span)
  /-- The inferred types by place, in the order of the places. -/
  types : List (NodeKey × TypeId)

namespace CheckReport

/-- Whether nothing was found wrong. -/
def ok (report : CheckReport) : Bool := report.findings.isEmpty

/-- Keeps the first of neighbouring entries for one place. -/
def distinct (previous : Option NodeKey) : List (NodeKey × TypeId) → List (NodeKey × TypeId)
  | [] => []
  | entry :: entries =>
    if previous = some entry.1 then distinct previous entries
    else entry :: distinct (some entry.1) entries

/-- A log of inferred types as a table: sorted by place, with one entry for every place. Of several types
for a place the smallest is kept. -/
def table (log : List (NodeKey × TypeId)) : List (NodeKey × TypeId) :=
  distinct none <| log.mergeSort fun (a, _) (b, _) => a.1 < b.1 || (a.1 = b.1 && a.2 ≤ b.2)

end CheckReport

/-- Checks a program. What it declares stays known. -/
def Checker.check (checker : Checker) (program : Program) : CheckReport × Checker :=
  let (statements, checker) := (Check.inferPlaced program).run checker
  (⟨checker.findings.reverse, statements, CheckReport.table checker.inferred⟩,
   { checker with findings := [], inferred := [] })

end DispatchLang
