/-!
# Command-line arguments

What the arguments of a call ask for. Arguments are looked at from left to right, and the first one that
is wrong, or that asks for help or for the version, decides; what cannot go together is noticed at the
end.
-/

namespace DispatchLang.CommandLine

/-! ## Options -/

/-- What can be done with a program. At most one of these is asked for. -/
inductive Mode where
  /-- Its tokens are shown. -/
  | tokens
  /-- Its tree is shown. -/
  | tree
  /-- It is run, decided by the shapes of values. -/
  | runDirect
  /-- It is run, decided by the types of values. -/
  | runDispatch
  /-- It is checked. -/
  | check
deriving DecidableEq

/-- The options that are followed by a value. -/
inductive ValueOption where
  /-- The name of the file that holds the program. -/
  | file
  /-- The name of the configuration file. -/
  | config
  /-- Which log messages are of interest. -/
  | log
deriving DecidableEq

/-- The options with long names. -/
inductive LongOption where
  | mode (mode : Mode)
  | pretty
  | value (option : ValueOption)
  | help
  | version

def longOptions : List (String × LongOption) :=
  [("lexer", .mode .tokens), ("ast", .mode .tree), ("eval", .mode .runDirect),
   ("eval-v2", .mode .runDispatch), ("typecheck", .mode .check), ("pretty", .pretty),
   ("file", .value .file), ("config", .value .config), ("log", .value .log), ("help", .help),
   ("version", .version)]

/-! ## Requests -/

/-- What the arguments say. -/
structure Request where
  /-- What is to be done, in the order in which it was asked for. -/
  modes : List Mode
  /-- Whether output is to be laid out for reading. -/
  pretty : Bool
  /-- The values that were given, by option. -/
  values : List (ValueOption × String)
  /-- The text of the program. -/
  program : Option String

/-- The request of a call without arguments. -/
def Request.empty : Request := ⟨[], false, [], none⟩

/-- What a call asks for. -/
inductive Invocation where
  /-- A description of the options. -/
  | help
  /-- The version. -/
  | version
  /-- Nothing that makes sense. -/
  | refused
  /-- Work on a program. -/
  | work (request : Request)

namespace Request

/-- Asks for something to be done, which can be asked for only once. -/
def addMode? (request : Request) (mode : Mode) : Option Request :=
  if request.modes.contains mode then none
  else some { request with modes := request.modes ++ [mode] }

/-- Asks for output that is laid out for reading, which can be asked for only once. -/
def addPretty? (request : Request) : Option Request :=
  if request.pretty then none else some { request with pretty := true }

/-- Gives a value to an option, which can be given only once. The name of a file is not empty. -/
def addValue? (request : Request) (option : ValueOption) (value : String) : Option Request :=
  if (request.values.lookup option).isSome || (value.isEmpty && option ≠ .log) then none
  else some { request with values := request.values ++ [(option, value)] }

/-- Gives the program, which can be given only once. -/
def addProgram? (request : Request) (text : String) : Option Request :=
  if request.program.isSome then none else some { request with program := some text }

/-- The request as a whole: at most one thing is to be done, and the program is given in one way. -/
def invocation (request : Request) : Invocation :=
  if 2 ≤ request.modes.length then .refused
  else if (request.values.lookup .file).isSome && request.program.isSome then .refused
  else .work request

end Request

/-! ## Reading arguments -/

def looksLikeOption (arg : String) : Bool :=
  match arg.toList with
  | '-' :: _ :: _ => true
  | _ => false

/-- The name of a long option and the value that is attached to it by an equals sign. -/
def splitLong (name : List Char) : String × Option String :=
  match name.span (· ≠ '=') with
  | (name, []) => (String.ofList name, none)
  | (name, _ :: value) => (String.ofList name, some (String.ofList value))

/-- Reads arguments none of which is an option. -/
def readPrograms (request : Request) : List String → Invocation
  | [] => request.invocation
  | arg :: args =>
    match request.addProgram? arg with
    | some request => readPrograms request args
    | none => .refused

def readArguments (request : Request) : List String → Invocation
  | [] => request.invocation
  | arg :: args =>
    match arg.toList with
    | ['-', '-'] => readPrograms request args
    | '-' :: '-' :: name =>
      let (name, attached) := splitLong name
      match longOptions.lookup name, attached with
      | some .help, none => .help
      | some .version, none => .version
      | some (.mode mode), none =>
        match request.addMode? mode with
        | some request => readArguments request args
        | none => .refused
      | some .pretty, none =>
        match request.addPretty? with
        | some request => readArguments request args
        | none => .refused
      | some (.value option), some value =>
        match request.addValue? option value with
        | some request => readArguments request args
        | none => .refused
      | some (.value option), none =>
        match args with
        | [] => .refused
        | value :: args =>
          if looksLikeOption value then .refused
          else
            match request.addValue? option value with
            | some request => readArguments request args
            | none => .refused
      | _, _ => .refused
    | '-' :: 'h' :: _ => .help
    | '-' :: 'V' :: _ => .version
    | '-' :: _ :: _ => .refused
    | _ =>
      match request.addProgram? arg with
      | some request => readArguments request args
      | none => .refused

/-- What the given arguments ask for. -/
def Invocation.ofArguments (args : List String) : Invocation := readArguments .empty args

end DispatchLang.CommandLine
