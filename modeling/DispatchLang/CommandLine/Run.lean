import DispatchLang.CommandLine.Arguments
import DispatchLang.Config
import DispatchLang.Eval.Run
import DispatchLang.Node.Encode
import DispatchLang.Node.Printer
import DispatchLang.Typing.Infer

/-!
# The command line

What a call of the program does, as a function of its arguments and of the files it may read: what it
writes, what it complains about, and the status it ends with.
-/

namespace DispatchLang.CommandLine

/-! ## Outcomes -/

/-- Something that is reported to the user. -/
structure Complaint where
  /-- The kind of error, if it is one of the program that was given. -/
  kind : Option ErrorKind
  /-- What is wrong. -/
  text : String

structure CallOutcome where
  /-- The status: zero for success, two if the arguments were wrong, and one for any other failure. -/
  status : Nat
  /-- What is written. -/
  written : String
  /-- What is reported, in order. -/
  complaints : List Complaint

namespace CallOutcome

def success (written : String) : CallOutcome := ⟨0, written, []⟩

/-- Failure for a reason outside the program that was given. -/
def failure (status : Nat) (text : String) : CallOutcome := ⟨status, "", [⟨none, text⟩]⟩

/-- Failure because of the program that was given. -/
def rejected (written : String) (complaints : List Complaint) : CallOutcome :=
  ⟨1, written, complaints⟩

end CallOutcome

/-! ## Help -/

/-- The name and the version of the program. -/
def versionText : String := "sift 0.1.0\n"

/-- How the options are written, and what they are for. -/
def optionTexts : List (String × String) :=
  [("    --lexer", "Print the token stream as JSON"),
   ("    --ast", "Print the parsed AST as JSON (or as source with --pretty)"),
   ("    --eval", "Evaluate with the direct interpreter"),
   ("    --eval-v2", "Evaluate with the dispatch-based interpreter"),
   ("    --typecheck", "Type check and print findings as JSON"),
   ("    --pretty", "Indent JSON output; with --ast, print formatted source instead"),
   ("    --file <FILE>", "Read the program from a file"),
   ("    --config <CONFIG>", "Configuration file (default: ./sift.toml if present)"),
   ("    --log <LOG>",
    "Log filter, e.g. \"sift=debug\" (overrides the config file and RUST_LOG)"),
   ("-h, --help", "Print help"),
   ("-V, --version", "Print version")]

/-- A table of two columns. -/
def columns (rows : List (String × String)) : String :=
  let width := (rows.map (·.1.length)).foldl max 0
  String.join <| rows.map fun (left, right) =>
    "  " ++ left ++ String.ofList (List.replicate (width - left.length) ' ') ++ "  " ++ right ++ "\n"

/-- A description of the options. -/
def helpText : String :=
  "Run, inspect and check sift programs\n\nUsage: sift [OPTIONS] [EXPR]\n\nArguments:\n" ++
    columns [("[EXPR]", "Program text")] ++ "\nOptions:\n" ++ columns optionTexts

/-! ## Reports -/

/-- A token. -/
def lexemeJson (source : String) (l : Lexeme) : Json :=
  .obj [("kind", .str l.token.tokenClass.name), ("text", .str (Token.shownText source l)),
    ("line", .int l.span.line), ("column", .int l.span.column)]

/-- Something that was found wrong. -/
def findingJson (finding : Finding) : Json :=
  let types :=
    match finding.cause.types? with
    | some (expected, actual) => [("expected", Json.str expected), ("actual", Json.str actual)]
    | none => []
  .obj ([("kind", .str finding.kind.name), ("msg", .str finding.message),
    ("span", finding.span.toJson)] ++ types)

/-- The result of a check. -/
def reportJson (arena : TypeArena) (report : CheckReport) : Json :=
  let statement : TypeId × Span → Json := fun (type, span) =>
    .obj [("line", .int span.line), ("column", .int span.column), ("type", .str (arena.name type))]
  .obj [("ok", .bool report.ok), ("errors", .list findingJson report.findings),
    ("statements", .list statement report.statements)]

def jsonLine (pretty : Bool) (value : Json) : String :=
  (if pretty then value.indented else value.compact) ++ "\n"

/-- Findings are reported in the order of their places. -/
def findingComplaints (findings : List Finding) : List Complaint :=
  (findings.mergeSort fun a b => a.span.start ≤ b.span.start).map fun finding =>
    ⟨some finding.kind.errorKind, finding.message⟩

/-! ## Work on a program -/

/-- Runs a program and writes what it prints and its value. -/
def evaluate (strategy : Strategy) (options : Options) (source : String) : CallOutcome :=
  match runProgram strategy options source with
  | (.ok value, printed) => .success (printed ++ value ++ "\n")
  | (.error e, printed) => .rejected printed [⟨e.kind?, e.message⟩]

/-- Reads a program and does something with it. -/
def withProgram (source : String) (action : Program → CallOutcome) : CallOutcome :=
  match Program.parse source with
  | .ok program => action program
  | .error e => .rejected "" [⟨some .parse, e.message⟩]

/-- Does what is asked for with a program. -/
def perform (mode : Option Mode) (pretty : Bool) (config : Config) (source : String) :
    CallOutcome :=
  match mode with
  | some .tokens =>
    .success (jsonLine pretty (Json.list (lexemeJson source) (Token.scan source)))
  | some .tree => withProgram source fun program =>
    if pretty then .success program.text
    else .success (jsonLine false (Json.list (Node.toJson .float) program))
  | some .check => withProgram source fun program =>
    let (report, checker) := Checker.initial.check program
    let written := jsonLine pretty (reportJson checker.arena report)
    if report.ok then .success written
    else .rejected written (findingComplaints report.findings)
  | some .runDirect => evaluate .direct config.options source
  | some .runDispatch => evaluate .dispatch config.options source
  | none => evaluate config.strategy config.options source

/-! ## Files -/

/-- The configuration file that is read if it is there. -/
def defaultConfigFile : String := "sift.toml"

namespace Request

def configFile (request : Request) : String :=
  (request.values.lookup .config).getD defaultConfigFile

def files (request : Request) : List String :=
  request.configFile :: (request.values.lookup .file).toList

/-- The settings under which a request is carried out. Only the default configuration file may be
missing. -/
def config? (request : Request) (read : String → Option String) : Option Config :=
  match read request.configFile with
  | some text => Config.ofText? text
  | none => if (request.values.lookup .config).isSome then none else some .standard

end Request

/-- Carries out a request. The configuration comes first, then the program. -/
def carryOut (request : Request) (read : String → Option String) : CallOutcome :=
  match request.config? read with
  | none => .failure 1 "error: no usable configuration"
  | some config =>
    match request.values.lookup .file, request.program with
    | some file, _ =>
      match read file with
      | some source => perform request.modes.head? request.pretty config source
      | none => .failure 1 ("error: could not read " ++ file)
    | none, some source => perform request.modes.head? request.pretty config source
    | none, none => .failure 2 "error: no input; pass an expression or --file PATH"

/-- Carries out a call. -/
def call (args : List String) (read : String → Option String) : CallOutcome :=
  match Invocation.ofArguments args with
  | .help => .success helpText
  | .version => .success versionText
  | .refused => .failure 2 "error: unusable arguments"
  | .work request => carryOut request read

/-- The files that a call may have to read. -/
def filesOf (args : List String) : List String :=
  match Invocation.ofArguments args with
  | .work request => request.files
  | _ => []

end DispatchLang.CommandLine
