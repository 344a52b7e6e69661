import DispatchLang.Eval.Session
import DispatchLang.Toml.Reader

/-!
# Configuration

What can be set in a configuration file. Every setting has a default, a file may set any of them, and
anything else in it is refused.
-/

namespace DispatchLang

/-- All settings. -/
structure Config where
  /-- How programs are evaluated. -/
  strategy : Strategy
  /-- What is chosen for a session. -/
  options : Options
  /-- Which log messages are of interest. -/
  filter : Option String

namespace Config

/-- The settings where nothing is set. -/
def standard : Config := ⟨.direct, .standard, none⟩

/-! ## Settings -/

/-- The named parts of a group of settings. A group is a table that has no other parts, or a list with
one part after the other. -/
def parts? (names : List String) : Toml.Item → Option Toml.Entries
  | .table _ entries =>
    if entries.all fun (name, _) => names.contains name then some entries else none
  | .array items => some (names.zip items)
  | .tables elements => some (names.zip (elements.map (.table .header)))
  | _ => none

/-- What a part of a group is set to. -/
def part? {α : Type} (parts : Toml.Entries) (name : String) (default : α)
    (read : Toml.Item → Option α) : Option α :=
  match parts.lookup name with
  | none => some default
  | some item => read item

def holdsNothing : Toml.Item → Bool
  | .array items => items.isEmpty
  | .table _ entries => entries.isEmpty
  | .tables elements => elements.isEmpty
  | _ => false

/-- Reads a choice between named values: the name, or a table in which the name alone stands for
nothing. -/
def choice? {α : Type} (choices : List (String × α)) : Toml.Item → Option α
  | .string name => choices.lookup name
  | .table _ [(name, item)] => if holdsNothing item then choices.lookup name else none
  | _ => none

/-- Reads a truth value. -/
def bool? : Toml.Item → Option Bool
  | .bool value => some value
  | _ => none

/-- Reads a text. -/
def text? : Toml.Item → Option String
  | .string text => some text
  | _ => none

/-- The names of the strategies. -/
def strategies : List (String × Strategy) := [("direct", .direct), ("dispatch", .dispatch)]

/-- The names of the rules for assignments. -/
def assignments : List (String × AssignmentScope) := [("local", .local), ("global", .global)]

/-! ## Files -/

/-- The settings of a document. -/
def ofItem? (document : Toml.Item) : Option Config := do
  let groups ← parts? ["run", "dispatch", "log"] document
  let run ← part? groups "run" [] (parts? ["evaluator", "assignment"])
  let dispatch ← part? groups "dispatch" [] (parts? ["cache"])
  let log ← part? groups "log" [] (parts? ["filter"])
  return {
    strategy := ← part? run "evaluator" standard.strategy (choice? strategies)
    options := {
      assignment := ← part? run "assignment" standard.options.assignment (choice? assignments)
      cache := ← part? dispatch "cache" standard.options.cache bool? }
    filter := ← part? log "filter" standard.filter fun item => (text? item).map some }

/-- Reads the settings of a file. -/
def ofText? (text : String) : Option Config := do ofItem? (← Toml.Item.ofText? text)

end Config

end DispatchLang
