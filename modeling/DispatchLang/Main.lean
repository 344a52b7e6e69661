import DispatchLang.CommandLine.Run

/-!
# The program

Reads the files that a call may need, and carries the call out.
-/

namespace DispatchLang.CommandLine

/-- The contents of a file, if it can be read. -/
def contents? (name : String) : IO (Option String) := do
  try
    return some (← IO.FS.readFile name)
  catch _ => return none

/-- How a complaint is shown. -/
def Complaint.line (complaint : Complaint) : String :=
  match complaint.kind with
  | some kind => kind.name ++ ": " ++ complaint.text
  | none => complaint.text

end DispatchLang.CommandLine

open DispatchLang.CommandLine

/-- Carries out a call with the given arguments. -/
def main (args : List String) : IO UInt32 := do
  let files ← (filesOf args).mapM fun name => return (name, ← contents? name)
  let outcome := call args fun name => (files.lookup name).join
  IO.print outcome.written
  outcome.complaints.forM fun complaint => IO.eprintln complaint.line
  return outcome.status.toUInt32
