import Std.Time.DateTime.Timestamp
import Workflow.CommandLine.Help
import Workflow.CommandLine.Program

/-!
# Running the program

How the machine answers the program's questions, and how the way in which the program ends becomes
output and an exit code.  Nothing is decided here.
-/

namespace Workflow.CommandLine

/-- What an error of the machine says about a file. -/
def faultOf : IO.Error → FileFault
  | .noFileOrDirectory .. => .notFound
  | .alreadyExists .. => .alreadyExists
  | .inappropriateType _ code _ => if code = 21 then .isDirectory else .notDirectory
  | .invalidArgument _ 36 _ => .nameTooLong
  | error => .stated (toString error)

/-- Do something with the file that a path leads to. -/
def attempt {α : Type} (path : String) (action : IO α) : IO (Except FileFault α) := do
  match Path.fault? path with
  | some fault => return .error fault
  | none =>
    match ← action.toBaseIO with
    | .ok value => return .ok value
    | .error error => return .error (faultOf error)

/-- Whether a path leads to anything. -/
def pathLeads (path : String) : IO Bool := do
  match ← (IO.FS.realPath path).toBaseIO with
  | .ok place => place.pathExists
  | .error _ => return false

/-- The text in a file. -/
def readText (path : String) : IO (Except FileFault String) := do
  match ← attempt path (IO.FS.readBinFile path) with
  | .error fault => return .error fault
  | .ok bytes =>
    match String.fromUTF8? bytes with
    | some text => return .ok text
    | none => return .error .notText

/-- Write a text behind what is in a file. -/
def appendText (path text : String) : IO Unit :=
  IO.FS.withFile path .append fun file => file.putStr text

/-- Make sure that there is a file to append to, and the directories around it. -/
def prepareLog (path : String) : IO Unit := do
  match (Path.pieces path).dropLast with
  | [] => appendText path ""
  | pieces =>
    let directory := String.intercalate "/" pieces
    if directory ≠ "" then IO.FS.createDirAll directory
    appendText path ""

/-- The machine's answer to a question. -/
def answer {β : Type} : Question β → IO β
  | .isThere path => pathLeads path
  | .read path => readText path
  | .environment names => do
    let entries ← names.filterMapM fun name => do
      return (← IO.getEnv name).map fun value => (name, value)
    return Table.ofList entries
  | .openLog path => attempt path (prepareLog path)
  | .append path text => do
    let _ ← attempt path (appendText path text)
  | .newRun => do
    return .ofBytes (← IO.getRandomBytes 16).toList
  | .now => do
    return (← Std.Time.Timestamp.now).toMillisecondsSinceUnixEpoch.val.toNat

/-- Print what the program ends with. -/
def Exit.show : Exit → IO Unit
  | refused refusal =>
    if (refused refusal).code = 0 then IO.print refusal.message else IO.eprint refusal.message
  | failed failure => do
    IO.eprintln ("Error: " ++ failure.message)
    match failure.cause? with
    | some error => IO.eprintln ("\nCaused by:\n    " ++ error.message)
    | none => return ()
  | printed text => IO.print text
  | reported report => IO.println (Json.renderIndented report)

end Workflow.CommandLine

open Workflow in
/-- The program. -/
def main (arguments : List String) : IO UInt32 := do
  let done ← (CommandLine.program arguments).hold CommandLine.answer
  done.show
  return done.code.toUInt32
