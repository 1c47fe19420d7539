import Workflow.Json.Typed
import Workflow.Text.Blank
import Workflow.Text.Cut

/-!
# Variables on the command line

A variable is given as its name, an equals sign and its value.  The value is read as JSON if it is
JSON, and otherwise stands for itself, so that most texts need no quotes.
-/

namespace Workflow.CommandLine

/-- Why a text gives no variable. -/
inductive VariableFault where
  /-- there is no equals sign in it -/
  | noValue (text : String)
  /-- there is nothing but blanks in front of the equals sign -/
  | noName (text : String)
deriving DecidableEq, Repr

/-- Why a text gives no variable, in words. -/
def VariableFault.message : VariableFault → String
  | noValue text => "expected key=value, got '" ++ text ++ "'"
  | noName text => "empty variable name in '" ++ text ++ "'"

/-- The value that a text is given for. -/
def valueOf (text : String) : Value :=
  match Json.readValueOf text with
  | .ok value => value
  | .error _ => .string text

/-- The variable that a text gives. The first equals sign ends the name, and blanks around the name
are no part of it. -/
def readVariable (text : String) : Except VariableFault (String × Value) :=
  match Text.cut ['='] text.toList with
  | none => .error (.noValue text)
  | some (before, after) =>
    match Text.trim before with
    | [] => .error (.noName text)
    | name => .ok (String.ofList name, valueOf (String.ofList after))

end Workflow.CommandLine
