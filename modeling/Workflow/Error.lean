import Workflow.Document.Decode

/-!
# Errors

Everything that can go wrong with a definition, a configuration or a run, as causes.  The wording
is in one place, `Error.message`; `Error.element?` says which element of the process is to blame.
-/

namespace Workflow

/-- Why JSON text did not give what was wanted. -/
structure JsonFault where
  /-- the first fault met -/
  fault : Fault
  /-- the line and column of the fault, where they are known -/
  place : Option (Nat × Nat)
deriving DecidableEq, Repr

namespace JsonFault

/-- The fault in words, with its place. -/
def message (f : JsonFault) : String :=
  match f.place with
  | none => f.fault.words
  | some (line, column) =>
    f.fault.words ++ " at line " ++ toString line ++ " column " ++ toString column

end JsonFault

/-- What is wrong with a process definition. -/
inductive Malformation where
  /-- no element starts the process -/
  | noStart (process : String)
  /-- two elements share an id -/
  | repeatedId (id process : String)
  /-- a flow has an endpoint that is no element -/
  | unknownEndpoint (source target endpoint : String)
  /-- a run came to an id that is no element -/
  | missingElement (id process : String)
  /-- the name of the definition's file has no known ending -/
  | unsupportedFormat (ending path : String)
  /-- the text of the definition could not be read -/
  | unreadable (reason : String)
  /-- said by an executor -/
  | stated (reason : String)
deriving DecidableEq, Repr

/-- What is wrong, in words. -/
def Malformation.message : Malformation → String
  | noStart process => "process '" ++ process ++ "' has no start event"
  | repeatedId id process => "duplicate element id '" ++ id ++ "' in process '" ++ process ++ "'"
  | unknownEndpoint source target endpoint =>
    "flow " ++ source ++ " -> " ++ target ++ " references unknown element '" ++ endpoint ++ "'"
  | missingElement id process =>
    "element '" ++ id ++ "' not found in process '" ++ process ++ "'"
  | unsupportedFormat ending path =>
    "unsupported definition format '" ++ ending ++ "' for " ++ path
  | unreadable reason => reason
  | stated reason => reason

/-- What is wrong with a configuration. -/
inductive Misconfiguration where
  /-- its text could not be read -/
  | unreadable (reason : String)
  /-- said by an executor -/
  | stated (reason : String)
deriving DecidableEq, Repr

/-- What is wrong, in words. -/
def Misconfiguration.message : Misconfiguration → String
  | unreadable reason => reason
  | stated reason => reason

/-- Why a file could not be used. -/
inductive FileFault where
  | notFound
  | alreadyExists
  | notDirectory
  | isDirectory
  /-- the path, or a piece of it, has too many bytes -/
  | nameTooLong
  /-- no path holds this character -/
  | nulInPath
  | notText
  /-- said by an executor -/
  | stated (reason : String)
deriving DecidableEq, Repr

/-- Why a file could not be used, in words. -/
def FileFault.message : FileFault → String
  | notFound => "No such file or directory (os error 2)"
  | alreadyExists => "File exists (os error 17)"
  | notDirectory => "Not a directory (os error 20)"
  | isDirectory => "Is a directory (os error 21)"
  | nameTooLong => "File name too long (os error 36)"
  | nulInPath => "file name contained an unexpected NUL byte"
  | notText => "stream did not contain valid UTF-8"
  | stated reason => reason

/-- What can go wrong. -/
inductive Error where
  /-- no process is registered under the id -/
  | unknownProcess (id : String)
  /-- a definition is no process -/
  | malformedProcess (reason : Malformation)
  /-- a task names an agent that is not registered -/
  | unknownAgent (element agent : String)
  /-- an agent cannot run a task of this kind -/
  | unsupportedTask (element kind : String)
  /-- no flow out of an exclusive gateway can be taken -/
  | noMatchingCondition (gateway : String)
  /-- the executor of a task failed -/
  | executionFailed (element message : String)
  /-- an executor failed -/
  | capability (message : String)
  /-- a traversal visited more elements than allowed -/
  | stepLimitExceeded (limit : Nat)
  /-- a configuration is malformed -/
  | config (reason : Misconfiguration)
  /-- a configuration file cannot be read -/
  | configNotFound (path : String)
  /-- a file cannot be used -/
  | file (fault : FileFault)
  /-- a text is not the JSON that was wanted -/
  | json (fault : JsonFault)
deriving DecidableEq, Repr

namespace Error

/-- What went wrong, in words. -/
def message : Error → String
  | unknownProcess id => "Unknown process: " ++ id
  | malformedProcess reason => "Malformed process: " ++ reason.message
  | unknownAgent element agent =>
    "Unknown agent '" ++ agent ++ "' referenced by element " ++ element
  | unsupportedTask element kind => "Unsupported task type for element " ++ element ++ ": " ++ kind
  | noMatchingCondition gateway => "No outgoing condition matched at gateway " ++ gateway
  | executionFailed element message =>
    "Capability execution failed: " ++ element ++ ": " ++ message
  | capability message => "Capability error: " ++ message
  | stepLimitExceeded limit => "Execution exceeded max steps (" ++ toString limit ++ ")"
  | config reason => "Config error: " ++ reason.message
  | configNotFound path => "Config file not found: " ++ path
  | file fault => "I/O error: " ++ fault.message
  | json fault => "JSON error: " ++ fault.message

/-- The element of the process that is to blame, if it is one. -/
def element? : Error → Option String
  | unknownAgent element _ => some element
  | unsupportedTask element _ => some element
  | noMatchingCondition gateway => some gateway
  | executionFailed element _ => some element
  | _ => none

end Error

end Workflow
