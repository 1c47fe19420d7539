import Workflow.Document.Decode
import Workflow.InstanceId

/-!
# Contexts

What a run of a process keeps: the variables, and the path of the elements it visited.  A fork gives
each of its branches a context of its own, which starts with the variables of the forking one and an
empty path.
-/

namespace Workflow

/-- The state of a run or of one of its branches. -/
structure Context where
  /-- the id of the process -/
  processId : String
  /-- the id of the run or of the branch -/
  instanceId : InstanceId
  /-- the variables -/
  vars : Variables
  /-- the element visited last -/
  current : Option String
  /-- the elements visited, in order -/
  path : List String
deriving Inhabited

namespace Context

/-- The context of a run that has not begun. -/
def start (processId : String) (instanceId : InstanceId) (vars : Variables) : Context :=
  ⟨processId, instanceId, vars, none, []⟩

/-- The value of a variable. -/
def get? (context : Context) (key : String) : Option Value :=
  context.vars.get? key

/-- Give a variable a value. -/
def set (context : Context) (key : String) (value : Value) : Context :=
  { context with vars := context.vars.set key value }

/-- Write variables over those of the context. -/
def merge (context : Context) (overlay : Variables) : Context :=
  { context with vars := context.vars.merge overlay }

/-- Visit an element. -/
def visit (context : Context) (id : String) : Context :=
  { context with path := context.path ++ [id], current := some id }

/-- The context of a branch, by its place among the branches of a fork. -/
def fork (context : Context) (index : Nat) : Context :=
  { context with instanceId := context.instanceId.branch index, path := [] }

/-! ## Contexts as documents -/

/-- A context as a value. -/
def toValue (context : Context) : Value :=
  .object (Table.ofList
    [("process_id", .string context.processId), ("instance_id", .string context.instanceId.text),
      ("variables", .object context.vars),
      ("current_element", (context.current.map Value.string).getD .null),
      ("execution_path", .array (context.path.map .string))])

/-- A context of which some slots may still be empty. -/
structure Draft where
  processId : Option String
  instanceId : Option String
  vars : Option Variables
  current : Option (Option String)
  path : Option (List String)

/-- Contexts as records. -/
def recordKind (source : Source) : RecordKind Draft Context where
  name := "Context"
  slots := [
    .make "process_id" false Document.text Draft.processId
      fun d x => { d with processId := some x },
    .make "instance_id" false Document.text Draft.instanceId
      fun d x => { d with instanceId := some x },
    .make "variables" false (Document.valueTable source 1) Draft.vars
      fun d x => { d with vars := some x },
    .make "current_element" false (Document.optional Document.text) Draft.current
      fun d x => { d with current := some x },
    .make "execution_path" false (Document.listOf Document.text) Draft.path
      fun d x => { d with path := some x }]
  empty := ⟨none, none, none, none, none⟩
  complete d := do
    let processId ← RecordKind.require "process_id" d.processId
    let instanceId ← RecordKind.require "instance_id" d.instanceId
    let vars ← RecordKind.require "variables" d.vars
    let path ← RecordKind.require "execution_path" d.path
    return ⟨processId, ⟨instanceId⟩, vars, d.current.getD none, path⟩

/-- A context from a document. -/
def decode (source : Source) (document : Document) : Decoded Context :=
  (recordKind source).decode source document

end Context

end Workflow
