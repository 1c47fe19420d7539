import Workflow.Document.Decode
import Workflow.Instant

/-!
# Spans

A span reports that a task was executed: which one, under which run, from when to when, and whether
it failed.  Every execution of a task gives exactly one span.
-/

namespace Workflow

/-- The report of one execution of a task. -/
structure Span where
  /-- the id of the task -/
  taskId : String
  /-- the name of the task's kind -/
  kind : String
  /-- the id of the process -/
  processId : String
  /-- the id of the run or of the branch -/
  instanceId : String
  /-- when the execution began -/
  start : Instant
  /-- when it was over -/
  finish : Instant
  /-- whether it gave a value -/
  success : Bool
  /-- what went wrong -/
  error : Option String
deriving DecidableEq, Repr, Inhabited

namespace Span

/-- How long the execution took, in whole milliseconds. -/
def elapsedMillis (span : Span) : Int :=
  span.start.millisBetween span.finish

/-- An instant as a value. -/
def instantValue (instant : Instant) : Value :=
  .string (String.ofList instant.write)

/-- The fields of a span in the order in which they are written. -/
def fields (span : Span) : List (String × Value) :=
  [("task_id", .string span.taskId), ("kind", .string span.kind),
    ("process_id", .string span.processId), ("instance_id", .string span.instanceId),
    ("start_time", instantValue span.start), ("end_time", instantValue span.finish),
    ("success", .bool span.success)] ++
  (match span.error with
  | some message => [("error", .string message)]
  | none => [])

/-- A span as a value. -/
def toValue (span : Span) : Value :=
  .object (Table.ofList span.fields)

/-- A span as one line of JSON, without the line feed. -/
def line (span : Span) : List Char :=
  Json.writeRecord span.fields

/-! ## Reading -/

/-- An instant from a document. -/
def decodeInstant : Document → Decoded Instant
  | .scalar (.string s) =>
    match Instant.read s with
    | some instant => .ok instant
    | none => .error (.meaning "the text is no instant")
  | document => document.mismatch "an RFC 3339 formatted date and time string"

/-- A span of which some slots may still be empty. -/
structure Draft where
  taskId : Option String
  kind : Option String
  processId : Option String
  instanceId : Option String
  start : Option Instant
  finish : Option Instant
  success : Option Bool
  error : Option (Option String)

/-- Spans as records. -/
def recordKind : RecordKind Draft Span where
  name := "TaskSpan"
  slots := [
    .make "task_id" false Document.text Draft.taskId fun d x => { d with taskId := some x },
    .make "kind" false Document.text Draft.kind fun d x => { d with kind := some x },
    .make "process_id" false Document.text Draft.processId
      fun d x => { d with processId := some x },
    .make "instance_id" false Document.text Draft.instanceId
      fun d x => { d with instanceId := some x },
    .make "start_time" false decodeInstant Draft.start fun d x => { d with start := some x },
    .make "end_time" false decodeInstant Draft.finish fun d x => { d with finish := some x },
    .make "success" false Document.truth Draft.success fun d x => { d with success := some x },
    .make "error" true (Document.optional Document.text) Draft.error
      fun d x => { d with error := some x }]
  empty := ⟨none, none, none, none, none, none, none, none⟩
  complete d := do
    let taskId ← RecordKind.require "task_id" d.taskId
    let kind ← RecordKind.require "kind" d.kind
    let processId ← RecordKind.require "process_id" d.processId
    let instanceId ← RecordKind.require "instance_id" d.instanceId
    let start ← RecordKind.require "start_time" d.start
    let finish ← RecordKind.require "end_time" d.finish
    let success ← RecordKind.require "success" d.success
    return ⟨taskId, kind, processId, instanceId, start, finish, success, d.error.getD none⟩

/-- A span from a document. -/
def decode (source : Source) (document : Document) : Decoded Span :=
  recordKind.decode source document

end Span

end Workflow
