import Workflow.Bus
import Workflow.CommandLine.Arguments
import Workflow.Config
import Workflow.Definition.Load
import Workflow.Engine.Builtin
import Workflow.SpanLog

/-!
# The program

What the program does with its arguments, as a dialogue with the machine it runs on.  It ends in one
of a few ways (`Exit`), and its exit code is a function of the way.

Whichever command is carried out, the configuration comes first.  A run keeps its spans on a bus of
its own, from which its report is made; so a report holds no more spans than the bus, and the oldest
are the ones that it lacks.  The span log gets all of them, also when the run fails.
-/

namespace Workflow.CommandLine

/-! ## How the program ends -/

/-- Why a command could not be carried out. -/
inductive Failure where
  /-- a file could not be loaded -/
  | loading (path : String) (error : Error)
  /-- the variables are no JSON object -/
  | badVariables (error : Error)
  /-- the span log could not be opened -/
  | spanLog (path : String) (error : Error)
  /-- the definition cannot be run, or its run failed -/
  | stopped (error : Error)
  /-- the branches of the run would be nested without bound -/
  | unbounded
deriving DecidableEq, Repr

namespace Failure

/-- What failed, in words. -/
def message : Failure → String
  | loading path _ => "loading " ++ path
  | badVariables _ => "--vars-json must be a JSON object"
  | spanLog path _ => "opening span log " ++ path
  | stopped error => error.message
  | unbounded => "the branches of the run are nested without bound"

/-- What made it fail, if that is not all that there is to say. -/
def cause? : Failure → Option Error
  | loading _ error => some error
  | badVariables error => some error
  | spanLog _ error => some error
  | stopped _ => none
  | unbounded => none

end Failure

/-- How the program ends. -/
inductive Exit where
  /-- it got no command to carry out -/
  | refused (refusal : Refusal)
  /-- it could not carry out the command -/
  | failed (failure : Failure)
  /-- it prints a text -/
  | printed (text : String)
  /-- it prints the report of a run -/
  | reported (report : Value)

namespace Exit

/-- The exit code. Whoever asks for help gets what was asked for. -/
def code : Exit → Nat
  | refused (.help _) => 0
  | refused .version => 0
  | refused _ => 2
  | failed _ => 1
  | printed _ => 0
  | reported _ => 0

end Exit

/-! ## What the commands do -/

/-- Work that can fail. -/
abbrev Work : Type → Type 1 := ExceptT Failure Dialogue

/-- Do what can end in an error, and say what fails then. -/
def orElseFail {α : Type} (failure : Error → Failure) (dialogue : Dialogue (Except Error α)) :
    Work α :=
  ExceptT.mk do return (← dialogue).mapError failure

/-- The configuration in a file. Without the file all is as usual. -/
def configAt (path : String) : Work Config := do
  if ← ExceptT.lift (.question (.isThere path)) then
    orElseFail (.loading path) (Config.load path)
  else return .usual

/-- The definition in a file. -/
def definitionAt (path : String) : Work Definition :=
  orElseFail (.loading path) (Definition.load path)

/-- What is printed of a definition that can be run from an event. -/
def approval (definition : Definition) (start : Element) : String :=
  definition.id ++ ": ok (" ++ toString definition.elements.length ++ " elements, " ++
    toString definition.flows.length ++ " flows, start '" ++ start.id ++ "')\n"

/-- Check a definition's file. -/
def validate (file : String) : Work String := do
  let definition ← definitionAt file
  match definition.start with
  | .ok start => return approval definition start
  | .error error => throw (.stopped error)

/-- The variables that a run begins with. Single ones replace those of the JSON text. -/
def RunRequest.initial (request : RunRequest) : Except Failure Variables := do
  let given : Variables ←
    match request.entriesText with
    | some text => (Json.decode (Document.valueTable .json 0) text).mapError Failure.badVariables
    | none => .ok []
  return given.merge request.entries

/-- The name of a run's bus. -/
def busName : String := "run"

/-- Where the spans of a run go. -/
def sinkFor (settings : SpanSettings) : Sink :=
  if settings.enabled then
    .fanout ([.tracing, .bus busName] ++ settings.logPath.toList.map Sink.spanLog)
  else .null

/-- Open the span log, if there is to be one. -/
def openSpanLog (settings : SpanSettings) : Work Unit :=
  match settings.enabled, settings.logPath with
  | true, some path => orElseFail (.spanLog path) (SpanLog.openAt path)
  | _, _ => return ()

/-- Write to the span logs what deliveries bring them. -/
def writeSpans : List Delivery → Dialogue Unit
  | [] => return ()
  | .written path span :: more => do
    SpanLog.write path span
    writeSpans more
  | _ :: more => writeSpans more

/-- The spans on the bus of a run when the run is over. There is always room for one. -/
def spansKept (settings : SpanSettings) (deliveries : List Delivery) : List Span :=
  match Bus.ofCapacity (max settings.busCapacity 1) with
  | some bus => (((Delivery.publishedOn busName deliveries).foldl Bus.emit bus).haulFrom 0).spans
  | none => []

/-- What a report says of a task. -/
def taskReport (span : Span) : Value :=
  .object (Table.ofList
    [("task_id", .string span.taskId), ("instance_id", .string span.instanceId),
      ("success", .bool span.success), ("elapsed_ms", .int span.elapsedMillis)])

/-- The report of a run. -/
def report (context : Context) (spans : List Span) : Value :=
  .object (Table.ofList
    [("process_id", .string context.processId), ("instance_id", .string context.instanceId.text),
      ("path", .array (context.path.map Value.string)), ("variables", .object context.vars),
      ("tasks", .array (spans.map taskReport))])

/-- Run a definition. -/
def run (config : Config) (request : RunRequest) : Work Value := do
  let definition ← definitionAt request.file
  let vars ← request.initial
  openSpanLog config.spans
  let id := request.process.getD definition.id
  let engine := Engine.builtin config.engine.maxSteps (sinkFor config.spans) id definition
  let context := Context.start id (← ExceptT.lift (.question .newRun)) vars
  let done := engine.run context (← ExceptT.lift (.question .now))
  let deliveries := done.history.deliveries
  ExceptT.lift (writeSpans deliveries)
  match done.value with
  | (.completed, context) => return report context (spansKept config.spans deliveries)
  | (.failed error, _) => throw (.stopped error)
  | (.unbounded, _) => throw .unbounded

/-- Carry out a command. -/
def Command.carryOut (config : Config) : Command → Work Exit
  | validate file => return .printed (← CommandLine.validate file)
  | run request => return .reported (← CommandLine.run config request)
  | .config => return .printed (config.render ++ "\n")

/-- Do what the arguments tell. -/
def program (arguments : List String) : Dialogue Exit :=
  match Arguments.read arguments with
  | .error refusal => return .refused refusal
  | .ok told => do
    let work : Work Exit := do told.command.carryOut (← configAt told.config)
    match ← work.run with
    | .ok done => return done
    | .error failure => return .failed failure

end Workflow.CommandLine
