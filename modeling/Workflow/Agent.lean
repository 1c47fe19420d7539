import Workflow.Context
import Workflow.Executor
import Workflow.Definition.Basic
import Workflow.Timed

/-!
# Agents

An agent runs tasks.  It has an executor for each category of tasks, or none, and reports every
execution to its sink, also one that fails before an executor is called.
-/

namespace Workflow

/-- The categories of tasks, by the executor that does their work. -/
inductive TaskCategory where
  /-- service and user tasks -/
  | generative
  /-- business rule tasks -/
  | ruleBased
  /-- script tasks -/
  | transform
deriving DecidableEq, Repr

namespace TaskCategory

/-- The category of a kind of element, if agents run it. -/
def of : ElementKind → Option TaskCategory
  | .task .service _ => some generative
  | .task .user _ => some generative
  | .task .businessRule _ => some ruleBased
  | .task .script _ => some transform
  | _ => none

/-- What messages call an executor of the category. -/
def label : TaskCategory → String
  | generative => "generative"
  | ruleBased => "rule-based"
  | transform => "transform"

/-- The instructions that an executor of the category gets from a task. -/
def instructions (spec : TaskSpec) : TaskCategory → String
  | generative => spec.documentation.getD ""
  | ruleBased => String.intercalate "\n" spec.rules
  | transform => spec.script.getD ""

end TaskCategory

/-- The inputs of a task by name. The value of an absent variable is `null`. -/
def TaskSpec.resolve (spec : TaskSpec) (vars : Variables) : Variables :=
  Table.ofList (spec.inputs.map fun input =>
    (input.name, (vars.get? input.source).getD .null))

/-- Runs tasks. -/
structure Agent where
  /-- does the work of generative tasks -/
  generative : Option Executor
  /-- does the work of rule-based tasks -/
  ruleBased : Option Executor
  /-- does the work of transforming tasks -/
  transform : Option Executor
  /-- where every execution is reported -/
  sink : Sink

/-- The span of an execution under a context. -/
def spanOf (element : Element) (context : Context) (start finish : Nat) (error : Option Error) :
    Span where
  taskId := element.id
  kind := element.kind.name
  processId := context.processId
  instanceId := context.instanceId.text
  start := Instant.ofMillis start
  finish := Instant.ofMillis finish
  success := error.isNone
  error := error.map Error.message

namespace Agent

/-- An agent with every built-in executor. -/
def builtin (sink : Sink) (evaluator : Evaluator) : Agent where
  generative := some .echo
  ruleBased := some (.rules evaluator)
  transform := some .template
  sink := sink

/-- The agent's executor for a category. -/
def executor? (agent : Agent) : TaskCategory → Option Executor
  | .generative => agent.generative
  | .ruleBased => agent.ruleBased
  | .transform => agent.transform

/-- What an agent has to do for an element: the task, the instructions and the executor to call, or
why it cannot. -/
def assign (agent : Agent) (element : Element) : Except Error (TaskSpec × String × Executor) :=
  match element.kind.task?, TaskCategory.of element.kind with
  | some spec, some category =>
    match agent.executor? category with
    | some executor => .ok (spec, category.instructions spec, executor)
    | none =>
      .error (.unsupportedTask element.id
        (element.kind.name ++ " (agent has no " ++ category.label ++ " executor)"))
  | _, _ => .error (.unsupportedTask element.id element.kind.name)

/-- The error of a task whose executor failed: it names the task, unless it already names one. -/
def blame (element : Element) : Error → Error
  | .executionFailed id message => .executionFailed id message
  | .capability message => .executionFailed element.id message
  | other => .executionFailed element.id other.message

/-- Have the work of an element done. The value is also written to the variable that receives it. -/
def invoke (agent : Agent) (element : Element) (context : Context) (now : Nat) :
    Timed (Except Error Value × Context) :=
  match agent.assign element with
  | .error error => .done now (.error error, context) []
  | .ok (spec, instructions, executor) =>
    let inputs := spec.resolve context.vars
    let reply := executor.execute ⟨instructions, inputs, context.vars⟩
    let outcome : Except Error Value × Context :=
      match reply.result with
      | .error error => (.error (blame element error), context)
      | .ok value =>
        (.ok value,
          match spec.output with
          | some key => context.set key value
          | none => context)
    ⟨outcome, now + reply.delay,
      [(now, .logged ⟨.debug, "Invoking capability executor",
        [("element_id", .string element.id), ("executor", .string executor.name),
          ("inputs", .int inputs.length)]⟩)]⟩

/-- What is said and reported when an execution is over. -/
def closing (agent : Agent) (element : Element) (context : Context) (start finish : Nat)
    (error : Option Error) : List Occurrence :=
  let span := Occurrence.reported agent.sink (spanOf element context start finish error)
  match error with
  | none => [span]
  | some e =>
    [.logged ⟨.error, "Task failed",
      [("element_id", .string element.id), ("instance_id", .string context.instanceId.text),
        ("error", .string e.message)]⟩, span]

/-- The error of an outcome. -/
def errorOf {α : Type} : Except Error α → Option Error
  | .error error => some error
  | .ok _ => none

/-- Run the task of an element on a context, and report it. -/
def executeTask (agent : Agent) (element : Element) (context : Context) (now : Nat) :
    Timed (Except Error Value × Context) :=
  (agent.invoke element context now).andThen fun outcome finish =>
    .done finish outcome (agent.closing element outcome.2 now finish (errorOf outcome.1))

end Agent

end Workflow
