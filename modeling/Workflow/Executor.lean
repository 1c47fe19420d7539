import Workflow.Condition
import Workflow.Error
import Workflow.Template

/-!
# Executors

An executor does the work of a task.  It is given the task's instructions, its inputs and the
variables of the process, and gives a value or an error, after some time.  An executor is a function
of what it is given: it keeps nothing from one call to the next, so one executor may serve any
number of branches at once.
-/

namespace Workflow

open Text

/-- What an executor is given. -/
structure Request where
  /-- what to do, as the task's kind says it -/
  instructions : String
  /-- the task's inputs by name -/
  inputs : Variables
  /-- the variables of the process -/
  vars : Variables

/-- What an executor gives back. -/
structure Reply where
  /-- how many milliseconds it takes -/
  delay : Nat
  /-- the value of the task, or why there is none -/
  result : Except Error Value

/-- A reply that takes no time. -/
def Reply.now (result : Except Error Value) : Reply := ⟨0, result⟩

/-- Does the work of a task. -/
structure Executor where
  /-- the name in logs -/
  name : String
  /-- do the work -/
  execute : Request → Reply

namespace Executor

/-- Gives back its only input, or an object of all inputs. -/
def collect : Executor where
  name := "echo"
  execute request :=
    match request.inputs with
    | [(_, value)] => .now (.ok value)
    | inputs => .now (.ok (.object inputs))

/-- Gives back its only input, an object of several inputs, or the instructions if there is no
input. -/
def echo : Executor where
  name := "echo"
  execute request :=
    match request.inputs with
    | [] => .now (.ok (.string request.instructions))
    | [(_, value)] => .now (.ok value)
    | inputs => .now (.ok (.object inputs))

/-- The rules in instructions: the lines that are not blank, without the blanks around them. -/
def rulesOf (instructions : String) : List String :=
  (((splitFeeds instructions.toList).map trim).filter (!·.isEmpty)).map String.ofList

/-- Decides whether every rule holds, the inputs hiding variables of the same name. Instructions
without a rule are an error. -/
def rules (evaluator : Evaluator) : Executor where
  name := "rules"
  execute request :=
    match rulesOf request.instructions with
    | [] => .now (.error (.capability "no rules to evaluate"))
    | rules =>
      let scope := request.vars.merge request.inputs
      .now (.ok (.bool (rules.all fun rule => evaluator rule scope)))

/-- Renders the instructions as a template, the inputs hiding variables of the same name. -/
def template : Executor where
  name := "template"
  execute request :=
    let lookup (name : String) := request.inputs.get? name <|> request.vars.get? name
    .now (.ok (.string (String.ofList (Template.render lookup request.instructions.toList))))

/-- Gives one value after a delay. -/
def constant (value : Value) (delay : Nat) : Executor where
  name := "constant"
  execute _ := ⟨delay, .ok value⟩

/-- Fails after a delay. -/
def failing (message : String) (delay : Nat) : Executor where
  name := "failing"
  execute _ := ⟨delay, .error (.capability message)⟩

end Executor

end Workflow
