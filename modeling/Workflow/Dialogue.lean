import Workflow.Environment
import Workflow.Files
import Workflow.InstanceId

/-!
# Dialogues

A dialogue is a computation that asks its surroundings questions: what is in a file, what a variable
of the environment is worth, what time it is.  It is a tree: each node holds a question, and what
comes next is a function of the answer.  So a dialogue does nothing by itself, and whatever answers
the questions decides what it comes to.

`Surroundings` are one way to answer: files and variables as values.  The program answers the same
questions by the machine that it runs on.
-/

namespace Workflow

/-- A question, by the type of its answers. -/
inductive Question : Type → Type where
  /-- does the path lead to anything? -/
  | isThere (path : String) : Question Bool
  /-- what is the text in the file? -/
  | read (path : String) : Question (Except FileFault String)
  /-- what are the variables of the environment worth, as far as they are there? -/
  | environment (names : List String) : Question (Table String)
  /-- is there a file to append to, made if need be? -/
  | openLog (path : String) : Question (Except FileFault Unit)
  /-- write a text behind what is in the file -/
  | append (path text : String) : Question Unit
  /-- what is the id of a new run? -/
  | newRun : Question InstanceId
  /-- how many milliseconds have passed since 1 January 1970? -/
  | now : Question Nat

/-- A computation that asks questions. -/
inductive Dialogue (α : Type) : Type 1 where
  /-- it has come to a value -/
  | done (value : α)
  /-- it asks a question and goes on with the answer -/
  | ask {β : Type} (question : Question β) (next : β → Dialogue α)

namespace Dialogue

variable {α β : Type}

/-- One dialogue after the other. -/
def andThen (next : α → Dialogue β) : Dialogue α → Dialogue β
  | done value => next value
  | ask question more => ask question fun answer => andThen next (more answer)

instance : Monad Dialogue where
  pure := done
  bind dialogue next := andThen next dialogue

/-- Ask one question. -/
def question (q : Question α) : Dialogue α :=
  ask q done

/-- Hold a dialogue in a monad in which questions are answered. -/
def hold {m : Type → Type} [Monad m] (answer : {γ : Type} → Question γ → m γ) :
    Dialogue α → m α
  | done value => pure value
  | ask q next => do
    let a ← answer q
    hold answer (next a)

end Dialogue

/-- Files, variables and a moment, as values. -/
structure Surroundings where
  /-- the file system -/
  files : Files
  /-- the variables of the environment -/
  environment : Environment
  /-- the id of a new run -/
  instanceId : InstanceId
  /-- the time in milliseconds -/
  now : Nat

namespace Surroundings

/-- The answer to a question, and what the surroundings are then. -/
def answer {β : Type} : Question β → StateM Surroundings β
  | .isThere path => fun s => (s.files.isThere path, s)
  | .read path => fun s => (s.files.read path, s)
  | .environment names => fun s =>
    (Table.ofList (names.filterMap fun name =>
      (s.environment.get? name).map fun value => (name, value)), s)
  | .openLog path => fun s =>
    let (files, opened) := s.files.openLog path
    (opened, { s with files })
  | .append path text => fun s => ((), { s with files := s.files.append path text })
  | .newRun => fun s => (s.instanceId, s)
  | .now => fun s => (s.now, s)

/-- What a dialogue comes to, and what the surroundings are then. -/
def hold {α : Type} (s : Surroundings) (dialogue : Dialogue α) : α × Surroundings :=
  (dialogue.hold answer).run s

end Surroundings

end Workflow
