import Workflow.Engine.Traversal

/-!
# Runs

A run takes a context through its process, from the event that starts it.  Whatever the run comes
to, the context keeps the variables, and its path goes on from where it was before.

A traversal is by recursion on the levels to which branches may be nested, but a run has no bound on
them.  It is the run through as many levels as suffice: those of a process whose forks do not lie on
cycles, or twice as many, and so on (`Engine.sufficientLevels`).  Only if branches are nested without
bound is there no such number, and the search for it does not end.
-/

namespace Workflow

/-- What a run comes to. -/
inductive Completion where
  /-- the process was traversed to an end -/
  | completed
  /-- it failed -/
  | failed (error : Error)
  /-- its branches would be nested without bound -/
  | unbounded
deriving DecidableEq, Repr

/-- What a run comes to, by the end of its traversal. Joins stop branches only. -/
def Outcome.completion : Outcome → Completion
  | finished => .completed
  | atJoin _ _ => .completed
  | failed error => .failed error
  | unbounded => .unbounded

/-- A context after a traversal. -/
def Context.after (context : Context) (traversal : Traversal) : Context :=
  { context with
    vars := traversal.vars
    current := traversal.current
    path := context.path ++ traversal.path }

namespace Engine

/-- What is said when a process has several events that start it. -/
def startWarning (definition : Definition) (start : Element) : List Occurrence :=
  if 1 < definition.starts.length then
    [.logged ⟨.warn, "Process has several start events, using the first",
      [("process_id", .string definition.id), ("start", .string start.id)]⟩]
  else []

/-- Take a context through a process from its start, with branches nested up to so many levels. -/
def runFrom (engine : Engine) (definition : Definition) (levels : Nat) (start : Element)
    (context : Context) (now : Nat) : Timed (Completion × Context) :=
  (Timed.done now ()
    (startWarning definition start ++
      [.logged ⟨.info, "Executing process",
        [("process_id", .string context.processId),
          ("instance_id", .string context.instanceId.text),
          ("start", .string start.id)]⟩])).andThen fun _ now =>
  (engine.traverse definition levels false context start.id now).andThen
    fun traversal finish =>
      let after := context.after traversal
      let completion := traversal.outcome.completion
      .done finish (completion, after)
        (match completion with
        | .completed =>
          [.logged ⟨.info, "Process complete",
            [("process_id", .string context.processId),
              ("instance_id", .string context.instanceId.text),
              ("visited", .int after.path.length), ("elapsed_ms", .int (finish - now))]⟩]
        | _ => [])

/-- Take a context through a process, with branches nested up to so many levels. -/
def runThrough (engine : Engine) (definition : Definition) (levels : Nat) (context : Context)
    (now : Nat) : Timed (Completion × Context) :=
  match definition.start with
  | .error error => .done now (.failed error, context) []
  | .ok start => engine.runFrom definition levels start context now

/-- The levels that suffice for a run: so many, or twice as many, and so on. -/
def sufficientLevels (engine : Engine) (definition : Definition) (context : Context) (now : Nat)
    (levels : Nat) : Nat := Id.run do
  let mut levels := levels
  while (engine.runThrough definition levels context now).value.1 = .unbounded do
    levels := 2 * levels
  return levels

/-- Take a context through a process, with branches nested as deeply as they come to be. -/
def runOn (engine : Engine) (definition : Definition) (context : Context) (now : Nat) :
    Timed (Completion × Context) :=
  let first := engine.runThrough definition definition.nesting context now
  if first.value.1 = .unbounded then
    let levels := engine.sufficientLevels definition context now (2 * definition.nesting)
    engine.runThrough definition levels context now
  else first

/-- Take a context through the process that it is for. -/
def run (engine : Engine) (context : Context) (now : Nat) : Timed (Completion × Context) :=
  match engine.process? context.processId with
  | none => .done now (.failed (.unknownProcess context.processId), context) []
  | some definition => engine.runOn definition context now

end Engine

end Workflow
