import Workflow.Agent

/-!
# Engines

An engine holds the processes that can be run, each under the id it was loaded with, and the agents
that run their tasks.  It is a value: loading a process or registering an agent gives another
engine, and a run changes none.  What loading and registering say in the log comes beside the new
engine.
-/

namespace Workflow

/-- Processes and agents by id, and what every run of a process has in common. -/
structure Engine where
  /-- how many elements one traversal may visit -/
  maxSteps : Nat
  /-- decides the guards -/
  evaluator : Evaluator
  /-- where tasks are reported that no agent runs -/
  sink : Sink
  /-- the agents -/
  agents : Table Agent
  /-- the processes -/
  processes : Table Definition

namespace Engine

/-- An engine without agents and processes. -/
def empty (maxSteps : Nat) (evaluator : Evaluator) (sink : Sink) : Engine :=
  ⟨maxSteps, evaluator, sink, [], []⟩

/-- The agent under an id. -/
def agent? (engine : Engine) (id : String) : Option Agent :=
  engine.agents.get? id

/-- The process under an id. -/
def process? (engine : Engine) (id : String) : Option Definition :=
  engine.processes.get? id

/-- Put an agent under an id, in place of any agent there before. -/
def register (engine : Engine) (id : String) (agent : Agent) : Engine × List LogRecord :=
  ({ engine with agents := engine.agents.set id agent },
    if engine.agents.contains id then
      [⟨.debug, "Replaced registered agent", [("agent_id", .string id)]⟩]
    else [])

/-- Put a process under an id, in place of any process there before. -/
def load (engine : Engine) (id : String) (definition : Definition) : Engine × List LogRecord :=
  ({ engine with processes := engine.processes.set id definition },
    [⟨.info, "Loaded process",
      [("process_id", .string id), ("elements", .int definition.elements.length),
        ("flows", .int definition.flows.length)]⟩])

/-- A context for a run of the process under an id. -/
def newContext (engine : Engine) (id : String) (instanceId : InstanceId) (vars : Variables) :
    Except Error Context :=
  match engine.process? id with
  | some _ => .ok (.start id instanceId vars)
  | none => .error (.unknownProcess id)

end Engine

end Workflow
