import Workflow.Engine.Run

/-!
# Engines with built-in agents

The engine for a run of one definition: under each id that its tasks name there is a built-in agent,
and the definition is loaded under an id of the caller's choice.  So no run on it can miss its
process or an agent.
-/

namespace Workflow.Engine

/-- Put the same agent under each of several ids. -/
def registerAll (engine : Engine) (ids : List String) (agent : Agent) : Engine :=
  ids.foldl (fun engine id => (engine.register id agent).1) engine

/-- An engine that can run one definition, under the id given. -/
def builtin (maxSteps : Nat) (sink : Sink) (id : String) (definition : Definition) : Engine :=
  let engine := Engine.empty maxSteps Evaluator.conditions sink
  let agent := Agent.builtin sink Evaluator.conditions
  ((engine.registerAll definition.agentRefs agent).load id definition).1

end Workflow.Engine
