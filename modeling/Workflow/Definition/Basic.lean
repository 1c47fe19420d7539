import Workflow.Error

/-!
# Definitions of processes

The definition of a process is a graph of elements and flows.  Elements are events, tasks and
gateways; flows lead from one element to another, and the order in which they are declared is the
order in which they count.  A definition is well formed when no two elements share an id and every
flow leads between elements; `Definition.validate` decides that and blames the first fault.
-/

namespace Workflow

/-- A flow from one element to another. -/
structure Flow where
  /-- the id of the element it leaves -/
  source : String
  /-- the id of the element it enters -/
  target : String
  /-- the guard, which counts only behind an exclusive gateway -/
  condition : Option String
deriving DecidableEq, Repr

/-- A variable that a task reads. -/
structure Input where
  /-- the name of the variable -/
  source : String
  /-- the name the executor sees, if it is another one -/
  target : Option String
deriving DecidableEq, Repr

/-- The name under which an executor sees an input. -/
def Input.name (input : Input) : String :=
  input.target.getD input.source

/-- What a task of any kind is made of. -/
structure TaskSpec where
  /-- the id of the agent that runs the task -/
  agent : String
  /-- what a generative task is to do -/
  documentation : Option String
  /-- the rules of a business rule task -/
  rules : List String
  /-- the template of a script task -/
  script : Option String
  /-- the variables that the task reads -/
  inputs : List Input
  /-- the variable that receives the task's value -/
  output : Option String
deriving DecidableEq, Repr

/-- A task with nothing but an agent. -/
def TaskSpec.of (agent : String) : TaskSpec :=
  ⟨agent, none, [], none, [], none⟩

/-- The kinds of tasks. Send and receive tasks can be part of a process but no agent runs them. -/
inductive TaskKind where
  | service | user | businessRule | script | send | receive
deriving DecidableEq, Repr

/-- The kinds of elements. -/
inductive ElementKind where
  | startEvent
  | endEvent
  | task (kind : TaskKind) (spec : TaskSpec)
  | exclusiveGateway
  | parallelGateway
deriving DecidableEq, Repr

/-- The name of a kind of task. -/
def TaskKind.name : TaskKind → String
  | service => "serviceTask"
  | user => "userTask"
  | businessRule => "businessRuleTask"
  | script => "scriptTask"
  | send => "sendTask"
  | receive => "receiveTask"

namespace ElementKind

/-- The name of a kind of element. -/
def name : ElementKind → String
  | startEvent => "startEvent"
  | endEvent => "endEvent"
  | task kind _ => kind.name
  | exclusiveGateway => "exclusiveGateway"
  | parallelGateway => "parallelGateway"

/-- What the task is made of, if the element is a task. -/
def task? : ElementKind → Option TaskSpec
  | task _ spec => some spec
  | _ => none

/-- Whether the element starts the process. -/
def isStart : ElementKind → Bool
  | startEvent => true
  | _ => false

/-- Whether the element is a parallel gateway. -/
def isParallel : ElementKind → Bool
  | parallelGateway => true
  | _ => false

end ElementKind

/-- An element of a process. -/
structure Element where
  /-- the id, which no other element of the process has -/
  id : String
  /-- a name for readers -/
  name : Option String
  /-- what the element does -/
  kind : ElementKind
deriving DecidableEq, Repr

/-- The definition of a process: elements and the flows between them, in the order of their
declaration. -/
structure Definition where
  /-- the id of the process -/
  id : String
  /-- a name for readers -/
  name : Option String
  /-- the elements -/
  elements : List Element
  /-- the flows -/
  flows : List Flow
deriving DecidableEq, Repr

namespace Definition

/-- The ids of the elements, in order. -/
def ids (definition : Definition) : List String :=
  definition.elements.map Element.id

/-- The element with an id. -/
def element? (definition : Definition) (id : String) : Option Element :=
  definition.elements.find? (·.id == id)

/-- The flows out of an element. -/
def outgoing (definition : Definition) (id : String) : List Flow :=
  definition.flows.filter (·.source == id)

/-- The flows into an element. -/
def incoming (definition : Definition) (id : String) : List Flow :=
  definition.flows.filter (·.target == id)

/-- The elements that start the process. -/
def starts (definition : Definition) : List Element :=
  definition.elements.filter (·.kind.isStart)

/-- The element that a run starts with: the first that starts the process. -/
def start (definition : Definition) : Except Error Element :=
  match definition.starts with
  | first :: _ => .ok first
  | [] => .error (.malformedProcess (.noStart definition.id))

/-- The agents that tasks name, each once, in the order of the tasks. -/
def agentRefs (definition : Definition) : List String :=
  (definition.elements.filterMap (·.kind.task?.map TaskSpec.agent)).eraseDups

/-- Whether an element is a parallel gateway on which several flows converge. -/
def isJoin (definition : Definition) (element : Element) : Bool :=
  element.kind.isParallel && 1 < (definition.incoming element.id).length

/-- Whether an element is a parallel gateway that several flows leave and that is no join. -/
def isFork (definition : Definition) (element : Element) : Bool :=
  element.kind.isParallel && 1 < (definition.outgoing element.id).length &&
    !definition.isJoin element

/-! ## Validity -/

/-- The ids are distinct and every flow leads between elements. -/
def WellFormed (definition : Definition) : Prop :=
  definition.ids.Nodup ∧
    ∀ flow ∈ definition.flows, flow.source ∈ definition.ids ∧ flow.target ∈ definition.ids

/-- The first id that occurred before, `seen` being the ids before the list. -/
def firstRepeated (seen : List String) : List String → Option String
  | [] => none
  | id :: more => if id ∈ seen then some id else firstRepeated (id :: seen) more

/-- What is wrong with a flow between elements with the given ids; the source is blamed first. -/
def flowFault (ids : List String) (flow : Flow) : Option Malformation :=
  if flow.source ∉ ids then some (.unknownEndpoint flow.source flow.target flow.source)
  else if flow.target ∉ ids then some (.unknownEndpoint flow.source flow.target flow.target)
  else none

/-- The first fault of a definition: an id that occurred before, or else a flow to nowhere. -/
def fault? (definition : Definition) : Option Malformation :=
  match firstRepeated [] definition.ids with
  | some id => some (.repeatedId id definition.id)
  | none => definition.flows.findSome? (flowFault definition.ids)

/-- Accept a well-formed definition, and blame the first fault of any other. -/
def validate (definition : Definition) : Except Error Unit :=
  match definition.fault? with
  | some fault => .error (.malformedProcess fault)
  | none => .ok ()

/-- The definition itself if it is well formed. -/
def validated (definition : Definition) : Except Error Definition := do
  definition.validate
  return definition

end Definition

end Workflow
