import Workflow.Engine.Basic
import Workflow.Engine.Branching

/-!
# Traversals

How an engine walks through a process.  A traversal visits one element after the other: each visit
does the work of the element, and says where to go next or how the traversal ends.

The walk is by recursion on the number of visits it has left, and a fork inside it by recursion on
the number of levels to which branches may still be nested.  A branch ends at the first join it
comes to, so a fork that is no join itself is reached again by its own branches only along a cycle;
where there is no such cycle, one level for each of these forks and one more are enough
(`Definition.nesting`).

A context's path is of no consequence to a traversal: it returns the path that it went, and the
caller appends that to the path before.
-/

namespace Workflow

/-- The deepest nesting of branches in a process whose forks do not lie on cycles. -/
def Definition.nesting (definition : Definition) : Nat :=
  definition.elements.countP definition.isFork + 1

/-- Where a traversal goes from an element. -/
inductive Move where
  /-- nowhere: it ends -/
  | stop (outcome : Outcome)
  /-- to the next element; `resumed` if that is the join of the traversal's own branches -/
  | go (next : String) (resumed : Bool)

/-- What a visit comes to. -/
structure Visit where
  /-- where the traversal goes -/
  move : Move
  /-- the variables after the visit -/
  vars : Variables
  /-- the elements that branches visited -/
  path : List String

/-- Traverses the branch that begins with an element, in a context and from a time on. -/
abbrev BranchTraversal : Type := Context → String → Nat → Timed Traversal

namespace Engine

/-! ## Visits -/

/-- Leave an element by its first flow. -/
def leave (definition : Definition) (element : Element) (vars : Variables) (now : Nat) :
    Timed Visit :=
  match definition.outgoing element.id with
  | flow :: _ => .done now ⟨.go flow.target false, vars, []⟩ []
  | [] =>
    .done now ⟨.stop .finished, vars, []⟩
      [.logged ⟨.debug, "No outgoing flow, traversal complete",
        [("element_id", .string element.id)]⟩]

/-- Run the task of an element by the agent that it names. A task without an agent is reported to
the engine's sink. -/
def runTask (engine : Engine) (element : Element) (spec : TaskSpec) (context : Context)
    (now : Nat) : Timed (Except Error Value × Context) :=
  match engine.agent? spec.agent with
  | some agent => agent.executeTask element context now
  | none =>
    let error := Error.unknownAgent element.id spec.agent
    .done now (.error error, context)
      [.logged ⟨.error, "No agent registered for task",
        [("element_id", .string element.id), ("instance_id", .string context.instanceId.text),
          ("agent", .string spec.agent)]⟩,
        .reported engine.sink (spanOf element context now now (some error))]

/-- The first of several flows whose guard holds. Flows without a guard are passed over. -/
def firstOpen (evaluator : Evaluator) (vars : Variables) (flows : List Flow) :
    Option (Flow × String) :=
  flows.findSome? fun flow =>
    flow.condition.bind fun condition =>
      if evaluator condition vars then some (flow, condition) else none

/-- Leave an exclusive gateway: by its only flow if that has no guard, else by the first flow whose
guard holds. -/
def choose (engine : Engine) (definition : Definition) (gateway : Element) (vars : Variables)
    (now : Nat) : Timed Visit :=
  match definition.outgoing gateway.id with
  | [⟨_, target, none⟩] => .done now ⟨.go target false, vars, []⟩ []
  | flows =>
    match firstOpen engine.evaluator vars flows with
    | some (flow, condition) =>
      .done now ⟨.go flow.target false, vars, []⟩
        [.logged ⟨.debug, "Exclusive gateway selected flow",
          [("gateway", .string gateway.id), ("target", .string flow.target),
            ("condition", .string condition)]⟩]
    | none => .done now ⟨.stop (.failed (.noMatchingCondition gateway.id)), vars, []⟩ []

/-- Where a traversal goes when the branches of a fork have come together. A branch whose own
branches did not come on every flow into their join leaves the join to the fork around it. -/
def rejoin (definition : Definition) (inBranch : Bool) : Option (String × Nat) → Move
  | none => .stop .finished
  | some (join, arrivals) =>
    if inBranch && arrivals < (definition.incoming join).length then .stop (.atJoin join arrivals)
    else .go join true

/-- Come together behind a fork. The variables are those before the fork if a branch failed. -/
def reunion (definition : Definition) (inBranch : Bool) (gateway : Element) (vars : Variables)
    (branches : List Traversal) (now : Nat) : Timed Visit :=
  let path := branches.flatMap Traversal.path
  let said := complaints gateway.id (branches.map Traversal.outcome)
  match reunite vars branches with
  | .unbounded => .done now ⟨.stop .unbounded, vars, path⟩ said
  | .failed error => .done now ⟨.stop (.failed error), vars, path⟩ said
  | .joined join merged =>
    .done now ⟨rejoin definition inBranch join, merged, path⟩
      (said ++ [.logged ⟨.debug, "Parallel branches merged",
        [("gateway", .string gateway.id),
          ("join", .string ((join.map Prod.fst).getD "-"))]⟩])

/-- Traverse the branches of a fork side by side, each in a context of its own, and come together
when all have ended. -/
def fork (definition : Definition) (inBranch : Bool) (branch : BranchTraversal) (gateway : Element)
    (flows : List Flow) (context : Context) (now : Nat) : Timed Visit :=
  (Timed.done now ()
    [.logged ⟨.info, "Forking parallel branches",
      [("instance_id", .string context.instanceId.text), ("gateway", .string gateway.id),
        ("branches", .int flows.length)]⟩]).andThen fun _ now =>
  (Timed.all now (flows.zipIdx.map fun (flow, index) =>
    branch (context.fork index) flow.target now)).andThen fun branches now =>
  reunion definition inBranch gateway context.vars branches now

/-- Visit an element: do its work and see where to go. -/
def visit (engine : Engine) (definition : Definition) (inBranch : Bool) (branch : BranchTraversal)
    (element : Element) (context : Context) (now : Nat) : Timed Visit :=
  match element.kind with
  | .endEvent => .done now ⟨.stop .finished, context.vars, []⟩ []
  | .startEvent => leave definition element context.vars now
  | .task _ spec =>
    (engine.runTask element spec context now).andThen fun outcome now =>
      match outcome with
      | (.ok _, context) => leave definition element context.vars now
      | (.error error, context) => .done now ⟨.stop (.failed error), context.vars, []⟩ []
  | .exclusiveGateway => engine.choose definition element context.vars now
  | .parallelGateway =>
    match definition.outgoing element.id with
    | first :: second :: more =>
      fork definition inBranch branch element (first :: second :: more) context now
    | _ => leave definition element context.vars now

/-! ## Walks -/

/-- A traversal that ends in a context without a visit. -/
def ending (outcome : Outcome) (context : Context) : Traversal :=
  ⟨outcome, context.vars, context.current, []⟩

/-- Walk on from an element, with so many visits left. A branch ends before a join, unless it
resumes at the join of its own branches. -/
def walk (engine : Engine) (definition : Definition) (inBranch : Bool) (branch : BranchTraversal)
    (remaining : Nat) (resumed : Bool) (context : Context) (id : String) (now : Nat) :
    Timed Traversal :=
  match definition.element? id with
  | none =>
    .done now (ending (.failed (.malformedProcess (.missingElement id definition.id))) context) []
  | some element =>
    if inBranch && !resumed && definition.isJoin element then
      .done now (ending (.atJoin element.id 1) context)
        [.logged ⟨.debug, "Branch reached join",
          [("instance_id", .string context.instanceId.text), ("join", .string element.id)]⟩]
    else
      match remaining with
      | 0 =>
        .done now (ending (.failed (.stepLimitExceeded engine.maxSteps)) context)
          [.logged ⟨.warn, "Step limit exceeded, aborting traversal",
            [("element_id", .string element.id), ("max_steps", .int engine.maxSteps)]⟩]
      | remaining + 1 =>
        let context := { context with current := some element.id }
        (Timed.done now ()
          [.logged ⟨.debug, "Visiting element",
            [("instance_id", .string context.instanceId.text), ("element_id", .string element.id),
              ("kind", .string element.kind.name)]⟩]).andThen fun _ now =>
        (engine.visit definition inBranch branch element context now).andThen fun visit now =>
          let context := { context with vars := visit.vars }
          match visit.move with
          | .stop outcome =>
            .done now ⟨outcome, context.vars, context.current, element.id :: visit.path⟩ []
          | .go next resumed =>
            (engine.walk definition inBranch branch remaining resumed context next now).map
              fun rest => { rest with path := element.id :: (visit.path ++ rest.path) }

/-- A traversal that begins with an element, with branches nested up to so many levels. -/
def traverse (engine : Engine) (definition : Definition) (levels : Nat) (inBranch : Bool) :
    BranchTraversal :=
  match levels with
  | 0 =>
    engine.walk definition inBranch
      (fun context _ now => .done now (ending .unbounded context) []) engine.maxSteps false
  | levels + 1 =>
    engine.walk definition inBranch (engine.traverse definition levels true) engine.maxSteps false

end Engine

end Workflow
