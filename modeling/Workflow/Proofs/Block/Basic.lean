import Workflow.Proofs.Trail.Basic

/-!
# Block-structured processes

A process may be put together of blocks: tasks, one block after the other, one of several blocks by
choice, several blocks side by side.  Such a process has a meaning of its own, by recursion on its
blocks (`Block.eval`), without a graph, joins or arrivals.  As a graph, a block is entered at one
place and left to one place; which one that is depends on what follows it (`Block.entry`,
`Block.flows`).

That a run goes through the graph as the blocks say is shown in `Workflow.Proofs.Block.Run`.
-/

namespace Workflow

/-! ## Blocks -/

/-- The id and the name of an element whose kind is clear from where it stands. -/
structure Gate where
  /-- the id -/
  id : String
  /-- the name for readers -/
  name : Option String

/-- The exclusive gateway. -/
def Gate.exclusive (gate : Gate) : Element :=
  ⟨gate.id, gate.name, .exclusiveGateway⟩

/-- The parallel gateway. -/
def Gate.parallel (gate : Gate) : Element :=
  ⟨gate.id, gate.name, .parallelGateway⟩

mutual

/-- A part of a process with one way in and one way out. Where the flow out of it has a label, that
is a guard that nothing reads. -/
inductive Block where
  /-- nothing -/
  | empty
  /-- a task -/
  | task (id : String) (name : Option String) (kind : TaskKind) (spec : TaskSpec)
    (label : Option String)
  /-- one block after the other -/
  | seq (first second : Block)
  /-- one of several blocks, by their guards, between two exclusive gateways -/
  | exclusive (opening closing : Gate) (branches : Branches)
  /-- several blocks side by side, between two parallel gateways -/
  | parallel (opening closing : Gate) (label : Option String) (branches : Branches)

/-- Blocks between two gateways, each with the guard on the flow to it. -/
inductive Branches where
  /-- no more -/
  | nil
  /-- a block, and more -/
  | cons (guard : Option String) (block : Block) (more : Branches)

end

namespace Branches

/-- How many branches there are. -/
def length : Branches → Nat
  | nil => 0
  | cons _ _ more => more.length + 1

/-- Every branch has a guard. -/
def Guarded : Branches → Prop
  | nil => True
  | cons guard _ more => guard.isSome = true ∧ more.Guarded

end Branches

mutual

/-- An exclusive block has a guard for each of its branches, of which there is one at least; a
parallel block has two branches at least. -/
def Block.Regular : Block → Prop
  | .empty => True
  | .task _ _ _ _ _ => True
  | .seq first second => first.Regular ∧ second.Regular
  | .exclusive _ _ branches => 0 < branches.length ∧ branches.Guarded ∧ branches.Regular
  | .parallel _ _ _ branches => 1 < branches.length ∧ branches.Regular

/-- Every branch is regular. -/
def Branches.Regular : Branches → Prop
  | .nil => True
  | .cons _ block more => block.Regular ∧ more.Regular

end

/-! ## Blocks as graphs -/

mutual

/-- The elements of a block. -/
def Block.elements : Block → List Element
  | .empty => []
  | .task id name kind spec _ => [⟨id, name, .task kind spec⟩]
  | .seq first second => first.elements ++ second.elements
  | .exclusive opening closing branches =>
    opening.exclusive :: (branches.elements ++ [closing.exclusive])
  | .parallel opening closing _ branches =>
    opening.parallel :: (branches.elements ++ [closing.parallel])

/-- The elements of branches. -/
def Branches.elements : Branches → List Element
  | .nil => []
  | .cons _ block more => block.elements ++ more.elements

end

/-- Where a flow into a block leads, if an element follows the block. -/
def Block.entry : Block → String → String
  | .empty, next => next
  | .task id _ _ _ _, _ => id
  | .seq first second, next => first.entry (second.entry next)
  | .exclusive opening _ _, _ => opening.id
  | .parallel opening _ _ _, _ => opening.id

/-- The flows from the opening gateway into branches, if a closing gateway follows them. -/
def Branches.openings (source next : String) : Branches → List Flow
  | .nil => []
  | .cons guard block more => ⟨source, block.entry next, guard⟩ :: more.openings source next

mutual

/-- The flows out of the elements of a block, if an element follows the block. -/
def Block.flows : Block → String → List Flow
  | .empty, _ => []
  | .task id _ _ _ label, next => [⟨id, next, label⟩]
  | .seq first second, next => first.flows (second.entry next) ++ second.flows next
  | .exclusive opening closing branches, next =>
    branches.flows opening.id closing.id ++ [⟨closing.id, next, none⟩]
  | .parallel opening closing label branches, next =>
    branches.flows opening.id closing.id ++ [⟨closing.id, next, label⟩]

/-- The flows from an opening gateway into branches and out of their elements, if a closing gateway
follows them. -/
def Branches.flows : Branches → String → String → List Flow
  | .nil, _, _ => []
  | .cons guard block more, source, next =>
    ⟨source, block.entry next, guard⟩ :: (block.flows next ++ more.flows source next)

end

/-! ## What blocks mean -/

/-- What a block comes to. -/
structure Result where
  /-- the error on which it failed -/
  failure : Option Error
  /-- the variables at its end -/
  vars : Variables
  /-- the elements that were visited -/
  path : List String

namespace Result

/-- A visit to an element that does nothing. -/
def visit (id : String) (vars : Variables) : Result :=
  ⟨none, vars, [id]⟩

/-- One after the other, unless the first failed. -/
def andThen (first : Result) (next : Variables → Result) : Result :=
  match first.failure with
  | some _ => first
  | none =>
    let second := next first.vars
    ⟨second.failure, second.vars, first.path ++ second.path⟩

/-- How a run ends that comes to this. -/
def completion (result : Result) : Completion :=
  match result.failure with
  | some error => .failed error
  | none => .completed

end Result

mutual

/-- What a block comes to, by its structure. -/
def Block.eval (engine : Engine) : Block → Variables → Result
  | .empty, vars => ⟨none, vars, []⟩
  | .task id name kind spec _, vars =>
    match engine.perform ⟨id, name, .task kind spec⟩ spec vars with
    | .ok value => ⟨none, spec.store vars value, [id]⟩
    | .error error => ⟨some error, vars, [id]⟩
  | .seq first second, vars => (first.eval engine vars).andThen (second.eval engine)
  | .exclusive opening closing branches, vars =>
    match branches.evalFirst engine vars with
    | some result =>
      (Result.visit opening.id vars).andThen fun _ => result.andThen (Result.visit closing.id)
    | none => ⟨some (.noMatchingCondition opening.id), vars, [opening.id]⟩
  | .parallel opening closing _ branches, vars =>
    let results := branches.evalAll engine vars
    let path := opening.id :: results.flatMap Result.path
    match results.findSome? Result.failure with
    | some error => ⟨some error, vars, path⟩
    | none =>
      ⟨none, results.foldl (fun merged result => merged.merge result.vars) vars,
        path ++ [closing.id]⟩

/-- What the first branch comes to whose guard holds. -/
def Branches.evalFirst (engine : Engine) : Branches → Variables → Option Result
  | .nil, _ => none
  | .cons guard block more, vars =>
    if guard.any (engine.evaluator · vars) then some (block.eval engine vars)
    else more.evalFirst engine vars

/-- What every branch comes to, each with the same variables. -/
def Branches.evalAll (engine : Engine) : Branches → Variables → List Result
  | .nil, _ => []
  | .cons _ block more, vars => block.eval engine vars :: more.evalAll engine vars

end

/-! ## Processes -/

/-- A block between a start event and an end event. -/
structure BlockProcess where
  /-- the start event -/
  start : Gate
  /-- the guard on the flow out of it, which nothing reads -/
  label : Option String
  /-- the block -/
  body : Block
  /-- the end event -/
  finish : Gate

namespace BlockProcess

/-- The start event. -/
def startElement (process : BlockProcess) : Element :=
  ⟨process.start.id, process.start.name, .startEvent⟩

/-- The end event. -/
def finishElement (process : BlockProcess) : Element :=
  ⟨process.finish.id, process.finish.name, .endEvent⟩

/-- The elements of the process. -/
def elements (process : BlockProcess) : List Element :=
  process.startElement :: (process.body.elements ++ [process.finishElement])

/-- The flows of the process. -/
def flows (process : BlockProcess) : List Flow :=
  ⟨process.start.id, process.body.entry process.finish.id, process.label⟩ ::
    process.body.flows process.finish.id

/-- A definition declares the process: its elements are those of the process and have distinct ids,
and the flows out of each of them are those of the process, in their order. In which order the
elements are declared, and the flows out of different elements, is left open. -/
structure DeclaredBy (process : BlockProcess) (definition : Definition) : Prop where
  /-- the elements are those of the process -/
  elements : definition.elements.Perm process.elements
  /-- the ids are distinct -/
  nodup : definition.ids.Nodup
  /-- the flows out of each element are those of the process -/
  outgoing : ∀ id, definition.outgoing id = process.flows.filter (·.source == id)

/-- The definition that declares everything in the order of the blocks. -/
def definition (process : BlockProcess) (id : String) : Definition where
  id := id
  name := none
  elements := process.elements
  flows := process.flows

theorem declaredBy_definition {process : BlockProcess} (h : (process.elements.map Element.id).Nodup)
    (id : String) : process.DeclaredBy (process.definition id) :=
  ⟨List.Perm.refl _, h, fun _ => rfl⟩

/-- What the process comes to, by the structure of its block. -/
def eval (engine : Engine) (process : BlockProcess) (vars : Variables) : Result :=
  (Result.visit process.start.id vars).andThen fun vars =>
    (process.body.eval engine vars).andThen (Result.visit process.finish.id)

end BlockProcess

end Workflow
