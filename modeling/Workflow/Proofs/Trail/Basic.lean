import Mathlib.Tactic.Choose
import Workflow.Engine.Run
import Workflow.Proofs.Definition

/-!
# Trails

What a traversal comes to depends neither on time nor on what is said in the log.  The trail of a
traversal is what is left of it without those: which elements it visited and with which variables,
by which flow it came to each of them, what its branches did, and how it ended.

* `Engine.step` — what a visit does by itself: it ends the traversal, takes one flow, or splits.
* `sequel` — where a traversal goes when its branches have ended.
* `Trail` — the visits of a traversal with the trails of its branches.
* `Engine.Traces` — the rules by which a traversal leaves a trail.  There is no bound on the nesting
  of branches in them: a trail is finite, so a traversal that leaves one has come to an end.

That `Engine.traverse` computes just what the rules say is shown in
`Workflow.Proofs.Trail.Traversal`.
-/

namespace Workflow

/-! ## Flows by their places

Two flows may be alike in all that they say, so a flow is told from the others by its place among
them. -/

/-- A flow and its place among the flows of its definition. -/
abbrev Arc : Type := Flow × Nat

namespace Definition

/-- The flows with their places. -/
def arcs (definition : Definition) : List Arc :=
  definition.flows.zipIdx

/-- The flows out of an element, with their places. -/
def exits (definition : Definition) (id : String) : List Arc :=
  definition.arcs.filter fun arc => arc.1.source == id

/-- The flows into an element, with their places. -/
def entries (definition : Definition) (id : String) : List Arc :=
  definition.arcs.filter fun arc => arc.1.target == id

theorem map_fst_arcs (definition : Definition) :
    definition.arcs.map Prod.fst = definition.flows := by
  rw [arcs, List.zipIdx_map_fst]

theorem map_fst_exits (definition : Definition) (id : String) :
    (definition.exits id).map Prod.fst = definition.outgoing id := by
  rw [exits, outgoing, ← map_fst_arcs, List.filter_map]
  rfl

theorem length_entries (definition : Definition) (id : String) :
    (definition.entries id).length = (definition.incoming id).length := by
  rw [incoming, ← map_fst_arcs, List.filter_map, List.length_map]
  rfl

theorem nodup_arcs (definition : Definition) : definition.arcs.Nodup := by
  have hplaces : (definition.arcs.map Prod.snd).Nodup := by
    rw [arcs, List.zipIdx_map_snd]
    exact List.nodup_range'
  exact hplaces.of_map

theorem nodup_exits (definition : Definition) (id : String) : (definition.exits id).Nodup :=
  definition.nodup_arcs.filter _

theorem nodup_entries (definition : Definition) (id : String) : (definition.entries id).Nodup :=
  definition.nodup_arcs.filter _

theorem mem_exits {definition : Definition} {id : String} {arc : Arc} :
    arc ∈ definition.exits id ↔ arc ∈ definition.arcs ∧ arc.1.source = id := by
  rw [exits, List.mem_filter, beq_iff_eq]

theorem mem_entries {definition : Definition} {id : String} {arc : Arc} :
    arc ∈ definition.entries id ↔ arc ∈ definition.arcs ∧ arc.1.target = id := by
  rw [entries, List.mem_filter, beq_iff_eq]

end Definition

/-! ## Visits -/

/-- The variables after a task that gave a value. -/
def TaskSpec.store (spec : TaskSpec) (vars : Variables) (value : Value) : Variables :=
  match spec.output with
  | some key => vars.set key value
  | none => vars

/-- What a visit does by itself. -/
inductive Step where
  /-- it ends the traversal -/
  | stop (outcome : Outcome) (vars : Variables)
  /-- it goes on along a flow -/
  | go (arc : Arc) (vars : Variables)
  /-- it begins a branch along each of several flows -/
  | split (arcs : List Arc)

/-- What the task of an element gives when an agent runs it. -/
def Agent.perform (agent : Agent) (element : Element) (vars : Variables) : Except Error Value :=
  match agent.assign element with
  | .error error => .error error
  | .ok (spec, instructions, executor) =>
    (executor.execute ⟨instructions, spec.resolve vars, vars⟩).result.mapError (blame element)

namespace Engine

/-- What the task of an element gives. -/
def perform (engine : Engine) (element : Element) (spec : TaskSpec) (vars : Variables) :
    Except Error Value :=
  match engine.agent? spec.agent with
  | some agent => agent.perform element vars
  | none => .error (.unknownAgent element.id spec.agent)

/-- Leave an element by its first flow. -/
def depart (definition : Definition) (element : Element) (vars : Variables) : Step :=
  match definition.exits element.id with
  | arc :: _ => .go arc vars
  | [] => .stop .finished vars

/-- Whether a flow has a guard and the guard holds. -/
def opens (engine : Engine) (vars : Variables) (arc : Arc) : Bool :=
  arc.1.condition.any (engine.evaluator · vars)

/-- The flow by which an exclusive gateway is left. -/
def select (engine : Engine) (vars : Variables) (arcs : List Arc) : Option Arc :=
  match arcs with
  | [(⟨source, target, none⟩, place)] => some (⟨source, target, none⟩, place)
  | arcs => arcs.find? (engine.opens vars)

/-- What a visit to an element does by itself. -/
def step (engine : Engine) (definition : Definition) (element : Element) (vars : Variables) :
    Step :=
  match element.kind with
  | .endEvent => .stop .finished vars
  | .startEvent => depart definition element vars
  | .task _ spec =>
    match engine.perform element spec vars with
    | .ok value => depart definition element (spec.store vars value)
    | .error error => .stop (.failed error) vars
  | .exclusiveGateway =>
    match engine.select vars (definition.exits element.id) with
    | some arc => .go arc vars
    | none => .stop (.failed (.noMatchingCondition element.id)) vars
  | .parallelGateway =>
    match definition.exits element.id with
    | first :: second :: more => .split (first :: second :: more)
    | _ => depart definition element vars

end Engine

/-! ## Trails -/

/-- The visits of a traversal, in order. -/
inductive Trail where
  /-- it ended without a further visit -/
  | halt (came : Option Arc) (outcome : Outcome) (vars : Variables)
  /-- it came by a flow to an element, and went on when the branches begun there had ended -/
  | visit (came : Option Arc) (element : Element) (vars : Variables) (branches : List Trail)
    (rest : Trail)

instance : Inhabited Trail := ⟨.halt none .finished []⟩

namespace Trail

/-- By which flow a traversal came to the first element of a trail, unless it began or resumed
there. -/
def came : Trail → Option Arc
  | halt came _ _ => came
  | visit came _ _ _ _ => came

/-- The variables at the beginning. -/
def vars : Trail → Variables
  | halt _ _ vars => vars
  | visit _ _ vars _ _ => vars

/-- The variables at the end. -/
def final : Trail → Variables
  | halt _ _ vars => vars
  | visit _ _ _ _ rest => rest.final

/-- How the traversal ended. -/
def outcome : Trail → Outcome
  | halt _ outcome _ => outcome
  | visit _ _ _ _ rest => rest.outcome

/-- The element that the traversal visited last, its branches aside. -/
def last? : Trail → Option String
  | halt _ _ _ => none
  | visit _ element _ _ rest => rest.last?.or (some element.id)

/-- The ids of the elements that the traversal visited itself, its branches aside. -/
def own : Trail → List String
  | halt _ _ _ => []
  | visit _ element _ _ rest => element.id :: rest.own

/-- The trails of the branches that were begun at the first visit. -/
def branches : Trail → List Trail
  | halt _ _ _ => []
  | visit _ _ _ branches _ => branches

/-- The ids of the elements that the traversal and its branches visited. -/
def path : Trail → List String
  | halt _ _ _ => []
  | visit _ element _ branches rest => element.id :: (branches.flatMap path ++ rest.path)

/-- How deeply branches are nested. -/
def depth : Trail → Nat
  | halt _ _ _ => 0
  | visit _ _ _ branches rest =>
    max (branches.foldr (fun branch deepest => max (branch.depth + 1) deepest) 0) rest.depth

/-- What the traversal comes to, begun after the visit to an element. -/
def traversal (trail : Trail) (current : Option String) : Traversal :=
  ⟨trail.outcome, trail.final, trail.last?.or current, trail.path⟩

@[simp] theorem path_halt (came : Option Arc) (outcome : Outcome) (vars : Variables) :
    (halt came outcome vars).path = [] := by
  rw [path]

@[simp] theorem depth_halt (came : Option Arc) (outcome : Outcome) (vars : Variables) :
    (halt came outcome vars).depth = 0 := by
  rw [depth]

theorem depth_halt_le {came : Option Arc} {outcome : Outcome} {vars : Variables} {levels : Nat} :
    (halt came outcome vars).depth ≤ levels := by
  rw [depth_halt]
  exact Nat.zero_le levels

theorem traversal_halt (came : Option Arc) (outcome : Outcome) (vars : Variables)
    (current : Option String) :
    (halt came outcome vars).traversal current = ⟨outcome, vars, current, []⟩ := by
  rw [traversal, path_halt]
  rfl

theorem le_foldr_max {f : Trail → Nat} {trails : List Trail} {trail : Trail}
    (h : trail ∈ trails) : f trail ≤ trails.foldr (fun t deepest => max (f t) deepest) 0 := by
  induction trails with
  | nil => cases h
  | cons first more ih =>
    rw [List.foldr_cons]
    rcases List.mem_cons.mp h with rfl | h
    · exact Nat.le_max_left _ _
    · exact Nat.le_trans (ih h) (Nat.le_max_right _ _)

section Visit

variable {came : Option Arc} {element : Element} {vars : Variables} {branches : List Trail}
  {rest : Trail}

@[simp] theorem path_visit : (visit came element vars branches rest).path =
    element.id :: (branches.flatMap path ++ rest.path) := by
  rw [path]

theorem traversal_visit (current : Option String) :
    (visit came element vars branches rest).traversal current =
      ⟨rest.outcome, rest.final, rest.last?.or (some element.id),
        element.id :: (branches.flatMap path ++ rest.path)⟩ := by
  rw [traversal, path_visit, last?, Option.or_assoc, Option.some_or]
  rfl

theorem depth_lt_of_mem {branch : Trail} (h : branch ∈ branches) :
    branch.depth < (visit came element vars branches rest).depth := by
  rw [depth]
  exact Nat.lt_of_lt_of_le (le_foldr_max (f := fun branch => branch.depth + 1) h)
    (Nat.le_max_left _ _)

theorem depth_rest_le : rest.depth ≤ (visit came element vars branches rest).depth := by
  rw [depth]
  exact Nat.le_max_right _ _

theorem depth_visit_le {levels : Nat} (hbranches : ∀ branch ∈ branches, branch.depth < levels)
    (hrest : rest.depth ≤ levels) : (visit came element vars branches rest).depth ≤ levels := by
  rw [depth]
  refine Nat.max_le.mpr ⟨?_, hrest⟩
  clear hrest
  induction branches with
  | nil => exact Nat.zero_le _
  | cons first more ih =>
    rw [List.foldr_cons]
    exact Nat.max_le.mpr ⟨hbranches first List.mem_cons_self,
      ih fun branch hbranch => hbranches branch (List.mem_cons_of_mem _ hbranch)⟩

theorem depth_visit_nil_le {levels : Nat} (hrest : rest.depth ≤ levels) :
    (visit came element vars [] rest).depth ≤ levels :=
  depth_visit_le (fun _ hbranch => absurd hbranch List.not_mem_nil) hrest

end Visit

end Trail

/-! ## The rules -/

/-- Where a traversal goes when its branches have ended. -/
inductive Sequel where
  /-- nowhere: it ends -/
  | stop (outcome : Outcome) (vars : Variables)
  /-- to the join on which its branches converged -/
  | resume (join : String) (vars : Variables)

/-- Where a traversal goes when its branches have ended. They began with the variables given. -/
def sequel (definition : Definition) (inBranch : Bool) (vars : Variables)
    (branches : List Trail) : Sequel :=
  match reunite vars (branches.map (Trail.traversal · none)) with
  | .unbounded => .stop .unbounded vars
  | .failed error => .stop (.failed error) vars
  | .joined join merged =>
    match Engine.rejoin definition inBranch join with
    | .stop outcome => .stop outcome merged
    | .go next _ => .resume next merged

/-- Whether a traversal ends in front of an element: a branch does so at a join where it did not
resume. -/
def Definition.awaits (definition : Definition) (inBranch resumed : Bool) (element : Element) :
    Bool :=
  inBranch && !resumed && definition.isJoin element

/-- By the rules, a traversal that has so many visits left and comes to the element of an id leaves
a trail from there on. -/
inductive Engine.Traces (engine : Engine) (definition : Definition) :
    Bool → Nat → Bool → Option Arc → Variables → String → Trail → Prop where
  /-- no element has the id -/
  | missing {inBranch : Bool} {remaining : Nat} {resumed : Bool} {came : Option Arc}
    {vars : Variables} {id : String} (absent : definition.element? id = none) :
    Traces engine definition inBranch remaining resumed came vars id
      (.halt came (.failed (.malformedProcess (.missingElement id definition.id))) vars)
  /-- a branch came to a join -/
  | join {inBranch : Bool} {remaining : Nat} {resumed : Bool} {came : Option Arc}
    {vars : Variables} {id : String} {element : Element}
    (found : definition.element? id = some element)
    (awaits : definition.awaits inBranch resumed element = true) :
    Traces engine definition inBranch remaining resumed came vars id
      (.halt came (.atJoin element.id 1) vars)
  /-- no visit is left -/
  | limit {inBranch : Bool} {resumed : Bool} {came : Option Arc} {vars : Variables} {id : String}
    {element : Element} (found : definition.element? id = some element)
    (enters : definition.awaits inBranch resumed element = false) :
    Traces engine definition inBranch 0 resumed came vars id
      (.halt came (.failed (.stepLimitExceeded engine.maxSteps)) vars)
  /-- the visit ends the traversal -/
  | stop {inBranch : Bool} {remaining : Nat} {resumed : Bool} {came : Option Arc}
    {vars : Variables} {id : String} {element : Element} {outcome : Outcome} {after : Variables}
    (found : definition.element? id = some element)
    (enters : definition.awaits inBranch resumed element = false)
    (does : engine.step definition element vars = .stop outcome after) :
    Traces engine definition inBranch (remaining + 1) resumed came vars id
      (.visit came element vars [] (.halt none outcome after))
  /-- the visit takes a flow -/
  | go {inBranch : Bool} {remaining : Nat} {resumed : Bool} {came : Option Arc}
    {vars : Variables} {id : String} {element : Element} {arc : Arc} {after : Variables}
    {rest : Trail} (found : definition.element? id = some element)
    (enters : definition.awaits inBranch resumed element = false)
    (does : engine.step definition element vars = .go arc after)
    (goes : Traces engine definition inBranch remaining false (some arc) after arc.1.target rest) :
    Traces engine definition inBranch (remaining + 1) resumed came vars id
      (.visit came element vars [] rest)
  /-- the visit begins branches, and the traversal ends with them -/
  | part {inBranch : Bool} {remaining : Nat} {resumed : Bool} {came : Option Arc}
    {vars : Variables} {id : String} {element : Element} {arcs : List Arc} {branch : Arc → Trail}
    {outcome : Outcome} {after : Variables} (found : definition.element? id = some element)
    (enters : definition.awaits inBranch resumed element = false)
    (does : engine.step definition element vars = .split arcs)
    (each : ∀ arc ∈ arcs, Traces engine definition true engine.maxSteps false (some arc) vars
      arc.1.target (branch arc))
    (ends : sequel definition inBranch vars (arcs.map branch) = .stop outcome after) :
    Traces engine definition inBranch (remaining + 1) resumed came vars id
      (.visit came element vars (arcs.map branch) (.halt none outcome after))
  /-- the visit begins branches, and the traversal resumes where they converged -/
  | meet {inBranch : Bool} {remaining : Nat} {resumed : Bool} {came : Option Arc}
    {vars : Variables} {id : String} {element : Element} {arcs : List Arc} {branch : Arc → Trail}
    {join : String} {after : Variables} {rest : Trail}
    (found : definition.element? id = some element)
    (enters : definition.awaits inBranch resumed element = false)
    (does : engine.step definition element vars = .split arcs)
    (each : ∀ arc ∈ arcs, Traces engine definition true engine.maxSteps false (some arc) vars
      arc.1.target (branch arc))
    (meets : sequel definition inBranch vars (arcs.map branch) = .resume join after)
    (goes : Traces engine definition inBranch remaining true none after join rest) :
    Traces engine definition inBranch (remaining + 1) resumed came vars id
      (.visit came element vars (arcs.map branch) rest)

/-- By the rules, a run of a context through a definition leaves a trail. -/
structure Engine.RunTraces (engine : Engine) (definition : Definition) (context : Context)
    (trail : Trail) : Prop where
  /-- the definition is that of the context's process -/
  process : engine.process? context.processId = some definition
  /-- the traversal begins where the process starts -/
  traces : ∃ start, definition.start = .ok start ∧
    engine.Traces definition false engine.maxSteps false none context.vars start.id trail

end Workflow
