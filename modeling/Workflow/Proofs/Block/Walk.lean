import Workflow.Proofs.Block.Basic
import Workflow.Proofs.Trail.Traversal

/-!
# What a traversal comes to from an element on

How a traversal of a block-structured process ends, with which variables and along which path, does
not depend on the flow by which it came, nor on what else is in the process.  `Engine.Walks` says
what it comes to from an element on, `Engine.walks_stop` and `Engine.walks_go` go back by one visit.
-/

namespace Workflow

/-! ## What a traversal comes to -/

/-- How a traversal ends, with which variables, and along which path. -/
structure Course where
  /-- how it ends -/
  outcome : Outcome
  /-- the variables at the end -/
  vars : Variables
  /-- the elements that it and its branches visit -/
  path : List String

/-- What a trail says about its traversal, the last element aside. -/
def Trail.course (trail : Trail) : Course :=
  ⟨trail.outcome, trail.final, trail.path⟩

namespace Result

/-- What a traversal comes to that goes through a block and then comes to something. -/
def followedBy (result : Result) (rest : Course) : Course :=
  match result.failure with
  | some error => ⟨.failed error, result.vars, result.path⟩
  | none => ⟨rest.outcome, rest.vars, result.path ++ rest.path⟩

theorem followedBy_of_failure {result : Result} {error : Error}
    (h : result.failure = some error) (rest : Course) :
    result.followedBy rest = ⟨.failed error, result.vars, result.path⟩ := by
  rw [followedBy, h]

theorem followedBy_of_success {result : Result} (h : result.failure = none) (rest : Course) :
    result.followedBy rest = ⟨rest.outcome, rest.vars, result.path ++ rest.path⟩ := by
  rw [followedBy, h]

theorem andThen_of_success {first : Result} (h : first.failure = none)
    (next : Variables → Result) : first.andThen next =
      ⟨(next first.vars).failure, (next first.vars).vars,
        first.path ++ (next first.vars).path⟩ := by
  rw [andThen, h]

theorem followedBy_andThen (first : Result) (next : Variables → Result) (rest : Course) :
    (first.andThen next).followedBy rest =
      first.followedBy ((next first.vars).followedBy rest) := by
  rcases hfirst : first.failure with _ | error
  · rw [andThen_of_success hfirst, followedBy_of_success hfirst, followedBy, followedBy]
    rcases (next first.vars).failure with _ | error
    · exact congrArg _ (List.append_assoc _ _ _)
    · rfl
  · rw [andThen, hfirst, followedBy_of_failure hfirst, followedBy_of_failure hfirst]

/-- What a traversal comes to that goes through a block and ends behind it. -/
def thenEnds (outcome : Outcome) (result : Result) : Course :=
  result.followedBy ⟨outcome, result.vars, []⟩

theorem path_thenEnds (outcome : Outcome) (result : Result) :
    (result.thenEnds outcome).path = result.path := by
  rw [thenEnds, followedBy]
  split
  · rfl
  · exact List.append_nil _

theorem vars_thenEnds (outcome : Outcome) (result : Result) :
    (result.thenEnds outcome).vars = result.vars := by
  rw [thenEnds, followedBy]
  split <;> rfl

theorem thenEnds_andThen (outcome : Outcome) (first : Result) (next : Variables → Result) :
    (first.andThen next).thenEnds outcome =
      first.followedBy ((next first.vars).thenEnds outcome) := by
  rw [thenEnds, followedBy_andThen]
  rcases hfirst : first.failure with _ | error
  · rw [andThen_of_success hfirst, thenEnds]
  · rw [followedBy_of_failure hfirst, followedBy_of_failure hfirst]

end Result

namespace Engine

/-- A traversal that comes to an element by whatever flow leaves a trail that comes to something, and
branches in it are nested no deeper than given. -/
def Walks (engine : Engine) (definition : Definition) (inBranch : Bool) (depth remaining : Nat)
    (vars : Variables) (id : String) (course : Course) : Prop :=
  ∀ came, ∃ trail, engine.Traces definition inBranch remaining false came vars id trail ∧
    trail.course = course ∧ trail.depth ≤ depth

variable {engine : Engine} {definition : Definition} {inBranch : Bool} {depth remaining : Nat}
  {vars after : Variables} {element : Element} {next : String} {course : Course}

theorem Walks.mono {id : String}
    (h : engine.Walks definition inBranch depth remaining vars id course) {depth' : Nat}
    (hdepth : depth ≤ depth') :
    engine.Walks definition inBranch depth' remaining vars id course := by
  intro came
  obtain ⟨trail, htraces, hcourse, hle⟩ := h came
  exact ⟨trail, htraces, hcourse, Nat.le_trans hle hdepth⟩

/-! ## Steps -/

theorem enters_of_not_join (h : definition.isJoin element = false) (inBranch resumed : Bool) :
    definition.awaits inBranch resumed element = false := by
  rw [Definition.awaits, h, Bool.and_false]

/-- A visit ends a traversal. -/
theorem walks_stop (found : definition.element? element.id = some element)
    (enters : definition.awaits inBranch false element = false) {outcome : Outcome}
    (does : engine.step definition element vars = .stop outcome after) :
    engine.Walks definition inBranch depth (remaining + 1) vars element.id
      ⟨outcome, after, [element.id]⟩ := by
  intro came
  refine ⟨_, .stop found enters does, ?_, Trail.depth_visit_nil_le Trail.depth_halt_le⟩
  rw [Trail.course, Trail.path_visit, Trail.path_halt]
  rfl

/-- A visit takes a flow. -/
theorem walks_go (found : definition.element? element.id = some element)
    (enters : definition.awaits inBranch false element = false) {arc : Arc}
    (does : engine.step definition element vars = .go arc after)
    (h : engine.Walks definition inBranch depth remaining after arc.1.target course) :
    engine.Walks definition inBranch depth (remaining + 1) vars element.id
      ((Result.visit element.id after).followedBy course) := by
  intro came
  obtain ⟨rest, htraces, rfl, hdepth⟩ := h (some arc)
  refine ⟨_, .go found enters does htraces, ?_, Trail.depth_visit_nil_le hdepth⟩
  rw [Trail.course, Trail.path_visit]
  rfl

theorem exists_exits_of_outgoing (element : Element) {flow : Flow}
    (h : definition.outgoing element.id = [flow]) :
    ∃ place, definition.exits element.id = [(flow, place)] := by
  rw [← Definition.map_fst_exits] at h
  obtain ⟨arc, harc, rfl⟩ := List.map_eq_singleton_iff.mp h
  exact ⟨arc.2, harc⟩

/-- An element from which one flow leads to the next is left by that flow. -/
theorem exists_depart_eq_go (element : Element) {flow : Flow}
    (h : definition.outgoing element.id = [flow]) (vars : Variables) :
    ∃ arc : Arc, depart definition element vars = .go arc vars ∧ arc.1.target = flow.target := by
  obtain ⟨place, hexits⟩ := exists_exits_of_outgoing element h
  exact ⟨(flow, place), by rw [depart, hexits], rfl⟩

/-- A parallel gateway that one flow leaves is left by that flow. -/
theorem step_parallel (engine : Engine) (gate : Gate) {flow : Flow}
    (h : definition.outgoing gate.id = [flow]) (vars : Variables) :
    engine.step definition gate.parallel vars = depart definition gate.parallel vars := by
  obtain ⟨place, hexits⟩ := exists_exits_of_outgoing gate.parallel h
  rw [step, hexits]
  rfl

/-- An exclusive gateway that one flow without a guard leaves is left by that flow. -/
theorem exists_step_exclusive (engine : Engine) (gate : Gate)
    (h : definition.outgoing gate.id = [⟨gate.id, next, none⟩]) (vars : Variables) :
    ∃ arc : Arc, engine.step definition gate.exclusive vars = .go arc vars ∧
      arc.1.target = next := by
  obtain ⟨place, hexits⟩ := exists_exits_of_outgoing gate.exclusive h
  refine ⟨(⟨gate.id, next, none⟩, place), ?_, rfl⟩
  rw [step, hexits]
  rfl

/-- Of flows with guards, the first is selected whose guard holds. -/
theorem select_of_guarded {arcs : List Arc} (h : ∀ arc ∈ arcs, arc.1.condition.isSome = true)
    (vars : Variables) : engine.select vars arcs = arcs.find? (engine.opens vars) := by
  rw [select]
  rintro source target place rfl
  cases h _ (List.mem_singleton_self _)

/-- A parallel gateway that several flows leave begins a branch along each of them. -/
theorem step_split (engine : Engine) (gate : Gate)
    (h : 1 < (definition.exits gate.id).length) (vars : Variables) :
    engine.step definition gate.parallel vars = .split (definition.exits gate.id) := by
  rcases hexits : definition.exits gate.id with _ | ⟨first, _ | ⟨second, more⟩⟩
  · rw [hexits] at h
    cases h
  · rw [hexits] at h
    exact absurd h (Nat.lt_irrefl 1)
  · simp [step, Gate.parallel, hexits]

end Engine

end Workflow
