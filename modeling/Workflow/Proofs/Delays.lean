import Workflow.Proofs.History.Tells
import Workflow.Proofs.Nesting
import Workflow.Proofs.Table

/-!
# Delays

Branches run side by side, and how long an executor takes decides which of them comes first.  But
nothing that a run comes to depends on that: a branch works on variables of its own, and a fork
takes its branches in the order in which they are declared.  Two engines that differ only in how
long their executors take are one engine with all delays left out (`Engine.undelayed`), so their
runs leave the same trail, and only the order of the reports of different branches can differ.

* `Engine.Leaves.of_undelayed_eq` — the runs of two such engines leave the same trails.
* `Engine.run_eq_of_undelayed_eq` — runs that differ in delays only come to the same.
-/

namespace Workflow

/-! ## Delays left out -/

/-- An executor that gives the same at once. -/
def Executor.undelayed (executor : Executor) : Executor where
  name := executor.name
  execute request := .now (executor.execute request).result

/-- An agent whose executors give the same at once. -/
def Agent.undelayed (agent : Agent) : Agent where
  generative := agent.generative.map Executor.undelayed
  ruleBased := agent.ruleBased.map Executor.undelayed
  transform := agent.transform.map Executor.undelayed
  sink := agent.sink

/-- An engine whose executors give the same at once. -/
def Engine.undelayed (engine : Engine) : Engine :=
  { engine with agents := engine.agents.map fun (id, agent) => (id, agent.undelayed) }

@[simp] theorem Agent.executor?_undelayed (agent : Agent) (category : TaskCategory) :
    agent.undelayed.executor? category = (agent.executor? category).map Executor.undelayed := by
  cases category <;> rfl

/-- What a task gives does not depend on the time that it takes. -/
@[simp] theorem Agent.perform_undelayed (agent : Agent) (element : Element) (vars : Variables) :
    agent.undelayed.perform element vars = agent.perform element vars := by
  unfold Agent.perform Agent.assign
  rcases element.kind.task? with _ | spec
  · rfl
  rcases TaskCategory.of element.kind with _ | category
  · rfl
  dsimp only
  rw [Agent.executor?_undelayed]
  rcases agent.executor? category with _ | executor <;> rfl

namespace Engine

variable {engine other : Engine} {definition : Definition}

@[simp] theorem agent?_undelayed (engine : Engine) (id : String) :
    engine.undelayed.agent? id = (engine.agent? id).map Agent.undelayed :=
  Table.get?_map engine.agents Agent.undelayed id

@[simp] theorem perform_undelayed (engine : Engine) (element : Element) (spec : TaskSpec)
    (vars : Variables) :
    engine.undelayed.perform element spec vars = engine.perform element spec vars := by
  unfold perform
  rw [agent?_undelayed]
  rcases engine.agent? spec.agent with _ | agent
  · rfl
  · exact agent.perform_undelayed element vars

@[simp] theorem sinkOf_undelayed (engine : Engine) (spec : TaskSpec) :
    engine.undelayed.sinkOf spec = engine.sinkOf spec := by
  unfold sinkOf
  rw [agent?_undelayed]
  rcases engine.agent? spec.agent with _ | agent <;> rfl

@[simp] theorem step_undelayed (engine : Engine) (definition : Definition) (element : Element)
    (vars : Variables) :
    engine.undelayed.step definition element vars = engine.step definition element vars := by
  simp [step]
  rfl

@[simp] theorem reportsOf_undelayed (engine : Engine) (processId : String) (id : InstanceId)
    (stations : List Station) :
    engine.undelayed.reportsOf processId id stations = engine.reportsOf processId id stations := by
  simp [reportsOf, reportOf]

/-! ## Two engines -/

/-- Engines that differ in delays only make the same steps. -/
theorem step_eq_of_undelayed_eq (h : engine.undelayed = other.undelayed) (element : Element)
    (vars : Variables) :
    other.step definition element vars = engine.step definition element vars := by
  rw [← step_undelayed other, ← h, step_undelayed]

/-- Engines that differ in delays only report the same. -/
theorem reportsOf_eq_of_undelayed_eq (h : engine.undelayed = other.undelayed) (processId : String)
    (id : InstanceId) (stations : List Station) :
    other.reportsOf processId id stations = engine.reportsOf processId id stations := by
  rw [← reportsOf_undelayed other, ← h, reportsOf_undelayed]

theorem Leaves.of_undelayed_eq (h : engine.undelayed = other.undelayed) {context : Context}
    {trail : Trail} (hleaves : engine.Leaves definition context trail) :
    other.Leaves definition context trail := by
  have hlimit : other.undelayed.maxSteps = engine.undelayed.maxSteps := by rw [h]
  replace hlimit : other.maxSteps = engine.maxSteps := hlimit
  cases hleaves with
  | nothing unstarted => exact .nothing unstarted
  | traces starts goes =>
    rw [← hlimit] at goes
    exact .traces starts (goes.of_step_eq hlimit fun _ _ => step_eq_of_undelayed_eq h _ _)

/-- **The order of completion does not matter.** Let two engines differ only in how long their
executors take, and let no proper fork of a process lie on a cycle.  Then their runs of one context,
whenever they begin, both come to an end, and to the same end: the same completion, variables and
current element, and the same path.  The reports of the one are those of the other in some order,
and under each instance id they come in the same order. -/
theorem run_eq_of_undelayed_eq (engine other : Engine) (definition : Definition)
    (context : Context) (now now' : Nat) (hsame : engine.undelayed = other.undelayed)
    (hprocess : engine.process? context.processId = some definition)
    (hforks : ∀ element ∈ definition.elements, definition.isFork element = true →
      ¬ definition.Returns element.id) :
    (engine.run context now).value.1 ≠ .unbounded ∧
      (other.run context now').value = (engine.run context now).value ∧
      (other.run context now').history.reports.Perm (engine.run context now).history.reports ∧
      ∀ text, (other.run context now').history.reports.filter (·.instanceId == text) =
        (engine.run context now).history.reports.filter (·.instanceId == text) := by
  have hprocesses : other.undelayed.processes = engine.undelayed.processes := by rw [hsame]
  have hprocess' : other.process? context.processId = some definition :=
    (congrArg (·.get? context.processId) hprocesses).trans hprocess
  obtain ⟨trail, hleaves, hdepth⟩ := exists_leaves_of_forks hprocess hforks
  have hleaves' := hleaves.of_undelayed_eq hsame
  have htells := hleaves.tells hdepth now
  have htells' := hleaves'.tells hdepth now'
  have hreports := reportsOf_eq_of_undelayed_eq hsame context.processId context.instanceId
    trail.stations
  rw [hleaves.run_eq hprocess hdepth, hleaves'.run_eq hprocess' hdepth,
    hleaves'.value_runThrough hdepth, hleaves.value_runThrough hdepth]
  exact ⟨completion_ne_unbounded hleaves.outcome_ne_unbounded, rfl,
    htells.reports_agree htells' hreports⟩

end Engine

/-! ## Two branches that change places

One of two branches forks again, and both of its own branches fail.  With one assignment of delays
they do so before the other branch is through, with the other one after it. -/

namespace Overtaking

/-- A fork into a task and into a fork of two tasks. -/
def process : Definition where
  id := "overtaking"
  name := none
  elements := [⟨"start", none, .startEvent⟩, ⟨"outer", none, .parallelGateway⟩,
    ⟨"alone", none, .task .service (TaskSpec.of "one")⟩, ⟨"inner", none, .parallelGateway⟩,
    ⟨"left", none, .task .service (TaskSpec.of "other")⟩,
    ⟨"right", none, .task .user (TaskSpec.of "other")⟩, ⟨"meet", none, .parallelGateway⟩,
    ⟨"join", none, .parallelGateway⟩, ⟨"end", none, .endEvent⟩]
  flows := [⟨"start", "outer", none⟩, ⟨"outer", "alone", none⟩, ⟨"outer", "inner", none⟩,
    ⟨"inner", "left", none⟩, ⟨"inner", "right", none⟩, ⟨"left", "meet", none⟩,
    ⟨"right", "meet", none⟩, ⟨"meet", "join", none⟩, ⟨"alone", "join", none⟩,
    ⟨"join", "end", none⟩]

/-- An engine with two agents, each of which takes some time. -/
def engine (one other : Nat) : Engine where
  maxSteps := 10
  evaluator := fun _ _ => true
  sink := .null
  agents := [("one", ⟨some (.constant (.int 1) one), none, none, .recording "spans"⟩),
    ("other", ⟨some (.failing "no" other), none, none, .recording "spans"⟩)]
  processes := [("overtaking", process)]

/-- The beginning of the run. -/
def context : Context :=
  .start "overtaking" ⟨"i"⟩ []

/-- How far from the start an element is. -/
def rank (id : String) : Nat :=
  process.ids.idxOf id

theorem not_returns : ∀ element ∈ process.elements, process.isFork element = true →
    ¬ process.Returns element.id := by
  intro element helement _
  refine Definition.not_returns_of_rank rank (by decide) ?_
  revert element
  decide

/-- Both assignments of delays come to the same. -/
theorem run_eq_of_swapped_delays :
    (engine 5 0).undelayed = (engine 0 5).undelayed ∧
      (engine 5 0).process? context.processId = some process ∧
      ((engine 0 5).run context 0).value = ((engine 5 0).run context 0).value :=
  ⟨rfl, rfl, (Engine.run_eq_of_undelayed_eq (engine 5 0) (engine 0 5) process context 0 0 rfl rfl
    not_returns).2.1⟩

example : ((engine 5 0).run context 0).value.2.path =
    ["start", "outer", "alone", "inner", "left", "right"] := by decide +kernel

example : ((engine 5 0).run context 0).value.1 = .failed (.executionFailed "left" "no") := by
  decide +kernel

end Overtaking

end Workflow
