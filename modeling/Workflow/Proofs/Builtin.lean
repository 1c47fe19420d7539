import Workflow.Engine.Builtin
import Workflow.Proofs.Allowance
import Workflow.Proofs.Executors
import Workflow.Proofs.OnGraph

/-!
# What can go wrong with built-in agents

An engine that was set up for one definition, as for a run from the command line, has its process
and an agent for each of its tasks.  A built-in agent has an executor for every category of tasks,
and only one of these executors can fail, for want of a rule.  So which tasks fail can be told from
the definition, whatever the variables are.

* `Element.Unfit` — no built-in agent can do the task of an element.
* `Agent.perform_builtin_eq_error_iff` — a built-in agent fails at just these tasks.
* `Engine.agent?_builtin`, `Engine.process?_builtin` — what the engine has.
* `Engine.Mishap` — on what a run can fail.
* `Engine.builtin_mishaps` — a run fails on nothing else, and it fails if it visits such a task.
-/

namespace Workflow

/-! ## Tasks that cannot be done -/

/-- All lines of all rules of a task are blank. -/
def TaskSpec.Ruleless (spec : TaskSpec) : Prop :=
  ∀ rule ∈ spec.rules, ∀ line ∈ Text.splitFeeds rule.toList, ∀ c ∈ line, Text.isBlank c = true

theorem TaskSpec.ruleless_iff {spec : TaskSpec} :
    spec.Ruleless ↔ Executor.rulesOf (String.intercalate "\n" spec.rules) = [] := by
  rw [Executor.rulesOf_intercalate, List.flatMap_eq_nil_iff]
  exact forall₂_congr fun _ _ => Executor.rulesOf_eq_nil_iff.symm

/-- No built-in agent can do the task of an element, and this is the error of it: nothing can be
sent or received, and where there are no rules none can be evaluated. -/
def Element.Unfit (element : Element) (error : Error) : Prop :=
  match element.kind with
  | .task .send _ => error = .unsupportedTask element.id "sendTask"
  | .task .receive _ => error = .unsupportedTask element.id "receiveTask"
  | .task .businessRule spec =>
    spec.Ruleless ∧ error = .executionFailed element.id "no rules to evaluate"
  | _ => False

theorem Element.Unfit.exists_spec {element : Element} {error : Error} (h : element.Unfit error) :
    ∃ spec, element.kind.task? = some spec := by
  unfold Unfit at h
  rcases hkind : element.kind with _ | _ | ⟨kind, spec⟩ | _ | _
  case task => exact ⟨spec, rfl⟩
  all_goals
    rw [hkind] at h
    cases h

theorem ElementKind.exists_of_task? {kind : ElementKind} {spec : TaskSpec}
    (h : kind.task? = some spec) : ∃ of, kind = .task of spec := by
  cases kind with
  | task of =>
    obtain rfl := Option.some.inj h
    exact ⟨of, rfl⟩
  | _ => cases h

namespace Agent

variable {agent : Agent} {sink : Sink} {evaluator : Evaluator} {element : Element}
  {spec : TaskSpec} {vars : Variables} {error : Error}

/-- A task gives no error if its executor gives a value. -/
theorem perform_ne_error {instructions : String} {executor : Executor}
    (assigned : agent.assign element = .ok (spec, instructions, executor))
    (gives : ∃ value,
      (executor.execute ⟨instructions, spec.resolve vars, vars⟩).result = .ok value) :
    agent.perform element vars ≠ .error error := by
  obtain ⟨value, hvalue⟩ := gives
  intro herror
  rw [perform, assigned] at herror
  dsimp only at herror
  rw [hvalue] at herror
  cases herror

/-- Where an agent evaluates rules, it fails if there are none. -/
theorem perform_rules_eq_error_iff {instructions : String}
    (assigned : agent.assign element = .ok (spec, instructions, .rules evaluator)) :
    agent.perform element vars = .error error ↔ Executor.rulesOf instructions = [] ∧
      error = .executionFailed element.id "no rules to evaluate" := by
  let request : Request := ⟨instructions, spec.resolve vars, vars⟩
  have hrules : ∀ reason, ((Executor.rules evaluator).execute request).result = .error reason ↔
      Executor.rulesOf instructions = [] ∧ reason = .capability "no rules to evaluate" :=
    fun _ => Executor.rules_eq_error_iff
  rw [perform, assigned]
  dsimp only
  rcases hresult : ((Executor.rules evaluator).execute request).result with reason | value
  · obtain ⟨hnone, rfl⟩ := (hrules reason).mp hresult
    rw [Except.mapError, Except.error.injEq, blame, eq_comm]
    exact (and_iff_right hnone).symm
  · refine iff_of_false (fun herror => by cases herror) fun hfails => ?_
    rw [(hrules _).mpr ⟨hfails.1, rfl⟩] at hresult
    cases hresult

/-- A built-in agent fails at the tasks that it cannot do, and at no others. -/
theorem perform_builtin_eq_error_iff (task : element.kind.task? = some spec) :
    (Agent.builtin sink evaluator).perform element vars = .error error ↔ element.Unfit error := by
  obtain ⟨kind, hkind⟩ := ElementKind.exists_of_task? task
  unfold Element.Unfit
  rw [hkind]
  cases kind with
  | service | user =>
    have hassign : (Agent.builtin sink evaluator).assign element = .ok (spec, _, .echo) :=
      assign_of_category task (by rw [hkind]; rfl) rfl
    exact iff_of_false (perform_ne_error hassign (Executor.exists_value_echo _)) id
  | script =>
    have hassign : (Agent.builtin sink evaluator).assign element = .ok (spec, _, .template) :=
      assign_of_category task (by rw [hkind]; rfl) rfl
    exact iff_of_false (perform_ne_error hassign (Executor.exists_value_template _)) id
  | businessRule =>
    have hassign : (Agent.builtin sink evaluator).assign element =
        .ok (spec, _, .rules evaluator) := assign_of_category task (by rw [hkind]; rfl) rfl
    dsimp only
    rw [TaskSpec.ruleless_iff, perform_rules_eq_error_iff hassign]
    rfl
  | send | receive =>
    rw [perform, assign, hkind]
    dsimp only [ElementKind.task?, TaskCategory.of]
    rw [Except.error.injEq, eq_comm]
    rfl

end Agent

namespace Engine

variable {definition : Definition} {maxSteps : Nat} {sink : Sink} {id : String}

/-! ## What the engine has -/

theorem agent?_registerAll (engine : Engine) (ids : List String) (agent : Agent) (id : String) :
    (engine.registerAll ids agent).agent? id =
      if id ∈ ids then some agent else engine.agent? id := by
  induction ids generalizing engine with
  | nil => rw [if_neg List.not_mem_nil, registerAll, List.foldl_nil]
  | cons first more ih =>
    have hregister : (engine.register first agent).1.agent? id =
        if first = id then some agent else engine.agent? id := Table.get?_set _ _ _ _
    rw [registerAll, List.foldl_cons, ← registerAll, ih, hregister]
    by_cases hid : id = first
    · rw [if_pos hid.symm, ite_self, hid, if_pos List.mem_cons_self]
    · simp only [List.mem_cons, hid, Ne.symm hid, if_false, false_or]

/-- Under every id that a task names there is a built-in agent. -/
theorem agent?_builtin {ref : String} (h : ref ∈ definition.agentRefs) :
    (Engine.builtin maxSteps sink id definition).agent? ref =
      some (Agent.builtin sink Evaluator.conditions) := by
  rw [builtin, load, agent?]
  exact (agent?_registerAll _ _ _ _).trans (if_pos h)

/-- Under the id of the caller's choice there is the definition. -/
theorem process?_builtin :
    (Engine.builtin maxSteps sink id definition).process? id = some definition := by
  rw [builtin, load, process?]
  exact Table.get?_set_self _ _ _

theorem maxSteps_registerAll (engine : Engine) (ids : List String) (agent : Agent) :
    (engine.registerAll ids agent).maxSteps = engine.maxSteps := by
  induction ids generalizing engine with
  | nil => rfl
  | cons first more ih =>
    rw [registerAll, List.foldl_cons, ← registerAll, ih]
    rfl

theorem maxSteps_builtin :
    (Engine.builtin maxSteps sink id definition).maxSteps = maxSteps :=
  maxSteps_registerAll _ _ _

end Engine

/-- The agent of every task is named. -/
theorem Definition.mem_agentRefs {definition : Definition} {element : Element} {spec : TaskSpec}
    (helement : element ∈ definition.elements) (task : element.kind.task? = some spec) :
    spec.agent ∈ definition.agentRefs := by
  rw [agentRefs, List.mem_eraseDups]
  exact List.mem_filterMap.mpr ⟨element, helement, by rw [task]; rfl⟩

namespace Engine

variable {definition : Definition} {maxSteps : Nat} {sink : Sink} {id : String}
  {element : Element} {vars : Variables} {error : Error}

/-! ## On what runs fail -/

/-- A task fails if no built-in agent can do it, and only then. -/
theorem fails_builtin_iff (helement : element ∈ definition.elements) :
    (Engine.builtin maxSteps sink id definition).Fails error element vars ↔
      element.Unfit error := by
  constructor
  · rintro ⟨spec, task, performs⟩
    rw [perform, agent?_builtin (Definition.mem_agentRefs helement task)] at performs
    exact (Agent.perform_builtin_eq_error_iff task).mp performs
  · intro hunfit
    obtain ⟨spec, task⟩ := hunfit.exists_spec
    refine ⟨spec, task, ?_⟩
    rw [perform, agent?_builtin (Definition.mem_agentRefs helement task)]
    exact (Agent.perform_builtin_eq_error_iff task).mpr hunfit

/-- On what a run of an engine with built-in agents can fail, having visited the elements of a path.
-/
inductive Mishap (definition : Definition) (maxSteps : Nat) (path : List String) :
    Error → Prop where
  /-- nothing starts the process -/
  | unstarted (none : ∀ element ∈ definition.elements, element.kind ≠ .startEvent) :
    Mishap definition maxSteps path (.malformedProcess (.noStart definition.id))
  /-- a traversal came to the limit -/
  | limit : Mishap definition maxSteps path (.stepLimitExceeded maxSteps)
  /-- a gateway was visited out of which no flow can be taken -/
  | gateway {element : Element} (member : element ∈ definition.elements)
    (visited : element.id ∈ path) :
    Mishap definition maxSteps path (.noMatchingCondition element.id)
  /-- a task was visited that no built-in agent can do -/
  | task {element : Element} {error : Error} (member : element ∈ definition.elements)
    (visited : element.id ∈ path) (unfit : element.Unfit error) :
    Mishap definition maxSteps path error

section Run

variable {context : Context} {trail : Trail}

/-- The error of a run is one of these. -/
theorem Leaves.mishap (hwell : definition.WellFormed)
    (h : (Engine.builtin maxSteps sink id definition).Leaves definition context trail)
    (hfailed : trail.outcome = .failed error) : Mishap definition maxSteps trail.path error := by
  rcases h.exists_raises hwell hfailed with
    ⟨hnone, rfl⟩ | rfl | ⟨station, hstation, hraises⟩
  · exact .unstarted (Definition.starts_eq_nil_iff.mp hnone)
  · rw [maxSteps_builtin]
    exact .limit
  · have helement := Definition.mem_of_element? (h.element?_of_mem station hstation)
    have hvisited := Trail.mem_path_of_mem_stations hstation
    rcases hraises with hfails | rfl
    · exact .task helement hvisited ((fails_builtin_iff helement).mp hfails)
    · exact .gateway helement hvisited

/-- A run that visits a task that no built-in agent can do does not complete. -/
theorem Leaves.completion_ne_completed (hwell : definition.WellFormed)
    (h : (Engine.builtin maxSteps sink id definition).Leaves definition context trail)
    (helement : element ∈ definition.elements) (hvisited : element.id ∈ trail.path)
    (hunfit : element.Unfit error) : trail.outcome.completion ≠ .completed := by
  intro hcompleted
  rw [← Trail.map_id_stations] at hvisited
  obtain ⟨station, hstation, hid⟩ := List.mem_map.mp hvisited
  -- the element of the visit is the one that has the id
  have hfound := h.element?_of_mem station hstation
  rw [hid, (Definition.element?_eq_some_iff hwell.1).mpr ⟨helement, rfl⟩] at hfound
  obtain rfl := Option.some.inj hfound
  have hfails : (Engine.builtin maxSteps sink id definition).Fails error station.element
      station.vars := (fails_builtin_iff helement).mpr hunfit
  obtain ⟨spec, task, performs⟩ := hfails
  obtain ⟨value, hvalue⟩ := h.gives hcompleted station hstation spec task
  rw [performs] at hvalue
  cases hvalue

end Run

/-- **What can go wrong with built-in agents.** Take a definition that was obtained in any way, and
the engine with built-in agents for it, whatever its limit, its sink and the id under which it has
the definition.  There is a context for a run under this id, with any variables, and its run is one
through the definition, the same at every depth that suffices.  However deeply branches may be
nested, this run fails on nothing but a process that nothing starts, the limit, a visited gateway
out of which no flow can be taken, or a visited task that no built-in agent can do.  It fails on a
malformed process if and only if nothing starts the process.  And if it visits such a task, it
fails, unless it is cut off for its nesting. -/
theorem builtin_mishaps (h : definition.Obtained) (maxSteps : Nat) (sink : Sink) (id : String)
    (instanceId : InstanceId) (vars : Variables) (now : Nat) :
    let engine := Engine.builtin maxSteps sink id definition
    let context := Context.start id instanceId vars
    engine.newContext id instanceId vars = .ok context ∧
      (∃ levels, engine.run context now = engine.runThrough definition levels context now) ∧
      ∀ levels : Nat,
        let run := engine.runThrough definition levels context now
        (run.value.1 ≠ .unbounded → engine.run context now = run) ∧
        (∀ error, run.value.1 = .failed error →
          Mishap definition maxSteps run.value.2.path error) ∧
        ((∃ reason, run.value.1 = .failed (.malformedProcess reason)) ↔
          ∀ element ∈ definition.elements, element.kind ≠ .startEvent) ∧
        ∀ element ∈ definition.elements, (∃ error, element.Unfit error) →
          element.id ∈ run.value.2.path → run.value.1 ≠ .unbounded →
          ∃ error, run.value.1 = .failed error := by
  intro engine context
  have hwell := h.wellFormed
  have hprocess : engine.process? id = some definition := process?_builtin
  refine ⟨?_, ?_, fun levels => ?_⟩
  · rw [newContext, hprocess]
  · rw [run_eq_runOn hprocess]
    exact exists_runOn_eq engine definition context now
  intro run
  refine ⟨run_eq_runThrough hprocess, fun error hfailed => ?_, ?_,
    fun element helement hunfit hvisited hbounded => ?_⟩
  · obtain ⟨trail, hleaves, houtcome, hafter⟩ := exists_leaves_of_failed hfailed
    rw [hafter]
    exact hleaves.mishap hwell houtcome
  · refine ⟨fun ⟨reason, hreason⟩ => ((malformed_iff hwell).mp hreason).1, fun hnone => ?_⟩
    exact ⟨_, (malformed_iff hwell).mpr ⟨hnone, rfl⟩⟩
  · obtain ⟨error, hunfit⟩ := hunfit
    obtain ⟨trail, hleaves, hdepth⟩ := exists_leaves hbounded
    have hvalue : run.value = _ := hleaves.value_runThrough hdepth now
    rw [hvalue] at hvisited hbounded ⊢
    have hincomplete := hleaves.completion_ne_completed hwell helement hvisited hunfit
    rcases hcompletion : trail.outcome.completion with _ | error | _
    · exact absurd hcompletion hincomplete
    · exact ⟨error, rfl⟩
    · exact absurd hcompletion hbounded

end Engine

/-! ## Rules that are blank

A fork into a task that is done and one whose rules are blank. -/

namespace BlankRules

/-- The task without a rule. -/
def check : Element :=
  ⟨"check", none, .task .businessRule { TaskSpec.of "auditor" with rules := [" \n\t", ""] }⟩

/-- The process in pieces. -/
def pieces : List Piece :=
  [.element ⟨"start", none, .startEvent⟩, .element ⟨"fork", none, .parallelGateway⟩,
    .element ⟨"note", none, .task .service (TaskSpec.of "clerk")⟩, .element check,
    .sequence ["start", "fork", "note"], .sequence ["fork", "check"]]

/-- The pieces put together. -/
def process : Definition where
  id := "audit"
  name := none
  elements := [⟨"start", none, .startEvent⟩, ⟨"fork", none, .parallelGateway⟩,
    ⟨"note", none, .task .service (TaskSpec.of "clerk")⟩, check]
  flows := [⟨"start", "fork", none⟩, ⟨"fork", "note", none⟩, ⟨"fork", "check", none⟩]

/-- The engine for it. -/
def engine : Engine :=
  .builtin 10 .null "mine" process

/-- The beginning of the run. -/
def context : Context :=
  .start "mine" ⟨"i"⟩ []

theorem obtained : process.Obtained :=
  .built (show Definition.build "audit" pieces = .ok process by decide +kernel)

theorem unfit : ∃ error, check.Unfit error := by
  have hblank : TaskSpec.Ruleless { TaskSpec.of "auditor" with rules := [" \n\t", ""] } :=
    TaskSpec.ruleless_iff.mpr (by decide +kernel)
  exact ⟨_, hblank, rfl⟩

theorem visited : "check" ∈ (engine.runThrough process 2 context 0).value.2.path := by
  decide +kernel

theorem bounded : (engine.runThrough process 2 context 0).value.1 ≠ .unbounded := by
  decide +kernel

/-- The run fails, on one of the errors that it can fail on. -/
theorem run_fails :
    process.Obtained ∧ check ∈ process.elements ∧ (∃ error, check.Unfit error) ∧
      "check" ∈ (engine.runThrough process 2 context 0).value.2.path ∧
      (engine.runThrough process 2 context 0).value.1 ≠ .unbounded ∧
      ∃ error, (engine.runThrough process 2 context 0).value.1 = .failed error ∧
        Engine.Mishap process 10 (engine.runThrough process 2 context 0).value.2.path error := by
  have hcheck : check ∈ process.elements := by decide
  obtain ⟨-, -, hlevels⟩ := Engine.builtin_mishaps obtained 10 .null "mine" ⟨"i"⟩ [] 0
  obtain ⟨-, hmishap, -, hfails⟩ := hlevels 2
  obtain ⟨error, herror⟩ := hfails check hcheck unfit visited bounded
  exact ⟨obtained, hcheck, unfit, visited, bounded, error, herror, hmishap error herror⟩

example : (engine.runThrough process 2 context 0).value.1 =
    .failed (.executionFailed "check" "no rules to evaluate") := by decide +kernel

end BlankRules

end Workflow
