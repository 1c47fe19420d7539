import Workflow.Proofs.Causes
import Workflow.Proofs.Executors
import Workflow.Proofs.Failures

/-!
# Whom errors blame

An executor that comes with the engine says only that it failed, and the agent adds the element of
the task.  So does whoever else finds that a visit cannot go on.  A fork hands on the error of a
branch as it is, but not before the paths of all its branches are on its own.  So an error that
names an element names one on the path, and where no branches begin it is the last one.

* `Engine.Plain` — the executors of all agents say only that they failed.
* `Engine.Raises.element?_eq` — the error of a visit names the element.
* `Definition.Forks` — branches begin at an element.
* `Engine.Traces.last_of_failed` — where no branches begin, the error names the last element.
* `Engine.errors_blame_visits` — the error of a run names an element that was visited.
-/

namespace Workflow

/-- Branches begin at the element of an id. -/
def Definition.Forks (definition : Definition) (id : String) : Prop :=
  ∃ element, definition.element? id = some element ∧ element.kind = .parallelGateway ∧
    1 < (definition.outgoing id).length

namespace Engine

variable {engine : Engine} {definition : Definition} {element : Element} {vars : Variables}
  {error : Error}

/-! ## The errors of visits -/

/-- All executors of all agents say no more than that they failed. -/
def Plain (engine : Engine) : Prop :=
  ∀ entry ∈ engine.agents, entry.2.Plain

theorem Miscarries.element?_eq (hplain : engine.Plain)
    (h : engine.Miscarries element vars error) : error.element? = some element.id := by
  cases h with
  | unserved => rfl
  | unassigned => rfl
  | failed task served assigned fails =>
    obtain ⟨category, hexecutor⟩ := exists_executor?_of_assign assigned
    obtain ⟨message, rfl⟩ := hplain _ (Table.mem_of_get? served) category _ hexecutor _ _ fails
    rfl

theorem Raises.element?_eq (hplain : engine.Plain) (h : engine.Raises error element vars) :
    error.element? = some element.id := by
  rcases h with hfails | rfl
  · exact hfails.miscarries.element?_eq hplain
  · rfl

/-! ## Where no branches begin -/

theorem forks_of_split {id : String} {arcs : List Arc}
    (found : definition.element? id = some element)
    (does : engine.step definition element vars = .split arcs) : definition.Forks element.id := by
  obtain ⟨hkind, rfl, hmany⟩ := step_eq_split does
  rw [← List.length_map Prod.fst, Definition.map_fst_exits] at hmany
  refine ⟨element, ?_, hkind, hmany⟩
  rw [Definition.id_of_element? found, found]

/-- Where no branches begin, an error that names an element names the one that was visited last. -/
theorem Traces.last_of_failed (hplain : engine.Plain) {inBranch : Bool} {remaining : Nat}
    {resumed : Bool} {came : Option Arc} {id blamed : String} {trail : Trail}
    (h : engine.Traces definition inBranch remaining resumed came vars id trail)
    (hfailed : trail.outcome = .failed error) (hblamed : error.element? = some blamed)
    (hforks : ∀ other ∈ trail.path, ¬ definition.Forks other) :
    trail.path.getLast? = some blamed ∧ trail.last? = some blamed := by
  induction h with
  | missing =>
    cases hfailed
    cases hblamed
  | join => cases hfailed
  | limit =>
    cases hfailed
    cases hblamed
  | stop _ _ does =>
    obtain rfl : _ = Outcome.failed error := hfailed
    rw [Raises.element?_eq hplain (step_eq_failed does)] at hblamed
    rw [Trail.path_visit, Trail.path_halt]
    exact ⟨hblamed, hblamed⟩
  | go _ _ _ _ ih =>
    rw [Trail.path_visit, List.flatMap_nil, List.nil_append] at hforks ⊢
    obtain ⟨hpath, hlast⟩ := ih hfailed fun other hother =>
      hforks other (List.mem_cons_of_mem _ hother)
    rw [List.getLast?_cons, hpath, Trail.last?, hlast]
    exact ⟨rfl, rfl⟩
  | part found _ does =>
    rw [Trail.path_visit] at hforks
    exact absurd (forks_of_split found does) (hforks _ List.mem_cons_self)
  | meet found _ does =>
    rw [Trail.path_visit] at hforks
    exact absurd (forks_of_split found does) (hforks _ List.mem_cons_self)

/-! ## Runs -/

section Run

variable {context : Context} {trail : Trail} {blamed : String}

/-- An error that names an element names one that was visited, be it in a branch. -/
theorem Leaves.mem_path_of_failed (hwell : definition.WellFormed) (hplain : engine.Plain)
    (h : engine.Leaves definition context trail) (hfailed : trail.outcome = .failed error)
    (hblamed : error.element? = some blamed) : blamed ∈ trail.path := by
  rcases h.exists_raises hwell hfailed with ⟨-, rfl⟩ | rfl | ⟨station, hstation, hraises⟩
  · cases hblamed
  · cases hblamed
  · rw [hraises.element?_eq hplain] at hblamed
    obtain rfl := Option.some.inj hblamed
    exact Trail.mem_path_of_mem_stations hstation

theorem Leaves.last_of_failed (hplain : engine.Plain) (h : engine.Leaves definition context trail)
    (hfailed : trail.outcome = .failed error) (hblamed : error.element? = some blamed)
    (hforks : ∀ other ∈ trail.path, ¬ definition.Forks other) :
    trail.path.getLast? = some blamed ∧ trail.last? = some blamed := by
  cases h with
  | nothing unstarted =>
    obtain rfl := Outcome.failed.inj hfailed
    obtain ⟨-, rfl⟩ := start_eq_error unstarted
    cases hblamed
  | traces _ goes => exact goes.last_of_failed hplain hfailed hblamed hforks

end Run

/-- **Errors blame what was visited.** The executors that come with the engine say no more than that
they failed.  Where this holds of the executors of all agents, take a run through a definition that
was validated, however deeply its branches may be nested.  If it fails on an error that names an
element, then this is an element of the definition, and it is on the path by which the run went on,
also if it was visited in a branch.  And if the run visited no element at which branches begin, it
is the last one on the path, and the current one. -/
theorem errors_blame_visits (h : definition.validate = .ok ()) :
    (∀ executor : Executor, executor.Provided → executor.Plain) ∧
      ∀ engine : Engine, engine.Plain →
        ∀ (levels : Nat) (context : Context) (now : Nat) (error : Error) (blamed : String),
          let run := engine.runThrough definition levels context now
          run.value.1 = .failed error → error.element? = some blamed →
          ∃ visited : List String, run.value.2.path = context.path ++ visited ∧
            blamed ∈ visited ∧ blamed ∈ definition.ids ∧
            ((∀ other ∈ visited, ¬ definition.Forks other) →
              run.value.2.path.getLast? = some blamed ∧ run.value.2.current = some blamed) := by
  refine ⟨fun executor hprovided => hprovided.plain, ?_⟩
  intro engine hplain levels context now error blamed run hfailed hblamed
  obtain ⟨trail, hleaves, houtcome, hafter⟩ := exists_leaves_of_failed hfailed
  have hvisited := hleaves.mem_path_of_failed (Definition.wellFormed_of_validate h) hplain houtcome
    hblamed
  rw [hafter]
  refine ⟨trail.path, rfl, hvisited, hleaves.mem_ids _ hvisited, fun hforks => ?_⟩
  obtain ⟨hpath, hlast⟩ := hleaves.last_of_failed hplain houtcome hblamed hforks
  constructor
  · rw [Context.after, Trail.traversal, List.getLast?_append, hpath]
    rfl
  · rw [Context.after, Trail.traversal, hlast]
    rfl

end Engine

/-! ## A task without rules and one to be sent

Two runs that fail: one in a branch of a branch, and one that begins no branches. -/

namespace Culprits

/-- A fork within a fork. One of the innermost tasks has no rules. -/
def nested : Definition where
  id := "nested"
  name := none
  elements := [⟨"start", none, .startEvent⟩, ⟨"outer", none, .parallelGateway⟩,
    ⟨"inner", none, .parallelGateway⟩,
    ⟨"rules", none, .task .businessRule (TaskSpec.of "agent")⟩,
    ⟨"note", none, .task .service (TaskSpec.of "agent")⟩, ⟨"end", none, .endEvent⟩]
  flows := [⟨"start", "outer", none⟩, ⟨"outer", "inner", none⟩, ⟨"outer", "end", none⟩,
    ⟨"inner", "rules", none⟩, ⟨"inner", "note", none⟩]

/-- A note, and something to be sent. -/
def line : Definition where
  id := "line"
  name := none
  elements := [⟨"start", none, .startEvent⟩,
    ⟨"note", none, .task .service (TaskSpec.of "agent")⟩,
    ⟨"post", none, .task .send (TaskSpec.of "agent")⟩]
  flows := [⟨"start", "note", none⟩, ⟨"note", "post", none⟩]

/-- An engine with one agent. -/
def engine : Engine where
  maxSteps := 10
  evaluator := Evaluator.conditions
  sink := .null
  agents := [("agent", Agent.builtin .null Evaluator.conditions)]
  processes := [("line", line), ("nested", nested)]

/-- The beginning of a run that is resumed behind an earlier one. -/
def context (process : String) : Context :=
  { Context.start process ⟨"i"⟩ [] with path := ["before"] }

theorem plain : engine.Plain := by
  intro entry hentry
  obtain rfl := List.mem_singleton.mp hentry
  exact Agent.plain_builtin .null Evaluator.conditions

theorem nested_valid : nested.validate = .ok () := by
  decide +kernel

theorem line_valid : line.validate = .ok () := by
  decide +kernel

theorem nested_fails : (engine.runThrough nested 3 (context "nested") 0).value.1 =
    .failed (.executionFailed "rules" "no rules to evaluate") := by
  decide +kernel

theorem line_fails : (engine.runThrough line 1 (context "line") 0).value.1 =
    .failed (.unsupportedTask "post" "sendTask") := by
  decide +kernel

theorem line_not_forks (id : String) : ¬ line.Forks id := by
  rintro ⟨element, hfound, hkind, -⟩
  have hparallel : ∀ element ∈ line.elements, element.kind ≠ .parallelGateway := by decide
  exact hparallel element (Definition.mem_of_element? hfound) hkind

/-- The first run names the task of the inner branch, which it visited.  The second one stands where
it failed. -/
theorem culprits_are_named :
    Executor.Provided .template ∧ Executor.Plain .template ∧
      engine.Plain ∧ nested.validate = .ok () ∧ line.validate = .ok () ∧
      (∃ visited, (engine.runThrough nested 3 (context "nested") 0).value.2.path =
        ["before"] ++ visited ∧ "rules" ∈ visited) ∧
      (engine.runThrough line 1 (context "line") 0).value.2.path.getLast? = some "post" ∧
      (engine.runThrough line 1 (context "line") 0).value.2.current = some "post" := by
  obtain ⟨hprovided, hnested⟩ := Engine.errors_blame_visits nested_valid
  obtain ⟨visited, hpath, hrules, -, -⟩ := hnested engine plain 3 (context "nested") 0
    (.executionFailed "rules" "no rules to evaluate") "rules" nested_fails rfl
  obtain ⟨-, hline⟩ := Engine.errors_blame_visits line_valid
  obtain ⟨_, -, -, -, hlast⟩ := hline engine plain 1 (context "line") 0
    (.unsupportedTask "post" "sendTask") "post" line_fails rfl
  refine ⟨.template, hprovided _ .template, plain, nested_valid, line_valid,
    ⟨visited, hpath, hrules⟩, hlast fun other _ => line_not_forks other⟩

end Culprits

end Workflow
