import Workflow.Definition.Builder
import Workflow.Definition.Load
import Workflow.Proofs.Failures
import Workflow.Proofs.Stage

/-!
# Traversals stay on the graph

A definition is put together from pieces or read from text, and either way it is validated before
anybody gets it.  So its flows lead between elements.  Every id that a traversal comes to is that of
the start, the target of a flow, or a join at which a branch stopped, and therefore the id of an
element.  What is left of the ways in which a process can turn out to be malformed is that nothing
starts it.

* `Definition.Obtained` — the ways to come by a definition.  What was loaded from a file was read in
  one of them (`Definition.obtained_of_ofFile`).
* `Engine.mem_ids_of_visitAt` — where a visit goes on, there is an element.
* `Engine.Passes.mem_ids`, `Engine.Descends.mem_ids` — at every stage of a traversal, and of the
  branches at every depth, there is an element.
* `Engine.runs_stay_on_graph` — a run finds its process malformed only if nothing starts it.
-/

namespace Workflow

/-! ## Definitions -/

namespace Definition

variable {definition : Definition}

/-- The ways to come by a definition. -/
inductive Obtained (definition : Definition) : Prop where
  /-- it was put together from pieces -/
  | built {id : String} {pieces : List Piece} (builds : build id pieces = .ok definition)
  /-- it was read from JSON text -/
  | json {text : String} (reads : ofJson text = .ok definition)
  /-- it was read from TOML text -/
  | toml {text : String} (reads : ofToml text = .ok definition)

/-- What was decoded and then validated is valid. -/
theorem validate_of_decoded {decoded : Except Error Definition}
    (h : (decoded >>= validated) = .ok definition) : definition.validate = .ok () := by
  rcases decoded with error | other
  · cases h
  · obtain ⟨rfl, hvalidate⟩ := eq_of_validated h
    exact hvalidate

/-- Whichever way it was obtained, it was validated. -/
theorem Obtained.validate (h : definition.Obtained) : definition.validate = .ok () := by
  cases h with
  | built builds =>
    obtain ⟨rfl, hvalidate⟩ := eq_of_validated builds
    exact hvalidate
  | json reads => exact validate_of_decoded reads
  | toml reads => exact validate_of_decoded reads

theorem Obtained.wellFormed (h : definition.Obtained) : definition.WellFormed :=
  wellFormed_of_validate h.validate

/-- What is in a file is JSON or TOML text. -/
theorem obtained_of_ofFile {path text : String} (h : ofFile path text = .ok definition) :
    definition.Obtained := by
  unfold ofFile at h
  split at h
  · exact .json h
  · exact .toml h
  · cases h

theorem starts_eq_nil_iff :
    definition.starts = [] ↔ ∀ element ∈ definition.elements, element.kind ≠ .startEvent := by
  rw [starts, List.filter_eq_nil_iff]
  refine forall₂_congr fun element _ => not_congr ?_
  cases element.kind <;> simp [ElementKind.isStart]

theorem start_of_starts_eq_nil (h : definition.starts = []) :
    definition.start = .error (.malformedProcess (.noStart definition.id)) := by
  rw [start, h]

theorem WellFormed.mem_ids_of_outgoing (h : definition.WellFormed) {id : String} {flow : Flow}
    (hflow : flow ∈ definition.outgoing id) : flow.target ∈ definition.ids :=
  (h.2 flow (List.mem_filter.mp hflow).1).2

theorem WellFormed.mem_ids_of_exits (h : definition.WellFormed) {id : String} {arc : Arc}
    (harc : arc ∈ definition.exits id) : arc.1.target ∈ definition.ids := by
  have hflow := List.mem_map_of_mem (f := Prod.fst) harc
  rw [map_fst_exits] at hflow
  exact h.mem_ids_of_outgoing hflow

end Definition

namespace Engine

variable {engine : Engine} {definition : Definition} {stage : Stage} {element : Element}

/-! ## Where visits go on -/

/-- A branch stops at joins that are elements. -/
theorem mem_ids_of_branching (hwell : definition.WellFormed) {levels : Nat} {context : Context}
    {id : String} {now : Nat} (hid : id ∈ definition.ids) {join : String}
    (hjoin : (engine.branching definition levels context id now).value.outcome.join? =
      some join) : join ∈ definition.ids := by
  rcases levels with _ | levels
  · cases hjoin
  rw [branching] at hjoin
  have hbounded : (engine.traverse definition levels true context id now).value.outcome ≠
      .unbounded := by
    intro hcut
    rw [hcut] at hjoin
    cases hjoin
  obtain ⟨trail, htraces, hdepth⟩ := exists_traces none hbounded
  rw [htraces.value_traverse hdepth] at hjoin
  exact hwell.mem_ids_of_reaches hid (htraces.reaches_join hjoin)

/-- Behind its branches a traversal goes on at a join at which one of them stopped. -/
theorem exists_join?_of_reunion {inBranch : Bool} {gateway : Element} {vars : Variables}
    {branches : List Traversal} {now : Nat} {target : String} {resumed : Bool}
    (h : (reunion definition inBranch gateway vars branches now).value.move =
      .go target resumed) : ∃ branch ∈ branches, branch.outcome.join? = some target := by
  unfold reunion at h
  dsimp only at h
  split at h
  · cases h
  · cases h
  · rename_i converged merged hreunite
    rw [reunite_of_succeeded (succeeded_of_reunite hreunite)] at hreunite
    obtain ⟨rfl, -⟩ := Reunion.joined.inj hreunite
    rcases hconv : convergence (branches.map Traversal.outcome) with _ | ⟨join, arrivals⟩
    · rw [hconv] at h
      cases h
    · rw [hconv, Timed.value_done, rejoin] at h
      split at h
      · cases h
      · cases h
        obtain ⟨outcome, houtcome, hjoin⟩ :=
          List.exists_of_findSome?_eq_some (convergence_eq_some hconv).1
        obtain ⟨branch, hbranch, rfl⟩ := List.mem_map.mp houtcome
        exact ⟨branch, hbranch, hjoin⟩

/-- A visit that begins branches is one at a fork. -/
theorem forksAt_of_split (enters : Enters definition stage element) {vars : Variables}
    {arcs : List Arc} (h : engine.step definition element vars = .split arcs) :
    ForksAt definition stage element := by
  obtain ⟨hkind, rfl, hmany⟩ := step_eq_split h
  refine ⟨enters, hkind, ?_⟩
  rwa [← Definition.map_fst_exits, List.length_map]

/-- Where a visit goes on, there is an element. -/
theorem mem_ids_of_visitAt (hwell : definition.WellFormed)
    (enters : Enters definition stage element) {target : String} {resumed : Bool}
    (h : (engine.visitAt definition stage element).value.move = .go target resumed) :
    target ∈ definition.ids := by
  rcases hstep : engine.step definition element (stage.arrived element).vars with
    ⟨outcome, after⟩ | ⟨arc, after⟩ | arcs
  · rw [visitAt, value_visit, hstep] at h
    cases h
  · rw [visitAt, value_visit, hstep] at h
    cases h
    exact hwell.mem_ids_of_exits (step_eq_go hstep).1
  · -- behind branches it is a join at which one of them stopped
    obtain ⟨now, hvisit⟩ := value_visitAt_of_forksAt engine (forksAt_of_split enters hstep)
    rw [hvisit] at h
    obtain ⟨traversal, htraversal, hjoin⟩ := exists_join?_of_reunion h
    obtain ⟨branch, hbranch, rfl⟩ := List.mem_map.mp htraversal
    obtain ⟨⟨flow, index⟩, hflow, rfl⟩ := List.mem_map.mp hbranch
    have houtgoing := List.fst_mem_of_mem_zipIdx hflow
    exact mem_ids_of_branching hwell (hwell.mem_ids_of_outgoing houtgoing) hjoin

/-! ## Every stage -/

theorem Passes.mem_ids (hwell : definition.WellFormed) {later : Stage} {path : List String}
    (h : engine.Passes definition stage path later) (hid : stage.id ∈ definition.ids) :
    later.id ∈ definition.ids := by
  induction h with
  | here => exact hid
  | on enters goes _ ih => exact ih (mem_ids_of_visitAt hwell enters goes)

/-- Branches, at every depth, begin at elements. -/
theorem Descends.mem_ids (hwell : definition.WellFormed)
    {chosen : List (Timed Traversal) → Nat → Prop} {root start : Stage}
    (h : engine.Descends definition chosen root start) (hid : root.id ∈ definition.ids) :
    start.id ∈ definition.ids := by
  cases h with
  | root => exact hid
  | branch _ _ _ leads _ => exact hwell.mem_ids_of_outgoing (List.mem_of_getElem? leads)

/-! ## Runs -/

/-- A run through a well-formed process finds it malformed if nothing starts it, and only then. -/
theorem malformed_iff (hwell : definition.WellFormed) {levels : Nat} {context : Context}
    {now : Nat} {reason : Malformation} :
    (engine.runThrough definition levels context now).value.1 =
        .failed (.malformedProcess reason) ↔
      (∀ element ∈ definition.elements, element.kind ≠ .startEvent) ∧
        reason = .noStart definition.id := by
  rw [← Definition.starts_eq_nil_iff]
  constructor
  · intro h
    obtain ⟨trail, hleaves, houtcome, -⟩ := exists_leaves_of_failed h
    rcases hleaves.exists_raises hwell houtcome with
      ⟨hnone, heq⟩ | heq | ⟨station, -, hfails | heq⟩
    · exact ⟨hnone, Error.malformedProcess.inj heq⟩
    · cases heq
    · -- whatever executors say, the error of a task is one of a task
      cases hfails.miscarries.isOfTask
    · cases heq
  · rintro ⟨hnone, rfl⟩
    rw [runThrough, Definition.start_of_starts_eq_nil hnone]
    rfl

/-- **Traversals stay on the graph.** Take a definition that was put together from pieces or read
from text, and any engine, context and time.  However deeply branches may be nested, a run fails on
a malformed process if and only if no element starts the process, and then for this reason.  And if
one does, then wherever the run comes to, and wherever the branches at any depth come to, there is
an element. -/
theorem runs_stay_on_graph (h : definition.Obtained) (engine : Engine) (levels : Nat)
    (context : Context) (now : Nat) :
    (∀ reason, (engine.runThrough definition levels context now).value.1 =
        .failed (.malformedProcess reason) ↔
      (∀ element ∈ definition.elements, element.kind ≠ .startEvent) ∧
        reason = .noStart definition.id) ∧
      ∀ start, definition.start = .ok start → ∀ (branch stage : Stage) (path : List String),
        engine.Descends definition (fun _ _ => True)
          (engine.outset levels false context start.id now) branch →
        engine.Passes definition branch path stage →
        ∃ element, definition.element? stage.id = some element := by
  have hwell := h.wellFormed
  refine ⟨fun reason => malformed_iff hwell, ?_⟩
  intro start hstart branch stage path hbranch hpasses
  have hid := hbranch.mem_ids hwell (mem_ids_of_start hstart)
  exact Definition.exists_element?_of_mem_ids (hpasses.mem_ids hwell hid)

end Engine

/-! ## An executor that blames the process

In a branch, an executor says that the process is malformed.  It is not, and the run does not find
it so. -/

namespace FalseAlarm

/-- The start. -/
def start : Element :=
  ⟨"start", none, .startEvent⟩

/-- A fork. -/
def fork : Element :=
  ⟨"fork", none, .parallelGateway⟩

/-- The task in one of the branches. -/
def task : Element :=
  ⟨"task", none, .task .service (TaskSpec.of "agent")⟩

/-- The process in pieces. -/
def pieces : List Piece :=
  [.element start, .element fork, .element task, .element ⟨"end", none, .endEvent⟩,
    .sequence ["start", "fork", "task"], .sequence ["fork", "end"]]

/-- The pieces put together. -/
def process : Definition where
  id := "alarm"
  name := none
  elements := [start, fork, task, ⟨"end", none, .endEvent⟩]
  flows := [⟨"start", "fork", none⟩, ⟨"fork", "task", none⟩, ⟨"fork", "end", none⟩]

/-- Blames the process, whatever it is asked to do. -/
def blaming : Executor where
  name := "blaming"
  execute _ := .now (.error (.malformedProcess (.stated "nothing starts it")))

/-- An engine with one agent. -/
def engine : Engine where
  maxSteps := 10
  evaluator := fun _ _ => true
  sink := .null
  agents := [("agent", ⟨some blaming, none, none, .null⟩)]
  processes := [("alarm", process)]

/-- The beginning of the run. -/
def context : Context :=
  .start "alarm" ⟨"i"⟩ []

/-- The stage at which the run begins. -/
def root : Stage :=
  engine.outset 3 false context "start" 0

/-- The stage at which it comes to the fork. -/
def forking : Stage :=
  root.next start (engine.visitAt process root start) "fork" false

/-- The stage at which the branch with the task begins. -/
def branch : Stage :=
  engine.branchAt forking fork 0 ⟨"fork", "task", none⟩

theorem obtained : process.Obtained :=
  .built (show Definition.build "alarm" pieces = .ok process by decide +kernel)

theorem descends : engine.Descends process (fun _ _ => True) root branch := by
  have enters : Engine.Enters process root start := ⟨rfl, rfl, by decide⟩
  have forks : Engine.ForksAt process forking fork := ⟨⟨rfl, rfl, by decide⟩, rfl, by decide⟩
  exact .branch .root (.on enters rfl (.here forking)) forks rfl trivial

/-- The run fails, but not on a malformed process, and where the branch begins there is an element.
-/
theorem not_malformed :
    process.Obtained ∧ process.start = .ok start ∧
      engine.Descends process (fun _ _ => True) root branch ∧
      (∃ element, process.element? branch.id = some element) ∧
      (∀ reason, (engine.runThrough process 3 context 0).value.1 ≠
        .failed (.malformedProcess reason)) ∧
      (engine.runThrough process 3 context 0).value.1 =
        .failed (.executionFailed "task" "Malformed process: nothing starts it") := by
  obtain ⟨hmalformed, hstages⟩ := Engine.runs_stay_on_graph obtained engine 3 context 0
  have hbranch := hstages start rfl branch branch [] descends (.here branch)
  refine ⟨obtained, rfl, descends, hbranch, fun reason hfailed => ?_, by decide +kernel⟩
  have hstart : start ∈ process.elements := by decide
  exact ((hmalformed reason).mp hfailed).1 start hstart rfl

end FalseAlarm

end Workflow
