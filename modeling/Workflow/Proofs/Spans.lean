import Workflow.Proofs.History.Tells
import Workflow.Proofs.Table
import Workflow.Proofs.Trail.Reach

/-!
# Spans and paths

Every task that is visited is executed and reported once, by the agent that ran it or by the engine
if there is none, whether it gave a value or not.  So where all of them report to one recording, the
recording has a span for each visit to a task on the path, also on the path of a run that failed.

* `Delivery.recordedIn` — the spans that come into a recording.
* `Engine.Traces.gives` — in a traversal that ended well, every task gave a value.
* `Engine.Traces.exists_raises` — where the error of a traversal comes from.
* `Engine.Traces.exists_fails` — in a traversal that failed on the error of a task, a task gave it.
* `Engine.spans_of_path` — the spans of a run are those of the tasks on its path.
-/

namespace Workflow

/-! ## Recordings -/

/-- The spans that deliveries put into the recording of a name, in order. -/
def Delivery.recordedIn (name : String) (deliveries : List Delivery) : List Span :=
  deliveries.filterMap fun
    | .recorded other span => if other = name then some span else none
    | _ => none

/-- Which execution of a task a span is about. -/
structure Execution where
  /-- the id of the task -/
  taskId : String
  /-- the name of the task's kind -/
  kind : String
  /-- the id of the process -/
  processId : String
  /-- the id of the run or of the branch -/
  instanceId : String
deriving DecidableEq, Repr

/-- Whether an error is one of a task: of a missing agent, a kind that the agent cannot run, or of
the executor. -/
def Error.isOfTask : Error → Bool
  | unknownAgent _ _ => true
  | unsupportedTask _ _ => true
  | executionFailed _ _ => true
  | _ => false

/-- The execution that a span is about. -/
def Span.execution (span : Span) : Execution :=
  ⟨span.taskId, span.kind, span.processId, span.instanceId⟩

/-- The execution that a report is about. -/
def Report.execution (report : Report) : Execution :=
  ⟨report.taskId, report.kind, report.processId, report.instanceId⟩

/-- The execution of the element of a visit, in a run of a process. -/
def Station.execution (processId : String) (id : InstanceId) (station : Station) : Execution :=
  ⟨station.element.id, station.element.kind.name, processId, (id.descend station.places).text⟩

/-- Whether an element is a task. -/
def Element.isTask (element : Element) : Bool :=
  element.kind.task?.isSome

/-- Whether the element of an id is a task. -/
def Definition.isTask (definition : Definition) (id : String) : Bool :=
  (definition.element? id).any Element.isTask

/-- The spans in a recording are what was reported, if all was reported to it. -/
theorem History.map_recordedIn {name : String} {history : History}
    (h : ∀ report ∈ history.reports, report.sink = .recording name) :
    (Delivery.recordedIn name history.deliveries).map (Report.of (.recording name)) =
      history.reports := by
  induction history with
  | nil => rfl
  | cons entry history ih =>
    obtain ⟨now, record | ⟨sink, span⟩⟩ := entry
    · exact ih h
    · rw [reports_reported] at h ⊢
      obtain ⟨hsink, hmore⟩ := List.forall_mem_cons.mp h
      obtain rfl : sink = .recording name := hsink
      rw [← ih hmore]
      simp [deliveries, Delivery.recordedIn, Occurrence.deliveries, Sink.report, Sink.take]

namespace Engine

variable {engine : Engine} {definition : Definition}

/-- The engine and all its agents report to one recording. -/
structure RecordsIn (engine : Engine) (name : String) : Prop where
  /-- the engine does, of tasks without an agent -/
  unserved : engine.sink = .recording name
  /-- every agent does -/
  agents : ∀ entry ∈ engine.agents, entry.2.sink = .recording name

theorem RecordsIn.sinkOf {name : String} (h : engine.RecordsIn name) (spec : TaskSpec) :
    engine.sinkOf spec = .recording name := by
  unfold Engine.sinkOf
  rcases hagent : engine.agent? spec.agent with _ | agent
  · exact h.unserved
  · exact h.agents _ (Table.mem_of_get? hagent)

theorem sink_of_mem_reportsOf {name : String} (h : engine.RecordsIn name) {processId : String}
    {id : InstanceId} {stations : List Station} :
    ∀ report ∈ engine.reportsOf processId id stations, report.sink = .recording name := by
  intro report hreport
  obtain ⟨station, -, hstation⟩ := List.mem_filterMap.mp hreport
  obtain ⟨spec, -, rfl⟩ := Option.map_eq_some_iff.mp hstation
  exact h.sinkOf spec

/-- The report of a visit is about its element, if that is a task. -/
theorem map_execution_reportOf (processId : String) (id : InstanceId) (station : Station) :
    (engine.reportOf processId (id.descend station.places) station.element station.vars).map
        Report.execution =
      if station.element.isTask then some (station.execution processId id) else none := by
  unfold reportOf Element.isTask
  rcases station.element.kind.task? with _ | spec <;> rfl

/-- The reports of visits are about the tasks among them. -/
theorem map_execution_reportsOf (engine : Engine) (processId : String) (id : InstanceId)
    (stations : List Station) :
    (engine.reportsOf processId id stations).map Report.execution =
      (stations.filter (·.element.isTask)).map (Station.execution processId id) := by
  rw [reportsOf, List.map_filterMap]
  simp only [map_execution_reportOf]
  induction stations with
  | nil => rfl
  | cons station more ih =>
    by_cases htask : station.element.isTask = true <;> simp [htask, ih]

/-! ## What tasks give -/

/-- The element is no task, or its task gives a value. -/
def Gives (engine : Engine) (element : Element) (vars : Variables) : Prop :=
  ∀ spec, element.kind.task? = some spec → ∃ value, engine.perform element spec vars = .ok value

/-- The element is a task, and its task gives an error. -/
def Fails (engine : Engine) (error : Error) (element : Element) (vars : Variables) : Prop :=
  ∃ spec, element.kind.task? = some spec ∧ engine.perform element spec vars = .error error

/-- A visit ends its traversal on an error: on that of its task, or because no flow out of a gateway
can be taken. -/
def Raises (engine : Engine) (error : Error) (element : Element) (vars : Variables) : Prop :=
  engine.Fails error element vars ∨ error = .noMatchingCondition element.id

theorem Works.gives {element : Element} {vars after : Variables}
    (h : engine.Works element vars after) : engine.Gives element vars := by
  intro spec hspec
  cases h with
  | idle hidle =>
    rw [hidle] at hspec
    cases hspec
  | @stored spec' value htask performs =>
    rw [htask] at hspec
    cases hspec
    exact ⟨value, performs⟩

theorem gives_of_split {element : Element} {vars : Variables} {arcs : List Arc}
    (h : engine.step definition element vars = .split arcs) : engine.Gives element vars := by
  intro spec hspec
  rw [(step_eq_split h).1] at hspec
  cases hspec

/-- A visit fails on the error of its task, or at a gateway that no flow leaves. -/
theorem step_eq_failed {element : Element} {vars after : Variables} {error : Error}
    (h : engine.step definition element vars = .stop (.failed error) after) :
    engine.Raises error element vars := by
  unfold step at h
  split at h
  case h_1 => cases h
  case h_2 => cases (depart_eq_stop h).1
  case h_3 hkind =>
    split at h
    · cases (depart_eq_stop h).1
    · rename_i hperform
      cases h
      exact Or.inl ⟨_, by rw [hkind]; rfl, hperform⟩
  case h_4 =>
    split at h
    · cases h
    · cases h
      exact Or.inr rfl
  case h_5 =>
    split at h
    · cases h
    · cases (depart_eq_stop h).1

section Traces

variable {inBranch : Bool} {remaining : Nat} {resumed : Bool} {came : Option Arc}
  {vars : Variables} {id : String} {trail : Trail}

/-- In a traversal that ended well, every task gave a value. -/
theorem Traces.gives
    (h : engine.Traces definition inBranch remaining resumed came vars id trail)
    (hended : trail.outcome.succeeded = true) :
    ∀ station ∈ trail.stations, engine.Gives station.element station.vars := by
  induction h with
  | missing => simp
  | join => simp
  | limit => simp
  | stop _ _ does =>
    rw [Trail.forall_stations_visit]
    refine ⟨?_, by simp, by simp⟩
    rcases step_eq_stop does with ⟨⟨_, rfl⟩, -⟩ | ⟨-, hworks⟩
    · cases hended
    · exact hworks.gives
  | go _ _ does _ ih =>
    rw [Trail.forall_stations_visit]
    exact ⟨(step_eq_go does).2.gives, by simp, ih hended⟩
  | part _ _ does _ ends ihe =>
    rw [Trail.forall_stations_visit]
    refine ⟨gives_of_split does, ?_, by simp⟩
    intro branch hbranch
    have hbranches := succeeded_of_sequel_eq_stop ends hended branch hbranch
    obtain ⟨arc, harc, rfl⟩ := List.mem_map.mp hbranch
    exact ihe arc harc hbranches
  | meet _ _ does _ meets _ ihe ih =>
    rw [Trail.forall_stations_visit]
    refine ⟨gives_of_split does, ?_, ih hended⟩
    intro branch hbranch
    have hbranches := (sequel_eq_resume meets).1 branch hbranch
    obtain ⟨arc, harc, rfl⟩ := List.mem_map.mp hbranch
    exact ihe arc harc hbranches

/-- A traversal that fails came to an id under which there is no element, or to the limit, or it
fails on the error of a visit. -/
theorem Traces.exists_raises
    (h : engine.Traces definition inBranch remaining resumed came vars id trail) {error : Error}
    (hfailed : trail.outcome = .failed error) :
    (∃ missing, definition.Reaches id missing ∧ definition.element? missing = none ∧
        error = .malformedProcess (.missingElement missing definition.id)) ∨
      error = .stepLimitExceeded engine.maxSteps ∨
      ∃ station ∈ trail.stations, engine.Raises error station.element station.vars := by
  induction h with
  | missing absent =>
    cases hfailed
    exact Or.inl ⟨_, Relation.ReflTransGen.refl, absent, rfl⟩
  | join => cases hfailed
  | limit =>
    cases hfailed
    exact Or.inr (Or.inl rfl)
  | stop _ _ does =>
    obtain rfl : _ = Outcome.failed error := hfailed
    exact Or.inr (Or.inr ⟨_, by rw [Trail.stations_visit]; exact List.mem_cons_self,
      step_eq_failed does⟩)
  | go found _ does _ ih =>
    rcases ih hfailed with ⟨missing, hreach, hmissing⟩ | hlimit | ⟨station, hstation, hraises⟩
    · have harc := (step_eq_go does).1
      exact Or.inl ⟨missing, Definition.reaches_of_found_exits found harc hreach, hmissing⟩
    · exact Or.inr (Or.inl hlimit)
    · exact Or.inr (Or.inr ⟨station, by simp [hstation], hraises⟩)
  | part found _ does _ ends ihe =>
    obtain rfl : _ = Outcome.failed error := hfailed
    rcases sequel_eq_stop ends with
      ⟨⟨branch, hbranch, houtcome⟩, -⟩ | ⟨-, -, ⟨-, hfinished⟩ | ⟨_, _, -, -, -, hjoin⟩⟩
    · -- the fork hands on the error of one of its branches
      obtain ⟨arc, harc, rfl⟩ := List.mem_map.mp hbranch
      rcases ihe arc harc houtcome with
        ⟨missing, hreach, hmissing⟩ | hlimit | ⟨station, hstation, hraises⟩
      · have hexits := (step_eq_split does).2.1 ▸ harc
        exact Or.inl ⟨missing, Definition.reaches_of_found_exits found hexits hreach, hmissing⟩
      · exact Or.inr (Or.inl hlimit)
      · obtain ⟨index, hindex⟩ := List.getElem?_of_mem hbranch
        refine Or.inr (Or.inr ⟨station.under index, ?_, hraises⟩)
        simp only [Trail.stations_visit, List.mem_cons, List.mem_append]
        exact Or.inr (Or.inl (Trail.mem_inBranches.mpr ⟨_, index, hindex, station, hstation, rfl⟩))
    · cases hfinished
    · cases hjoin
  | meet found _ does each meets _ _ ih =>
    rcases ih hfailed with ⟨missing, hreach, hmissing⟩ | hlimit | ⟨station, hstation, hraises⟩
    · obtain ⟨arc, harc, hjoin⟩ := reaches_of_resume does each meets
      exact Or.inl ⟨missing, Definition.reaches_of_found_exits found harc (hjoin.trans hreach),
        hmissing⟩
    · exact Or.inr (Or.inl hlimit)
    · exact Or.inr (Or.inr ⟨station, by simp [hstation], hraises⟩)

/-- In a traversal that failed on the error of a task, a task gave it. -/
theorem Traces.exists_fails
    (h : engine.Traces definition inBranch remaining resumed came vars id trail) {error : Error}
    (hfailed : trail.outcome = .failed error) (htask : error.isOfTask = true) :
    ∃ station ∈ trail.stations, engine.Fails error station.element station.vars := by
  rcases h.exists_raises hfailed with ⟨_, -, -, rfl⟩ | rfl | ⟨station, hstation, hfails | rfl⟩
  · cases htask
  · cases htask
  · exact ⟨station, hstation, hfails⟩
  · cases htask

end Traces

/-! ## Where no time passes -/

/-- No executor of any agent takes time. -/
def Prompt (engine : Engine) : Prop :=
  ∀ entry ∈ engine.agents, ∀ category executor, entry.2.executor? category = some executor →
    ∀ request, (executor.execute request).delay = 0

end Engine

/-- All happens at once. -/
def History.AtOnce (start finish : Nat) (history : History) : Prop :=
  finish = start ∧ ∀ entry ∈ history, entry.1 = start

theorem History.law_atOnce : Timed.Law History.AtOnce where
  done now occurrences := ⟨rfl, by simp⟩
  andThen := by
    rintro start _ _ first second ⟨rfl, hfirst⟩ ⟨rfl, hsecond⟩
    exact ⟨rfl, fun entry hentry => (List.mem_append.mp hentry).elim (hfirst entry) (hsecond entry)⟩
  all {now parts} hparts := by
    constructor
    · induction parts with
      | nil => rfl
      | cons part more ih =>
        obtain ⟨⟨hpart, -⟩, hmore⟩ := List.forall_mem_cons.mp hparts
        rw [List.foldl_cons, hpart, Nat.max_self]
        exact ih hmore
    · intro entry hentry
      obtain ⟨part, hpart, hmem⟩ := List.mem_flatMap.mp (mem_inTime.mp hentry)
      exact (hparts part hpart).2 entry hmem

namespace Engine

variable {engine : Engine} {definition : Definition}

theorem exists_executor?_of_assign {agent : Agent} {element : Element} {spec : TaskSpec}
    {instructions : String} {executor : Executor}
    (h : agent.assign element = .ok (spec, instructions, executor)) :
    ∃ category, agent.executor? category = some executor := by
  unfold Agent.assign at h
  split at h
  · split at h
    · rename_i hexecutor
      cases h
      exact ⟨_, hexecutor⟩
    · cases h
  · cases h

theorem atOnce_runTask (h : engine.Prompt) (element : Element) (spec : TaskSpec)
    (context : Context) (now : Nat) :
    (engine.runTask element spec context now).Obeys History.AtOnce now := by
  unfold runTask
  split
  · rename_i agent hagent
    refine History.law_atOnce.obeys_andThen ?_ fun _ _ => History.law_atOnce.obeys_done _ _ _
    unfold Agent.invoke
    split
    · exact History.law_atOnce.obeys_done _ _ _
    · rename_i spec' instructions executor hassign
      obtain ⟨category, hexecutor⟩ := exists_executor?_of_assign hassign
      have hdelay := h _ (Table.mem_of_get? hagent) category executor hexecutor
      constructor
      · simp [hdelay]
      · simp
  · exact History.law_atOnce.obeys_done _ _ _

/-! ## What is reported of tasks -/

/-- Where all tasks gave values, all reports tell of success. -/
theorem success_of_mem_reportsOf {processId : String} {id : InstanceId} {stations : List Station}
    (h : ∀ station ∈ stations, engine.Gives station.element station.vars) :
    ∀ report ∈ engine.reportsOf processId id stations, report.success = true := by
  intro report hreport
  obtain ⟨station, hstation, hreport⟩ := List.mem_filterMap.mp hreport
  obtain ⟨spec, hspec, rfl⟩ := Option.map_eq_some_iff.mp hreport
  obtain ⟨value, hvalue⟩ := h station hstation spec hspec
  simp [hvalue, Agent.errorOf]

/-- Where a task gave an error, a report tells of it. -/
theorem exists_mem_reportsOf {processId : String} {id : InstanceId} {stations : List Station}
    {station : Station} (hstation : station ∈ stations) {error : Error}
    (h : engine.Fails error station.element station.vars) :
    ∃ report ∈ engine.reportsOf processId id stations,
      report.success = false ∧ report.error = some error.message := by
  obtain ⟨spec, hspec, herror⟩ := h
  refine ⟨_, List.mem_filterMap.mpr ⟨station, hstation, Option.map_eq_some_iff.mpr
    ⟨spec, hspec, rfl⟩⟩, ?_⟩
  simp [herror, Agent.errorOf]

/-! ## Runs -/

section Run

variable {context : Context} {trail : Trail}

theorem Leaves.gives (h : engine.Leaves definition context trail)
    (hcompleted : trail.outcome.completion = .completed) :
    ∀ station ∈ trail.stations, engine.Gives station.element station.vars := by
  cases h with
  | nothing => cases hcompleted
  | traces _ goes => exact goes.gives (Outcome.succeeded_of_completion hcompleted)

theorem Leaves.exists_fails (h : engine.Leaves definition context trail) {error : Error}
    (hfailed : trail.outcome.completion = .failed error) (htask : error.isOfTask = true) :
    ∃ station ∈ trail.stations, engine.Fails error station.element station.vars := by
  cases h with
  | nothing unstarted =>
    cases hfailed
    unfold Definition.start at unstarted
    split at unstarted
    · cases unstarted
    · cases unstarted
      cases htask
  | traces _ goes => exact goes.exists_fails (Outcome.eq_failed_of_completion hfailed) htask

/-- The tasks among the visits are those on the path. -/
theorem Leaves.map_taskId (h : engine.Leaves definition context trail) (processId : String)
    (id : InstanceId) :
    ((trail.stations.filter (·.element.isTask)).map (Station.execution processId id)).map
        Execution.taskId =
      (trail.stations.map (·.element.id)).filter definition.isTask := by
  have htask : ∀ station ∈ trail.stations,
      definition.isTask station.element.id = station.element.isTask := by
    intro station hstation
    rw [Definition.isTask, h.element?_of_mem station hstation]
    rfl
  rw [List.map_map, List.filter_map, ← List.filter_congr htask]
  rfl

end Run

/-- **Spans and path agree.** Let an engine and all its agents report to one recording, and let a
run not be cut off for its nesting.  Then the spans in the recording are those of the tasks on the
path: there is one for every visit to a task, with the id and the kind of that task, the id of the
process, and the id of the run followed by the places of the branches in which the visit was.  If
the run completed, they all tell of success; if it failed on the error of a task, one of them tells
of that error.  And if no executor takes time, they come in the order of the path. -/
theorem spans_of_path (engine : Engine) (definition : Definition) (levels : Nat)
    (context : Context) (now : Nat) (name : String) (hrecords : engine.RecordsIn name)
    (hbounded : (engine.runThrough definition levels context now).value.1 ≠ .unbounded) :
    let run := engine.runThrough definition levels context now
    let spans := Delivery.recordedIn name run.history.deliveries
    ∃ trail, engine.Leaves definition context trail ∧
      run.value.2.path = context.path ++ trail.stations.map (·.element.id) ∧
      (spans.map Span.taskId).Perm
        ((trail.stations.map (·.element.id)).filter definition.isTask) ∧
      (spans.map Span.execution).Perm ((trail.stations.filter (·.element.isTask)).map
        (Station.execution context.processId context.instanceId)) ∧
      (run.value.1 = .completed → ∀ span ∈ spans, span.success = true) ∧
      (∀ error, run.value.1 = .failed error → error.isOfTask = true →
        ∃ span ∈ spans, span.success = false ∧ span.error = some error.message) ∧
      (engine.Prompt →
        spans.map Span.taskId = (trail.stations.map (·.element.id)).filter definition.isTask ∧
        spans.map Span.execution = (trail.stations.filter (·.element.isTask)).map
          (Station.execution context.processId context.instanceId)) := by
  intro run spans
  obtain ⟨trail, hleaves, hdepth⟩ := exists_leaves hbounded
  have hvalue := hleaves.value_runThrough hdepth now
  have htells := hleaves.tells hdepth now
  have hsinks : ∀ report ∈ run.history.reports, report.sink = .recording name := by
    intro report hreport
    exact sink_of_mem_reportsOf hrecords report (htells.perm_reports.mem_iff.mp hreport)
  have hspans : spans.map (Report.of (.recording name)) = run.history.reports :=
    History.map_recordedIn hsinks
  have hexecutions : spans.map Span.execution = run.history.reports.map Report.execution := by
    rw [← hspans, List.map_map]
    rfl
  have htaskIds : spans.map Span.taskId = (spans.map Span.execution).map Execution.taskId := by
    rw [List.map_map]
    rfl
  have hperm : (spans.map Span.execution).Perm ((trail.stations.filter (·.element.isTask)).map
      (Station.execution context.processId context.instanceId)) := by
    rw [hexecutions, ← map_execution_reportsOf engine]
    exact htells.perm_reports.map _
  refine ⟨trail, hleaves, ?_, ?_, hperm, ?_, ?_, ?_⟩
  · rw [Trail.map_id_stations]
    exact congrArg (·.2.path) hvalue
  · rw [htaskIds, ← hleaves.map_taskId]
    exact hperm.map _
  · intro hcompleted span hspan
    rw [hvalue] at hcompleted
    have hreport := List.mem_map_of_mem (f := Report.of (.recording name)) hspan
    rw [hspans, htells.perm_reports.mem_iff] at hreport
    exact success_of_mem_reportsOf (hleaves.gives hcompleted) _ hreport
  · intro error hfailed htask
    rw [hvalue] at hfailed
    obtain ⟨station, hstation, hfails⟩ := hleaves.exists_fails hfailed htask
    obtain ⟨report, hreport, hfailure⟩ := exists_mem_reportsOf hstation hfails
    rw [← htells.perm_reports.mem_iff, ← hspans] at hreport
    obtain ⟨span, hspan, rfl⟩ := List.mem_map.mp hreport
    exact ⟨span, hspan, hfailure⟩
  · intro hprompt
    have hatOnce : run.Obeys History.AtOnce now :=
      obeys_runThrough History.law_atOnce (atOnce_runTask hprompt) levels context now
    have heq : spans.map Span.execution = (trail.stations.filter (·.element.isTask)).map
        (Station.execution context.processId context.instanceId) := by
      rw [hexecutions, htells.reports_eq hatOnce.2, map_execution_reportsOf]
    refine ⟨?_, heq⟩
    rw [htaskIds, heq, hleaves.map_taskId]

end Engine

/-! ## A run that fails in a branch

One of two branches gives a value, and the other one fails at a task that no agent runs. -/

namespace Unattended

/-- A fork into a task and into a fork of a task and one without an agent. -/
def process : Definition where
  id := "unattended"
  name := none
  elements := [⟨"start", none, .startEvent⟩, ⟨"first", none, .task .script (TaskSpec.of "agent")⟩,
    ⟨"outer", none, .parallelGateway⟩, ⟨"alone", none, .task .service (TaskSpec.of "agent")⟩,
    ⟨"inner", none, .parallelGateway⟩, ⟨"left", none, .task .user (TaskSpec.of "agent")⟩,
    ⟨"right", none, .task .send (TaskSpec.of "nobody")⟩, ⟨"end", none, .endEvent⟩]
  flows := [⟨"start", "first", none⟩, ⟨"first", "outer", none⟩, ⟨"outer", "alone", none⟩,
    ⟨"outer", "inner", none⟩, ⟨"inner", "left", none⟩, ⟨"inner", "right", none⟩,
    ⟨"alone", "end", none⟩, ⟨"left", "end", none⟩]

/-- An engine with one agent. -/
def engine : Engine where
  maxSteps := 10
  evaluator := fun _ _ => true
  sink := .recording "spans"
  agents := [("agent", ⟨some (.constant (.int 1) 0), none, some .template, .recording "spans"⟩)]
  processes := [("unattended", process)]

/-- The beginning of the run. -/
def context : Context :=
  .start "unattended" ⟨"i"⟩ []

/-- The run. -/
def run : Timed (Completion × Context) :=
  engine.runThrough process 3 context 0

theorem recordsIn : engine.RecordsIn "spans" :=
  ⟨rfl, by simp [engine]⟩

theorem prompt : engine.Prompt := by
  intro entry hentry category executor hexecutor request
  obtain rfl := List.mem_singleton.mp hentry
  cases category <;> cases hexecutor <;> rfl

theorem bounded : run.value.1 ≠ .unbounded := by
  decide +kernel

theorem path_eq : run.value.2.path =
    ["start", "first", "outer", "alone", "end", "inner", "left", "end", "right"] := by
  decide +kernel

/-- The run fails, each task on its path has a span, and a span tells why the run failed. -/
theorem spans_of_failed_run :
    engine.RecordsIn "spans" ∧ run.value.1 ≠ .unbounded ∧ engine.Prompt ∧
      (Delivery.recordedIn "spans" run.history.deliveries).map Span.taskId =
        ["first", "alone", "left", "right"] ∧
      ∃ span ∈ Delivery.recordedIn "spans" run.history.deliveries, span.success = false ∧
        span.error = some "Unknown agent 'nobody' referenced by element right" := by
  obtain ⟨trail, -, hpath, -, -, -, hfailed, hprompt⟩ :=
    Engine.spans_of_path engine process 3 context 0 "spans" recordsIn bounded
  have hstations : trail.stations.map (·.element.id) = run.value.2.path := hpath.symm
  have hspans := (hprompt prompt).1
  rw [hstations, path_eq] at hspans
  refine ⟨recordsIn, bounded, prompt, hspans.trans (by decide), ?_⟩
  exact hfailed (.unknownAgent "right" "nobody") (by decide +kernel) rfl

end Unattended

end Workflow
