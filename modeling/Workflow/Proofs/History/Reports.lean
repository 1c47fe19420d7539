import Mathlib.Data.List.Perm.Basic
import Workflow.Proofs.History.Time
import Workflow.Proofs.InstanceId
import Workflow.Proofs.Trail.Stations
import Workflow.Proofs.Trail.Traversal

/-!
# What a traversal reports

Every visit to a task is reported once, under the id of the branch that made it.  So what a
traversal reports can be read off its trail, but for the times: `Engine.reportsOf` lists it in the
order of the path.
-/

namespace Workflow

/-! ## Reports -/

/-- A span without its times, and the sink to which it was reported. -/
structure Report where
  /-- where the span was reported -/
  sink : Sink
  /-- the id of the task -/
  taskId : String
  /-- the name of the task's kind -/
  kind : String
  /-- the id of the process -/
  processId : String
  /-- the id of the run or of the branch -/
  instanceId : String
  /-- whether the task gave a value -/
  success : Bool
  /-- what went wrong -/
  error : Option String

/-- What is left of a span without its times. -/
def Report.of (sink : Sink) (span : Span) : Report :=
  ⟨sink, span.taskId, span.kind, span.processId, span.instanceId, span.success, span.error⟩

/-- What an occurrence reports. -/
def Occurrence.report? : Occurrence → Option Report
  | logged _ => none
  | reported sink span => some (.of sink span)

namespace History

/-- What is reported in a history, in the order of time. -/
def reports (history : History) : List Report :=
  history.filterMap fun entry => entry.2.report?

@[simp] theorem reports_nil : reports [] = [] := rfl

@[simp] theorem reports_append (first second : History) :
    reports (first ++ second) = first.reports ++ second.reports :=
  List.filterMap_append

@[simp] theorem reports_logged (now : Nat) (record : LogRecord) (history : History) :
    reports ((now, .logged record) :: history) = history.reports := rfl

@[simp] theorem reports_reported (now : Nat) (sink : Sink) (span : Span) (history : History) :
    reports ((now, .reported sink span) :: history) = .of sink span :: history.reports := rfl

theorem reports_flatMap {α : Type} (parts : List α) (history : α → History) :
    reports (parts.flatMap history) = parts.flatMap fun part => (history part).reports :=
  List.filterMap_flatMap

theorem perm_reports {first second : History} (h : first.Perm second) :
    first.reports.Perm second.reports :=
  h.filterMap _

/-- The reports under an id, from the occurrences that are reported under it. -/
theorem filter_reports (p : Report → Bool) (history : History) :
    history.reports.filter p = reports (history.filter fun entry => entry.2.report?.any p) := by
  induction history with
  | nil => rfl
  | cons entry history ih =>
    obtain ⟨now, record | ⟨sink, span⟩⟩ := entry
    · simpa [List.filter_cons, Occurrence.report?] using ih
    · rcases h : p (.of sink span) <;> simp [Occurrence.report?, h, ih]

theorem mem_reports {history : History} {report : Report} :
    report ∈ history.reports ↔ ∃ entry ∈ history, entry.2.report? = some report :=
  List.mem_filterMap

/-- Let the reports of a sort come in one of several histories at most. Laid over one clock, they
keep their order. -/
theorem filter_reports_inTime {histories : List History} {p : Report → Bool}
    (ordered : ∀ history ∈ histories, history.Ordered)
    (unique : ∀ (i j : Nat) (hi : i < histories.length) (hj : j < histories.length),
      (∃ report ∈ histories[i].reports, p report = true) →
      (∃ report ∈ histories[j].reports, p report = true) → i = j) :
    (inTime histories.flatten).reports.filter p =
      histories.flatMap fun history => history.reports.filter p := by
  have hfound : ∀ history : History, ∀ entry ∈ history.filter (fun entry =>
      entry.2.report?.any p), ∃ report ∈ history.reports, p report = true := by
    intro history entry hentry
    obtain ⟨hmem, hany⟩ := List.mem_filter.mp hentry
    rcases hreport : entry.2.report? with _ | report
    · simp [hreport] at hany
    · exact ⟨report, mem_reports.mpr ⟨entry, hmem, hreport⟩, by simpa [hreport] using hany⟩
  have hordered : Ordered (histories.flatten.filter fun entry => entry.2.report?.any p) := by
    rw [List.filter_flatten, Ordered, List.pairwise_flatten, List.forall_mem_map,
      List.pairwise_map, List.pairwise_iff_getElem]
    refine ⟨fun history hhistory => (ordered history hhistory).filter _, ?_⟩
    intro i j hi hj hlt a ha b hb
    exact absurd (unique i j hi hj (hfound _ a ha) (hfound _ b hb)) (Nat.ne_of_lt hlt)
  rw [filter_reports, filter_inTime _ hordered, ← filter_reports, List.flatten_eq_flatMap,
    reports_flatMap, List.filter_flatMap]
  rfl

end History

namespace Engine

/-- The sink to which the executions of a task are reported. -/
def sinkOf (engine : Engine) (spec : TaskSpec) : Sink :=
  match engine.agent? spec.agent with
  | some agent => agent.sink
  | none => engine.sink

/-- What a visit to an element with some variables reports. -/
def reportOf (engine : Engine) (processId : String) (id : InstanceId) (element : Element)
    (vars : Variables) : Option Report :=
  element.kind.task?.map fun spec =>
    let error := Agent.errorOf (engine.perform element spec vars)
    ⟨engine.sinkOf spec, element.id, element.kind.name, processId, id.text, error.isNone,
      error.map Error.message⟩

/-- What the visits of a traversal and its branches report, in the order of the path. -/
def reportsOf (engine : Engine) (processId : String) (id : InstanceId) (stations : List Station) :
    List Report :=
  stations.filterMap fun station =>
    engine.reportOf processId (id.descend station.places) station.element station.vars

variable {engine : Engine} {processId : String} {id : InstanceId}

@[simp] theorem reportsOf_nil : engine.reportsOf processId id [] = [] := rfl

theorem reportsOf_under (index : Nat) (stations : List Station) :
    engine.reportsOf processId id (stations.map (Station.under index)) =
      engine.reportsOf processId (id.branch index) stations := by
  rw [reportsOf, List.filterMap_map]
  rfl

theorem reportsOf_inBranches (branches : List Trail) :
    engine.reportsOf processId id (Trail.inBranches branches) =
      branches.zipIdx.flatMap fun entry =>
        engine.reportsOf processId (id.branch entry.2) entry.1.stations := by
  rw [Trail.inBranches, reportsOf, List.filterMap_flatMap]
  exact List.flatMap_congr fun entry _ => reportsOf_under entry.2 entry.1.stations

/-- A trail has the report of its first visit, the reports of the branches begun there, and those of
the rest. -/
theorem reportsOf_visit (came : Option Arc) (element : Element) (vars : Variables)
    (branches : List Trail) (rest : Trail) :
    engine.reportsOf processId id (Trail.visit came element vars branches rest).stations =
      (engine.reportOf processId id element vars).toList ++
        (branches.zipIdx.flatMap (fun entry =>
            engine.reportsOf processId (id.branch entry.2) entry.1.stations) ++
          engine.reportsOf processId id rest.stations) := by
  rw [← reportsOf_inBranches, reportsOf, reportsOf, reportsOf, ← List.filterMap_append,
    Trail.stations_visit, List.filterMap_cons, InstanceId.descend_nil]
  rcases engine.reportOf processId id element vars with _ | report <;> rfl

end Engine

end Workflow
