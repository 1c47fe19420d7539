import Workflow.Proofs.Allowance
import Workflow.Proofs.Fanouts
import Workflow.Proofs.Table

/-!
# Observers

Every execution of a task is reported to some sink, and a sink may do with a report what it likes:
keep it, drop it or panic.  A run takes no notice of that.  It comes to the same whatever its agents
and the engine report to, and so it does when all sinks are left out: it goes the same way, at the
same times, and says and reports the same, only to nobody.

* `Engine.unobserved` — the same engine without sinks; two engines that are the same without sinks
  differ in sinks only.
* `Timed.unobserved` — the same computation, but all that it reports goes nowhere.
* `Engine.unobserved_runThrough` — a run on an engine without sinks is the run with its sinks left
  out.
* `Engine.sinks_do_not_interfere` — runs on engines that differ in sinks only.
-/

namespace Workflow

/-! ## Sinks left out -/

/-- The same agent without its sink. -/
def Agent.unobserved (agent : Agent) : Agent :=
  { agent with sink := .null }

/-- The same engine without its sink and those of its agents. -/
def Engine.unobserved (engine : Engine) : Engine :=
  { engine with
    sink := .null
    agents := engine.agents.map fun (id, agent) => (id, agent.unobserved) }

/-- The same occurrence; a span that is reported goes nowhere. -/
def Occurrence.unobserved : Occurrence → Occurrence
  | logged record => logged record
  | reported _ span => reported .null span

/-- The same history; the spans that are reported in it go nowhere. -/
def History.unobserved (history : History) : History :=
  history.map fun (now, occurrence) => (now, occurrence.unobserved)

namespace Timed

variable {α β : Type}

/-- The same computation; the spans that it reports go nowhere. -/
def unobserved (t : Timed α) : Timed α :=
  ⟨t.value, t.finish, t.history.unobserved⟩

theorem unobserved_done (now : Nat) (value : α) (occurrences : List Occurrence) :
    (Timed.done now value occurrences).unobserved =
      Timed.done now value (occurrences.map Occurrence.unobserved) := by
  rw [unobserved, done, done, History.unobserved, List.map_map, List.map_map]
  rfl

theorem unobserved_map (f : α → β) (t : Timed α) : (t.map f).unobserved = t.unobserved.map f := rfl

theorem unobserved_andThen (first : Timed α) (next : α → Nat → Timed β) :
    (first.andThen next).unobserved =
      first.unobserved.andThen fun value now => (next value now).unobserved := by
  rw [unobserved, andThen, andThen, History.unobserved, List.map_append]
  rfl

/-- What is reported in branches goes nowhere at the same times. -/
theorem unobserved_all (now : Nat) (branches : List (Timed α)) :
    (Timed.all now branches).unobserved = Timed.all now (branches.map unobserved) := by
  have hhistory : History.unobserved (History.inTime (branches.flatMap Timed.history)) =
      History.inTime ((branches.map unobserved).flatMap Timed.history) := by
    rw [List.flatMap_map, History.unobserved, History.inTime, History.inTime,
      List.map_mergeSort (s := fun a b : Nat × Occurrence => a.1 ≤ b.1) fun _ _ _ _ => rfl,
      List.map_flatMap]
    rfl
  rw [unobserved, all, all, hhistory, List.map_map, List.foldl_map]
  rfl

end Timed

/-! ## Tasks -/

namespace Engine

theorem agent?_unobserved (engine : Engine) (id : String) :
    engine.unobserved.agent? id = (engine.agent? id).map Agent.unobserved :=
  Table.get?_map engine.agents Agent.unobserved id

end Engine

theorem Agent.unobserved_invoke (agent : Agent) (element : Element) (context : Context)
    (now : Nat) :
    (agent.invoke element context now).unobserved =
      agent.unobserved.invoke element context now := by
  have hassign : agent.unobserved.assign element = agent.assign element := rfl
  unfold Agent.invoke
  rw [hassign]
  split <;> rfl

/-- An execution reported nowhere is that of an agent without sink. -/
theorem Agent.unobserved_executeTask (agent : Agent) (element : Element) (context : Context)
    (now : Nat) :
    (agent.executeTask element context now).unobserved =
      agent.unobserved.executeTask element context now := by
  unfold Agent.executeTask
  rw [Timed.unobserved_andThen, agent.unobserved_invoke]
  congr 1
  funext outcome finish
  rw [Timed.unobserved_done]
  unfold Agent.closing
  split <;> rfl

namespace Engine

variable {definition : Definition}

theorem unobserved_runTask (engine : Engine) (element : Element) (spec : TaskSpec)
    (context : Context) (now : Nat) :
    (engine.runTask element spec context now).unobserved =
      engine.unobserved.runTask element spec context now := by
  unfold runTask
  rw [agent?_unobserved]
  rcases engine.agent? spec.agent with _ | agent
  · rfl
  · exact agent.unobserved_executeTask element context now

/-! ## Visits -/

theorem unobserved_leave (element : Element) (vars : Variables) (now : Nat) :
    (leave definition element vars now).unobserved = leave definition element vars now := by
  unfold leave
  split <;> rfl

theorem unobserved_choose (engine : Engine) (gateway : Element) (vars : Variables) (now : Nat) :
    (engine.choose definition gateway vars now).unobserved =
      engine.unobserved.choose definition gateway vars now := by
  unfold choose
  split
  · rfl
  · have hopen : firstOpen engine.unobserved.evaluator vars = firstOpen engine.evaluator vars := rfl
    rw [hopen]
    split <;> rfl

/-- What is not reported stays as it is. -/
theorem map_unobserved_of_logged {occurrences : List Occurrence}
    (h : occurrences.filterMap Occurrence.report? = []) :
    occurrences.map Occurrence.unobserved = occurrences := by
  refine (List.map_congr_left fun occurrence hmem => ?_).trans (List.map_id' _)
  have hnone := List.filterMap_eq_nil_iff.mp h occurrence hmem
  cases occurrence with
  | logged record => rfl
  | reported sink span => cases hnone

theorem unobserved_reunion (inBranch : Bool) (gateway : Element) (vars : Variables)
    (branches : List Traversal) (now : Nat) :
    (reunion definition inBranch gateway vars branches now).unobserved =
      reunion definition inBranch gateway vars branches now := by
  have hsaid := map_unobserved_of_logged
    (report?_complaints gateway.id (branches.map Traversal.outcome))
  unfold reunion
  split
  · rw [Timed.unobserved_done, hsaid]
  · rw [Timed.unobserved_done, hsaid]
  · rw [Timed.unobserved_done, List.map_append, hsaid]
    rfl

section Branches

variable {branch silent : BranchTraversal}
  (hbranch : ∀ context id now, (branch context id now).unobserved = silent context id now)

include hbranch

theorem unobserved_fork (inBranch : Bool) (gateway : Element) (flows : List Flow)
    (context : Context) (now : Nat) :
    (fork definition inBranch branch gateway flows context now).unobserved =
      fork definition inBranch silent gateway flows context now := by
  have hall : ∀ now, (sideBySide branch flows context now).map Timed.unobserved =
      sideBySide silent flows context now := by
    intro now
    rw [sideBySide, sideBySide, List.map_map]
    exact List.map_congr_left fun entry _ => hbranch _ _ _
  rw [fork_eq_andThen, fork_eq_andThen, Timed.unobserved_andThen]
  congr 1
  funext _ now
  rw [Timed.unobserved_andThen, Timed.unobserved_all, hall]
  congr 1
  funext branches now
  exact unobserved_reunion inBranch gateway context.vars branches now

theorem unobserved_visit (engine : Engine) (inBranch : Bool) (element : Element)
    (context : Context) (now : Nat) :
    (engine.visit definition inBranch branch element context now).unobserved =
      engine.unobserved.visit definition inBranch silent element context now := by
  unfold visit
  split
  · rfl
  · exact unobserved_leave _ _ _
  · rw [Timed.unobserved_andThen, unobserved_runTask]
    congr 1
    funext outcome now
    split
    · exact unobserved_leave _ _ _
    · rfl
  · exact unobserved_choose _ _ _ _
  · split
    · exact unobserved_fork hbranch _ _ _ _ _
    · exact unobserved_leave _ _ _

/-! ## Traversals -/

theorem unobserved_walk (engine : Engine) (inBranch : Bool) (remaining : Nat) (resumed : Bool)
    (context : Context) (id : String) (now : Nat) :
    (engine.walk definition inBranch branch remaining resumed context id now).unobserved =
      engine.unobserved.walk definition inBranch silent remaining resumed context id now := by
  induction remaining generalizing resumed context id now with
  | zero =>
    unfold walk
    split
    · rfl
    · split <;> rfl
  | succ remaining ih =>
    unfold walk
    split
    · rfl
    · split
      · rfl
      · rw [Timed.unobserved_andThen]
        congr 1
        funext _ now
        rw [Timed.unobserved_andThen, unobserved_visit hbranch]
        congr 1
        funext visit now
        dsimp only
        split
        · rfl
        · rw [Timed.unobserved_map, ih]

end Branches

/-- A traversal on an engine without sinks is the traversal with its sinks left out. -/
theorem unobserved_traverse (engine : Engine) (levels : Nat) (inBranch : Bool) (context : Context)
    (id : String) (now : Nat) :
    (engine.traverse definition levels inBranch context id now).unobserved =
      engine.unobserved.traverse definition levels inBranch context id now :=
  traverse_related
    (fun branch silent => ∀ context id now, (branch context id now).unobserved =
      silent context id now)
    (fun _ _ _ => rfl)
    (fun inBranch _ _ hbranch => unobserved_walk hbranch engine inBranch engine.maxSteps false)
    levels inBranch context id now

/-! ## Runs -/

/-- So is a run. -/
theorem unobserved_runThrough (engine : Engine) (definition : Definition) (levels : Nat)
    (context : Context) (now : Nat) :
    (engine.runThrough definition levels context now).unobserved =
      engine.unobserved.runThrough definition levels context now := by
  unfold runThrough
  rcases definition.start with error | start
  · rfl
  have hwarning : (startWarning definition start).map Occurrence.unobserved =
      startWarning definition start := by
    unfold startWarning
    split <;> rfl
  dsimp only
  unfold runFrom
  rw [Timed.unobserved_andThen, Timed.unobserved_done, List.map_append, hwarning]
  congr 1
  funext _ now
  rw [Timed.unobserved_andThen, unobserved_traverse]
  congr 1
  funext traversal finish
  dsimp only
  rw [Timed.unobserved_done]
  split <;> rfl

theorem unobserved_run (engine : Engine) (context : Context) (now : Nat) :
    (engine.run context now).unobserved = engine.unobserved.run context now := by
  have hprocess : engine.unobserved.process? context.processId =
      engine.process? context.processId := rfl
  unfold run
  rw [hprocess]
  rcases engine.process? context.processId with _ | definition
  · rfl
  · refine runOn_related (fun run silent => run.unobserved = silent) (fun run silent h => ?_) rfl
      fun levels => unobserved_runThrough engine definition levels context now
    rw [← h]
    rfl

end Engine

/-! ## What sinks add -/

namespace History

/-- What is said in a run when nobody watches is also said when somebody does, in the same order. -/
theorem sublist_deliveries (history : History) :
    history.unobserved.deliveries.Sublist history.deliveries := by
  induction history with
  | nil => exact .slnil
  | cons entry history ih =>
    obtain ⟨now, record | ⟨sink, span⟩⟩ := entry
    · exact ih.cons_cons _
    · exact ih.trans (List.sublist_append_right _ _)

/-- What a report comes to stands between what there was before and what there is after it. If the
sink panics, that is what its leaves did up to the panic, and a warning. -/
theorem deliveries_of_report (before after : History) (now : Nat) (sink : Sink) (span : Span) :
    deliveries (before ++ (now, .reported sink span) :: after) =
      before.deliveries ++ (Sink.shares span sink.reached ++
        if sink.panics then [.logged (Sink.panicWarning span)] else []) ++ after.deliveries := by
  have hreport : (Occurrence.reported sink span).deliveries = sink.report span := rfl
  rw [deliveries, List.flatMap_append, List.flatMap_cons]
  dsimp only
  rw [hreport, Sink.report_eq]
  exact (List.append_assoc _ _ _).symm

end History

/-! ## Two engines -/

/-- Two runs differ at most in where they report: they come to the same at the same time, and all
that happens in them happens at the same times in the same order. -/
structure DifferInSinks (run other : Timed (Completion × Context)) : Prop where
  /-- they come to the same end, with the same variables, current element and path -/
  value : other.value = run.value
  /-- they are finished at the same time -/
  finish : other.finish = run.finish
  /-- they say and report the same -/
  history : other.history.unobserved = run.history.unobserved

theorem DifferInSinks.of_unobserved_eq {run other : Timed (Completion × Context)}
    (h : other.unobserved = run.unobserved) : DifferInSinks run other := by
  have hvalue : other.unobserved.value = run.unobserved.value := by rw [h]
  have hfinish : other.unobserved.finish = run.unobserved.finish := by rw [h]
  have hhistory : other.unobserved.history = run.unobserved.history := by rw [h]
  exact ⟨hvalue, hfinish, hhistory⟩

/-- **Sinks do not interfere.** Let two engines differ only in the sinks that they and their agents
report to, fan-outs and sinks that panic among them.  Then their runs, however deeply branches may
be nested, come to the same at the same time, with the same variables, current element and path, and
what they say and report is the same but for where they report it.  What the one run says in the log
the other says too.  And no panic goes further than the report at which a sink panics: what its
leaves did before the panic is done, a warning follows, and then all that comes after the report. -/
theorem Engine.sinks_do_not_interfere (engine other : Engine)
    (hsame : engine.unobserved = other.unobserved) (context : Context) (now : Nat) :
    let run := engine.run context now
    let run' := other.run context now
    DifferInSinks run run' ∧
      (∀ definition levels, DifferInSinks (engine.runThrough definition levels context now)
        (other.runThrough definition levels context now)) ∧
      run.history.unobserved.deliveries.Sublist run'.history.deliveries ∧
      ∀ (before after : History) (later : Nat) (sink : Sink) (span : Span),
        run'.history = before ++ (later, .reported sink span) :: after → sink.panics = true →
        run'.history.deliveries = before.deliveries ++
          (Sink.shares span sink.reached ++ [.logged (Sink.panicWarning span)]) ++
            after.deliveries := by
  intro run run'
  have hrun : run'.unobserved = run.unobserved := by
    rw [unobserved_run, unobserved_run, hsame]
  refine ⟨.of_unobserved_eq hrun, fun definition levels => .of_unobserved_eq ?_, ?_, ?_⟩
  · rw [unobserved_runThrough, unobserved_runThrough, hsame]
  · rw [← (DifferInSinks.of_unobserved_eq hrun).history]
    exact run'.history.sublist_deliveries
  · intro before after later sink span hhistory hpanics
    rw [hhistory, History.deliveries_of_report, hpanics]
    rfl

/-! ## A run whose sinks all panic

An agent reports to a fan-out in which a sink panics, and the engine to one that panics as well.
Three tasks are executed, the last of which has no agent. -/

namespace Uproar

/-- A task, and then a fork into two more. -/
def process : Definition where
  id := "uproar"
  name := none
  elements := [⟨"start", none, .startEvent⟩,
    ⟨"first", none, .task .service { TaskSpec.of "one" with output := some "k" }⟩,
    ⟨"fork", none, .parallelGateway⟩, ⟨"left", none, .task .user (TaskSpec.of "one")⟩,
    ⟨"right", none, .task .service (TaskSpec.of "nobody")⟩]
  flows := [⟨"start", "first", none⟩, ⟨"first", "fork", none⟩, ⟨"fork", "left", none⟩,
    ⟨"fork", "right", none⟩]

/-- An engine with one agent. -/
def engine (agentSink engineSink : Sink) : Engine where
  maxSteps := 10
  evaluator := fun _ _ => true
  sink := engineSink
  agents := [("one", ⟨some (.constant (.int 1) 5), none, none, agentSink⟩)]
  processes := [("uproar", process)]

/-- The beginning of the run. -/
def context : Context :=
  .start "uproar" ⟨"i"⟩ []

/-- The run without sinks. -/
def quiet : Timed (Completion × Context) :=
  (engine .null .null).run context 0

/-- The run in which every sink panics. -/
def loud : Timed (Completion × Context) :=
  (engine (.fanout [.recording "spans", .panicking, .recording "missed"]) .panicking).run context 0

/-- The run fails for its missing agent, not for its sinks, and comes as far as without them. -/
theorem loud_run_is_quiet_run :
    (engine .null .null).unobserved =
        (engine (.fanout [.recording "spans", .panicking, .recording "missed"])
          .panicking).unobserved ∧
      loud.value = quiet.value ∧ loud.finish = quiet.finish ∧
      loud.value.1 = .failed (.unknownAgent "right" "nobody") ∧
      loud.value.2.path = ["start", "first", "fork", "left", "right"] ∧
      loud.value.2.vars.get? "k" = some (.int 1) ∧
      (Sink.recording "spans").received loud.history.deliveries ≠ [] := by
  have halike := (Engine.sinks_do_not_interfere (engine .null .null)
    (engine (.fanout [.recording "spans", .panicking, .recording "missed"]) .panicking) rfl context
    0).1
  exact ⟨rfl, halike.value, halike.finish, by decide +kernel, by decide +kernel, rfl,
    by decide +kernel⟩

end Uproar

end Workflow
