import Workflow.Proofs.History.Reports

/-!
# The histories of trails

A trail does not say when something happened, so one trail can have many histories.  In all of them
the traversal itself goes from visit to visit, but its branches run side by side, and what happens
in them comes in the order of time.

* `Engine.Tells` — which histories a trail can have.
* `Engine.Traces.tells`, `Engine.Leaves.tells` — the history of a walk, or of a run, is one of those
  that its trail can have.
* `Engine.Tells.perm_reports` — a history has the reports of its trail, in some order.
* `Engine.Tells.filter_reports` — the reports under each id come in the order of the path.
* `Engine.Tells.reports_eq` — all reports do so if no time passes.
-/

namespace Workflow

namespace Engine

variable {engine : Engine} {definition : Definition}

/-! ## What one visit reports -/

theorem reports_done {α : Type} (now : Nat) (value : α) (occurrences : List Occurrence) :
    (Timed.done now value occurrences).history.reports =
      occurrences.filterMap Occurrence.report? := by
  rw [History.reports, Timed.done, List.filterMap_map]
  rfl

theorem history_andThen {α β : Type} (first : Timed α) (next : α → Nat → Timed β) :
    (first.andThen next).history =
      first.history ++ (next first.value first.finish).history := rfl

theorem reports_andThen {α β : Type} (first : Timed α) (next : α → Nat → Timed β) :
    (first.andThen next).history.reports =
      first.history.reports ++ (next first.value first.finish).history.reports :=
  History.reports_append _ _

/-- An agent that runs a task reports it once. -/
theorem reports_executeTask (agent : Agent) {element : Element} {kind : TaskKind}
    {spec : TaskSpec} (hkind : element.kind = .task kind spec) (context : Context) (now : Nat) :
    (agent.executeTask element context now).history.reports =
      [.of agent.sink (spanOf element context now now
        (Agent.errorOf (agent.perform element context.vars)))] := by
  have hvalue : (agent.invoke element context now).value = _ :=
    value_executeTask agent hkind context now
  have hinvoke : (agent.invoke element context now).history.reports = [] := by
    unfold Agent.invoke
    split <;> rfl
  rw [Agent.executeTask, reports_andThen, hinvoke, hvalue, reports_done]
  rcases agent.perform element context.vars with error | value <;> rfl

/-- A task is reported once, whoever runs it. -/
theorem reports_runTask (engine : Engine) {element : Element} {kind : TaskKind} {spec : TaskSpec}
    (hkind : element.kind = .task kind spec) (context : Context) (now : Nat) :
    (engine.runTask element spec context now).history.reports =
      (engine.reportOf context.processId context.instanceId element context.vars).toList := by
  have htask : element.kind.task? = some spec := by
    rw [hkind]
    rfl
  rw [runTask, reportOf, htask, Option.map_some]
  unfold sinkOf perform
  rcases engine.agent? spec.agent with _ | agent
  · rfl
  · exact reports_executeTask agent hkind context now

theorem reports_leave (element : Element) (vars : Variables) (now : Nat) :
    (leave definition element vars now).history.reports = [] := by
  unfold leave
  split <;> rfl

theorem reports_choose (gateway : Element) (vars : Variables) (now : Nat) :
    (engine.choose definition gateway vars now).history.reports = [] := by
  unfold choose
  split
  · rfl
  · split <;> rfl

theorem reportOf_eq_none {processId : String} {id : InstanceId} {element : Element}
    {vars : Variables} (h : element.kind.task? = none) :
    engine.reportOf processId id element vars = none := by
  rw [reportOf, h]
  rfl

section Visit

variable {inBranch : Bool} {branch : BranchTraversal} {element : Element} {context : Context}

/-- A visit that begins no branches reports its element, if that is a task. -/
theorem reports_visit (now : Nat)
    (h : ∀ arcs, engine.step definition element context.vars ≠ .split arcs) :
    (engine.visit definition inBranch branch element context now).history.reports =
      (engine.reportOf context.processId context.instanceId element context.vars).toList := by
  rw [visit]
  rcases hkind : element.kind with _ | _ | ⟨kind, spec⟩ | _ | _
  · rw [reportOf_eq_none (by rw [hkind]; rfl)]
    exact reports_leave _ _ _
  · rw [reportOf_eq_none (by rw [hkind]; rfl)]
    rfl
  · dsimp only
    rw [reports_andThen, reports_runTask engine hkind]
    rw [List.append_right_eq_self]
    split
    · exact reports_leave _ _ _
    · rfl
  · rw [reportOf_eq_none (by rw [hkind]; rfl)]
    exact reports_choose _ _ _
  · rw [reportOf_eq_none (by rw [hkind]; rfl)]
    dsimp only
    split
    · rename_i first second more houtgoing
      -- several flows lead out of a parallel gateway only if it begins branches
      rw [← Definition.map_fst_exits] at houtgoing
      unfold step at h
      rw [hkind] at h
      rcases hexits : definition.exits element.id with _ | ⟨arc, _ | ⟨arc', more'⟩⟩
      · simp [hexits] at houtgoing
      · simp [hexits] at houtgoing
      · exact absurd (by rw [hexits]) (h (arc :: arc' :: more'))
    · exact reports_leave _ _ _

/-- A visit that begins branches is a fork along the flows out of the gateway. -/
theorem visit_of_split {vars : Variables} {arcs : List Arc}
    (h : engine.step definition element vars = .split arcs) (now : Nat) :
    engine.visit definition inBranch branch element context now =
      fork definition inBranch branch element (arcs.map Prod.fst) context now := by
  obtain ⟨hkind, rfl, hmany⟩ := step_eq_split h
  rw [visit, hkind]
  dsimp only
  rw [← Definition.map_fst_exits]
  rcases hexits : definition.exits element.id with _ | ⟨first, _ | ⟨second, more⟩⟩
  · simp [hexits] at hmany
  · simp [hexits] at hmany
  · rfl

/-- What is said about branches is no report. -/
theorem report?_complaints (gateway : String) (outcomes : List Outcome) :
    (complaints gateway outcomes).filterMap Occurrence.report? = [] := by
  rw [List.filterMap_eq_nil_iff]
  intro occurrence hoccurrence
  obtain ⟨⟨outcome, index⟩, -, hsaid⟩ := List.mem_filterMap.mp hoccurrence
  rcases outcome with _ | ⟨found, arrivals⟩ | error | _
  · cases hsaid
  · dsimp only at hsaid
    split at hsaid
    · split at hsaid <;> cases hsaid
      rfl
    · cases hsaid
  · cases hsaid
    rfl
  · cases hsaid

/-- What is said when the branches of a fork have ended is no report. -/
theorem reports_reunion (vars : Variables) (branches : List Traversal) (now : Nat) :
    (reunion definition inBranch element vars branches now).history.reports = [] := by
  have hsaid := report?_complaints element.id (branches.map Traversal.outcome)
  unfold reunion
  dsimp only
  split
  · rw [reports_done, hsaid]
  · rw [reports_done, hsaid]
  · rw [reports_done, List.filterMap_append, hsaid]
    rfl

/-- Then it is said of each branch if it failed or came elsewhere. -/
theorem mem_history_reunion {vars : Variables} {branches : List Traversal} {now : Nat}
    {occurrence : Occurrence}
    (h : occurrence ∈ complaints element.id (branches.map Traversal.outcome)) :
    occurrence ∈ (reunion definition inBranch element vars branches now).history.map
      Prod.snd := by
  unfold reunion
  dsimp only
  split
  · simpa [Timed.done] using h
  · simpa [Timed.done] using h
  · simpa [Timed.done] using Or.inl h

end Visit

/-! ## The history of a walk -/

section Walk

variable {inBranch : Bool} {branch : BranchTraversal} {remaining : Nat} {resumed : Bool}
  {context : Context} {id : String} {now : Nat} {element : Element}

/-- A walk that makes a visit has its history first. -/
theorem history_walk (found : definition.element? id = some element)
    (enters : definition.awaits inBranch resumed element = false) :
    let visit := engine.visit definition inBranch branch element
      { context with current := some element.id } now
    (engine.walk definition inBranch branch (remaining + 1) resumed context id now).history =
      (now, visiting element context) :: (visit.history ++
        match visit.value.move with
        | .stop _ => []
        | .go next resumed =>
          (engine.walk definition inBranch branch remaining resumed
            { context with current := some element.id, vars := visit.value.vars } next
            visit.finish).history) := by
  intro visit
  rw [walk_of_enters found enters]
  dsimp only [Timed.andThen, Timed.done]
  rcases visit.value.move with outcome | ⟨next, resumed'⟩ <;> rfl

/-- Up to the end of a visit that begins no branches, its element is reported if it is a task. -/
theorem reports_arrival (h : ∀ arcs, engine.step definition element context.vars ≠ .split arcs) :
    History.reports ((now, visiting element context) ::
        (engine.visit definition inBranch branch element
          { context with current := some element.id } now).history) =
      (engine.reportOf context.processId context.instanceId element context.vars).toList := by
  rw [visiting, History.reports_logged]
  exact reports_visit now h

end Walk

/-! ## Which histories a trail can have -/

/-- A traversal under an id that leaves a trail can have a history: the first visit is reported if
it is one to a task, then come the histories of the branches begun there, laid over one clock, then
what is said when they have ended, and then the history of the rest. -/
inductive Tells (engine : Engine) (processId : String) :
    InstanceId → Trail → History → Prop where
  /-- without a further visit nothing is reported -/
  | halt {id : InstanceId} {came : Option Arc} {outcome : Outcome} {vars : Variables}
    {history : History} (silent : history.reports = []) :
    Tells engine processId id (.halt came outcome vars) history
  /-- the parts of the history of a visit, the branches and the rest -/
  | visit {id : InstanceId} {came : Option Arc} {element : Element} {vars : Variables}
    {told : List (Trail × History)} {rest : Trail} {before after further : History}
    (reports : before.reports = (engine.reportOf processId id element vars).toList)
    (each : ∀ entry ∈ told.zipIdx, Tells engine processId (id.branch entry.2) entry.1.1 entry.1.2)
    (ordered : ∀ branch ∈ told, branch.2.Ordered)
    (silent : after.reports = [])
    (complains : ∀ occurrence ∈ complaints element.id (told.map (·.1.outcome)),
      occurrence ∈ after.map Prod.snd)
    (goes : Tells engine processId id rest further) :
    Tells engine processId id (.visit came element vars (told.map Prod.fst) rest)
      (before ++ (History.inTime (told.flatMap Prod.snd) ++ (after ++ further)))

namespace Tells

variable {processId : String} {id : InstanceId}

/-- A visit that begins no branches. -/
theorem alone {came : Option Arc} {element : Element} {vars : Variables} {rest : Trail}
    {before further : History}
    (reports : before.reports = (engine.reportOf processId id element vars).toList)
    (goes : engine.Tells processId id rest further) :
    engine.Tells processId id (.visit came element vars [] rest) (before ++ further) := by
  have h := @Tells.visit engine processId id came element vars [] rest before [] further reports
    nofun nofun rfl nofun goes
  simpa [History.inTime] using h

end Tells

/-- What is said when branches are begun. -/
def forking (gateway : Element) (flows : List Flow) (context : Context) : Occurrence :=
  .logged ⟨.info, "Forking parallel branches",
    [("instance_id", .string context.instanceId.text), ("gateway", .string gateway.id),
      ("branches", .int flows.length)]⟩

/-- The branches along several flows, each in a context of its own. -/
def sideBySide (branch : BranchTraversal) (flows : List Flow) (context : Context) (now : Nat) :
    List (Timed Traversal) :=
  flows.zipIdx.map fun (flow, index) => branch (context.fork index) flow.target now

/-- A fork says how many branches it has, traverses them side by side and reunites them. -/
theorem fork_eq_andThen (definition : Definition) (inBranch : Bool) (branch : BranchTraversal)
    (gateway : Element) (flows : List Flow) (context : Context) (now : Nat) :
    fork definition inBranch branch gateway flows context now =
      (Timed.done now () [forking gateway flows context]).andThen fun _ now =>
        (Timed.all now (sideBySide branch flows context now)).andThen fun branches now =>
          reunion definition inBranch gateway context.vars branches now := rfl

/-- The branches of a fork, each with its history. -/
def toldBy (branch : BranchTraversal) (trail : Arc → Trail) (arcs : List Arc) (context : Context)
    (now : Nat) : List (Trail × History) :=
  arcs.zipIdx.map fun (arc, index) =>
    (trail arc, (branch (context.fork index) arc.1.target now).history)

section Fork

variable {branch : BranchTraversal} {trail : Arc → Trail} {arcs : List Arc} {context : Context}
  {now : Nat}

theorem map_fst_toldBy : (toldBy branch trail arcs context now).map Prod.fst = arcs.map trail := by
  rw [toldBy, List.map_map, ← List.zipIdx_map_fst 0 arcs, List.map_map, List.zipIdx_map_fst]
  rfl

theorem mem_zipIdx_toldBy {entry : (Trail × History) × Nat}
    (h : entry ∈ (toldBy branch trail arcs context now).zipIdx) :
    ∃ arc ∈ arcs, entry.1 =
      (trail arc, (branch (context.fork entry.2) arc.1.target now).history) := by
  rw [List.mem_zipIdx_iff_getElem?, toldBy, List.getElem?_map, List.getElem?_zipIdx,
    Option.map_map, Option.map_eq_some_iff] at h
  obtain ⟨arc, harc, hentry⟩ := h
  exact ⟨arc, List.mem_of_getElem? harc, by simp [← hentry]⟩

theorem flatMap_snd_toldBy : (toldBy branch trail arcs context now).flatMap Prod.snd =
    (sideBySide branch (arcs.map Prod.fst) context now).flatMap Timed.history := by
  rw [toldBy, sideBySide, List.flatMap_map, List.flatMap_map, List.zipIdx_map, List.flatMap_map]
  rfl

theorem history_fork (inBranch : Bool) (element : Element) (flows : List Flow) :
    (fork definition inBranch branch element flows context now).history =
      (now, forking element flows context) ::
        (History.inTime ((sideBySide branch flows context now).flatMap Timed.history) ++
          (reunion definition inBranch element context.vars
            ((sideBySide branch flows context now).map Timed.value)
            (Timed.all now (sideBySide branch flows context now)).finish).history) := rfl

theorem outcomes_sideBySide
    (hvalues : ∀ arc ∈ arcs, ∀ index now, (branch (context.fork index) arc.1.target now).value =
      (trail arc).traversal context.current) :
    ((sideBySide branch (arcs.map Prod.fst) context now).map Timed.value).map Traversal.outcome =
      (arcs.map trail).map Trail.outcome := by
  rw [sideBySide, map_value_branches branch context trail now 0 hvalues, List.map_map]
  rfl

/-- The history of a fork and of what follows, if every branch has a history of its trail. -/
theorem Tells.fork {inBranch : Bool} {came : Option Arc} {element : Element} {rest : Trail}
    {first : Nat × Occurrence} {further : History} (silent : first.2.report? = none)
    (htask : element.kind.task? = none)
    (hvalues : ∀ arc ∈ arcs, ∀ index now, (branch (context.fork index) arc.1.target now).value =
      (trail arc).traversal context.current)
    (heach : ∀ arc ∈ arcs, ∀ index now, engine.Tells context.processId
      (context.instanceId.branch index) (trail arc)
      (branch (context.fork index) arc.1.target now).history)
    (hordered : ∀ context id now, (branch context id now).history.Ordered)
    (goes : engine.Tells context.processId context.instanceId rest further) :
    engine.Tells context.processId context.instanceId
      (.visit came element context.vars (arcs.map trail) rest)
      (first :: ((Engine.fork definition inBranch branch element (arcs.map Prod.fst) context
        now).history ++ further)) := by
  have houtcomes : (toldBy branch trail arcs context now).map (·.1.outcome) =
      ((sideBySide branch (arcs.map Prod.fst) context now).map Timed.value).map
        Traversal.outcome := by
    rw [outcomes_sideBySide hvalues, ← map_fst_toldBy, List.map_map]
    rfl
  have hshape : first :: ((Engine.fork definition inBranch branch element (arcs.map Prod.fst)
      context now).history ++ further) =
      [first, (now, forking element (arcs.map Prod.fst) context)] ++
        (History.inTime ((toldBy branch trail arcs context now).flatMap Prod.snd) ++
          ((reunion definition inBranch element context.vars
            ((sideBySide branch (arcs.map Prod.fst) context now).map Timed.value)
            (Timed.all now (sideBySide branch (arcs.map Prod.fst) context now)).finish).history ++
              further)) := by
    rw [history_fork, flatMap_snd_toldBy]
    simp
  rw [hshape, ← map_fst_toldBy]
  refine .visit ?_ ?_ ?_ (reports_reunion _ _ _) ?_ goes
  · rw [reportOf_eq_none htask]
    simpa [History.reports, forking, Occurrence.report?] using silent
  · intro entry hentry
    obtain ⟨arc, harc, heq⟩ := mem_zipIdx_toldBy hentry
    rw [heq]
    exact heach arc harc _ _
  · intro entry hentry
    obtain ⟨⟨arc, index⟩, -, rfl⟩ := List.mem_map.mp hentry
    exact hordered _ _ _
  · rw [houtcomes]
    intro occurrence hoccurrence
    exact mem_history_reunion hoccurrence

end Fork

theorem ordered_branching (levels : Nat) (context : Context) (id : String) (now : Nat) :
    (engine.branching definition levels context id now).history.Ordered := by
  rcases levels with _ | levels
  · exact List.Pairwise.nil
  · exact (engine.within_traverse definition levels true context id now).ordered

section Split

variable {inBranch : Bool} {element : Element} {arcs : List Arc} {trail : Arc → Trail}
  {levels : Nat} (context : Context) {now : Nat}
  (does : engine.step definition element context.vars = .split arcs)
  (hdepth : ∀ arc ∈ arcs, (trail arc).depth < levels)
  (each : ∀ arc ∈ arcs, engine.Traces definition true engine.maxSteps false (some arc)
    context.vars arc.1.target (trail arc))
  (hwalk : ∀ arc ∈ arcs, ∀ levels, (trail arc).depth ≤ levels →
    ∀ (branch : Context) (now : Nat), branch.vars = context.vars →
      engine.Tells branch.processId branch.instanceId (trail arc)
        (engine.walk definition true (engine.branching definition levels) engine.maxSteps false
          branch arc.1.target now).history)

include hdepth hwalk in
/-- Branches that leave trails have histories of them. -/
theorem tells_branching :
    ∀ arc ∈ arcs, ∀ index now, engine.Tells context.processId (context.instanceId.branch index)
      (trail arc) (engine.branching definition levels (context.fork index) arc.1.target
        now).history := by
  intro arc harc index now
  obtain ⟨levels, rfl⟩ : ∃ n, levels = n + 1 :=
    Nat.exists_eq_succ_of_ne_zero (Nat.ne_of_gt (Nat.zero_lt_of_lt (hdepth arc harc)))
  rw [branching, traverse_eq_walk]
  exact hwalk arc harc levels (Nat.le_of_lt_succ (hdepth arc harc)) (context.fork index) now rfl

include does hdepth each hwalk in
/-- The history of a visit that begins branches and of what follows. -/
theorem tells_split {came : Option Arc} {rest : Trail} {first : Nat × Occurrence}
    {further : History} (silent : first.2.report? = none)
    (goes : engine.Tells context.processId context.instanceId rest further) :
    engine.Tells context.processId context.instanceId
      (.visit came element context.vars (arcs.map trail) rest)
      (first :: ((engine.visit definition inBranch (engine.branching definition levels) element
        context now).history ++ further)) := by
  have htask : element.kind.task? = none := by
    rw [(step_eq_split does).1]
    rfl
  have hvalues := value_branching hdepth fun arc harc => (each arc harc).value_walk
  have htold := tells_branching context hdepth hwalk
  rw [visit_of_split does]
  exact Tells.fork silent htask (fun arc harc => hvalues arc harc context rfl) htold
    (ordered_branching levels) goes

include does hdepth each in
/-- What a visit comes to that begins branches. -/
theorem value_visit_split :
    (engine.visit definition inBranch (engine.branching definition levels) element context
      now).value = Sequel.visit ((arcs.map trail).flatMap Trail.path)
        (sequel definition inBranch context.vars (arcs.map trail)) := by
  have hvalues := value_branching hdepth fun arc harc => (each arc harc).value_walk
  rw [value_visit, does]
  exact value_fork inBranch _ element arcs context now trail fun arc harc =>
    hvalues arc harc context rfl

end Split

/-- The history of a walk is one of those that its trail can have. -/
theorem Traces.tells {inBranch : Bool} {remaining : Nat} {resumed : Bool} {came : Option Arc}
    {vars : Variables} {id : String} {trail : Trail}
    (h : engine.Traces definition inBranch remaining resumed came vars id trail) :
    ∀ levels, trail.depth ≤ levels → ∀ (context : Context) (now : Nat), context.vars = vars →
      engine.Tells context.processId context.instanceId trail
        (engine.walk definition inBranch (engine.branching definition levels) remaining resumed
          context id now).history := by
  induction h with
  | missing absent =>
    rintro levels - context now rfl
    rw [walk_of_missing absent]
    exact .halt rfl
  | join found awaits =>
    rintro levels - context now rfl
    rw [walk_of_awaits found awaits]
    exact .halt rfl
  | limit found enters =>
    rintro levels - context now rfl
    rw [walk_of_limit found enters]
    exact .halt rfl
  | stop found enters does =>
    rintro levels - context now rfl
    rw [history_walk found enters, value_visit, does]
    exact .alone (reports_arrival fun arcs heq => by rw [does] at heq; cases heq) (.halt rfl)
  | @go inBranch remaining resumed came vars id element arc after rest found enters does goes ih =>
    rintro levels hdepth context now rfl
    rw [history_walk found enters, value_visit, does]
    refine .alone (reports_arrival fun arcs heq => by rw [does] at heq; cases heq) ?_
    exact ih levels (Nat.le_trans Trail.depth_rest_le hdepth)
      { context with current := some element.id, vars := after } _ rfl
  | @part inBranch remaining resumed came vars id element arcs branch outcome after found enters
      does each ends ih =>
    rintro levels hdepth context now rfl
    have hdepths : ∀ arc ∈ arcs, (branch arc).depth < levels := fun arc harc =>
      Nat.lt_of_lt_of_le (Trail.depth_lt_of_mem (List.mem_map_of_mem harc)) hdepth
    let arrived : Context := { context with current := some element.id }
    rw [history_walk found enters, value_visit_split arrived does hdepths each, ends]
    exact tells_split arrived does hdepths each ih rfl (.halt rfl)
  | @meet inBranch remaining resumed came vars id element arcs branch join after rest found enters
      does each meets goes ihe ih =>
    rintro levels hdepth context now rfl
    have hdepths : ∀ arc ∈ arcs, (branch arc).depth < levels := fun arc harc =>
      Nat.lt_of_lt_of_le (Trail.depth_lt_of_mem (List.mem_map_of_mem harc)) hdepth
    let arrived : Context := { context with current := some element.id }
    rw [history_walk found enters, value_visit_split arrived does hdepths each, meets]
    refine tells_split arrived does hdepths each ihe rfl ?_
    exact ih levels (Nat.le_trans Trail.depth_rest_le hdepth) { arrived with vars := after } _ rfl

/-! ## Which reports there are, and in which order -/

namespace Tells

variable {processId : String} {id : InstanceId} {trail : Trail} {history : History}

theorem reports_visit_eq {element : Element} {vars : Variables}
    {middle before after further : History}
    (reports : before.reports = (engine.reportOf processId id element vars).toList)
    (silent : after.reports = []) :
    History.reports (before ++ (middle ++ (after ++ further))) =
      (engine.reportOf processId id element vars).toList ++
        (middle.reports ++ further.reports) := by
  simp [reports, silent]

theorem reports_told (told : List (Trail × History)) :
    History.reports (told.flatMap Prod.snd) =
      told.zipIdx.flatMap fun entry => entry.1.2.reports := by
  rw [History.reports_flatMap, flatMap_fst_zipIdx fun branch : Trail × History => branch.2.reports]

theorem reportsOf_told (told : List (Trail × History)) :
    (told.map Prod.fst).zipIdx.flatMap (fun entry =>
        engine.reportsOf processId (id.branch entry.2) entry.1.stations) =
      told.zipIdx.flatMap fun entry =>
        engine.reportsOf processId (id.branch entry.2) entry.1.1.stations := by
  rw [List.zipIdx_map, List.flatMap_map]
  rfl

/-- What is reported is what the visits report, in some order. -/
theorem perm_reports (h : engine.Tells processId id trail history) :
    history.reports.Perm (engine.reportsOf processId id trail.stations) := by
  induction h with
  | halt silent =>
    rw [silent, Trail.stations_halt]
    rfl
  | @visit id came element vars told rest before after further reports each ordered silent _ goes
      ih ihgoes =>
    rw [reports_visit_eq reports silent, reportsOf_visit, reportsOf_told]
    refine List.Perm.append_left _ (List.Perm.append ?_ ihgoes)
    have hmiddle := History.perm_reports (History.perm_inTime (told.flatMap Prod.snd))
    rw [reports_told] at hmiddle
    exact hmiddle.trans (List.Perm.flatMap_left _ ih)

/-- Everything is reported under ids within that of the traversal. -/
theorem covers_of_mem (h : engine.Tells processId id trail history) {report : Report}
    (hreport : report ∈ history.reports) : id.covers report.instanceId = true := by
  rw [h.perm_reports.mem_iff, reportsOf, List.mem_filterMap] at hreport
  obtain ⟨station, -, hstation⟩ := hreport
  obtain ⟨spec, -, rfl⟩ := Option.map_eq_some_iff.mp hstation
  exact InstanceId.covers_descend _ _

/-- If all happens at one time, it is reported in the order of the path. -/
theorem reports_eq (h : engine.Tells processId id trail history) {now : Nat}
    (hnow : ∀ entry ∈ history, entry.1 = now) :
    history.reports = engine.reportsOf processId id trail.stations := by
  induction h with
  | halt silent => rw [silent, Trail.stations_halt, reportsOf_nil]
  | @visit id came element vars told rest before after further reports each ordered silent _ goes
      ih ihgoes =>
    simp only [List.mem_append, History.mem_inTime] at hnow
    have htold : ∀ entry ∈ told.flatMap Prod.snd, entry.1 = now := fun entry hentry =>
      hnow entry (Or.inr (Or.inl hentry))
    have hordered : History.Ordered (told.flatMap Prod.snd) :=
      List.pairwise_of_forall_mem_list fun a ha b hb => by rw [htold a ha, htold b hb]
    rw [reports_visit_eq reports silent, reportsOf_visit, reportsOf_told,
      History.inTime_of_ordered hordered, reports_told]
    congr 2
    · refine List.flatMap_congr fun entry hentry => ih entry hentry fun occurrence hmem => ?_
      exact htold occurrence (List.mem_flatMap.mpr
        ⟨entry.1, List.fst_mem_of_mem_zipIdx hentry, hmem⟩)
    · exact ihgoes fun entry hentry => hnow entry (by simp [hentry])

/-- The reports of branches that have an instance id in common come from one of them. -/
theorem place_eq {told : List (Trail × History)}
    (each : ∀ entry ∈ told.zipIdx, engine.Tells processId (id.branch entry.2) entry.1.1 entry.1.2)
    {i j : Nat} (hi : i < told.length) (hj : j < told.length) {first second : Report}
    (hfirst : first ∈ told[i].2.reports) (hsecond : second ∈ told[j].2.reports)
    (heq : first.instanceId = second.instanceId) : i = j := by
  have hcovers := (each (told[i], i) (List.mk_mem_zipIdx_iff_getElem?.mpr
    (List.getElem?_eq_getElem hi))).covers_of_mem hfirst
  rw [heq] at hcovers
  exact InstanceId.place_eq_of_covers hcovers ((each (told[j], j)
    (List.mk_mem_zipIdx_iff_getElem?.mpr (List.getElem?_eq_getElem hj))).covers_of_mem hsecond)

/-- What is reported under one id is reported in the order of the path. -/
theorem filter_reports (h : engine.Tells processId id trail history) (text : String) :
    history.reports.filter (·.instanceId == text) =
      (engine.reportsOf processId id trail.stations).filter (·.instanceId == text) := by
  induction h with
  | halt silent => rw [silent, Trail.stations_halt, reportsOf_nil]
  | @visit id came element vars told rest before after further reports each ordered silent _ goes
      ih ihgoes =>
    have hmiddle : (History.inTime (told.flatMap Prod.snd)).reports.filter
        (·.instanceId == text) =
        (told.map Prod.snd).flatMap fun history => history.reports.filter
          (·.instanceId == text) := by
      refine History.filter_reports_inTime (List.forall_mem_map.mpr ordered) ?_
      rintro i j hi hj ⟨first, hfirst, heq⟩ ⟨second, hsecond, heq'⟩
      rw [List.getElem_map] at hfirst hsecond
      rw [beq_iff_eq] at heq heq'
      exact place_eq each _ _ hfirst hsecond (heq.trans heq'.symm)
    rw [reports_visit_eq reports silent, reportsOf_visit, reportsOf_told]
    simp only [List.filter_append]
    rw [hmiddle, ihgoes, List.filter_flatMap, List.flatMap_map, ← flatMap_fst_zipIdx
      fun branch : Trail × History => branch.2.reports.filter (·.instanceId == text)]
    congr 2
    exact List.flatMap_congr ih

/-- Two engines report the same on a trail, if the visits in it report the same. -/
theorem reports_agree {other : Engine} {history' : History}
    (h : engine.Tells processId id trail history) (h' : other.Tells processId id trail history')
    (heq : other.reportsOf processId id trail.stations =
      engine.reportsOf processId id trail.stations) :
    history'.reports.Perm history.reports ∧
      ∀ text, history'.reports.filter (·.instanceId == text) =
        history.reports.filter (·.instanceId == text) := by
  have hperm := h'.perm_reports
  rw [heq] at hperm
  refine ⟨hperm.trans h.perm_reports.symm, fun text => ?_⟩
  rw [h'.filter_reports, h.filter_reports, heq]

/-! ### Further occurrences -/

/-- More may be said first. -/
theorem prepend (h : engine.Tells processId id trail history) {said : History}
    (hsaid : said.reports = []) : engine.Tells processId id trail (said ++ history) := by
  cases h with
  | halt silent => exact .halt (by simp [hsaid, silent])
  | visit reports each ordered silent complains goes =>
    rw [← List.append_assoc]
    exact .visit (by simp [hsaid, reports]) each ordered silent complains goes

/-- More may be said last. -/
theorem append (h : engine.Tells processId id trail history) {said : History}
    (hsaid : said.reports = []) : engine.Tells processId id trail (history ++ said) := by
  induction h with
  | halt silent => exact .halt (by simp [hsaid, silent])
  | visit reports each ordered silent complains _ _ ih =>
    simp only [List.append_assoc]
    exact .visit reports each ordered silent complains ih

end Tells

/-! ## Runs -/

/-- By the rules, a run of a context through a definition leaves a trail: that of its traversal, or
none if nothing starts the process. -/
inductive Leaves (engine : Engine) (definition : Definition) (context : Context) :
    Trail → Prop where
  /-- nothing starts the process -/
  | nothing {error : Error} (unstarted : definition.start = .error error) :
    Leaves engine definition context (.halt none (.failed error) context.vars)
  /-- the traversal from the start leaves the trail -/
  | traces {start : Element} {trail : Trail} (starts : definition.start = .ok start)
    (goes : engine.Traces definition false engine.maxSteps false none context.vars start.id trail) :
    Leaves engine definition context trail

section Run

variable {levels : Nat} {context : Context} {trail : Trail}

/-- A run comes to what its trail says. -/
theorem Leaves.value_runThrough (h : engine.Leaves definition context trail)
    (hdepth : trail.depth ≤ levels) (now : Nat) :
    (engine.runThrough definition levels context now).value =
      (trail.outcome.completion, context.after (trail.traversal context.current)) := by
  cases h with
  | nothing unstarted =>
    rw [runThrough, unstarted, Trail.traversal_halt]
    simp [Context.after, Trail.outcome, Outcome.completion]
  | traces starts goes => exact goes.value_runThrough starts hdepth now

/-- The history of a run is one of those that its trail can have. -/
theorem Leaves.tells (h : engine.Leaves definition context trail) (hdepth : trail.depth ≤ levels)
    (now : Nat) :
    engine.Tells context.processId context.instanceId trail
      (engine.runThrough definition levels context now).history := by
  cases h with
  | nothing unstarted =>
    rw [runThrough, unstarted]
    exact .halt rfl
  | @traces start _ starts goes =>
    rw [runThrough, starts]
    dsimp only
    rw [runFrom, history_andThen, history_andThen, traverse_eq_walk]
    refine Tells.prepend (Tells.append ?_ ?_) ?_
    · exact goes.tells levels hdepth context now rfl
    · rw [reports_done]
      split <;> rfl
    · rw [reports_done, List.filterMap_append]
      unfold startWarning
      split <;> rfl

/-- What a run visits are elements of the process. -/
theorem Leaves.element?_of_mem (h : engine.Leaves definition context trail) :
    ∀ station ∈ trail.stations, definition.element? station.element.id = some station.element := by
  cases h with
  | nothing => simp
  | traces _ goes => exact goes.element?_of_mem

/-- A run that was not cut off for its nesting leaves a trail. -/
theorem exists_leaves {now : Nat}
    (h : (engine.runThrough definition levels context now).value.1 ≠ .unbounded) :
    ∃ trail, engine.Leaves definition context trail ∧ trail.depth ≤ levels := by
  rcases hstart : definition.start with error | start
  · exact ⟨_, .nothing hstart, Trail.depth_halt_le⟩
  · obtain ⟨trail, htraces, hdepth⟩ := exists_traces_of_run hstart h
    exact ⟨trail, .traces hstart htraces, hdepth⟩

end Run

end Engine

end Workflow
