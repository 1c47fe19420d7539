import Workflow.Proofs.Stage

/-!
# Forks of which a branch fails

A fork waits for all of its branches, and then it fails if one of them did.  None of the branches
can tell whether another one fails; what the fork comes to is settled by the first of them that did,
and the variables before it stand.

* `FirstFailure` — the first of several branches that failed.
* `Engine.Unaffected` — a branch does what it would do with any other branches beside it.
* `Engine.FailedFork` — what there is behind a fork of which a branch fails.
* `Engine.Carries` — no branch before those on the way down to a traversal failed.
* `Engine.failed_forks` — all forks of which a branch fails, in all traversals of a run.
-/

namespace Workflow

/-! ## The first failure -/

/-- Of several branches, one failed on an error, and none before it failed. -/
structure FirstFailure (branches : List (Timed Traversal)) (index : Nat) (error : Error) :
    Prop where
  /-- the branch failed -/
  fails : branches[index]?.map (·.value.outcome) = some (.failed error)
  /-- the branches before it did not -/
  first : ∀ (earlier : Nat) (branch : Timed Traversal), earlier < index →
    branches[earlier]? = some branch → branch.value.outcome.error? = none

namespace FirstFailure

variable {branches : List (Timed Traversal)} {index : Nat} {error : Error}

theorem cons_zero {first : Timed Traversal} (h : first.value.outcome = .failed error)
    (more : List (Timed Traversal)) : FirstFailure (first :: more) 0 error := by
  constructor
  · simp [h]
  · intro earlier branch hearlier
    exact absurd hearlier (Nat.not_lt_zero earlier)

theorem cons_succ {first : Timed Traversal} (hfirst : first.value.outcome.error? = none)
    (h : FirstFailure branches index error) :
    FirstFailure (first :: branches) (index + 1) error := by
  constructor
  · simpa using h.fails
  · rintro (_ | earlier) branch hearlier hbranch
    · obtain rfl := Option.some.inj hbranch
      exact hfirst
    · exact h.first earlier branch (Nat.lt_of_succ_lt_succ hearlier) hbranch

/-- If a branch failed, one of them was the first to do so in the order of the flows. -/
theorem exists_of_failed (h : ∃ branch ∈ branches, branch.value.outcome.error?.isSome = true) :
    ∃ index error, FirstFailure branches index error := by
  induction branches with
  | nil => simp at h
  | cons first more ih =>
    rcases houtcome : first.value.outcome with _ | ⟨join, arrivals⟩ | error | _
    case failed => exact ⟨0, error, cons_zero houtcome more⟩
    all_goals
      have hfirst : first.value.outcome.error? = none := by rw [houtcome]; rfl
      obtain ⟨index, error, hmore⟩ := ih (by simpa [hfirst] using h)
      exact ⟨index + 1, error, hmore.cons_succ hfirst⟩

/-- The error of the first failure is the one that counts. -/
theorem findSome?_error? (h : FirstFailure branches index error) :
    (branches.map (·.value.outcome)).findSome? Outcome.error? = some error := by
  obtain ⟨hfails, hfirst⟩ := h
  induction branches generalizing index with
  | nil => simp at hfails
  | cons first more ih =>
    rcases index with _ | index
    · have houtcome : first.value.outcome = .failed error := by simpa using hfails
      rw [List.map_cons, houtcome]
      rfl
    · have houtcome : first.value.outcome.error? = none := hfirst 0 first (Nat.succ_pos index) rfl
      simp only [List.map_cons, List.findSome?_cons, houtcome]
      apply ih (by simpa using hfails)
      intro earlier branch hearlier hbranch
      exact hfirst (earlier + 1) branch (Nat.succ_lt_succ hearlier) (by simpa using hbranch)

/-- Branches of which one failed come to the error of the first that did. -/
theorem reunite_eq (h : FirstFailure branches index error)
    (hbounded : ∀ branch ∈ branches, branch.value.outcome ≠ .unbounded) (vars : Variables) :
    reunite vars (branches.map Timed.value) = .failed error := by
  have hany : ((branches.map Timed.value).map Traversal.outcome).any Outcome.isUnbounded =
      false := by
    rw [List.map_map, List.any_map, List.any_eq_false]
    intro branch hbranch hcut
    exact hbounded branch hbranch (Outcome.isUnbounded_iff.mp hcut)
  have herror := h.findSome?_error?
  rw [← Function.comp_def, ← List.map_map] at herror
  rw [reunite, hany, herror]
  rfl

end FirstFailure

/-- What stands at one place of a list only. -/
theorem flatMap_eq_of_getElem? {α β : Type} {l : List α} {f : α → List β} {place : Nat} {a : α}
    (ha : l[place]? = some a)
    (hothers : ∀ (other : Nat) (b : α), l[other]? = some b → other ≠ place → f b = []) :
    l.flatMap f = f a := by
  induction l generalizing place with
  | nil => simp at ha
  | cons first more ih =>
    rw [List.flatMap_cons]
    rcases place with _ | place
    · obtain rfl := Option.some.inj ha
      have hmore : more.flatMap f = [] := by
        rw [List.flatMap_eq_nil_iff]
        intro b hb
        obtain ⟨other, hother⟩ := List.getElem?_of_mem hb
        exact hothers (other + 1) b hother (Nat.succ_ne_zero other)
      rw [hmore, List.append_nil]
    · rw [hothers 0 first rfl (Nat.succ_ne_zero place).symm, List.nil_append]
      apply ih ha
      intro other b hb hne
      exact hothers (other + 1) b hb (Nat.succ_ne_succ_iff.mpr hne)

namespace Engine

variable {engine : Engine} {definition : Definition} {start stage : Stage} {gateway : Element}
  {path : List String} {index : Nat} {flow : Flow} {error : Error}

/-! ## What the traversal comes to -/

/-- A traversal that comes to a fork of which a branch fails ends there with the error of the first
failure, the variables that it had, and the paths of all branches. -/
theorem value_onward_of_firstFailure (h : ForksAt definition stage gateway)
    (hbounded : (engine.onward definition stage).value.outcome ≠ .unbounded)
    (hfirst : FirstFailure (engine.branchesAt definition stage gateway) index error) :
    engine.onward definition stage =
      ⟨⟨.failed error, stage.context.vars, some gateway.id,
          gateway.id :: (engine.branchesAt definition stage gateway).flatMap (·.value.path)⟩,
        (engine.visitAt definition stage gateway).finish,
        (stage.now, visiting gateway stage.context) ::
          (engine.visitAt definition stage gateway).history⟩ := by
  obtain ⟨now, hvisit⟩ := value_visitAt_of_forksAt engine h
  have hvalue : (engine.visitAt definition stage gateway).value =
      ⟨.stop (.failed error), stage.context.vars,
        (engine.branchesAt definition stage gateway).flatMap (·.value.path)⟩ := by
    rw [hvisit, reunion, hfirst.reunite_eq (bounded_branchesAt h hbounded)]
    simp [List.flatMap_map]
  have hmove : (engine.visitAt definition stage gateway).value.move = .stop (.failed error) := by
    rw [hvalue]
  rw [onward_of_stop h.toEnters hmove, hvalue]

/-- A fork waits for all of its branches. -/
theorem finish_le_finish_visitAt (h : ForksAt definition stage gateway) :
    ∀ branch ∈ engine.branchesAt definition stage gateway,
      branch.finish ≤ (engine.visitAt definition stage gateway).finish := by
  have hreunion : ∀ (vars : Variables) (branches : List Traversal) (now : Nat),
      (reunion definition stage.inBranch gateway vars branches now).finish = now := by
    intro vars branches now
    unfold reunion
    split <;> rfl
  rw [visitAt_of_forksAt h]
  intro branch hbranch
  refine Nat.le_trans ((le_foldl_max Timed.finish stage.now _).2 branch hbranch) ?_
  exact Nat.le_of_eq (hreunion _ _ _).symm

/-! ## What the branches do -/

/-- At a visit another engine makes the same step, and reports the same. -/
def ActsAlike (engine other : Engine) (definition : Definition) (element : Element)
    (vars : Variables) : Prop :=
  engine.StepsAlike other definition element vars ∧
    ∀ processId id, other.reportOf processId id element vars =
      engine.reportOf processId id element vars

/-- A branch of a fork does all that it would do by itself, and nothing in this depends on how the
others fare: with any engine that acts alike at the visits of this branch, it visits the same
elements and reports the same, whatever that engine does in the others. -/
structure Unaffected (engine : Engine) (definition : Definition) (stage : Stage)
    (gateway : Element) (index : Nat) (flow : Flow) (branch : Timed Traversal) (trail : Trail) :
    Prop where
  /-- it is one of the branches of the fork -/
  runs : (engine.branchesAt definition stage gateway)[index]? = some branch
  /-- it is a walk of its own from the end of its flow -/
  alone : branch = engine.onward definition (engine.branchAt stage gateway index flow)
  /-- by the rules it leaves a trail -/
  traces : engine.Traces definition true engine.maxSteps false none stage.context.vars flow.target
    trail
  /-- and that trail it goes to the end -/
  value : branch.value = trail.traversal (some gateway.id)
  /-- it reports its visits under its own id -/
  reports : branch.history.reports.Perm (engine.reportsOf stage.context.processId
    (stage.context.instanceId.branch index) trail.stations)
  /-- it does the same if other branches fare otherwise -/
  others : ∀ (other : Engine) (now : Nat), other.maxSteps = engine.maxSteps →
    (∀ station ∈ trail.stations,
      engine.ActsAlike other definition station.element station.vars) →
    ∃ branch', (other.branchesAt definition { stage with now := now } gateway)[index]? =
        some branch' ∧
      branch'.value = branch.value ∧ branch'.history.reports.Perm branch.history.reports ∧
      ∀ text, branch'.history.reports.filter (·.instanceId == text) =
        branch.history.reports.filter (·.instanceId == text)

theorem reportsOf_eq_of_actsAlike {other : Engine} {stations : List Station}
    (h : ∀ station ∈ stations, engine.ActsAlike other definition station.element station.vars)
    (processId : String) (id : InstanceId) :
    other.reportsOf processId id stations = engine.reportsOf processId id stations :=
  List.filterMap_congr fun station hstation => (h station hstation).2 processId _

/-- A branch of a bounded traversal leaves a trail. -/
theorem exists_trail (h : ForksAt definition stage gateway)
    (hbounded : (engine.onward definition stage).value.outcome ≠ .unbounded)
    (leads : (definition.outgoing gateway.id)[index]? = some flow) :
    ∃ trail, engine.Traces definition true engine.maxSteps false none stage.context.vars
      flow.target trail ∧ trail.depth < stage.levels := by
  have hlevels := levels_ne_zero h hbounded
  have hruns := getElem?_branchesAt engine hlevels leads
  have hbranch := bounded_branchesAt h hbounded _ (List.mem_of_getElem? hruns)
  obtain ⟨trail, htraces, hdepth⟩ := exists_traces_walk (stage.levels - 1) true engine.maxSteps
    false none _ flow.target stage.now hbranch
  exact ⟨trail, htraces, by omega⟩

/-- A trail is that of a branch of a fork, whenever the fork begins. -/
theorem Traces.exists_branch {trail : Trail}
    (h : engine.Traces definition true engine.maxSteps false none stage.context.vars flow.target
      trail)
    (hdepth : trail.depth < stage.levels)
    (leads : (definition.outgoing gateway.id)[index]? = some flow) (now : Nat) :
    ∃ branch, (engine.branchesAt definition { stage with now := now } gateway)[index]? =
        some branch ∧
      branch = engine.onward definition
        (engine.branchAt { stage with now := now } gateway index flow) ∧
      branch.value = trail.traversal (some gateway.id) ∧
      engine.Tells stage.context.processId (stage.context.instanceId.branch index) trail
        branch.history := by
  have hlevels : ({ stage with now := now } : Stage).levels ≠ 0 :=
    Nat.ne_of_gt (Nat.zero_lt_of_lt hdepth)
  have hruns := getElem?_branchesAt engine hlevels leads
  let context := (stage.arrived gateway).fork index
  refine ⟨_, hruns, rfl, ?_, ?_⟩
  · exact h.value_walk (stage.levels - 1) (Nat.le_sub_one_of_lt hdepth) context now rfl
  · exact h.tells (stage.levels - 1) (Nat.le_sub_one_of_lt hdepth) context now rfl

/-- The branches of a fork are unaffected by one another. -/
theorem exists_unaffected (h : ForksAt definition stage gateway)
    (hbounded : (engine.onward definition stage).value.outcome ≠ .unbounded)
    (leads : (definition.outgoing gateway.id)[index]? = some flow) :
    ∃ branch trail, engine.Unaffected definition stage gateway index flow branch trail := by
  obtain ⟨trail, htraces, hdepth⟩ := exists_trail h hbounded leads
  obtain ⟨branch, hruns, halone, hvalue, htells⟩ := htraces.exists_branch hdepth leads stage.now
  refine ⟨branch, trail, hruns, halone, htraces, hvalue, htells.perm_reports, ?_⟩
  intro other now hlimit halike
  have hreports := reportsOf_eq_of_actsAlike halike stage.context.processId
    (stage.context.instanceId.branch index)
  rw [← hlimit] at htraces
  have hother := htraces.of_step_eq hlimit fun station hstation => (halike station hstation).1
  obtain ⟨branch', hruns', -, hvalue', htells'⟩ := hother.exists_branch hdepth leads now
  exact ⟨branch', hruns', hvalue'.trans hvalue.symm, htells.reports_agree htells' hreports⟩

/-! ## What is reported meanwhile -/

/-- What a branch reports is reported under ids within its own. -/
theorem covers_of_mem_branch (h : ForksAt definition stage gateway)
    (hbounded : (engine.onward definition stage).value.outcome ≠ .unbounded)
    {branch : Timed Traversal}
    (hbranch : (engine.branchesAt definition stage gateway)[index]? = some branch) :
    ∀ report ∈ branch.history.reports,
      (stage.context.instanceId.branch index).covers report.instanceId = true := by
  have hindex : index < (definition.outgoing gateway.id).length := by
    rw [← length_branchesAt engine definition stage]
    exact (List.getElem?_eq_some_iff.mp hbranch).1
  have leads := List.getElem?_eq_getElem hindex
  obtain ⟨trail, htraces, hdepth⟩ := exists_trail h hbounded leads
  obtain ⟨branch', hruns, -, -, htells⟩ := htraces.exists_branch hdepth leads stage.now
  obtain rfl : branch = branch' := Option.some.inj (hbranch.symm.trans hruns)
  intro report hreport
  exact htells.covers_of_mem hreport

/-- While the branches of a fork run, everything that they report is reported. -/
theorem perm_reports_visitAt (h : ForksAt definition stage gateway) :
    (engine.visitAt definition stage gateway).history.reports.Perm
      ((engine.branchesAt definition stage gateway).flatMap (·.history.reports)) := by
  rw [visitAt_of_forksAt h, history_fork, forking, History.reports_logged, History.reports_append,
    reports_reunion, List.append_nil, ← History.reports_flatMap]
  exact History.perm_reports (History.perm_inTime _)

/-- And of these reports, those of one branch are told from the others by their ids. -/
theorem filter_reports_visitAt (h : ForksAt definition stage gateway)
    (hbounded : (engine.onward definition stage).value.outcome ≠ .unbounded)
    {branch : Timed Traversal}
    (hbranch : (engine.branchesAt definition stage gateway)[index]? = some branch) :
    (engine.visitAt definition stage gateway).history.reports.filter
        ((stage.context.instanceId.branch index).covers ·.instanceId) = branch.history.reports := by
  let branches := engine.branchesAt definition stage gateway
  let covered (report : Report) : Bool :=
    (stage.context.instanceId.branch index).covers report.instanceId
  -- a report within the id of this branch is one of this branch
  have honly : ∀ (place : Nat) (other : Timed Traversal), branches[place]? = some other →
      ∀ report ∈ other.history.reports, covered report = true → place = index := by
    intro place other hother report hreport hcovered
    exact InstanceId.place_eq_of_covers (covers_of_mem_branch h hbounded hother report hreport)
      hcovered
  have hordered : ∀ history ∈ branches.map Timed.history, history.Ordered := by
    intro history hhistory
    obtain ⟨other, hother, rfl⟩ := List.mem_map.mp hhistory
    obtain ⟨⟨flow, place⟩, -, rfl⟩ := List.mem_map.mp hother
    exact ordered_branching _ _ _ _
  have hreports := History.filter_reports_inTime (p := covered) hordered (by
    rintro i j hi hj ⟨first, hfirst, hcovered⟩ ⟨second, hsecond, hcovered'⟩
    rw [List.getElem_map] at hfirst hsecond
    rw [honly i _ (List.getElem?_eq_getElem _) first hfirst hcovered,
      honly j _ (List.getElem?_eq_getElem _) second hsecond hcovered'])
  rw [visitAt_of_forksAt h, history_fork, forking, History.reports_logged, History.reports_append,
    reports_reunion, List.append_nil, List.flatMap_def]
  calc
    _ = (branches.map Timed.history).flatMap fun history => history.reports.filter covered :=
      hreports
    _ = branches.flatMap fun branch => branch.history.reports.filter covered :=
      List.flatMap_map _ _ _
    _ = branch.history.reports.filter covered := by
      apply flatMap_eq_of_getElem? hbranch
      intro place other hother hne
      rw [List.filter_eq_nil_iff]
      intro report hreport hcovered
      exact hne (honly place other hother report hreport hcovered)
    _ = branch.history.reports :=
      List.filter_eq_self.mpr (covers_of_mem_branch h hbounded hbranch)

/-! ## Failed forks -/

/-- What there is when a traversal has passed along a path to a fork of which a branch fails. -/
structure FailedFork (engine : Engine) (definition : Definition) (start : Stage)
    (path : List String) (stage : Stage) (gateway : Element) (index : Nat) (error : Error) :
    Prop where
  /-- the branch is the first of those that failed -/
  first : FirstFailure (engine.branchesAt definition stage gateway) index error
  /-- the traversal fails on the same error, with the variables that it had at the fork and the fork
  as current element, behind the paths of all branches -/
  value : (engine.onward definition start).value =
    ⟨.failed error, stage.context.vars, some gateway.id,
      path ++ gateway.id :: (engine.branchesAt definition stage gateway).flatMap (·.value.path)⟩
  /-- along every flow a branch ran to its end -/
  branches : ∀ (place : Nat) (flow : Flow), (definition.outgoing gateway.id)[place]? = some flow →
    ∃ branch trail, engine.Unaffected definition stage gateway place flow branch trail ∧
      branch.finish ≤ (engine.onward definition start).finish
  /-- behind what happened before the fork, all that the branches report is reported, and the
  reports of each of them keep their order -/
  reports : ∃ before during, (engine.onward definition start).history = before ++ during ∧
    during.reports.Perm
      ((engine.branchesAt definition stage gateway).flatMap (·.history.reports)) ∧
    ∀ (place : Nat) (branch : Timed Traversal),
      (engine.branchesAt definition stage gateway)[place]? = some branch →
      during.reports.filter ((stage.context.instanceId.branch place).covers ·.instanceId) =
        branch.history.reports

theorem Passes.failedFork (hpasses : engine.Passes definition start path stage)
    (h : ForksAt definition stage gateway)
    (hbounded : (engine.onward definition start).value.outcome ≠ .unbounded)
    (hfirst : FirstFailure (engine.branchesAt definition stage gateway) index error) :
    engine.FailedFork definition start path stage gateway index error := by
  rw [hpasses.value_onward] at hbounded
  have honward := value_onward_of_firstFailure h hbounded hfirst
  refine ⟨hfirst, ?_, ?_, ?_⟩
  · rw [hpasses.value_onward, honward]
  · intro place flow leads
    obtain ⟨branch, trail, hunaffected⟩ := exists_unaffected h hbounded leads
    refine ⟨branch, trail, hunaffected, ?_⟩
    rw [hpasses.finish_onward, honward]
    exact finish_le_finish_visitAt h branch (List.mem_of_getElem? hunaffected.runs)
  · obtain ⟨before, hhistory⟩ := hpasses.exists_history
    rw [hhistory, honward]
    refine ⟨before, _, rfl, ?_, ?_⟩
    · rw [visiting, History.reports_logged]
      exact perm_reports_visitAt h
    · intro place branch hbranch
      rw [visiting, History.reports_logged]
      exact filter_reports_visitAt h hbounded hbranch

/-! ## The way of an error -/

/-- A traversal begins within another one, at whatever depth. -/
def Nests (engine : Engine) (definition : Definition) : Stage → Stage → Prop :=
  engine.Descends definition fun _ _ => True

/-- A traversal begins within another one, and at none of the forks on the way down to it a branch
before that way fails. -/
def Carries (engine : Engine) (definition : Definition) : Stage → Stage → Prop :=
  engine.Descends definition fun branches index =>
    ∀ (earlier : Nat) (branch : Timed Traversal), earlier < index →
      branches[earlier]? = some branch → branch.value.outcome.error? = none

/-- An error is carried upwards, fork by fork, as long as no branch before it fails. -/
theorem Carries.failed {root : Stage} (h : engine.Carries definition root start)
    (hbounded : (engine.onward definition root).value.outcome ≠ .unbounded)
    (hfailed : (engine.onward definition start).value.outcome = .failed error) :
    (engine.onward definition root).value.outcome = .failed error := by
  induction h with
  | root => exact hfailed
  | @branch start stage path gateway index flow descends passes forks leads chooses ih =>
    have hstart := descends.bounded hbounded
    have hstage := hstart
    rw [passes.value_onward] at hstage
    have hruns := getElem?_branchesAt engine (levels_ne_zero forks hstage) leads
    have hfails : (engine.branchesAt definition stage gateway)[index]?.map (·.value.outcome) =
        some (.failed error) := by
      rw [hruns]
      exact congrArg some hfailed
    apply ih
    rw [(passes.failedFork forks hstart ⟨hfails, chooses⟩).value]

/-! ## Runs -/

/-- **A failed fork is atomic.** Let a run not be cut off for its nesting, and let a branch fail at
a fork that a traversal of it comes to, at whatever depth.  Then all branches of the fork run to
their ends, unaffected by each other, and the fork waits for them; the traversal fails on the error
of the first branch that failed, in the order of the flows, with the variables and the current
element that it had at the fork, and its path goes on with those of all branches.  So does every
traversal around it, and the run itself, unless a branch fails at a fork on the way down that comes
before it.  A run that failed for whatever reason leaves the variables that it had where it got no
further. -/
theorem failed_forks (engine : Engine) (definition : Definition) (levels : Nat) (context : Context)
    (start : Element) (now : Nat) (hstart : definition.start = .ok start)
    (hbounded : (engine.runThrough definition levels context now).value.1 ≠ .unbounded) :
    let run := engine.runThrough definition levels context now
    let root := engine.outset levels false context start.id now
    run.value.2 = context.after (engine.onward definition root).value ∧
      (∀ (traversal stage : Stage) (path : List String) (gateway : Element),
        engine.Nests definition root traversal →
        engine.Passes definition traversal path stage →
        ForksAt definition stage gateway →
        (∃ branch ∈ engine.branchesAt definition stage gateway,
          branch.value.outcome.error?.isSome = true) →
        ∃ index error, engine.FailedFork definition traversal path stage gateway index error ∧
          (∀ around, engine.Nests definition root around →
            engine.Carries definition around traversal →
            (engine.onward definition around).value.outcome = .failed error) ∧
          (engine.Carries definition root traversal → run.value.1 = .failed error)) ∧
      ∀ error, run.value.1 = .failed error →
        ∃ path last, engine.Passes definition root path last ∧
          (∀ path' later, engine.Passes definition last path' later → later = last) ∧
          (engine.onward definition last).value.outcome = .failed error ∧
          run.value.2.vars = last.context.vars := by
  intro run root
  have hvalue : run.value = ((engine.onward definition root).value.outcome.completion,
      context.after (engine.onward definition root).value) := by
    simp only [run, root, runThrough, hstart, onward_outset]
    rfl
  have hroot : (engine.onward definition root).value.outcome ≠ .unbounded := by
    intro hcut
    apply hbounded
    change run.value.1 = _
    rw [hvalue, hcut]
    rfl
  refine ⟨by rw [hvalue], ?_, ?_⟩
  · intro traversal stage path gateway hnests hpasses hforks hfails
    obtain ⟨index, error, hfirst⟩ := FirstFailure.exists_of_failed hfails
    have hfork := hpasses.failedFork hforks (hnests.bounded hroot) hfirst
    have hfailed : (engine.onward definition traversal).value.outcome = .failed error := by
      rw [hfork.value]
    refine ⟨index, error, hfork, ?_, ?_⟩
    · intro around haround hcarries
      exact hcarries.failed (haround.bounded hroot) hfailed
    · intro hcarries
      rw [hvalue, hcarries.failed hroot hfailed]
      rfl
  · intro error hfailed
    rw [hvalue] at hfailed
    replace hfailed := Outcome.eq_failed_of_completion hfailed
    obtain ⟨path, last, hpasses, hlast, hvars⟩ := exists_last hfailed
    rw [hpasses.value_onward] at hfailed
    exact ⟨path, last, hpasses, hlast, hfailed, by rw [hvalue]; exact hvars⟩

end Engine

/-! ## Failures in a failed branch

One branch of the outer fork gives a value, the second one forks again and fails, and so does the
third one.  Both branches of the inner fork fail.  The failures that come later in the order of the
flows come earlier in time. -/

namespace LateFailure

/-- A fork of which one branch forks again. -/
def process : Definition where
  id := "late"
  name := none
  elements := [⟨"start", none, .startEvent⟩, ⟨"outer", none, .parallelGateway⟩,
    ⟨"alone", none, .task .service (TaskSpec.of "good")⟩, ⟨"inner", none, .parallelGateway⟩,
    ⟨"left", none, .task .service (TaskSpec.of "late")⟩,
    ⟨"right", none, .task .service (TaskSpec.of "early")⟩,
    ⟨"last", none, .task .service (TaskSpec.of "nobody")⟩, ⟨"end", none, .endEvent⟩]
  flows := [⟨"start", "outer", none⟩, ⟨"outer", "alone", none⟩, ⟨"outer", "inner", none⟩,
    ⟨"outer", "last", none⟩, ⟨"inner", "left", none⟩, ⟨"inner", "right", none⟩,
    ⟨"alone", "end", none⟩]

/-- An engine of which two agents fail, one of them later than the other. -/
def engine : Engine where
  maxSteps := 10
  evaluator := fun _ _ => true
  sink := .null
  agents := [("good", ⟨some (.constant (.int 1) 7), none, none, .null⟩),
    ("late", ⟨some (.failing "late" 5), none, none, .null⟩),
    ("early", ⟨some (.failing "early" 0), none, none, .null⟩)]
  processes := [("late", process)]

/-- The beginning of the run. -/
def context : Context :=
  .start "late" ⟨"i"⟩ []

/-- The element with an id. -/
def element (id : String) : Element :=
  (process.element? id).getD ⟨id, none, .endEvent⟩

/-- The stage at which the run begins. -/
def root : Stage :=
  engine.outset 3 false context "start" 0

/-- The stage at which it comes to the outer fork. -/
def outer : Stage :=
  root.next (element "start") (engine.visitAt process root (element "start")) "outer" false

/-- The stage at which the second branch begins, at the inner fork. -/
def inner : Stage :=
  engine.branchAt outer (element "outer") 1 ⟨"outer", "inner", none⟩

theorem bounded : (engine.runThrough process 3 context 0).value.1 ≠ .unbounded := by
  decide +kernel

theorem starts : Engine.Enters process root (element "start") :=
  ⟨rfl, rfl, by decide⟩

theorem passes : ∃ path, engine.Passes process root path outer :=
  ⟨_, .on starts rfl (.here outer)⟩

theorem outer_forks : Engine.ForksAt process outer (element "outer") :=
  ⟨⟨rfl, rfl, by decide⟩, rfl, by decide⟩

theorem inner_forks : Engine.ForksAt process inner (element "inner") :=
  ⟨⟨rfl, rfl, by decide⟩, rfl, by decide⟩

theorem nests : engine.Nests process root inner := by
  obtain ⟨path, hpasses⟩ := passes
  exact .branch .root hpasses outer_forks rfl trivial

theorem carries : engine.Carries process root inner := by
  obtain ⟨path, hpasses⟩ := passes
  refine .branch .root hpasses outer_forks rfl ?_
  intro earlier branch hearlier hbranch
  obtain rfl : earlier = 0 := by omega
  obtain rfl := Option.some.inj hbranch
  rfl

theorem fails : ∃ branch ∈ engine.branchesAt process inner (element "inner"),
    branch.value.outcome.error?.isSome = true :=
  ⟨_, List.mem_cons_self, rfl⟩

/-- The run fails on the error of the first branch of the inner fork. -/
theorem inner_failure_of_run :
    process.start = .ok (element "start") ∧
      (engine.runThrough process 3 context 0).value.1 ≠ .unbounded ∧
      engine.Nests process root inner ∧ engine.Passes process inner [] inner ∧
      Engine.ForksAt process inner (element "inner") ∧
      (∃ branch ∈ engine.branchesAt process inner (element "inner"),
        branch.value.outcome.error?.isSome = true) ∧
      engine.Carries process root inner ∧
      ∃ index, engine.FailedFork process inner [] inner (element "inner") index
        (.executionFailed "left" "late") := by
  refine ⟨rfl, bounded, nests, .here inner, inner_forks, fails, carries, ?_⟩
  obtain ⟨-, hforks, -⟩ := Engine.failed_forks engine process 3 context (element "start") 0 rfl
    bounded
  obtain ⟨index, error, hfork, -, hrun⟩ := hforks inner inner [] (element "inner") nests
    (.here inner) inner_forks fails
  have hfailed : (engine.runThrough process 3 context 0).value.1 =
      .failed (.executionFailed "left" "late") := by decide +kernel
  rw [hrun carries] at hfailed
  obtain rfl := Completion.failed.inj hfailed
  exact ⟨index, hfork⟩

example : (engine.runThrough process 3 context 0).value.2.path =
    ["start", "outer", "alone", "end", "inner", "left", "right", "last"] := by decide +kernel

end LateFailure

end Workflow
