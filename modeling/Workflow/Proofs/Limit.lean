import Workflow.Proofs.Allowance
import Workflow.Proofs.Delays
import Workflow.Proofs.Stage

/-!
# The limit of visits

A traversal may visit only so many elements, and each branch counts its own visits.  The limit ends
a run that goes on for too long, but it does nothing else: a run that completed never came to it,
and so it completes in the same way under every higher limit.  Where no branches can begin there is
only one traversal.  Then a run either never comes to the limit, or it goes the first part of the
way that it goes under a higher limit, and fails there.

* `Stage.extended` — the same stage with more visits left.
* `Engine.Spends` — what a walk without branches is, compared with one that has more visits left.
* `Engine.limit_is_transparent` — what a run is under a higher limit.
-/

namespace Workflow

/-- The same stage with another number of visits left. -/
def Stage.extended (stage : Stage) (more : Nat) : Stage :=
  { stage with remaining := more }

namespace Engine

variable {engine : Engine} {definition : Definition} {stage : Stage} {element : Element}
  {limit more : Nat}

/-! ## Stages with more visits left -/

/-- At a stage the traversal comes to no element, it ends in front of a join, it has no visit left,
or it visits an element. -/
theorem stage_cases (definition : Definition) (stage : Stage) :
    definition.element? stage.id = none ∨
      (∃ element, definition.element? stage.id = some element ∧
        definition.awaits stage.inBranch stage.resumed element = true) ∨
      (∃ element, definition.element? stage.id = some element ∧
        definition.awaits stage.inBranch stage.resumed element = false ∧ stage.remaining = 0) ∨
      ∃ element, Enters definition stage element := by
  rcases hfound : definition.element? stage.id with _ | element
  · exact Or.inl rfl
  right
  rcases hawaits : definition.awaits stage.inBranch stage.resumed element
  swap
  · exact Or.inl ⟨element, rfl, hawaits⟩
  right
  by_cases hleft : stage.remaining = 0
  · exact Or.inl ⟨element, rfl, hawaits, hleft⟩
  · exact Or.inr ⟨element, hfound, hawaits, hleft⟩

/-- The value of a walk that comes to no element. -/
theorem value_onward_of_missing (engine : Engine) (absent : definition.element? stage.id = none) :
    (engine.onward definition stage).value =
      ending (.failed (.malformedProcess (.missingElement stage.id definition.id)))
        stage.context :=
  congrArg Timed.value (walk_of_missing absent)

/-- The value of a walk that has no visit left. -/
theorem value_onward_of_limit (engine : Engine)
    (found : definition.element? stage.id = some element)
    (enters : definition.awaits stage.inBranch stage.resumed element = false)
    (spent : stage.remaining = 0) :
    (engine.onward definition stage).value =
      ending (.failed (.stepLimitExceeded engine.maxSteps)) stage.context := by
  rw [onward, spent, walk_of_limit found enters]
  rfl

/-- With visits left, the same element is visited. -/
theorem Enters.extended (h : Enters definition stage element) (hmore : stage.remaining ≤ more) :
    Enters definition (stage.extended more) element :=
  ⟨h.found, h.enters, Nat.ne_of_gt (Nat.lt_of_lt_of_le (Nat.pos_of_ne_zero h.left) hmore)⟩

/-- Where the visit at a stage is the same, a walk ends with it in the same way. -/
theorem onward_extended_of_stop (h : Enters definition stage element)
    (hmore : stage.remaining ≤ more) {outcome : Outcome}
    (hmove : (engine.visitAt definition stage element).value.move = .stop outcome)
    (hvisit : (engine.limited limit).visitAt definition (stage.extended more) element =
      engine.visitAt definition stage element) :
    (engine.limited limit).onward definition (stage.extended more) =
      engine.onward definition stage := by
  have hmove' := hmove
  rw [← hvisit] at hmove'
  rw [onward_of_stop (h.extended hmore) hmove', onward_of_stop h hmove, hvisit]
  rfl

/-- Or it goes on to the same next stage, with one visit less left. -/
theorem onward_extended_of_go (h : Enters definition stage element)
    (hmore : stage.remaining ≤ more) {target : String} {resumed : Bool}
    (hmove : (engine.visitAt definition stage element).value.move = .go target resumed)
    (hvisit : (engine.limited limit).visitAt definition (stage.extended more) element =
      engine.visitAt definition stage element) :
    let visit := engine.visitAt definition stage element
    let rest := (engine.limited limit).onward definition
      ((stage.next element visit target resumed).extended (more - 1))
    (engine.limited limit).onward definition (stage.extended more) =
      ⟨{ rest.value with path := element.id :: (visit.value.path ++ rest.value.path) }, rest.finish,
        (stage.now, visiting element stage.context) :: (visit.history ++ rest.history)⟩ := by
  have hmove' := hmove
  rw [← hvisit] at hmove'
  rw [onward_of_go (h.extended hmore) hmove', hvisit]
  rfl

end Engine

/-! ## Traversals without branches -/

/-- No parallel gateway has several flows out of it, so branches begin nowhere. -/
def Definition.Forkless (definition : Definition) : Prop :=
  ∀ element ∈ definition.elements, element.kind = .parallelGateway →
    (definition.outgoing element.id).length ≤ 1

namespace Engine

/-- What a walk without branches is, compared with the walk that has more visits left.  It may end
before its visits are spent; then the other walk is the same.  Or it spends them all and fails at
the limit; then the other walk visits the same elements first. -/
inductive Spends (engine : Engine) (definition : Definition) (stage : Stage) : Prop where
  /-- it ends within the limit -/
  | within (few : (engine.onward definition stage).value.path.length ≤ stage.remaining)
    (bounded : (engine.onward definition stage).value.outcome ≠ .unbounded)
    (same : ∀ limit more, stage.remaining ≤ more →
      (engine.limited limit).onward definition (stage.extended more) =
        engine.onward definition stage)
  /-- it ends at the limit -/
  | whole (fails : (engine.onward definition stage).value.outcome =
      .failed (.stepLimitExceeded engine.maxSteps))
    (spent : (engine.onward definition stage).value.path.length = stage.remaining)
    (first : ∀ limit more, stage.remaining ≤ more →
      (engine.onward definition stage).value.path <+:
        ((engine.limited limit).onward definition (stage.extended more)).value.path)

section Forkless

variable {engine : Engine} {definition : Definition} {stage : Stage} {element : Element}

theorem step_ne_split (h : definition.Forkless) (hmem : element ∈ definition.elements)
    (vars : Variables) (arcs : List Arc) : engine.step definition element vars ≠ .split arcs := by
  intro hsplit
  obtain ⟨hkind, rfl, hmany⟩ := step_eq_split hsplit
  have hfew := h element hmem hkind
  rw [← Definition.map_fst_exits, List.length_map] at hfew
  omega

/-- Without branches it does not matter how they would be traversed. -/
theorem visitAt_extended_of_forkless (h : definition.Forkless)
    (hmem : element ∈ definition.elements)
    (engine : Engine) (stage : Stage) (limit more : Nat) :
    (engine.limited limit).visitAt definition (stage.extended more) element =
      engine.visitAt definition stage element := by
  unfold visitAt visit
  rcases hkind : element.kind with _ | _ | ⟨kind, spec⟩ | _ | _
  case parallelGateway =>
    have hfew := h element hmem hkind
    rcases houtgoing : definition.outgoing element.id with _ | ⟨first, _ | ⟨second, more⟩⟩
    · rfl
    · rfl
    · simp [houtgoing] at hfew
  all_goals rfl

/-- A visit without branches ends the traversal, and not for its nesting, or it goes on. -/
theorem visitAt_of_forkless (h : definition.Forkless) (hmem : element ∈ definition.elements)
    (engine : Engine) (stage : Stage) :
    (engine.visitAt definition stage element).value.path = [] ∧
      ∀ outcome, (engine.visitAt definition stage element).value.move = .stop outcome →
        outcome ≠ .unbounded := by
  rw [visitAt, value_visit]
  rcases hstep : engine.step definition element (stage.arrived element).vars with
    ⟨outcome, after⟩ | ⟨arc, after⟩ | arcs
  · refine ⟨rfl, fun outcome' hmove => ?_⟩
    obtain rfl : outcome = outcome' := Move.stop.inj hmove
    intro hcut
    rcases step_eq_stop hstep with ⟨⟨_, rfl⟩, -⟩ | ⟨rfl, -⟩ <;> cases hcut
  · exact ⟨rfl, fun _ hmove => by cases hmove⟩
  · exact absurd hstep (step_ne_split h hmem _ arcs)

/-- A walk that comes to no element spends no visit. -/
theorem spends_of_missing (absent : definition.element? stage.id = none) :
    engine.Spends definition stage := by
  have hvalue := value_onward_of_missing engine absent
  refine .within ?_ ?_ fun limit more _ => walk_limited_of_missing absent
  · rw [hvalue]
    exact Nat.zero_le stage.remaining
  · rw [hvalue]
    nofun

/-- A walk that has no visit left is at the limit. -/
theorem spends_of_limit (found : definition.element? stage.id = some element)
    (enters : definition.awaits stage.inBranch stage.resumed element = false)
    (spent : stage.remaining = 0) : engine.Spends definition stage := by
  have hvalue := value_onward_of_limit engine found enters spent
  refine .whole ?_ ?_ fun limit more _ => ?_
  · rw [hvalue]
    rfl
  · rw [hvalue, spent]
    rfl
  · rw [hvalue]
    exact List.nil_prefix

section Visit

variable (h : definition.Forkless) (henters : Enters definition stage element)

include h henters

/-- A visit that ends its walk is the last one. -/
theorem spends_of_stop {outcome : Outcome}
    (hmove : (engine.visitAt definition stage element).value.move = .stop outcome) :
    engine.Spends definition stage := by
  have hmem := Definition.mem_of_element? henters.found
  obtain ⟨hpath, hbounded⟩ := visitAt_of_forkless h hmem engine stage
  have hwalk := onward_of_stop henters hmove
  refine .within ?_ ?_ fun limit more hmore => onward_extended_of_stop henters hmore hmove
    (visitAt_extended_of_forkless h hmem engine stage limit more)
  · rw [hwalk, hpath]
    exact Nat.pos_of_ne_zero henters.left
  · rw [hwalk]
    exact hbounded outcome hmove

/-- Behind a visit the rest of the walk has one visit less. -/
theorem Spends.go {target : String} {resumed : Bool}
    (hmove : (engine.visitAt definition stage element).value.move = .go target resumed)
    (hrest : engine.Spends definition
      (stage.next element (engine.visitAt definition stage element) target resumed)) :
    engine.Spends definition stage := by
  have hmem := Definition.mem_of_element? henters.found
  obtain ⟨hpath, -⟩ := visitAt_of_forkless h hmem engine stage
  have hone : stage.remaining - 1 + 1 = stage.remaining :=
    Nat.succ_pred_eq_of_ne_zero henters.left
  have hwalk := onward_of_go henters hmove
  have hlonger := fun limit more hmore => onward_extended_of_go henters hmore hmove
    (visitAt_extended_of_forkless h hmem engine stage limit more)
  dsimp only at hwalk hlonger
  rw [hpath] at hwalk hlonger
  cases hrest with
  | within few bounded same =>
    refine .within ?_ ?_ fun limit more hmore => ?_
    · rw [hwalk, ← hone]
      exact Nat.succ_le_succ few
    · rw [hwalk]
      exact bounded
    · rw [hlonger limit more hmore, hwalk, same limit (more - 1) (Nat.sub_le_sub_right hmore 1)]
  | whole fails spent first =>
    refine .whole ?_ ?_ fun limit more hmore => ?_
    · rw [hwalk]
      exact fails
    · rw [hwalk, ← hone]
      exact congrArg Nat.succ spent
    · rw [hlonger limit more hmore, hwalk]
      exact (List.prefix_cons_inj _).mpr (first limit (more - 1) (Nat.sub_le_sub_right hmore 1))

end Visit

/-- A walk that is not that of a branch spends its visits, or ends before, where no branches begin.
-/
theorem spends (h : definition.Forkless) (hrun : stage.inBranch = false) :
    engine.Spends definition stage := by
  induction hremaining : stage.remaining using Nat.strongRecOn generalizing stage with
  | ind remaining ih =>
    rcases stage_cases definition stage with absent | ⟨element, found, awaits⟩ |
      ⟨element, found, enters, spent⟩ | ⟨element, henters⟩
    · exact spends_of_missing absent
    · rw [hrun] at awaits
      cases awaits
    · exact spends_of_limit found enters spent
    rcases hmove : (engine.visitAt definition stage element).value.move with
      outcome | ⟨target, resumed⟩
    · exact spends_of_stop h henters hmove
    · have hless := henters.left
      exact Spends.go h henters hmove (ih (stage.remaining - 1) (by omega) hrun rfl)

end Forkless

end Engine

/-! ## Runs -/

/-- Two runs come to the same, and what the one reports the other reports as well: in some order,
and under each instance id in the same order. -/
structure RunsAlike (run other : Timed (Completion × Context)) : Prop where
  /-- they come to the same end, with the same variables, current element and path -/
  value : other.value = run.value
  /-- they report the same -/
  reports : other.history.reports.Perm run.history.reports
  /-- in each branch they do so in the same order -/
  order : ∀ text, other.history.reports.filter (·.instanceId == text) =
    run.history.reports.filter (·.instanceId == text)

namespace Engine

/-- Another engine differs in a higher limit only, and in how long its executors take. -/
structure Loosens (engine other : Engine) : Prop where
  /-- the limit is not lower -/
  limit : engine.maxSteps ≤ other.maxSteps
  /-- but for the limit and the delays the engines are the same -/
  same : (engine.limited other.maxSteps).undelayed = other.undelayed

/-- The limit makes no difference to a run. -/
structure LimitFree (engine : Engine) (definition : Definition) (levels : Nat) (context : Context)
    (now : Nat) : Prop where
  /-- under a higher limit all is the same, also in time -/
  same : ∀ limit, engine.maxSteps ≤ limit →
    (engine.limited limit).runThrough definition levels context now =
      engine.runThrough definition levels context now
  /-- and it comes to the same with other delays and at another time -/
  alike : ∀ other later, engine.Loosens other →
    RunsAlike (engine.runThrough definition levels context now)
      (other.runThrough definition levels context later)

section Run

variable {engine other : Engine} {definition : Definition} {levels limit : Nat} {context : Context}
  {now : Nat}

/-- Runs that differ in delays only come to the same. -/
theorem runsAlike_of_undelayed_eq (h : engine.undelayed = other.undelayed)
    (hbounded : (engine.runThrough definition levels context now).value.1 ≠ .unbounded)
    (later : Nat) :
    RunsAlike (engine.runThrough definition levels context now)
      (other.runThrough definition levels context later) := by
  obtain ⟨trail, hleaves, hdepth⟩ := exists_leaves hbounded
  have hother := hleaves.of_undelayed_eq h
  have hreports := (hleaves.tells hdepth now).reports_agree (hother.tells hdepth later)
    (reportsOf_eq_of_undelayed_eq h _ _ _)
  refine ⟨?_, hreports.1, hreports.2⟩
  rw [hother.value_runThrough hdepth, hleaves.value_runThrough hdepth]

/-- If no higher limit makes a difference to a run, delays do not make one either. -/
theorem limitFree_of_same
    (hbounded : (engine.runThrough definition levels context now).value.1 ≠ .unbounded)
    (hsame : ∀ limit, engine.maxSteps ≤ limit →
      (engine.limited limit).runThrough definition levels context now =
        engine.runThrough definition levels context now) :
    engine.LimitFree definition levels context now := by
  refine ⟨hsame, fun other later hlooser => ?_⟩
  have heq := hsame other.maxSteps hlooser.limit
  rw [← heq] at hbounded ⊢
  exact runsAlike_of_undelayed_eq hlooser.same hbounded later

/-- Where nothing starts a process, a run fails at once. -/
theorem runThrough_of_unstarted (engine : Engine) {error : Error}
    (hstart : definition.start = .error error) (levels : Nat) (context : Context) (now : Nat) :
    engine.runThrough definition levels context now = .done now (.failed error, context) [] := by
  rw [runThrough, hstart]

/-- A run that completed does not depend on the limit. -/
theorem limitFree_of_completed
    (h : (engine.runThrough definition levels context now).value.1 = .completed) :
    engine.LimitFree definition levels context now := by
  refine limitFree_of_same (by rw [h]; nofun) fun limit hlimit => ?_
  refine runThrough_eq_of_traverse_eq limit fun start hstart => ?_
  rw [value_runThrough engine hstart] at h
  exact traverse_extends inherited_succeeded (.of_le hlimit (by nofun)) (.refl _ _ _) false _ _ _
    (Outcome.succeeded_of_completion h)

/-- A run through a process without forks is never cut off for its nesting. -/
theorem ne_unbounded_of_forkless (hforkless : definition.Forkless) (engine : Engine) (levels : Nat)
    (context : Context) (now : Nat) :
    (engine.runThrough definition levels context now).value.1 ≠ .unbounded := by
  rcases hstart : definition.start with error | start
  · rw [runThrough_of_unstarted engine hstart]
    nofun
  · rw [value_runThrough engine hstart, ← onward_outset]
    apply completion_ne_unbounded
    cases engine.spends hforkless (rfl : (engine.outset levels false context start.id
      now).inBranch = false) with
    | within _ bounded => exact bounded
    | whole fails =>
      rw [fails]
      nofun

/-- It does not depend on the limit, or it spends all visits and fails there. -/
theorem limitFree_or_failed (hforkless : definition.Forkless) (engine : Engine) (levels : Nat)
    (context : Context) (now : Nat) :
    let run := engine.runThrough definition levels context now
    ∃ visited, run.value.2.path = context.path ++ visited ∧
      (visited.length ≤ engine.maxSteps ∧ engine.LimitFree definition levels context now ∨
        run.value.1 = .failed (.stepLimitExceeded engine.maxSteps) ∧
          visited.length = engine.maxSteps ∧
          ∀ limit, engine.maxSteps ≤ limit → ∃ more,
            ((engine.limited limit).runThrough definition levels context now).value.2.path =
              context.path ++ visited ++ more) := by
  intro run
  have hbounded := ne_unbounded_of_forkless hforkless engine levels context now
  rcases hstart : definition.start with error | start
  · have hrun := fun limit =>
      runThrough_of_unstarted (engine.limited limit) hstart levels context now
    have hsame : run = _ := runThrough_of_unstarted engine hstart levels context now
    refine ⟨[], by rw [hsame, List.append_nil]; rfl, Or.inl ⟨Nat.zero_le _, ?_⟩⟩
    exact limitFree_of_same hbounded fun limit _ => (hrun limit).trans hsame.symm
  let outset := engine.outset levels false context start.id now
  have hvalue : run.value = _ := value_runThrough engine hstart levels context now
  have hlonger : ∀ limit, (engine.limited limit).traverse definition levels false context start.id
      now = (engine.limited limit).onward definition (outset.extended limit) := fun limit =>
    ((engine.limited limit).onward_outset definition levels false context start.id now).symm
  rw [← onward_outset] at hvalue
  refine ⟨(engine.onward definition outset).value.path, by rw [hvalue]; rfl, ?_⟩
  cases engine.spends hforkless (rfl : outset.inBranch = false) with
  | within few _ same =>
    refine Or.inl ⟨few, limitFree_of_same hbounded fun limit hlimit =>
      runThrough_eq_of_traverse_eq limit ?_⟩
    intro start' hstart'
    obtain rfl : start = start' := Except.ok.inj (hstart.symm.trans hstart')
    rw [hlonger, ← onward_outset]
    exact same limit limit hlimit
  | whole fails spent first =>
    refine Or.inr ⟨by rw [hvalue, fails]; rfl, spent, fun limit hlimit => ?_⟩
    obtain ⟨more, hmore⟩ := first limit limit hlimit
    refine ⟨more, ?_⟩
    rw [value_runThrough (engine.limited limit) hstart, hlonger]
    dsimp only [Context.after]
    rw [List.append_assoc, hmore]

end Run

/-- **The limit is transparent.** A run that completed is the same under every higher limit: it
completes, with the same variables and along the same path, and reports the same.  If no parallel
gateway of the process has several flows out of it, then a run that did not complete is the same as
well, and its path grows by no more elements than the limit allows; or it fails at the limit after
as many visits as the limit allows, and these are the first ones of every run under a higher limit.
None of this depends on how long executors take. -/
theorem limit_is_transparent (engine : Engine) (definition : Definition) (levels : Nat)
    (context : Context) (now : Nat) :
    let run := engine.runThrough definition levels context now
    (run.value.1 = .completed → engine.LimitFree definition levels context now) ∧
      (definition.Forkless → ∃ visited, run.value.2.path = context.path ++ visited ∧
        (visited.length ≤ engine.maxSteps ∧ engine.LimitFree definition levels context now ∨
          run.value.1 = .failed (.stepLimitExceeded engine.maxSteps) ∧
            visited.length = engine.maxSteps ∧
            ∀ other later, engine.Loosens other → ∃ more,
              (other.runThrough definition levels context later).value.2.path =
                context.path ++ visited ++ more)) := by
  intro run
  refine ⟨limitFree_of_completed, fun hforkless => ?_⟩
  obtain ⟨visited, hpath, hfree | ⟨hfailed, hlength, hfirst⟩⟩ :=
    limitFree_or_failed hforkless engine levels context now
  · exact ⟨visited, hpath, Or.inl hfree⟩
  refine ⟨visited, hpath, Or.inr ⟨hfailed, hlength, fun other later hlooser => ?_⟩⟩
  have hbounded := ne_unbounded_of_forkless hforkless (engine.limited other.maxSteps) levels context
    now
  rw [(runsAlike_of_undelayed_eq hlooser.same hbounded later).value]
  exact hfirst other.maxSteps hlooser.limit

end Engine

/-! ## A run that just completes, and one that goes in a circle

The first process forks, and its own traversal makes as many visits as the limit allows.  The second
one has no fork, and only the limit ends its runs. -/

namespace JustInTime

/-- A fork into two tasks. -/
def process : Definition where
  id := "just"
  name := none
  elements := [⟨"start", none, .startEvent⟩, ⟨"fork", none, .parallelGateway⟩,
    ⟨"left", none, .task .service (TaskSpec.of "one")⟩,
    ⟨"right", none, .task .service (TaskSpec.of "other")⟩, ⟨"join", none, .parallelGateway⟩,
    ⟨"end", none, .endEvent⟩]
  flows := [⟨"start", "fork", none⟩, ⟨"fork", "left", none⟩, ⟨"fork", "right", none⟩,
    ⟨"left", "join", none⟩, ⟨"right", "join", none⟩, ⟨"join", "end", none⟩]

/-- A task that is done again and again. -/
def circle : Definition where
  id := "circle"
  name := none
  elements := [⟨"start", none, .startEvent⟩, ⟨"task", none, .task .user (TaskSpec.of "one")⟩,
    ⟨"again", none, .exclusiveGateway⟩]
  flows := [⟨"start", "task", none⟩, ⟨"task", "again", none⟩, ⟨"again", "task", none⟩]

/-- An engine with two agents, each of which takes some time. -/
def engine (limit one other : Nat) : Engine where
  maxSteps := limit
  evaluator := fun _ _ => true
  sink := .null
  agents := [("one", ⟨some (.constant (.int 1) one), none, none, .recording "spans"⟩),
    ("other", ⟨some (.constant (.int 2) other), none, none, .recording "spans"⟩)]
  processes := [("just", process), ("circle", circle)]

/-- The beginning of the runs. -/
def context : Context :=
  .start "just" ⟨"i"⟩ []

theorem completed : ((engine 4 5 0).runThrough process 1 context 0).value.1 = .completed := by
  decide +kernel

theorem forkless : circle.Forkless := by
  intro element hmem
  revert element
  decide

theorem loosens : (engine 4 5 0).Loosens (engine 9 0 5) :=
  ⟨by decide, rfl⟩

theorem circle_path : ((engine 4 5 0).runThrough circle 0 context 0).value.2.path =
    ["start", "task", "again", "task"] := by
  decide +kernel

/-- The run through the fork is the same under a limit of a hundred, and comes to the same with
other delays.  A run in the circle goes on from where the limit ended the first one. -/
theorem runs_under_higher_limits :
    ((engine 4 5 0).runThrough process 1 context 0).value.1 = .completed ∧ circle.Forkless ∧
      (engine 4 5 0).Loosens (engine 9 0 5) ∧
      ((engine 4 5 0).limited 100).runThrough process 1 context 0 =
        (engine 4 5 0).runThrough process 1 context 0 ∧
      RunsAlike ((engine 4 5 0).runThrough process 1 context 0)
        ((engine 9 0 5).runThrough process 1 context 7) ∧
      ∃ more, ((engine 9 0 5).runThrough circle 0 context 7).value.2.path =
        ["start", "task", "again", "task"] ++ more := by
  have hfree := (Engine.limit_is_transparent (engine 4 5 0) process 1 context 0).1 completed
  refine ⟨completed, forkless, loosens, hfree.same 100 (by decide), hfree.alike _ 7 loosens, ?_⟩
  obtain ⟨visited, hpath, ⟨-, hsame⟩ | ⟨-, -, hfirst⟩⟩ :=
    (Engine.limit_is_transparent (engine 4 5 0) circle 0 context 0).2 forkless
  · exact ⟨[], by rw [(hsame.alike _ 7 loosens).value, circle_path]; rfl⟩
  · obtain ⟨more, hmore⟩ := hfirst _ 7 loosens
    rw [← hpath, circle_path] at hmore
    exact ⟨more, hmore⟩

end JustInTime

end Workflow
