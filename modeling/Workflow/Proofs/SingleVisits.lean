import Mathlib.Order.WellFoundedSet
import Workflow.Proofs.Causes
import Workflow.Proofs.Delays
import Workflow.Proofs.SharedJoin
import Workflow.Proofs.Spans

/-!
# Elements that are visited once

In a process without cycles no traversal comes back to an element, but two branches may come to the
same one, and then each of them visits all that is behind it.  Where only parallel gateways have
several flows into them, this does not happen: branches that come together do so at a join, where
they end.  Two accounts show it.

* `Engine.Traces.count_taken_le` — a flow is taken no more often than its source is visited.
* `Engine.Traces.count_path_le` — an element that is no join is visited no more often than flows
  into it are taken.  For a join there is `Engine.Traces.settles`.
* `Engine.count_path_le_one` — if no element in front of an element is visited twice, no flow into
  it is taken twice, and so it is not visited twice either.  There are no cycles, so this is an
  induction along the flows.
* `Engine.visits_are_single` — no run visits an element twice.
-/

namespace Workflow

/-! ## Induction along flows -/

namespace Definition

variable {definition : Definition}

/-- Where there is no cycle, flows cannot be followed backwards for ever. -/
theorem wellFounded_leads (hacyclic : ∀ id, ¬ definition.Returns id) :
    WellFounded definition.Leads := by
  let sources : Set String := {id | id ∈ definition.flows.map Flow.source}
  have hsource : ∀ {source target : String}, definition.Leads source target →
      source ∈ sources := by
    rintro _ _ ⟨flow, hflow, rfl, -⟩
    exact List.mem_map_of_mem hflow
  have : IsStrictOrder String (Relation.TransGen definition.Leads) :=
    { irrefl := hacyclic, trans := fun _ _ _ => Relation.TransGen.trans }
  have hfinite : sources.WellFoundedOn (Relation.TransGen definition.Leads) :=
    (List.finite_toSet _).wellFoundedOn
  have hacc : ∀ source ∈ sources, Acc definition.Leads source := fun source hmem =>
    hfinite.induction hmem fun _ _ ih =>
      Acc.intro _ fun before hleads => ih before (hsource hleads) (.single hleads)
  exact ⟨fun _ => Acc.intro _ fun source hleads => hacc source (hsource hleads)⟩

/-- An element has one flow into it at most if it is no join, where only parallel gateways have
several. -/
theorem length_entries_le_one {element : Element} (hmem : element ∈ definition.elements)
    (hmerge : ∀ element ∈ definition.elements, element.kind ≠ .parallelGateway →
      (definition.incoming element.id).length ≤ 1)
    (hjoin : definition.isJoin element = false) : (definition.entries element.id).length ≤ 1 := by
  rw [length_entries]
  by_cases hkind : element.kind = .parallelGateway
  · rw [isJoin, hkind, ElementKind.isParallel, Bool.true_and, decide_eq_false_iff_not] at hjoin
    exact Nat.not_lt.mp hjoin
  · exact hmerge element hmem hkind

theorem count_exits_le (definition : Definition) (id : String) (arc : Arc) :
    (definition.exits id).count arc ≤ if id == arc.1.source then 1 else 0 := by
  by_cases harc : arc ∈ definition.exits id
  · rw [if_pos (beq_iff_eq.mpr (mem_exits.mp harc).2.symm)]
    exact List.nodup_iff_count_le_one.mp (definition.nodup_exits id) arc
  · rw [List.count_eq_zero.mpr harc]
    exact Nat.zero_le _

end Definition

namespace Engine

variable {engine : Engine} {definition : Definition}

namespace Traces

variable {inBranch : Bool} {remaining : Nat} {resumed : Bool} {came : Option Arc}
  {vars : Variables} {id : String} {trail : Trail}

/-! ## Flows and their sources -/

theorem count_taken_branches_le {arcs : List Arc} {branch : Arc → Trail} {arc : Arc}
    (h : ∀ next ∈ arcs, (branch next).taken.count arc ≤
      (some next).toList.count arc + (branch next).path.count arc.1.source) :
    ((arcs.map branch).flatMap Trail.taken).count arc ≤
      arcs.count arc + ((arcs.map branch).flatMap Trail.path).count arc.1.source := by
  induction arcs with
  | nil => exact Nat.zero_le _
  | cons next more ih =>
    obtain ⟨hnext, hmore⟩ := List.forall_mem_cons.mp h
    have hrest := ih hmore
    rw [Option.toList_some, List.count_singleton] at hnext
    rw [List.map_cons, List.flatMap_cons, List.flatMap_cons, List.count_append,
      List.count_append, List.count_cons]
    omega

/-- A traversal and its branches take a flow no more often than they visit its source, but for the
flow by which the traversal came. -/
theorem count_taken_le
    (h : engine.Traces definition inBranch remaining resumed came vars id trail) (arc : Arc) :
    trail.taken.count arc ≤ came.toList.count arc + trail.path.count arc.1.source := by
  induction h with
  | missing => simp
  | join => simp
  | limit => simp
  | stop => simp
  | @go _ _ _ _ _ _ element next _ _ _ _ does _ ih =>
    -- the flow that is taken here leads out of the element
    have hnext := (List.singleton_sublist.mpr (step_eq_go does).1).count_le arc
    have hexits := definition.count_exits_le element.id arc
    rw [Option.toList_some] at ih
    rw [Trail.taken_visit, Trail.path_visit, List.flatMap_nil, List.flatMap_nil, List.nil_append,
      List.nil_append, List.count_append, List.count_cons]
    omega
  | @part _ _ _ _ _ _ element _ _ _ _ _ _ does _ _ ihe =>
    have hbranches := count_taken_branches_le ihe
    have hexits := definition.count_exits_le element.id arc
    rw [(step_eq_split does).2.1] at hbranches
    rw [(step_eq_split does).2.1, Trail.taken_visit, Trail.path_visit, Trail.taken_halt,
      Trail.path_halt, Option.toList_none, List.append_nil, List.append_nil, List.count_append,
      List.count_cons]
    omega
  | @meet _ _ _ _ _ _ element _ _ _ _ _ _ _ does _ _ _ ihe ih =>
    have hbranches := count_taken_branches_le ihe
    have hexits := definition.count_exits_le element.id arc
    rw [(step_eq_split does).2.1] at hbranches
    rw [Option.toList_none, List.count_nil] at ih
    rw [(step_eq_split does).2.1, Trail.taken_visit, Trail.path_visit, List.count_append,
      List.count_append, List.count_cons, List.count_append]
    omega

/-- The source of a flow that was taken was visited. -/
theorem source_mem_path
    (h : engine.Traces definition inBranch remaining resumed none vars id trail) {arc : Arc}
    (harc : arc ∈ trail.taken) : arc.1.source ∈ trail.path := by
  have hcount := h.count_taken_le arc
  rw [Option.toList_none, List.count_nil, Nat.zero_add] at hcount
  exact List.count_pos_iff.mp (Nat.lt_of_lt_of_le (List.count_pos_iff.mpr harc) hcount)

/-! ## Elements that are no joins -/

/-- A traversal ends at no element but a join. -/
theorem isJoin_of_join?
    (h : engine.Traces definition inBranch remaining resumed came vars id trail) {join : String}
    (hjoin : trail.outcome.join? = some join) :
    ∃ element, definition.element? join = some element ∧ definition.isJoin element = true := by
  induction h generalizing join with
  | missing => cases hjoin
  | @join _ _ _ _ _ _ element found awaits =>
    obtain rfl : element.id = join := Option.some.inj hjoin
    rw [Definition.awaits, Bool.and_eq_true] at awaits
    exact ⟨element, (Definition.id_of_element? found).symm ▸ found, awaits.2⟩
  | limit => cases hjoin
  | stop _ _ does => exact absurd hjoin (join?_of_step_eq_stop does join)
  | go _ _ _ _ ih => exact ih hjoin
  | part _ _ _ _ ends ihe =>
    obtain ⟨arc, harc, hbranch⟩ :=
      exists_join?_of_convergence (convergence_of_sequel_eq_stop ends hjoin)
    exact ihe arc harc hbranch
  | meet _ _ _ _ _ _ _ ih => exact ih hjoin

section Other

variable {other : String} (hother : ∀ element, definition.element? other = some element →
  definition.isJoin element = false)

include hother in
theorem join?_ne (h : engine.Traces definition inBranch remaining resumed came vars id trail) :
    trail.outcome.join? ≠ some other := by
  intro hjoin
  obtain ⟨element, hfound, hjoin⟩ := h.isJoin_of_join? hjoin
  rw [hother element hfound] at hjoin
  cases hjoin

/-- A visit was made by a flow, unless it is the first one. -/
theorem visit_le (hcomes : Comes definition inBranch resumed came id) {element : Element}
    (found : definition.element? id = some element) (other : String) :
    1 * (if element.id == other then 1 else 0) ≤
      (came.toList.filter (·.1.target == other)).length +
        if came = none ∧ id = other then 1 else 0 := by
  rw [Definition.id_of_element? found]
  by_cases heq : id = other
  · cases hcomes with
    | along => simp [heq]
    | _ => simp [heq]
  · simp [heq]

theorem le_of_each {element : Element} {arcs : List Arc} {branch : Arc → Trail}
    (does : engine.step definition element vars = .split arcs)
    (ihe : ∀ arc ∈ arcs, Comes definition true false (some arc) arc.1.target →
      (branch arc).Settles other 1 1
        (if some arc = none ∧ arc.1.target = other then 1 else 0)) :
    1 * ((arcs.map branch).map (·.path.count other)).sum + 0 ≤
      ((arcs.map branch).flatMap (Trail.takenTo other)).length := by
  refine Nat.le_trans (Nat.add_le_add_left (Nat.zero_le _) _) (Trail.settles_branches ?_)
  refine List.forall_mem_map.mpr fun arc harc => ?_
  have hbranch := ihe arc harc (comes_of_split does harc)
  rwa [if_neg fun hnone => by cases hnone.1] at hbranch

include hother in
/-- The flows to an element that is no join pay for all visits to it, each of them for one. -/
theorem settles_of_isJoin
    (h : engine.Traces definition inBranch remaining resumed came vars id trail)
    (hcomes : Comes definition inBranch resumed came id) :
    trail.Settles other 1 1 (if came = none ∧ id = other then 1 else 0) := by
  induction h with
  | missing => exact Trail.settles_halt (Nat.zero_le _)
  | @join inBranch remaining resumed came vars id element found awaits =>
    have htraces : engine.Traces definition inBranch remaining resumed came vars id _ :=
      .join found awaits
    refine Trail.settles_halt ?_
    exact (Outcome.arrivalsAt_eq_zero (join?_ne hother htraces)).trans_le (Nat.zero_le _)
  | limit => exact Trail.settles_halt (Nat.zero_le _)
  | stop found _ does =>
    have hended := Outcome.arrivalsAt_eq_zero (join?_of_step_eq_stop does other)
    exact .visit_nil (Trail.settles_halt (Nat.le_of_eq hended)) (visit_le hcomes found other)
  | go found _ does _ ih =>
    have hrest := ih (comes_of_go does)
    rw [if_neg fun hnone => by cases hnone.1] at hrest
    exact .visit_nil hrest (visit_le hcomes found other)
  | @part inBranch remaining resumed came vars id _ _ _ outcome _ found enters does each ends
      ihe =>
    have htraces : engine.Traces definition inBranch (remaining + 1) resumed came vars id _ :=
      .part found enters does each ends
    have hended : outcome.arrivalsAt other = 0 :=
      Outcome.arrivalsAt_eq_zero (join?_ne hother htraces)
    exact .visit (Trail.settles_halt (Nat.le_of_eq hended)) (visit_le hcomes found other)
      (le_of_each does ihe)
  | @meet _ _ _ _ _ _ _ _ _ join _ _ found _ does each meets _ ihe ih =>
    have hrest := ih (.behind _)
    -- the traversal resumes at a join, which is another element
    have hne : join ≠ other := by
      obtain ⟨-, -, arrivals, hconv, -⟩ := sequel_eq_resume meets
      obtain ⟨arc, harc, hjoin⟩ := exists_join?_of_convergence hconv
      rintro rfl
      exact join?_ne hother (each arc harc) hjoin
    rw [if_neg fun hresumed => hne hresumed.2] at hrest
    exact .visit hrest (visit_le hcomes found other) (le_of_each does ihe)

include hother in
/-- An element that is no join is visited no more often than flows into it are taken, but for a
first visit. -/
theorem count_path_le
    (h : engine.Traces definition inBranch remaining resumed came vars id trail)
    (hcomes : Comes definition inBranch resumed came id) :
    trail.path.count other ≤
      (trail.takenTo other).length + if came = none ∧ id = other then 1 else 0 := by
  have hsettles := h.settles_of_isJoin hother hcomes
  rw [Trail.Settles] at hsettles
  rw [Trail.count_path_eq]
  omega

end Other

end Traces

/-! ## Where only parallel gateways have several flows into them -/

section Run

variable {start : Element} {remaining : Nat} {vars : Variables} {trail : Trail}

/-- No flow into an element is taken twice, if no element in front of it is visited twice. -/
theorem Traces.nodup_takenTo
    (h : engine.Traces definition false remaining false none vars start.id trail) {id : String}
    (hbefore : ∀ source, definition.Leads source id → trail.path.count source ≤ 1) :
    (trail.takenTo id).Nodup ∧ trail.takenTo id ⊆ definition.entries id := by
  have hentries : trail.takenTo id ⊆ definition.entries id := by
    intro arc harc
    obtain ⟨harc, htarget⟩ := List.mem_filter.mp harc
    exact Definition.mem_entries.mpr
      ⟨h.mem_arcs_of_mem_taken (.first rfl start.id) harc, beq_iff_eq.mp htarget⟩
  refine ⟨List.nodup_iff_count_le_one.mpr fun arc => ?_, hentries⟩
  by_cases harc : arc ∈ trail.takenTo id
  · obtain ⟨hmem, htarget⟩ := Definition.mem_entries.mp (hentries harc)
    have hcount : (trail.takenTo id).count arc ≤ trail.taken.count arc :=
      List.filter_sublist.count_le arc
    have hsource := h.count_taken_le arc
    rw [Option.toList_none, List.count_nil, Nat.zero_add] at hsource
    exact hcount.trans (hsource.trans
      (hbefore _ ⟨arc.1, Definition.flow_mem_of_mem_arcs hmem, rfl, htarget⟩))
  · rw [List.count_eq_zero.mpr harc]
    exact Nat.zero_le _

/-- A traversal visits elements of the process only. -/
theorem Traces.exists_element?
    (h : engine.Traces definition false remaining false none vars start.id trail) {id : String}
    (hid : id ∈ trail.path) : ∃ element, definition.element? id = some element := by
  rw [← Trail.map_id_stations] at hid
  obtain ⟨station, hstation, rfl⟩ := List.mem_map.mp hid
  exact ⟨station.element, h.element?_of_mem station hstation⟩

/-- No flow is taken back to the start. -/
theorem Traces.takenTo_start (hacyclic : ∀ id, ¬ definition.Returns id)
    (h : engine.Traces definition false remaining false none vars start.id trail) :
    trail.takenTo start.id = [] := by
  refine List.eq_nil_iff_forall_not_mem.mpr fun arc harc => ?_
  obtain ⟨harc, htarget⟩ := List.mem_filter.mp harc
  have hmem := h.mem_arcs_of_mem_taken (.first rfl start.id) harc
  have hreach := h.reaches_of_mem_path (h.source_mem_path harc)
  exact hacyclic start.id (Relation.TransGen.tail' hreach
    ⟨arc.1, Definition.flow_mem_of_mem_arcs hmem, rfl, beq_iff_eq.mp htarget⟩)

/-- A join is visited once at most, if no flow into it is taken twice. -/
theorem count_join_le_one {join : Element} (hids : definition.ids.Nodup)
    (hacyclic : ∀ id, ¬ definition.Returns id) (hstart : definition.start = .ok start)
    (htraces : engine.Traces definition false remaining false none vars start.id trail)
    (hmem : join ∈ definition.elements) (hjoin : definition.isJoin join = true)
    (htaken : (trail.takenTo join.id).length ≤ (definition.entries join.id).length) :
    trail.path.count join.id ≤ 1 := by
  have hown := List.nodup_iff_count_le_one.mp (htraces.nodup_own hacyclic) join.id
  have hpaid := length_mul_le_of_run hids hstart hmem hjoin htraces
  have hfound := isJoin_of_element? hids hmem hjoin
  rw [Definition.isJoin, Bool.and_eq_true, decide_eq_true_eq, ← Definition.length_entries] at hjoin
  rw [Trail.count_path_eq, htraces.within_eq_length_passing hfound, Nat.add_comm]
  exact visits_le_one hjoin.2 hpaid htaken hown

/-- Another element is visited once at most, if one flow at most leads there and none is taken
twice. -/
theorem count_other_le_one {other : Element} (hacyclic : ∀ id, ¬ definition.Returns id)
    (htraces : engine.Traces definition false remaining false none vars start.id trail)
    (hfound : definition.element? other.id = some other)
    (hother : definition.isJoin other = false)
    (htaken : (trail.takenTo other.id).length ≤ 1) : trail.path.count other.id ≤ 1 := by
  have hnot : ∀ element, definition.element? other.id = some element →
      definition.isJoin element = false := by
    intro element helement
    rw [hfound] at helement
    exact Option.some.inj helement ▸ hother
  have hcount := htraces.count_path_le hnot (.first rfl start.id)
  by_cases hfirst : start.id = other.id
  · rw [if_pos ⟨rfl, hfirst⟩, ← hfirst, htraces.takenTo_start hacyclic] at hcount
    rw [← hfirst]
    exact hcount
  · rw [if_neg fun h => hfirst h.2] at hcount
    exact hcount.trans htaken

/-- No element is visited twice from the start of a process without cycles, where only parallel
gateways have several flows into them. -/
theorem count_path_le_one (hids : definition.ids.Nodup)
    (hacyclic : ∀ id, ¬ definition.Returns id)
    (hmerge : ∀ element ∈ definition.elements, element.kind ≠ .parallelGateway →
      (definition.incoming element.id).length ≤ 1) (hstart : definition.start = .ok start)
    (htraces : engine.Traces definition false remaining false none vars start.id trail)
    (id : String) : trail.path.count id ≤ 1 := by
  -- the sources of all flows into an element come before it
  induction id using (Definition.wellFounded_leads hacyclic).induction with
  | _ id ih =>
    by_cases hid : id ∈ trail.path
    swap
    · rw [List.count_eq_zero.mpr hid]
      exact Nat.zero_le _
    obtain ⟨hnodup, hentries⟩ := htraces.nodup_takenTo ih
    have htaken := (hnodup.subperm hentries).length_le
    obtain ⟨element, hfound⟩ := htraces.exists_element? hid
    obtain rfl := Definition.id_of_element? hfound
    have hmem := Definition.mem_of_element? hfound
    rcases hjoin : definition.isJoin element
    · exact count_other_le_one hacyclic htraces hfound hjoin
        (htaken.trans (Definition.length_entries_le_one hmem hmerge hjoin))
    · exact count_join_le_one hids hacyclic hstart htraces hmem hjoin htaken

theorem Leaves.nodup_path {context : Context} (h : engine.Leaves definition context trail)
    (hids : definition.ids.Nodup) (hacyclic : ∀ id, ¬ definition.Returns id)
    (hmerge : ∀ element ∈ definition.elements, element.kind ≠ .parallelGateway →
      (definition.incoming element.id).length ≤ 1) : trail.path.Nodup := by
  cases h with
  | nothing =>
    rw [Trail.path_halt]
    exact List.nodup_nil
  | traces starts goes =>
    exact List.nodup_iff_count_le_one.mpr (count_path_le_one hids hacyclic hmerge starts goes)

end Run

/-- **Nothing is done twice.** Let a process have no cycles, and let only parallel gateways have
several flows into them.  Then no run of it, whether it completes or fails, visits an element twice,
however forks are nested and joins are shared or missed; and a run executes every task that it
visits, once. -/
theorem visits_are_single (engine : Engine) (definition : Definition) (context : Context)
    (now : Nat) (hprocess : engine.process? context.processId = some definition)
    (hvalid : definition.validate = .ok ()) (hacyclic : ∀ id, ¬ definition.Returns id)
    (hmerge : ∀ element ∈ definition.elements, element.kind ≠ .parallelGateway →
      (definition.incoming element.id).length ≤ 1) :
    let run := engine.run context now
    run.value.1 ≠ .unbounded ∧
      ∃ visited : List String, run.value.2.path = context.path ++ visited ∧ visited.Nodup ∧
        (run.history.reports.map Report.taskId).Perm (visited.filter definition.isTask) ∧
        (run.history.reports.map Report.taskId).Nodup := by
  intro run
  obtain ⟨trail, hleaves, hdepth⟩ :=
    exists_leaves_of_forks hprocess fun element _ _ => hacyclic element.id
  have hrun : run = _ := hleaves.run_eq hprocess hdepth now
  have hvalue := hleaves.value_runThrough hdepth now
  have hnodup := hleaves.nodup_path (Definition.nodup_ids_of_validate hvalid) hacyclic hmerge
  have hperm : (run.history.reports.map Report.taskId).Perm
      (trail.path.filter definition.isTask) := by
    have hreports := ((hleaves.tells hdepth now).perm_reports.map Report.execution).map
      Execution.taskId
    rw [map_execution_reportsOf, hleaves.map_taskId, Trail.map_id_stations,
      List.map_map] at hreports
    rw [hrun]
    exact hreports
  refine ⟨?_, trail.path, ?_, hnodup, hperm, hperm.nodup_iff.mpr (hnodup.filter _)⟩
  · rw [hrun, hvalue]
    exact completion_ne_unbounded hleaves.outcome_ne_unbounded
  · rw [hrun, hvalue]
    rfl

end Engine

/-! ## Forks that share a join and miss another one

Of three branches of a fork one forks again.  Its branches come to different joins, of which the
first has a flow from the outer fork, and the second one from the outer fork's last branch. -/

namespace MissedJoin

/-- Two nested forks and two joins. -/
def process : Definition where
  id := "missed"
  name := none
  elements := [⟨"start", none, .startEvent⟩, ⟨"outer", none, .parallelGateway⟩,
    ⟨"inner", none, .parallelGateway⟩, ⟨"left", none, .task .service (TaskSpec.of "agent")⟩,
    ⟨"right", none, .task .user (TaskSpec.of "agent")⟩,
    ⟨"alone", none, .task .script (TaskSpec.of "nobody")⟩, ⟨"shared", none, .parallelGateway⟩,
    ⟨"missed", none, .parallelGateway⟩, ⟨"end", none, .endEvent⟩]
  flows := [⟨"start", "outer", none⟩, ⟨"outer", "inner", none⟩, ⟨"outer", "shared", none⟩,
    ⟨"outer", "alone", none⟩, ⟨"inner", "left", none⟩, ⟨"inner", "right", none⟩,
    ⟨"left", "shared", none⟩, ⟨"right", "missed", none⟩, ⟨"alone", "missed", none⟩,
    ⟨"shared", "end", none⟩]

/-- An engine, with or without the agent of the last branch. -/
def engine (more : Table Agent) : Engine where
  maxSteps := 10
  evaluator := fun _ _ => true
  sink := .null
  agents := ("agent", ⟨some (.constant (.int 1) 3), none, some .template, .null⟩) :: more
  processes := [("missed", process)]

/-- The beginning of the run. -/
def context : Context :=
  .start "missed" ⟨"i"⟩ []

/-- How far from the start an element is. -/
def rank (id : String) : Nat :=
  process.ids.idxOf id

theorem acyclic (id : String) : ¬ process.Returns id :=
  Definition.acyclic_of_rank rank (by decide) id

/-- No element is visited twice when the last branch fails. -/
theorem single_visits :
    (engine []).process? context.processId = some process ∧ process.validate = .ok () ∧
      (∀ id, ¬ process.Returns id) ∧
      (∀ element ∈ process.elements, element.kind ≠ .parallelGateway →
        (process.incoming element.id).length ≤ 1) ∧
      ((engine []).run context 0).value.2.path.Nodup ∧
      (((engine []).run context 0).history.reports.map Report.taskId).Nodup := by
  obtain ⟨-, visited, hpath, hnodup, -, hreports⟩ :=
    Engine.visits_are_single (engine []) process context 0 rfl rfl acyclic (by decide)
  exact ⟨rfl, rfl, acyclic, by decide, hpath ▸ hnodup, hreports⟩

example : ((engine []).run context 0).value.2.path =
    ["start", "outer", "inner", "left", "right", "alone"] := by decide +kernel

example : ((engine [("nobody", ⟨none, none, some .template, .null⟩)]).run context 0).value.2.path =
    ["start", "outer", "inner", "left", "right", "alone", "shared", "end"] := by decide +kernel

end MissedJoin

end Workflow
