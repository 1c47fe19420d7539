import Workflow.Proofs.History.Tells
import Workflow.Proofs.Writes

/-!
# Where values come from

A value is copied into every branch, written over there, brought back when the branches come
together, or lost with a fork that fails.  But it never comes from nowhere: when a run is over, a
variable is what it was when the run began, or what an executor returned for a task that was visited
and that declares the variable as its output.  And once a variable is there, the traversal that has
it never loses it.

* `Engine.Yields` — the executor of a task returns a value for a variable.
* `Engine.Stems` — what a variable is after some visits comes from before or from one of them.
* `Trail.Keeps` — a traversal does not lose a variable with which it begins.
* `Engine.values_stem` — where the variables after a run come from.
-/

namespace Workflow

/-! ## Values that executors return -/

/-- At a visit with some variables, the executor that the agent of a task calls for it returns a
value, and the task declares a variable as its output. -/
inductive Engine.Yields (engine : Engine) (key : String) (element : Element) (vars : Variables)
    (value : Value) : Prop where
  /-- the agent that the task names has an executor for it -/
  | returned {spec : TaskSpec} {agent : Agent} {instructions : String} {executor : Executor}
    (task : element.kind.task? = some spec) (output : spec.output = some key)
    (served : engine.agent? spec.agent = some agent)
    (assigned : agent.assign element = .ok (spec, instructions, executor))
    (returns : (executor.execute ⟨instructions, spec.resolve vars, vars⟩).result = .ok value) :
    Yields engine key element vars value

/-- After some visits a variable is what it was before, or it is what the executor of a task
returned at one of them. -/
def Engine.Stems (engine : Engine) (key : String) (before : Option Value)
    (stations : List Station) (after : Option Value) : Prop :=
  after = before ∨ ∃ station ∈ stations, ∃ value, after = some value ∧
    engine.Yields key station.element station.vars value

/-- A traversal that begins with a variable has it at every visit, also of branches, and at the
end. -/
def Trail.Keeps (key : String) (trail : Trail) : Prop :=
  (trail.vars.get? key).isSome →
    (∀ station ∈ trail.stations, (station.vars.get? key).isSome) ∧ (trail.final.get? key).isSome

namespace Engine

variable {engine : Engine} {definition : Definition} {key : String}

theorem assign_eq_ok {agent : Agent} {element : Element} {spec : TaskSpec} {instructions : String}
    {executor : Executor} (h : agent.assign element = .ok (spec, instructions, executor)) :
    element.kind.task? = some spec := by
  unfold Agent.assign at h
  split at h
  · rename_i htask _
    split at h
    · cases h
      exact htask
    · cases h
  · cases h

/-- What a task gives was returned by an executor. -/
theorem yields_of_perform {element : Element} {spec : TaskSpec} {vars : Variables} {value : Value}
    (task : element.kind.task? = some spec) (output : spec.output = some key)
    (performs : engine.perform element spec vars = .ok value) :
    engine.Yields key element vars value := by
  unfold perform at performs
  rcases served : engine.agent? spec.agent with _ | agent
  · rw [served] at performs
    cases performs
  rw [served] at performs
  dsimp only at performs
  unfold Agent.perform at performs
  split at performs
  · cases performs
  · rename_i spec' instructions executor assigned
    obtain rfl : spec' = spec := Option.some.inj ((assign_eq_ok assigned).symm.trans task)
    rcases returns : (executor.execute ⟨instructions, spec'.resolve vars, vars⟩).result with
      error | result
    · rw [returns] at performs
      cases performs
    · rw [returns] at performs
      cases performs
      exact .returned task output served assigned returns

/-! ## Values along visits -/

namespace Stems

variable {before middle after : Option Value} {stations first second : List Station}

theorem refl (before : Option Value) (stations : List Station) :
    engine.Stems key before stations before :=
  Or.inl rfl

theorem mono (h : engine.Stems key before first after) (hsubset : first ⊆ second) :
    engine.Stems key before second after :=
  h.imp_right fun ⟨station, hstation, hvalue⟩ => ⟨station, hsubset hstation, hvalue⟩

/-- Visits one after the other. -/
theorem append (hfirst : engine.Stems key before first middle)
    (hsecond : engine.Stems key middle second after) :
    engine.Stems key before (first ++ second) after := by
  rcases hsecond with rfl | hyields
  · exact hfirst.mono (List.subset_append_left _ _)
  · exact mono (Or.inr hyields) (List.subset_append_right _ _)

/-- The visits of a branch as seen from the fork around it. -/
theorem under (h : engine.Stems key before stations after) (index : Nat) :
    engine.Stems key before (stations.map (Station.under index)) after :=
  h.imp_right fun ⟨station, hstation, hvalue⟩ =>
    ⟨station.under index, List.mem_map_of_mem hstation, hvalue⟩

end Stems

/-- What a visit leaves in a variable was there before, or is what it yields. -/
theorem Works.stems {element : Element} {vars after : Variables}
    (h : engine.Works element vars after) :
    engine.Stems key (vars.get? key) [⟨[], element, vars⟩] (after.get? key) := by
  rcases hkey : element.writes key
  · exact Or.inl (h.get?_eq hkey)
  cases h with
  | idle => exact .refl _ _
  | @stored spec value task performs =>
    rw [Element.writes, task, Option.any_some, beq_iff_eq] at hkey
    refine Or.inr ⟨_, List.mem_singleton_self _, value, ?_, yields_of_perform task hkey performs⟩
    rw [TaskSpec.store, hkey]
    exact Table.get?_set_self _ _ _

/-- Behind branches a variable is what it was before them, or at the end of one of them. -/
theorem get?_mergeTrails_eq (key : String) (vars : Variables) {branches : List Trail}
    (hsorted : ∀ branch ∈ branches, branch.final.Sorted) :
    (mergeTrails vars branches).get? key = vars.get? key ∨
      ∃ branch ∈ branches, (mergeTrails vars branches).get? key = branch.final.get? key := by
  induction branches using List.reverseRecOn with
  | nil => exact Or.inl rfl
  | append_singleton branches last ih =>
    rw [mergeTrails_concat, Table.get?_merge _ (hsorted last (by simp))]
    rcases hlast : last.final.get? key with _ | value
    · -- the last branch does not have the variable
      rw [Option.none_or]
      refine (ih fun branch hbranch => hsorted branch (List.mem_append_left _ hbranch)).imp_right ?_
      rintro ⟨branch, hbranch, heq⟩
      exact ⟨branch, List.mem_append_left _ hbranch, heq⟩
    · exact Or.inr ⟨last, by simp, hlast.symm⟩

/-- What branches leave in a variable was there before them, or is what one of their visits
yields. -/
theorem stems_mergeTrails {vars : Variables} {branches : List Trail}
    (hsorted : ∀ branch ∈ branches, branch.final.Sorted)
    (h : ∀ branch ∈ branches,
      engine.Stems key (vars.get? key) branch.stations (branch.final.get? key)) :
    engine.Stems key (vars.get? key) (Trail.inBranches branches)
      ((mergeTrails vars branches).get? key) := by
  rcases get?_mergeTrails_eq key vars hsorted with heq | ⟨branch, hbranch, heq⟩
  · exact Or.inl heq
  · obtain ⟨index, hindex⟩ := List.getElem?_of_mem hbranch
    rw [heq]
    refine ((h branch hbranch).under index).mono fun station hstation => ?_
    obtain ⟨inner, hinner, rfl⟩ := List.mem_map.mp hstation
    exact Trail.mem_inBranches.mpr ⟨branch, index, hindex, inner, hinner, rfl⟩

namespace Traces

variable {inBranch : Bool} {remaining : Nat} {resumed : Bool} {came : Option Arc}
  {vars : Variables} {id : String} {trail : Trail}

/-- What a traversal leaves in a variable was there before, or is what one of its visits yields. -/
theorem stems (h : engine.Traces definition inBranch remaining resumed came vars id trail)
    (hvars : vars.Sorted) :
    engine.Stems key (vars.get? key) trail.stations (trail.final.get? key) := by
  induction h with
  | missing => exact .refl _ _
  | join => exact .refl _ _
  | limit => exact .refl _ _
  | stop _ _ does =>
    rw [Trail.stations_visit]
    rcases step_eq_stop does with ⟨-, rfl⟩ | ⟨-, hworks⟩
    · exact .refl _ _
    · exact hworks.stems.append (.refl _ _)
  | go _ _ does _ ih =>
    rw [Trail.stations_visit]
    have hworks := (step_eq_go does).2
    exact hworks.stems.append (ih (hworks.sorted hvars))
  | @part _ _ _ _ _ _ _ _ branch _ _ _ _ _ each ends ihe =>
    rw [Trail.stations_visit]
    rcases sequel_eq_stop ends with ⟨-, -, rfl⟩ | ⟨-, rfl, -⟩
    · exact .refl _ _
    · have hbranches := stems_mergeTrails (sorted_final_of_each hvars each)
        (List.forall_mem_map.mpr fun arc harc => ihe arc harc hvars)
      refine hbranches.mono fun station hstation => ?_
      exact List.mem_cons_of_mem _ (List.mem_append_left _ hstation)
  | meet _ _ _ each meets _ ihe ih =>
    rw [Trail.stations_visit]
    obtain ⟨-, rfl, -⟩ := sequel_eq_resume meets
    have hbranches := stems_mergeTrails (sorted_final_of_each hvars each)
      (List.forall_mem_map.mpr fun arc harc => ihe arc harc hvars)
    exact (hbranches.append (ih (sorted_mergeTrails hvars))).mono (List.subset_cons_self _ _)

theorem vars_eq (h : engine.Traces definition inBranch remaining resumed came vars id trail) :
    trail.vars = vars := by
  cases h <;> rfl

/-- A variable with which a traversal begins is there at every visit, also of its branches. -/
theorem isSome_of_mem_stations
    (h : engine.Traces definition inBranch remaining resumed came vars id trail)
    (hkey : (vars.get? key).isSome) :
    ∀ station ∈ trail.stations, (station.vars.get? key).isSome := by
  induction h with
  | missing => simp
  | join => simp
  | limit => simp
  | stop =>
    rw [Trail.forall_stations_visit (p := fun _ vars => (vars.get? key).isSome)]
    exact ⟨hkey, nofun, by simp⟩
  | go _ _ does _ ih =>
    rw [Trail.forall_stations_visit (p := fun _ vars => (vars.get? key).isSome)]
    exact ⟨hkey, nofun, ih ((step_eq_go does).2.isSome hkey)⟩
  | part _ _ _ _ _ ihe =>
    rw [Trail.forall_stations_visit (p := fun _ vars => (vars.get? key).isSome)]
    exact ⟨hkey, List.forall_mem_map.mpr fun arc harc => ihe arc harc hkey, by simp⟩
  | meet _ _ _ _ meets _ ihe ih =>
    obtain ⟨-, rfl, -⟩ := sequel_eq_resume meets
    rw [Trail.forall_stations_visit (p := fun _ vars => (vars.get? key).isSome)]
    exact ⟨hkey, List.forall_mem_map.mpr fun arc harc => ihe arc harc hkey,
      ih (isSome_mergeTrails hkey)⟩

theorem keeps (h : engine.Traces definition inBranch remaining resumed came vars id trail) :
    trail.Keeps key := by
  intro hkey
  rw [h.vars_eq] at hkey
  exact ⟨h.isSome_of_mem_stations hkey, h.isSome_final hkey⟩

/-- No traversal in a trail ever loses a variable that it has at one of its visits. -/
theorem keeps_of_mem_parts
    (h : engine.Traces definition inBranch remaining resumed came vars id trail)
    (hcomes : Comes definition inBranch resumed came id) :
    ∀ segment ∈ trail.segments, ∀ part ∈ segment.parts, part.Keeps key := by
  intro segment hsegment part hpart
  rcases List.mem_cons.mp hsegment with rfl | hsegment
  · obtain ⟨_, _, _, _, _, -, htraces⟩ := h.of_mem_parts hcomes hpart
    exact htraces.keeps
  · obtain ⟨arc, harc, _, hbranch⟩ := h.of_mem_inner hsegment
    obtain ⟨_, _, _, _, _, -, htraces⟩ := hbranch.of_mem_parts (.along harc) hpart
    exact htraces.keeps

end Traces

/-! ## Runs -/

namespace Leaves

variable {context : Context} {trail : Trail}

theorem stems (h : engine.Leaves definition context trail) (hvars : context.vars.Sorted) :
    engine.Stems key (context.vars.get? key) trail.stations (trail.final.get? key) := by
  cases h with
  | nothing => exact .refl _ _
  | traces _ goes => exact goes.stems hvars

theorem get?_final (h : engine.Leaves definition context trail) (hvars : context.vars.Sorted)
    (hkey : ∀ station ∈ trail.stations, station.element.writes key = false) :
    trail.final.get? key = context.vars.get? key := by
  have hquiet : trail.path.any (definition.writes key) = false := by
    rw [← Trail.map_id_stations, List.any_map, List.any_eq_false]
    intro station hstation
    rw [Function.comp, definition.writes_of_element? (h.element?_of_mem station hstation),
      hkey station hstation]
    exact Bool.false_ne_true
  cases h with
  | nothing => rfl
  | traces _ goes => exact goes.get?_final hvars hquiet

theorem keeps (h : engine.Leaves definition context trail) (key : String) :
    ((context.vars.get? key).isSome → (trail.final.get? key).isSome) ∧
      ∀ segment ∈ trail.segments, ∀ part ∈ segment.parts, part.Keeps key := by
  cases h with
  | nothing =>
    refine ⟨id, fun segment hsegment part hpart => ?_⟩
    rw [Trail.segments, Trail.inner_halt] at hsegment
    obtain rfl := List.mem_singleton.mp hsegment
    cases hpart
  | traces _ goes => exact ⟨goes.isSome_final, goes.keeps_of_mem_parts (.first rfl _)⟩

theorem sorted_final (h : engine.Leaves definition context trail) (hvars : context.vars.Sorted) :
    trail.final.Sorted := by
  cases h with
  | nothing => exact hvars
  | traces _ goes => exact goes.sorted_final hvars

end Leaves

/-- **No value comes from nowhere.** Let a run of a context, the variables of which are in order,
not be cut off for its nesting.  Whether it completes or fails, the following holds of every
variable.  No traversal loses it: neither the run, if the context has it, nor a branch at whatever
depth, once the branch has it.  If it is the output of no task that was visited, it is after the run
what it was before, or still absent.  And in any case it is what it was before, or what the executor
of a task that was visited returned, the output of which it is.  The variables after the run are in
order again. -/
theorem values_stem (engine : Engine) (definition : Definition) (levels : Nat) (context : Context)
    (now : Nat) (hvars : context.vars.Sorted)
    (hbounded : (engine.runThrough definition levels context now).value.1 ≠ .unbounded) :
    let run := engine.runThrough definition levels context now
    ∃ trail, engine.Leaves definition context trail ∧
      run.value.2.path = context.path ++ trail.stations.map (·.element.id) ∧
      run.value.2.vars.Sorted ∧
      ∀ key : String,
        ((context.vars.get? key).isSome → (run.value.2.vars.get? key).isSome) ∧
        (∀ segment ∈ trail.segments, ∀ part ∈ segment.parts, part.Keeps key) ∧
        ((∀ station ∈ trail.stations, station.element.writes key = false) →
          run.value.2.vars.get? key = context.vars.get? key) ∧
        (run.value.2.vars.get? key = context.vars.get? key ∨
          ∃ station ∈ trail.stations, ∃ value, run.value.2.vars.get? key = some value ∧
            engine.Yields key station.element station.vars value) := by
  intro run
  obtain ⟨trail, hleaves, hdepth⟩ := exists_leaves hbounded
  have hvalue : run.value = _ := hleaves.value_runThrough hdepth now
  have hfinal : run.value.2.vars = trail.final := by rw [hvalue]; rfl
  refine ⟨trail, hleaves, ?_, ?_, fun key => ?_⟩
  · rw [hvalue, Trail.map_id_stations]
    rfl
  · rw [hfinal]
    exact hleaves.sorted_final hvars
  · rw [hfinal]
    obtain ⟨hrun, hparts⟩ := hleaves.keeps key
    exact ⟨hrun, hparts, hleaves.get?_final hvars, hleaves.stems hvars⟩

end Engine

/-! ## A value that is made and one that is lost

A task makes a value, and behind it is a fork.  One branch makes a value as well, but the other one
fails. -/

namespace LostValue

/-- A task, and a fork into two tasks. -/
def process : Definition where
  id := "lost"
  name := none
  elements := [⟨"start", none, .startEvent⟩,
    ⟨"first", none, .task .service { TaskSpec.of "good" with output := some "made" }⟩,
    ⟨"fork", none, .parallelGateway⟩,
    ⟨"left", none, .task .user { TaskSpec.of "good" with output := some "lost" }⟩,
    ⟨"right", none, .task .service { TaskSpec.of "bad" with output := some "never" }⟩,
    ⟨"end", none, .endEvent⟩]
  flows := [⟨"start", "first", none⟩, ⟨"first", "fork", none⟩, ⟨"fork", "left", none⟩,
    ⟨"fork", "right", none⟩, ⟨"left", "end", none⟩, ⟨"right", "end", none⟩]

/-- An engine with one agent that fails. -/
def engine : Engine where
  maxSteps := 10
  evaluator := fun _ _ => true
  sink := .null
  agents := [("bad", ⟨some (.failing "no" 2), none, none, .null⟩),
    ("good", ⟨some (.constant (.int 1) 5), none, none, .null⟩)]
  processes := [("lost", process)]

/-- The beginning of the run. -/
def context : Context :=
  .start "lost" ⟨"i"⟩ [("given", .int 0)]

theorem sorted : context.vars.Sorted :=
  List.pairwise_singleton _ _

theorem bounded : (engine.runThrough process 3 context 0).value.1 ≠ .unbounded := by
  decide +kernel

/-- What the context has is there after the run, and what the first task made was returned by an
executor. -/
theorem made_value_stems :
    context.vars.Sorted ∧ (engine.runThrough process 3 context 0).value.1 ≠ .unbounded ∧
      (engine.runThrough process 3 context 0).value.2.vars.get? "given" = some (.int 0) ∧
      ∃ trail, engine.Leaves process context trail ∧ ∃ station ∈ trail.stations,
        engine.Yields "made" station.element station.vars (.int 1) := by
  obtain ⟨trail, hleaves, -, -, hkeys⟩ :=
    Engine.values_stem engine process 3 context 0 sorted bounded
  have hwrites : ∀ element ∈ process.elements, element.writes "given" = false := by decide
  refine ⟨sorted, bounded, (hkeys "given").2.2.1 fun station hstation => ?_, trail, hleaves, ?_⟩
  · exact hwrites _ (Definition.mem_of_element? (hleaves.element?_of_mem station hstation))
  · have hmade : (engine.runThrough process 3 context 0).value.2.vars.get? "made" =
        some (.int 1) := rfl
    rcases (hkeys "made").2.2.2 with hinitial | ⟨station, hstation, value, hvalue, hyields⟩
    · rw [hmade] at hinitial
      cases hinitial
    · rw [hmade] at hvalue
      cases hvalue
      exact ⟨station, hstation, hyields⟩

example : (engine.runThrough process 3 context 0).value.2.vars =
    [("given", .int 0), ("made", .int 1)] := rfl

end LostValue

end Workflow
