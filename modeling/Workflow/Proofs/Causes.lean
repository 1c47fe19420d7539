import Workflow.Proofs.History.Tells
import Workflow.Proofs.Trail.Reach

/-!
# The causes of visits

A run begins where its process starts, and from there on it goes along flows.  So every later visit
has a cause: an element visited before it out of which a flow leads there.  The cause need not be
the visit right before, since the path of a fork is put together from those of its branches: the
first visit of each branch is caused by the fork, and the visit to a join by a visit in some branch
that stopped there, at whatever depth.

* `Definition.Causal` — along a list, every id has a cause before it.
* `Trail.CausedFrom` — what a traversal visits is caused by the id that it came to, and so is the
  join at which it stops and which it leaves to the forks around it.
* `Engine.Traces.causedFrom` — so it is in every traversal.
* `Engine.visits_are_caused` — what the path of a run is, and what it does not depend on.
-/

namespace Workflow

/-! ## Causes along a list -/

namespace Definition

variable {definition : Definition} {before after path first second : List String} {id : String}

/-- A flow leads to an element from one of those before it. -/
def Caused (definition : Definition) (before : List String) (id : String) : Prop :=
  ∃ source ∈ before, definition.Leads source id

/-- Along a list, every id is caused by one before it, or by one of those before the list. -/
def Causal (definition : Definition) : List String → List String → Prop
  | _, [] => True
  | before, id :: more => definition.Caused before id ∧ definition.Causal (id :: before) more

theorem Caused.mono (h : definition.Caused before id) (hsubset : before ⊆ after) :
    definition.Caused after id := by
  obtain ⟨source, hsource, hleads⟩ := h
  exact ⟨source, hsubset hsource, hleads⟩

theorem caused_of_mem_exits {arc : Arc} (h : arc ∈ definition.exits id) (before : List String) :
    definition.Caused (id :: before) arc.1.target :=
  ⟨id, List.mem_cons_self, leads_of_mem_exits h⟩

namespace Causal

theorem mono (h : definition.Causal before path) (hsubset : before ⊆ after) :
    definition.Causal after path := by
  induction path generalizing before after with
  | nil => trivial
  | cons id more ih =>
    obtain ⟨hid, hmore⟩ := h
    exact ⟨hid.mono hsubset, ih hmore (List.cons_subset_cons id hsubset)⟩

/-- Lists one behind the other. -/
theorem append (hfirst : definition.Causal before first)
    (hsecond : definition.Causal (first ++ before) second) :
    definition.Causal before (first ++ second) := by
  induction first generalizing before with
  | nil => exact hsecond
  | cons id more ih =>
    obtain ⟨hid, hmore⟩ := hfirst
    exact ⟨hid, ih hmore (hsecond.mono List.perm_middle.symm.subset)⟩

/-- Several lists one behind the other, none of which needs another one. -/
theorem flatMap {α : Type} {parts : List α} {f : α → List String}
    (h : ∀ part ∈ parts, definition.Causal before (f part)) :
    definition.Causal before (parts.flatMap f) := by
  induction parts with
  | nil => trivial
  | cons part more ih =>
    obtain ⟨hpart, hmore⟩ := List.forall_mem_cons.mp h
    exact hpart.append ((ih hmore).mono (List.subset_append_right _ _))

/-- Read by places. -/
theorem caused (h : definition.Causal before path) {place : Nat}
    (hid : path[place]? = some id) : definition.Caused (path.take place ++ before) id := by
  induction path generalizing before place with
  | nil => cases hid
  | cons first more ih =>
    obtain ⟨hfirst, hmore⟩ := h
    cases place with
    | zero =>
      obtain rfl : first = id := Option.some.inj hid
      exact hfirst
    | succ place =>
      rw [List.take_succ_cons]
      exact (ih hmore hid).mono List.perm_middle.subset

/-- What is caused by elements that are reached is reached. -/
theorem reaches {root : String} (h : definition.Causal before path)
    (hbefore : ∀ id ∈ before, definition.Reaches root id) :
    ∀ id ∈ path, definition.Reaches root id := by
  induction path generalizing before with
  | nil => nofun
  | cons first more ih =>
    obtain ⟨⟨source, hsource, hleads⟩, hmore⟩ := h
    have hfirst : definition.Reaches root first := (hbefore source hsource).tail hleads
    exact List.forall_mem_cons.mpr
      ⟨hfirst, ih hmore (List.forall_mem_cons.mpr ⟨hfirst, hbefore⟩)⟩

end Causal

end Definition

/-! ## Causes along a trail -/

/-- A traversal that came to an id, behind some elements, visits the element of this id first, if it
visits anything, and causes all else that it visits.  If it stops at a join, it came to the join at
once or causes it. -/
structure Trail.CausedFrom (definition : Definition) (before : List String) (id : String)
    (trail : Trail) : Prop where
  /-- what it visits -/
  visits : trail.path = [] ∨
    ∃ more, trail.path = id :: more ∧ definition.Causal (id :: before) more
  /-- where it stops -/
  stops : ∀ join, trail.outcome.join? = some join →
    join = id ∨ definition.Caused (trail.path ++ before) join

namespace Trail.CausedFrom

variable {definition : Definition} {before : List String} {id join : String} {trail : Trail}

/-- If its first visit is caused, all are. -/
theorem causal (h : trail.CausedFrom definition before id) (hid : definition.Caused before id) :
    definition.Causal before trail.path := by
  rcases h.visits with hnone | ⟨more, hpath, hmore⟩
  · rw [hnone]
    trivial
  · rw [hpath]
    exact ⟨hid, hmore⟩

/-- And so is the join at which it stops. -/
theorem caused_join (h : trail.CausedFrom definition before id)
    (hid : definition.Caused before id) (hjoin : trail.outcome.join? = some join) :
    definition.Caused (trail.path ++ before) join := by
  rcases h.stops join hjoin with rfl | hcaused
  · exact hid.mono (List.subset_append_right _ _)
  · exact hcaused

end Trail.CausedFrom

namespace Engine

variable {engine : Engine} {definition : Definition}

section Traces

variable {inBranch : Bool} {remaining : Nat} {resumed : Bool} {came : Option Arc}
  {vars : Variables} {id : String} {trail : Trail}

/-- A fork causes the visits of its branches. -/
theorem causal_branches {element : Element} {arcs : List Arc} {branch : Arc → Trail}
    {before : List String} (does : engine.step definition element vars = .split arcs)
    (hbranch : ∀ arc ∈ arcs,
      (branch arc).CausedFrom definition (element.id :: before) arc.1.target) :
    definition.Causal (element.id :: before) ((arcs.map branch).flatMap Trail.path) := by
  refine .flatMap (List.forall_mem_map.mpr fun arc harc => ?_)
  have hexits := (step_eq_split does).2.1 ▸ harc
  exact (hbranch arc harc).causal (Definition.caused_of_mem_exits hexits before)

/-- And with them the visit to the join on which the branches converge. -/
theorem caused_convergence {element : Element} {arcs : List Arc} {branch : Arc → Trail}
    {before : List String} {join : String} {arrivals : Nat}
    (does : engine.step definition element vars = .split arcs)
    (hbranch : ∀ arc ∈ arcs,
      (branch arc).CausedFrom definition (element.id :: before) arc.1.target)
    (hconv : convergence ((arcs.map branch).map Trail.outcome) = some (join, arrivals)) :
    definition.Caused ((arcs.map branch).flatMap Trail.path ++ element.id :: before) join := by
  obtain ⟨arc, harc, hjoin⟩ := exists_join?_of_convergence hconv
  have hpath : (branch arc).path ⊆ (arcs.map branch).flatMap Trail.path :=
    fun id hid => List.mem_flatMap.mpr ⟨branch arc, List.mem_map_of_mem harc, hid⟩
  have hexits := (step_eq_split does).2.1 ▸ harc
  have hcaused := (hbranch arc harc).caused_join
    (Definition.caused_of_mem_exits hexits before) hjoin
  refine hcaused.mono (List.append_subset.mpr ⟨?_, List.subset_append_right _ _⟩)
  exact List.subset_append_of_subset_left _ hpath

/-- A traversal causes what it visits, from the id that it came to. -/
theorem Traces.causedFrom
    (h : engine.Traces definition inBranch remaining resumed came vars id trail)
    (before : List String) : trail.CausedFrom definition before id := by
  induction h generalizing before with
  | missing => exact ⟨Or.inl (Trail.path_halt _ _ _), nofun⟩
  | join found =>
    refine ⟨Or.inl (Trail.path_halt _ _ _), fun join hjoin => Or.inl ?_⟩
    obtain rfl := Option.some.inj hjoin
    exact Definition.id_of_element? found
  | limit => exact ⟨Or.inl (Trail.path_halt _ _ _), nofun⟩
  | stop found _ does =>
    obtain rfl := Definition.id_of_element? found
    refine ⟨Or.inr ⟨_, Trail.path_visit, ?_⟩, fun join hjoin => ?_⟩
    · rw [Trail.path_halt]
      trivial
    · exact absurd hjoin (join?_of_step_eq_stop does join)
  | go found _ does _ ih =>
    obtain rfl := Definition.id_of_element? found
    have hnext := Definition.caused_of_mem_exits (step_eq_go does).1 before
    refine ⟨Or.inr ⟨_, Trail.path_visit, (ih _).causal hnext⟩, fun join hjoin => Or.inr ?_⟩
    rw [Trail.path_visit]
    exact ((ih _).caused_join hnext hjoin).mono List.perm_middle.subset
  | part found _ does _ ends ihe =>
    obtain rfl := Definition.id_of_element? found
    have hbranches := causal_branches does fun arc harc => ihe arc harc (_ :: before)
    refine ⟨Or.inr ⟨_, Trail.path_visit, ?_⟩, fun join hjoin => Or.inr ?_⟩
    · rwa [Trail.path_halt, List.append_nil]
    · have hcaused := caused_convergence does (fun arc harc => ihe arc harc (_ :: before))
        (convergence_of_sequel_eq_stop ends hjoin)
      rw [Trail.path_visit, Trail.path_halt, List.append_nil]
      exact hcaused.mono List.perm_middle.subset
  | meet found _ does _ meets _ ihe ih =>
    obtain rfl := Definition.id_of_element? found
    obtain ⟨-, -, arrivals, hconv, -⟩ := sequel_eq_resume meets
    have hbranches := causal_branches does fun arc harc => ihe arc harc (_ :: before)
    -- the join at which the traversal resumes is caused in the branches
    have hnext := caused_convergence does (fun arc harc => ihe arc harc (_ :: before)) hconv
    refine ⟨Or.inr ⟨_, Trail.path_visit, hbranches.append ((ih _).causal hnext)⟩,
      fun join hjoin => Or.inr ?_⟩
    rw [Trail.path_visit]
    refine ((ih _).caused_join hnext hjoin).mono fun other hother => ?_
    simp only [List.mem_append, List.mem_cons] at hother ⊢
    tauto

/-- A traversal and its branches reached every element that they visited. -/
theorem Traces.reaches_of_mem_path
    (h : engine.Traces definition inBranch remaining resumed came vars id trail) {next : String}
    (hnext : next ∈ trail.path) : definition.Reaches id next := by
  have hid : ∀ other ∈ [id], definition.Reaches id other :=
    List.forall_mem_singleton.mpr Relation.ReflTransGen.refl
  rcases (h.causedFrom []).visits with hnone | ⟨more, hpath, hmore⟩
  · rw [hnone] at hnext
    cases hnext
  · rw [hpath] at hnext
    rcases List.mem_cons.mp hnext with rfl | hnext
    · exact Relation.ReflTransGen.refl
    · exact hmore.reaches hid next hnext

end Traces

/-! ## Runs -/

section Run

variable {context : Context} {trail : Trail}

/-- A run leaves the same trail in every context with the same variables. -/
theorem Leaves.of_vars_eq (h : engine.Leaves definition context trail) {other : Context}
    (hvars : other.vars = context.vars) : engine.Leaves definition other trail := by
  cases h with
  | nothing unstarted =>
    rw [← hvars]
    exact .nothing unstarted
  | traces starts goes =>
    rw [← hvars] at goes
    exact .traces starts goes

/-- A run visits the start of its process first, if it visits anything, and causes all else. -/
theorem Leaves.causal (h : engine.Leaves definition context trail) :
    trail.path = [] ∨ ∃ start more, definition.starts.head? = some start ∧
      trail.path = start.id :: more ∧ definition.Causal [start.id] more := by
  cases h with
  | nothing => exact Or.inl (Trail.path_halt _ _ _)
  | traces starts goes =>
    refine (goes.causedFrom []).visits.imp_right ?_
    rintro ⟨more, hpath, hmore⟩
    exact ⟨_, more, Definition.head?_starts starts, hpath, hmore⟩

theorem Leaves.mem_ids (h : engine.Leaves definition context trail) :
    ∀ id ∈ trail.path, id ∈ definition.ids := by
  rw [← Trail.map_id_stations]
  exact List.forall_mem_map.mpr fun station hstation =>
    Definition.mem_ids_of_element? (h.element?_of_mem station hstation)

theorem Leaves.head?_starts (h : engine.Leaves definition context trail) {id : String}
    (hid : trail.path.head? = some id) :
    ∃ start, definition.starts.head? = some start ∧ start.id = id := by
  rcases h.causal with hnone | ⟨start, more, hstart, hpath, -⟩
  · rw [hnone] at hid
    cases hid
  · rw [hpath] at hid
    exact ⟨start, hstart, Option.some.inj hid⟩

/-- To every later place on the path of a run a flow leads from an earlier one. -/
theorem Leaves.exists_flow (h : engine.Leaves definition context trail) {place : Nat} {id : String}
    (hid : trail.path[place]? = some id) (hplace : 0 < place) :
    ∃ (earlier : Nat) (flow : Flow), earlier < place ∧ flow ∈ definition.flows ∧
      trail.path[earlier]? = some flow.source ∧ flow.target = id := by
  rcases h.causal with hnone | ⟨start, more, -, hpath, hmore⟩
  · rw [hnone] at hid
    cases hid
  obtain ⟨place, rfl⟩ := Nat.exists_eq_succ_of_ne_zero (Nat.ne_of_gt hplace)
  rw [hpath] at hid ⊢
  obtain ⟨source, hsource, flow, hflow, rfl, htarget⟩ := hmore.caused hid
  -- the causes are the start and what stands in the list up to here
  have hbefore : flow.source ∈ (start.id :: more).take (place + 1) := by
    rw [List.take_succ_cons]
    exact (List.perm_append_singleton _ _).mem_iff.mp hsource
  obtain ⟨earlier, hearlier, heq⟩ := List.mem_take_iff_getElem.mp hbefore
  exact ⟨earlier, flow, by omega, hflow, by rw [← heq]; simp, htarget⟩

end Run

/-- **Visits are caused.** Let a run of a context, whatever was run in it before, not be cut off for
its nesting.  Then the path of the context grows by a list of elements of the process.  The first of
these is the first element that starts the process, and to each later one a flow leads from one
before it in the list.  From any other context with the same variables, whatever its path, its
current element and its id, the run comes to the same end with the same variables, and the path
grows by the same list. -/
theorem visits_are_caused (engine : Engine) (definition : Definition) (levels : Nat)
    (context : Context) (now : Nat)
    (hbounded : (engine.runThrough definition levels context now).value.1 ≠ .unbounded) :
    let run := engine.runThrough definition levels context now
    ∃ visited : List String,
      run.value.2.path = context.path ++ visited ∧
      (∀ id ∈ visited, id ∈ definition.ids) ∧
      (∀ id, visited.head? = some id →
        ∃ start, definition.starts.head? = some start ∧ start.id = id) ∧
      (∀ (place : Nat) (id : String), visited[place]? = some id → 0 < place →
        ∃ (earlier : Nat) (flow : Flow), earlier < place ∧ flow ∈ definition.flows ∧
          visited[earlier]? = some flow.source ∧ flow.target = id) ∧
      ∀ (other : Context) (later : Nat), other.vars = context.vars →
        let again := engine.runThrough definition levels other later
        again.value.1 = run.value.1 ∧ again.value.2.vars = run.value.2.vars ∧
          again.value.2.path = other.path ++ visited := by
  intro run
  obtain ⟨trail, hleaves, hdepth⟩ := exists_leaves hbounded
  have hvalue : run.value = _ := hleaves.value_runThrough hdepth now
  refine ⟨trail.path, by rw [hvalue]; rfl, hleaves.mem_ids, fun _ => hleaves.head?_starts,
    fun _ _ => hleaves.exists_flow, fun other later hvars => ?_⟩
  -- what the path was before does not matter to the trail
  have hagain := (hleaves.of_vars_eq hvars).value_runThrough hdepth later
  dsimp only
  rw [hvalue, hagain]
  exact ⟨rfl, rfl, rfl⟩

end Engine

/-! ## A context that is run twice

A fork with two branches to a join.  The context that the first run leaves is run again. -/

namespace Rerun

/-- A fork into a task and into a flow to the join. -/
def process : Definition where
  id := "rerun"
  name := none
  elements := [⟨"start", none, .startEvent⟩, ⟨"fork", none, .parallelGateway⟩,
    ⟨"task", none, .task .service (TaskSpec.of "agent")⟩, ⟨"join", none, .parallelGateway⟩,
    ⟨"end", none, .endEvent⟩]
  flows := [⟨"start", "fork", none⟩, ⟨"fork", "task", none⟩, ⟨"fork", "join", none⟩,
    ⟨"task", "join", none⟩, ⟨"join", "end", none⟩]

/-- An engine with one agent. -/
def engine : Engine where
  maxSteps := 10
  evaluator := fun _ _ => true
  sink := .null
  agents := [("agent", ⟨some (.constant (.int 1) 0), none, none, .null⟩)]
  processes := [("rerun", process)]

/-- The beginning of the first run. -/
def fresh : Context :=
  .start "rerun" ⟨"i"⟩ []

/-- The beginning of the second one. -/
def again : Context :=
  (engine.runThrough process 3 fresh 0).value.2

theorem bounded : (engine.runThrough process 3 fresh 0).value.1 ≠ .unbounded := by
  decide +kernel

theorem again_path : again.path = ["start", "fork", "task", "join", "end"] := by
  decide +kernel

theorem again_vars : again.vars = fresh.vars :=
  rfl

/-- The second run visits the same elements as the first one. -/
theorem path_of_second_run :
    (engine.runThrough process 3 fresh 0).value.1 ≠ .unbounded ∧ again.vars = fresh.vars ∧
      (engine.runThrough process 3 again 5).value.1 =
        (engine.runThrough process 3 fresh 0).value.1 ∧
      (engine.runThrough process 3 again 5).value.2.path =
        ["start", "fork", "task", "join", "end", "start", "fork", "task", "join", "end"] := by
  obtain ⟨visited, hpath, -, -, -, hagain⟩ :=
    Engine.visits_are_caused engine process 3 fresh 0 bounded
  obtain ⟨hend, -, hpath'⟩ := hagain again 5 again_vars
  -- the first run began with an empty path
  have hvisited : visited = again.path := hpath.symm
  refine ⟨bounded, again_vars, hend, hpath'.trans ?_⟩
  rw [hvisited, again_path]
  rfl

end Rerun

end Workflow
