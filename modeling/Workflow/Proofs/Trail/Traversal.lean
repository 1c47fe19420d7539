import Workflow.Proofs.Trail.Rules

/-!
# Traversals leave trails

The engine's traversals compute what the rules of `Engine.Traces` say.

* `Engine.walk_of_missing`, `walk_of_awaits`, `walk_of_limit`, `walk_of_enters` — what a walk is, by
  what it comes to.
* `Engine.Traces.value_traverse` — a traversal that leaves a trail comes to what the trail says, at
  whatever time it begins and under whatever instance id, if it may nest branches deeply enough.
* `Engine.exists_traces` — a traversal that was not cut off for its nesting leaves a trail.
-/

namespace Workflow

namespace Timed

variable {α β : Type}

@[simp] theorem value_done (now : Nat) (value : α) (history : List Occurrence) :
    (done now value history).value = value := rfl

@[simp] theorem value_map (f : α → β) (t : Timed α) : (t.map f).value = f t.value := rfl

@[simp] theorem value_andThen (first : Timed α) (next : α → Nat → Timed β) :
    (first.andThen next).value = (next first.value first.finish).value := rfl

@[simp] theorem value_all (now : Nat) (branches : List (Timed α)) :
    (all now branches).value = branches.map Timed.value := rfl

end Timed

namespace Engine

variable {engine : Engine} {definition : Definition}

/-! ## Visits -/

theorem value_executeTask (agent : Agent) {element : Element} {kind : TaskKind} {spec : TaskSpec}
    (hkind : element.kind = .task kind spec) (context : Context) (now : Nat) :
    (agent.executeTask element context now).value =
      match agent.perform element context.vars with
      | .ok value => (.ok value, { context with vars := spec.store context.vars value })
      | .error error => (.error error, context) := by
  rw [Agent.executeTask, Timed.value_andThen, Timed.value_done, Agent.invoke, Agent.perform]
  rcases hassign : agent.assign element with error | ⟨spec', instructions, executor⟩
  · rfl
  · -- the agent took the assignment from the element itself
    have hspec : spec' = spec := by
      unfold Agent.assign at hassign
      rw [hkind] at hassign
      simp only [ElementKind.task?] at hassign
      split at hassign
      · split at hassign
        · simp_all
        · cases hassign
      · cases hassign
    subst hspec
    dsimp only
    rcases (executor.execute ⟨instructions, spec'.resolve context.vars, context.vars⟩).result
      with error | value
    · rfl
    · simp only [Except.mapError, TaskSpec.store, Context.set]
      rcases spec'.output with _ | key <;> rfl

/-- What a task comes to for the traversal that runs it. -/
theorem value_runTask (engine : Engine) {element : Element} {kind : TaskKind} {spec : TaskSpec}
    (hkind : element.kind = .task kind spec) (context : Context) (now : Nat) :
    (engine.runTask element spec context now).value =
      match engine.perform element spec context.vars with
      | .ok value => (.ok value, { context with vars := spec.store context.vars value })
      | .error error => (.error error, context) := by
  rw [runTask, perform]
  rcases engine.agent? spec.agent with _ | agent
  · rfl
  · exact value_executeTask agent hkind context now

/-- What a step is for the traversal that makes it. -/
def Step.visit (fork : List Flow → Visit) : Step → Visit
  | .stop outcome vars => ⟨.stop outcome, vars, []⟩
  | .go arc vars => ⟨.go arc.1.target false, vars, []⟩
  | .split arcs => fork (arcs.map Prod.fst)

theorem value_leave (element : Element) (vars : Variables) (now : Nat)
    (fork : List Flow → Visit) :
    (leave definition element vars now).value =
      Step.visit fork (depart definition element vars) := by
  rw [leave, depart, ← Definition.map_fst_exits]
  rcases definition.exits element.id with _ | ⟨arc, more⟩ <;> rfl

theorem map_fst_firstOpen (engine : Engine) (vars : Variables) (arcs : List Arc) :
    (firstOpen engine.evaluator vars (arcs.map Prod.fst)).map Prod.fst =
      (arcs.find? (engine.opens vars)).map Prod.fst := by
  induction arcs with
  | nil => rfl
  | cons arc more ih =>
    rw [firstOpen] at ih ⊢
    rw [List.map_cons, List.findSome?_cons, List.find?_cons]
    rw [opens]
    rcases arc.1.condition with _ | condition
    · exact ih
    · rcases h : engine.evaluator condition vars with _ | _ <;> simp [h, ih]

/-- Leaving by the first flow whose guard holds. -/
theorem value_firstOpen (gateway : Element) (vars : Variables) (now : Nat) (arcs : List Arc)
    (said : Flow → String → List Occurrence) (fork : List Flow → Visit) :
    (match firstOpen engine.evaluator vars (arcs.map Prod.fst) with
      | some (flow, condition) =>
        Timed.done now (⟨.go flow.target false, vars, []⟩ : Visit) (said flow condition)
      | none => .done now ⟨.stop (.failed (.noMatchingCondition gateway.id)), vars, []⟩ []).value =
      Step.visit fork
        (match arcs.find? (engine.opens vars) with
        | some arc => .go arc vars
        | none => .stop (.failed (.noMatchingCondition gateway.id)) vars) := by
  have hopen := map_fst_firstOpen engine vars arcs
  revert hopen
  rcases firstOpen engine.evaluator vars (arcs.map Prod.fst) with _ | ⟨flow, condition⟩ <;>
    rcases arcs.find? (engine.opens vars) with _ | arc <;>
    intro hopen
  · rfl
  · cases hopen
  · cases hopen
  · obtain rfl : flow = arc.1 := Option.some.inj hopen
    rfl

theorem value_choose (gateway : Element) (vars : Variables) (now : Nat)
    (fork : List Flow → Visit) :
    (engine.choose definition gateway vars now).value =
      Step.visit fork
        (match engine.select vars (definition.exits gateway.id) with
        | some arc => .go arc vars
        | none => .stop (.failed (.noMatchingCondition gateway.id)) vars) := by
  rw [choose, ← Definition.map_fst_exits]
  generalize definition.exits gateway.id = arcs
  -- one flow without a guard is taken as it is, all else goes by the first guard that holds
  rcases arcs with _ | ⟨⟨⟨source, target, _ | condition⟩, place⟩, _ | ⟨second, more⟩⟩
  · rfl
  · rfl
  · exact value_firstOpen gateway vars now ((⟨source, target, none⟩, place) :: second :: more) _ fork
  · exact value_firstOpen gateway vars now [(⟨source, target, some condition⟩, place)] _ fork
  · exact value_firstOpen gateway vars now ((⟨source, target, some condition⟩, place) :: second :: more)
      _ fork

/-- A visit does what its step says. -/
theorem value_visit (inBranch : Bool) (branch : BranchTraversal) (element : Element)
    (context : Context) (now : Nat) :
    (engine.visit definition inBranch branch element context now).value =
      Step.visit (fun flows => (fork definition inBranch branch element flows context now).value)
        (engine.step definition element context.vars) := by
  rw [visit, step]
  rcases hkind : element.kind with _ | _ | ⟨kind, spec⟩ | _ | _
  · exact value_leave element context.vars now _
  · rfl
  · dsimp only
    rw [Timed.value_andThen, value_runTask engine hkind]
    rcases engine.perform element spec context.vars with error | value
    · rfl
    · exact value_leave element _ _ _
  · exact value_choose element context.vars now _
  · dsimp only
    rw [← Definition.map_fst_exits]
    rcases hexits : definition.exits element.id with _ | ⟨first, _ | ⟨second, more⟩⟩
    · exact value_leave element context.vars now _
    · exact value_leave element context.vars now _
    · rfl

/-! ## Forks -/

theorem reunite_traversals (vars : Variables) (branches : List Trail) (current : Option String) :
    reunite vars (branches.map (Trail.traversal · current)) =
      reunite vars (branches.map (Trail.traversal · none)) := by
  have houtcomes : (branches.map (Trail.traversal · current)).map Traversal.outcome =
      (branches.map (Trail.traversal · none)).map Traversal.outcome := by
    rw [List.map_map, List.map_map]
    rfl
  have hmerged : mergeBranches vars (branches.map (Trail.traversal · current)) =
      mergeBranches vars (branches.map (Trail.traversal · none)) := by
    rw [mergeBranches, mergeBranches, List.foldl_map, List.foldl_map]
    rfl
  rw [reunite, reunite, houtcomes, hmerged]

/-- A sequel as the end of a visit whose branches went along a path. -/
def Sequel.visit (path : List String) : Sequel → Visit
  | .stop outcome vars => ⟨.stop outcome, vars, path⟩
  | .resume join vars => ⟨.go join true, vars, path⟩

theorem value_reunion (inBranch : Bool) (gateway : Element) (vars : Variables)
    (branches : List Trail) (current : Option String) (now : Nat) :
    (reunion definition inBranch gateway vars
        (branches.map (Trail.traversal · current)) now).value =
      Sequel.visit (branches.flatMap Trail.path) (sequel definition inBranch vars branches) := by
  have hpath : (branches.map (Trail.traversal · current)).flatMap Traversal.path =
      branches.flatMap Trail.path := by
    rw [List.flatMap_map]
    rfl
  rw [reunion, hpath, reunite_traversals, sequel]
  rcases reunite vars (branches.map (Trail.traversal · none)) with ⟨join, merged⟩ | error | _
  · rcases join with _ | ⟨join, arrivals⟩
    · rfl
    · dsimp only [rejoin, Timed.value_done]
      split <;> rfl
  · rfl
  · rfl

theorem map_value_branches (branch : BranchTraversal) (context : Context) (trail : Arc → Trail)
    (now : Nat) {arcs : List Arc} (first : Nat)
    (hbranch : ∀ arc ∈ arcs, ∀ index now, (branch (context.fork index) arc.1.target now).value =
      (trail arc).traversal context.current) :
    (((arcs.map Prod.fst).zipIdx first).map fun (flow, index) =>
        branch (context.fork index) flow.target now).map Timed.value =
      (arcs.map trail).map (Trail.traversal · context.current) := by
  induction arcs generalizing first with
  | nil => rfl
  | cons arc more ih =>
    have hmore := ih (first + 1) fun arc' harc' => hbranch arc' (List.mem_cons_of_mem _ harc')
    simp only [List.map_cons, List.zipIdx_cons]
    rw [hbranch arc List.mem_cons_self, hmore]

/-- A fork comes to what the sequel of its branches says. -/
theorem value_fork (inBranch : Bool) (branch : BranchTraversal) (gateway : Element)
    (arcs : List Arc) (context : Context) (now : Nat) (trail : Arc → Trail)
    (hbranch : ∀ arc ∈ arcs, ∀ index now, (branch (context.fork index) arc.1.target now).value =
      (trail arc).traversal context.current) :
    (fork definition inBranch branch gateway (arcs.map Prod.fst) context now).value =
      Sequel.visit ((arcs.map trail).flatMap Trail.path)
        (sequel definition inBranch context.vars (arcs.map trail)) := by
  rw [fork, Timed.value_andThen, Timed.value_andThen, Timed.value_all,
    map_value_branches branch context trail _ 0 hbranch, value_reunion]

/-! ## Walks -/

/-- How a traversal that may nest branches so deeply traverses its branches. -/
def branching (engine : Engine) (definition : Definition) : Nat → BranchTraversal
  | 0 => fun context _ now => .done now (ending .unbounded context) []
  | levels + 1 => engine.traverse definition levels true

theorem traverse_eq_walk (levels : Nat) (inBranch : Bool) :
    engine.traverse definition levels inBranch =
      engine.walk definition inBranch (engine.branching definition levels) engine.maxSteps
        false := by
  rcases levels with _ | levels <;> rfl

/-- A relation between the traversals of two definitions, perhaps on two engines, holds at every
depth if it holds of walks whenever it holds of the branches that they may come to. -/
theorem traverse_related {other : Engine} {definition' : Definition}
    (alike : BranchTraversal → BranchTraversal → Prop)
    (cut : alike (engine.branching definition 0) (other.branching definition' 0))
    (walks : ∀ inBranch branch branch', alike branch branch' →
      alike (engine.walk definition inBranch branch engine.maxSteps false)
        (other.walk definition' inBranch branch' other.maxSteps false))
    (levels : Nat) (inBranch : Bool) :
    alike (engine.traverse definition levels inBranch)
      (other.traverse definition' levels inBranch) := by
  induction levels generalizing inBranch with
  | zero => exact walks inBranch _ _ cut
  | succ levels ih => exact walks inBranch _ _ (ih true)

/-- What is said when an element is visited. -/
def visiting (element : Element) (context : Context) : Occurrence :=
  .logged ⟨.debug, "Visiting element",
    [("instance_id", .string context.instanceId.text), ("element_id", .string element.id),
      ("kind", .string element.kind.name)]⟩

section Walk

variable {inBranch : Bool} {branch : BranchTraversal} {remaining : Nat} {resumed : Bool}
  {context : Context} {id : String} {now : Nat} {element : Element}

theorem walk_of_missing (absent : definition.element? id = none) :
    engine.walk definition inBranch branch remaining resumed context id now =
      .done now (ending (.failed (.malformedProcess (.missingElement id definition.id))) context)
        [] := by
  rw [walk, absent]

theorem walk_of_awaits (found : definition.element? id = some element)
    (awaits : definition.awaits inBranch resumed element = true) :
    engine.walk definition inBranch branch remaining resumed context id now =
      .done now (ending (.atJoin element.id 1) context)
        [.logged ⟨.debug, "Branch reached join",
          [("instance_id", .string context.instanceId.text), ("join", .string element.id)]⟩] := by
  rw [Definition.awaits] at awaits
  rw [walk, found]
  dsimp only
  rw [if_pos awaits]

theorem walk_of_limit (found : definition.element? id = some element)
    (enters : definition.awaits inBranch resumed element = false) :
    engine.walk definition inBranch branch 0 resumed context id now =
      .done now (ending (.failed (.stepLimitExceeded engine.maxSteps)) context)
        [.logged ⟨.warn, "Step limit exceeded, aborting traversal",
          [("element_id", .string element.id), ("max_steps", .int engine.maxSteps)]⟩] := by
  rw [Definition.awaits] at enters
  rw [walk, found]
  dsimp only
  rw [if_neg (by rw [enters]; exact Bool.false_ne_true)]

/-- A walk that visits an element ends with the visit, or it goes on behind it. -/
theorem walk_of_enters (found : definition.element? id = some element)
    (enters : definition.awaits inBranch resumed element = false) :
    engine.walk definition inBranch branch (remaining + 1) resumed context id now =
      (Timed.done now () [visiting element context]).andThen fun _ now =>
        (engine.visit definition inBranch branch element
          { context with current := some element.id } now).andThen fun visit now =>
          match visit.move with
          | .stop outcome =>
            .done now ⟨outcome, visit.vars, some element.id, element.id :: visit.path⟩ []
          | .go next resumed =>
            (engine.walk definition inBranch branch remaining resumed
              { context with current := some element.id, vars := visit.vars } next now).map
              fun rest => { rest with path := element.id :: (visit.path ++ rest.path) } := by
  rw [Definition.awaits] at enters
  rw [walk, found]
  dsimp only
  rw [if_neg (by rw [enters]; exact Bool.false_ne_true)]
  rfl

/-- A walk that visits an element ends there if the visit says so. -/
theorem value_walk_stop (found : definition.element? id = some element)
    (enters : definition.awaits inBranch resumed element = false) {outcome : Outcome}
    {after : Variables} {path : List String}
    (visits : (engine.visit definition inBranch branch element
      { context with current := some element.id } now).value = ⟨.stop outcome, after, path⟩) :
    (engine.walk definition inBranch branch (remaining + 1) resumed context id now).value =
      ⟨outcome, after, some element.id, element.id :: path⟩ := by
  rw [walk_of_enters found enters, Timed.value_andThen, Timed.value_andThen]
  dsimp only [Timed.done]
  rw [visits]

/-- A walk that visits an element goes on, at some time, where the visit says. -/
theorem exists_value_walk_go (found : definition.element? id = some element)
    (enters : definition.awaits inBranch resumed element = false) {next : String}
    {resumes : Bool} {after : Variables} {path : List String}
    (visits : (engine.visit definition inBranch branch element
      { context with current := some element.id } now).value = ⟨.go next resumes, after, path⟩) :
    ∃ later, (engine.walk definition inBranch branch (remaining + 1) resumed context id now).value =
      let rest := (engine.walk definition inBranch branch remaining resumes
        { context with current := some element.id, vars := after } next later).value
      { rest with path := element.id :: (path ++ rest.path) } := by
  refine ⟨(engine.visit definition inBranch branch element
      { context with current := some element.id } now).finish, ?_⟩
  rw [walk_of_enters found enters, Timed.value_andThen, Timed.value_andThen]
  dsimp only [Timed.done]
  rw [visits]
  rfl

end Walk

/-- Branches that leave trails come to what the trails say. -/
theorem value_branching {arcs : List Arc} {trail : Arc → Trail} {vars : Variables} {levels : Nat}
    (hdepth : ∀ arc ∈ arcs, (trail arc).depth < levels)
    (hwalk : ∀ arc ∈ arcs, ∀ levels, (trail arc).depth ≤ levels →
      ∀ (context : Context) (now : Nat), context.vars = vars →
        (engine.walk definition true (engine.branching definition levels) engine.maxSteps false
          context arc.1.target now).value = (trail arc).traversal context.current) :
    ∀ arc ∈ arcs, ∀ (context : Context), context.vars = vars → ∀ index now,
      (engine.branching definition levels (context.fork index) arc.1.target now).value =
        (trail arc).traversal context.current := by
  intro arc harc context hvars index now
  obtain ⟨levels, rfl⟩ : ∃ n, levels = n + 1 :=
    Nat.exists_eq_succ_of_ne_zero (Nat.ne_of_gt (Nat.zero_lt_of_lt (hdepth arc harc)))
  rw [branching, traverse_eq_walk]
  exact hwalk arc harc levels (Nat.le_of_lt_succ (hdepth arc harc)) (context.fork index) now hvars

/-- A walk that leaves a trail comes to what the trail says. -/
theorem Traces.value_walk {inBranch : Bool} {remaining : Nat} {resumed : Bool} {came : Option Arc}
    {vars : Variables} {id : String} {trail : Trail}
    (h : engine.Traces definition inBranch remaining resumed came vars id trail) :
    ∀ levels, trail.depth ≤ levels → ∀ (context : Context) (now : Nat), context.vars = vars →
      (engine.walk definition inBranch (engine.branching definition levels) remaining resumed
        context id now).value = trail.traversal context.current := by
  induction h with
  | missing absent =>
    rintro levels _ context now rfl
    rw [walk_of_missing absent, Trail.traversal_halt]
    rfl
  | join found awaits =>
    rintro levels _ context now rfl
    rw [walk_of_awaits found awaits, Trail.traversal_halt]
    rfl
  | limit found enters =>
    rintro levels _ context now rfl
    rw [walk_of_limit found enters, Trail.traversal_halt]
    rfl
  | stop found enters does =>
    rintro levels _ context now rfl
    rw [Trail.traversal_visit, Trail.path_halt]
    refine value_walk_stop found enters ?_
    rw [value_visit, does]
    rfl
  | @go inBranch remaining resumed came vars id element arc after rest found enters does goes ih =>
    rintro levels hdepth context now rfl
    have hvisit : (engine.visit definition inBranch (engine.branching definition levels) element
        { context with current := some element.id } now).value =
        ⟨.go arc.1.target false, after, []⟩ := by
      rw [value_visit, does]
      rfl
    obtain ⟨later, hwalk⟩ := exists_value_walk_go found enters hvisit
    rw [hwalk, ih levels (Nat.le_trans Trail.depth_rest_le hdepth) _ later rfl,
      Trail.traversal_visit]
    rfl
  | @part inBranch remaining resumed came vars id element arcs branch outcome after found enters does
      each ends ih =>
    rintro levels hdepth context now rfl
    have hbranches := value_branching (fun arc harc => Nat.lt_of_lt_of_le
      (Trail.depth_lt_of_mem (List.mem_map_of_mem harc)) hdepth) ih
    rw [Trail.traversal_visit, Trail.path_halt, List.append_nil]
    refine value_walk_stop found enters ?_
    rw [value_visit, does, Step.visit,
      value_fork inBranch _ element arcs { context with current := some element.id } now branch
        fun arc harc => hbranches arc harc { context with current := some element.id } rfl, ends]
    rfl
  | @meet inBranch remaining resumed came vars id element arcs branch join after rest found enters
      does each meets goes ihe ih =>
    rintro levels hdepth context now rfl
    have hbranches := value_branching (fun arc harc => Nat.lt_of_lt_of_le
      (Trail.depth_lt_of_mem (List.mem_map_of_mem harc)) hdepth) ihe
    have hvisit : (engine.visit definition inBranch (engine.branching definition levels) element
        { context with current := some element.id } now).value =
        ⟨.go join true, after, (arcs.map branch).flatMap Trail.path⟩ := by
      rw [value_visit, does, Step.visit,
        value_fork inBranch _ element arcs { context with current := some element.id } now branch
          fun arc harc => hbranches arc harc { context with current := some element.id } rfl, meets]
      rfl
    obtain ⟨later, hwalk⟩ := exists_value_walk_go found enters hvisit
    -- the rest of the walk begins at a later time, which its trail does not depend on
    rw [hwalk, ih levels (Nat.le_trans Trail.depth_rest_le hdepth) _ later rfl,
      Trail.traversal_visit]
    rfl

/-- A traversal that leaves a trail comes to what the trail says. -/
theorem Traces.value_traverse {inBranch : Bool} {came : Option Arc} {id : String} {trail : Trail}
    {context : Context}
    (h : engine.Traces definition inBranch engine.maxSteps false came context.vars id trail)
    {levels : Nat} (hdepth : trail.depth ≤ levels) (now : Nat) :
    (engine.traverse definition levels inBranch context id now).value =
      trail.traversal context.current := by
  rw [traverse_eq_walk]
  exact h.value_walk levels hdepth context now rfl

/-! ## From traversals to trails -/

/-- No traversal that leaves a trail is cut off for its nesting. -/
theorem Traces.outcome_ne_unbounded {inBranch : Bool} {remaining : Nat} {resumed : Bool}
    {came : Option Arc} {vars : Variables} {id : String} {trail : Trail}
    (h : engine.Traces definition inBranch remaining resumed came vars id trail) :
    trail.outcome ≠ .unbounded := by
  induction h with
  | missing => nofun
  | join => nofun
  | limit => nofun
  | stop _ _ does =>
    rcases step_eq_stop does with ⟨⟨_, rfl⟩, -⟩ | ⟨rfl, -⟩ <;> nofun
  | go _ _ _ _ ih => exact ih
  | part _ _ _ _ ends ihe =>
    rw [Trail.outcome, Trail.outcome]
    rcases sequel_eq_stop ends with
      ⟨⟨trail, htrail, rfl⟩, -⟩ | ⟨-, -, ⟨-, rfl⟩ | ⟨_, _, -, -, -, rfl⟩⟩
    · obtain ⟨arc, harc, rfl⟩ := List.mem_map.mp htrail
      exact ihe arc harc
    · nofun
    · nofun
  | meet _ _ _ _ _ _ _ ih => exact ih

/-- A fork ends unbounded if one of its branches does. -/
theorem value_fork_unbounded (inBranch : Bool) (branch : BranchTraversal) (gateway : Element)
    {flows : List Flow} {flow : Flow} (hflow : flow ∈ flows) (context : Context) (now : Nat)
    (h : ∀ index now, (branch (context.fork index) flow.target now).value.outcome = .unbounded) :
    ∃ path, (fork definition inBranch branch gateway flows context now).value =
      ⟨.stop .unbounded, context.vars, path⟩ := by
  obtain ⟨index, hindex⟩ := List.getElem?_of_mem hflow
  have hmem : (flow, index) ∈ flows.zipIdx := List.mk_mem_zipIdx_iff_getElem?.mpr hindex
  rw [fork, Timed.value_andThen, Timed.value_andThen, Timed.value_all, reunion,
    reunite_of_unbounded (List.mem_map_of_mem (List.mem_map_of_mem hmem)) (h index _)]
  exact ⟨_, rfl⟩

/-- A walk without a visit left leaves a trail. -/
theorem exists_traces_zero (inBranch resumed : Bool) (came : Option Arc) (vars : Variables)
    (id : String) :
    ∃ trail, engine.Traces definition inBranch 0 resumed came vars id trail ∧ trail.depth = 0 := by
  rcases hfound : definition.element? id with _ | element
  · exact ⟨_, .missing hfound, Trail.depth_halt _ _ _⟩
  rcases hawaits : definition.awaits inBranch resumed element
  · exact ⟨_, .limit hfound hawaits, Trail.depth_halt _ _ _⟩
  · exact ⟨_, .join hfound hawaits, Trail.depth_halt _ _ _⟩

/-- A walk leaves a trail unless it is cut off, if its branches do so. -/
theorem exists_traces_of_branching {levels : Nat}
    (hbranch : ∀ (came : Option Arc) (context : Context) (id : String) (now : Nat),
      (engine.branching definition levels context id now).value.outcome ≠ .unbounded →
      ∃ trail, engine.Traces definition true engine.maxSteps false came context.vars id trail ∧
        trail.depth < levels)
    (inBranch : Bool) (remaining : Nat) :
    ∀ (resumed : Bool) (came : Option Arc) (context : Context) (id : String) (now : Nat),
      (engine.walk definition inBranch (engine.branching definition levels) remaining resumed
        context id now).value.outcome ≠ .unbounded →
      ∃ trail, engine.Traces definition inBranch remaining resumed came context.vars id trail ∧
        trail.depth ≤ levels := by
  induction remaining with
  | zero =>
    intro resumed came context id now _
    obtain ⟨trail, htraces, hdepth⟩ := exists_traces_zero inBranch resumed came context.vars id
    exact ⟨trail, htraces, by omega⟩
  | succ remaining ih =>
    intro resumed came context id now hbounded
    rcases hfound : definition.element? id with _ | element
    · exact ⟨_, .missing hfound, Trail.depth_halt_le⟩
    rcases hawaits : definition.awaits inBranch resumed element
    swap
    · exact ⟨_, .join hfound hawaits, Trail.depth_halt_le⟩
    let visiting : Context := { context with current := some element.id }
    have hvisit : (engine.visit definition inBranch (engine.branching definition levels) element
        visiting now).value = _ := value_visit inBranch _ element visiting now
    rcases hdoes : engine.step definition element context.vars with
      ⟨outcome, after⟩ | ⟨arc, after⟩ | arcs
    · exact ⟨_, .stop hfound hawaits hdoes, Trail.depth_visit_nil_le Trail.depth_halt_le⟩
    · rw [hdoes] at hvisit
      obtain ⟨later, hwalk⟩ := exists_value_walk_go hfound hawaits hvisit
      rw [hwalk] at hbounded
      obtain ⟨rest, htraces, hdepth⟩ := ih false (some arc) _ arc.1.target later hbounded
      exact ⟨_, .go hfound hawaits hdoes htraces, Trail.depth_visit_nil_le hdepth⟩
    rw [hdoes, Step.visit] at hvisit
    -- either every branch leaves a trail, or one of them was cut off
    by_cases hall : ∀ arc ∈ arcs, ∃ trail, engine.Traces definition true engine.maxSteps false
        (some arc) context.vars arc.1.target trail ∧ trail.depth < levels
    · choose! branch htraces hdepth using hall
      have hdepths : ∀ trail ∈ arcs.map branch, trail.depth < levels := by
        intro trail htrail
        obtain ⟨arc, harc, rfl⟩ := List.mem_map.mp htrail
        exact hdepth arc harc
      rw [value_fork inBranch _ element arcs visiting now branch
        fun arc harc => value_branching hdepth (fun arc harc => (htraces arc harc).value_walk)
          arc harc visiting rfl] at hvisit
      rcases hsequel : sequel definition inBranch context.vars (arcs.map branch) with
        ⟨outcome, after⟩ | ⟨join, after⟩
      · exact ⟨_, .part hfound hawaits hdoes htraces hsequel,
          Trail.depth_visit_le hdepths Trail.depth_halt_le⟩
      · rw [hsequel] at hvisit
        obtain ⟨later, hwalk⟩ := exists_value_walk_go hfound hawaits hvisit
        rw [hwalk] at hbounded
        obtain ⟨rest, hrest, hdepth⟩ := ih true none _ join later hbounded
        exact ⟨_, .meet hfound hawaits hdoes htraces hsequel hrest,
          Trail.depth_visit_le hdepths hdepth⟩
    · -- the walk was cut off with its branch
      simp only [not_forall] at hall
      obtain ⟨arc, harc, hnone⟩ := hall
      have hcut : ∀ index now, (engine.branching definition levels (visiting.fork index)
          arc.1.target now).value.outcome = .unbounded := by
        intro index now
        by_contra hne
        exact hnone (hbranch (some arc) (visiting.fork index) _ _ hne)
      obtain ⟨path, hfork⟩ := value_fork_unbounded inBranch _ element
        (List.mem_map_of_mem harc) visiting now hcut
      rw [hfork] at hvisit
      rw [value_walk_stop hfound hawaits hvisit] at hbounded
      exact absurd rfl hbounded

/-- A walk that was not cut off for its nesting leaves a trail. -/
theorem exists_traces_walk (levels : Nat) :
    ∀ (inBranch : Bool) (remaining : Nat) (resumed : Bool) (came : Option Arc) (context : Context)
      (id : String) (now : Nat),
      (engine.walk definition inBranch (engine.branching definition levels) remaining resumed
        context id now).value.outcome ≠ .unbounded →
      ∃ trail, engine.Traces definition inBranch remaining resumed came context.vars id trail ∧
        trail.depth ≤ levels := by
  induction levels with
  | zero =>
    intro inBranch remaining
    refine exists_traces_of_branching ?_ inBranch remaining
    intro came context id now h
    exact absurd rfl h
  | succ levels ih =>
    intro inBranch remaining
    refine exists_traces_of_branching ?_ inBranch remaining
    intro came context id now h
    rw [branching, traverse_eq_walk] at h
    obtain ⟨trail, htraces, hdepth⟩ := ih true engine.maxSteps false came context id now h
    exact ⟨trail, htraces, Nat.lt_succ_of_le hdepth⟩

/-- A traversal that was not cut off for its nesting leaves a trail. -/
theorem exists_traces {levels : Nat} {inBranch : Bool} (came : Option Arc) {context : Context}
    {id : String} {now : Nat}
    (h : (engine.traverse definition levels inBranch context id now).value.outcome ≠
      .unbounded) :
    ∃ trail, engine.Traces definition inBranch engine.maxSteps false came context.vars id trail ∧
      trail.depth ≤ levels := by
  rw [traverse_eq_walk] at h
  exact exists_traces_walk levels inBranch engine.maxSteps false came context id now h

/-! ## Runs -/

theorem completion_ne_unbounded {outcome : Outcome} (h : outcome ≠ .unbounded) :
    outcome.completion ≠ .unbounded := by
  cases outcome with
  | unbounded => exact absurd rfl h
  | _ => nofun

/-- What a run comes to is what its traversal comes to. -/
theorem value_runThrough (engine : Engine) {start : Element} (hstart : definition.start = .ok start)
    (levels : Nat) (context : Context) (now : Nat) :
    let traversal := (engine.traverse definition levels false context start.id now).value
    (engine.runThrough definition levels context now).value =
      (traversal.outcome.completion, context.after traversal) := by
  rw [runThrough, hstart]
  rfl

/-- A run whose traversal leaves a trail comes to what the trail says. -/
theorem Traces.value_runThrough {context : Context} {start : Element} {trail : Trail}
    (hstart : definition.start = .ok start)
    (h : engine.Traces definition false engine.maxSteps false none context.vars start.id trail)
    {levels : Nat} (hdepth : trail.depth ≤ levels) (now : Nat) :
    (engine.runThrough definition levels context now).value =
      (trail.outcome.completion, context.after (trail.traversal context.current)) := by
  rw [Engine.value_runThrough engine hstart, h.value_traverse hdepth]
  rfl

/-- The traversal of a run that was not cut off for its nesting was not cut off either. -/
theorem bounded_traverse {levels : Nat} {context : Context} {start : Element} {now : Nat}
    (hstart : definition.start = .ok start)
    (h : (engine.runThrough definition levels context now).value.1 ≠ .unbounded) :
    (engine.traverse definition levels false context start.id now).value.outcome ≠
      .unbounded := by
  intro hcut
  apply h
  rw [value_runThrough engine hstart]
  exact congrArg Outcome.completion hcut

/-- A run that was not cut off for its nesting leaves a trail, if the process has a start. -/
theorem exists_traces_of_run {levels : Nat} {context : Context} {start : Element} {now : Nat}
    (hstart : definition.start = .ok start)
    (h : (engine.runThrough definition levels context now).value.1 ≠ .unbounded) :
    ∃ trail, engine.Traces definition false engine.maxSteps false none context.vars start.id
      trail ∧ trail.depth ≤ levels :=
  exists_traces none (bounded_traverse hstart h)

end Engine

end Workflow
