import Mathlib.Data.List.Perm.Subperm
import Workflow.Proofs.Allowance
import Workflow.Proofs.Trail.Reach
import Workflow.Proofs.Trail.Segments

/-!
# How deeply branches are nested

A traversal counts its visits, but every branch begins to count anew, so the count does not bound
the nesting of branches.  What bounds it is the graph.  A branch ends before the first join that it
comes to, so the first fork in it is a proper one, which is no join; and a proper fork that lies on
no cycle is spent, once branches have begun there: neither its branches nor what follows the join on
which they converge come to it again, even where that join forks itself.  So a branch can nest
branches only as deeply as there are proper forks not yet spent when it begins.

* `Spent` — the invariant: which forks a traversal cannot come to any more.
* `exists_traces_of_spent` — a branch leaves a trail as deep as there are forks not spent.
* `run_terminates` — a run comes to an end; its traversals stay within the limit of visits, and its
  branches are nested at most one level deeper than there are proper forks.
-/

namespace Workflow

namespace Engine

variable {engine : Engine} {definition : Definition}

/-! ## Visits -/

namespace Traces

variable {inBranch : Bool} {remaining : Nat} {resumed : Bool} {came : Option Arc}
  {vars : Variables} {id : String} {trail : Trail}

/-- A traversal stays within its visits. -/
theorem length_own_le
    (h : engine.Traces definition inBranch remaining resumed came vars id trail) :
    trail.own.length ≤ remaining := by
  induction h with
  | missing => exact Nat.zero_le _
  | join => exact Nat.zero_le _
  | limit => exact Nat.zero_le _
  | stop => exact Nat.succ_le_succ (Nat.zero_le _)
  | go _ _ _ _ ih => exact Nat.succ_le_succ ih
  | part => exact Nat.succ_le_succ (Nat.zero_le _)
  | meet _ _ _ _ _ _ _ ih => exact Nat.succ_le_succ ih

/-- Every traversal in a trail, at whatever depth, stays within the limit of visits. -/
theorem length_own_le_of_mem_segments
    (h : engine.Traces definition inBranch engine.maxSteps resumed came vars id trail) :
    ∀ segment ∈ trail.segments, segment.own.length ≤ engine.maxSteps := by
  intro segment hsegment
  rcases List.mem_cons.mp hsegment with rfl | hsegment
  · exact h.length_own_le
  · obtain ⟨_, _, _, hbranch⟩ := h.of_mem_inner hsegment
    exact hbranch.length_own_le

end Traces

end Engine

/-! ## Spent forks -/

/-- Proper forks, each of them once, to which no flow leads any more from an element. -/
structure Spent (definition : Definition) (id : String) (forks : List Element) : Prop where
  /-- each is there once -/
  nodup : forks.Nodup
  /-- each is a proper fork of the process -/
  proper : ∀ fork ∈ forks, fork ∈ definition.elements ∧ definition.isFork fork = true
  /-- none of them is reached any more -/
  behind : ∀ fork ∈ forks, ¬ definition.Reaches id fork.id

namespace Spent

variable {definition : Definition} {id : String} {forks : List Element}

theorem nil : Spent definition id [] :=
  ⟨List.nodup_nil, nofun, nofun⟩

theorem of_reaches (h : Spent definition id forks) {next : String}
    (hreach : definition.Reaches id next) : Spent definition next forks :=
  ⟨h.nodup, h.proper, fun fork hfork hnext => h.behind fork hfork (hreach.trans hnext)⟩

/-- A fork that can still be come to is not spent yet. -/
theorem not_mem (h : Spent definition id forks) {element : Element}
    (found : definition.element? id = some element) : element ∉ forks := by
  intro hmem
  apply h.behind element hmem
  rw [Definition.id_of_element? found]
  exact Relation.ReflTransGen.refl

theorem nodup_cons (h : Spent definition id forks) {element : Element}
    (found : definition.element? id = some element) : (element :: forks).Nodup :=
  List.nodup_cons.mpr ⟨h.not_mem found, h.nodup⟩

theorem proper_cons (h : Spent definition id forks) {element : Element}
    (found : definition.element? id = some element) (hfork : definition.isFork element = true) :
    ∀ fork ∈ element :: forks, fork ∈ definition.elements ∧ definition.isFork fork = true := by
  intro fork hmem
  rcases List.mem_cons.mp hmem with rfl | hmem
  · exact ⟨Definition.mem_of_element? found, hfork⟩
  · exact h.proper fork hmem

/-- While a fork can be come to, not all of them are spent. -/
theorem length_lt (h : Spent definition id forks) {element : Element}
    (found : definition.element? id = some element) (hfork : definition.isFork element = true) :
    forks.length < definition.elements.countP definition.isFork := by
  have hsubset : element :: forks ⊆ definition.elements.filter definition.isFork := by
    intro fork hmem
    exact List.mem_filter.mpr (h.proper_cons found hfork fork hmem)
  have hlength := ((h.nodup_cons found).subperm hsubset).length_le
  rw [List.length_cons, ← List.countP_eq_length_filter] at hlength
  exact hlength

/-- Behind a fork that lies on no cycle, the fork is spent as well. -/
theorem cons (h : Spent definition id forks) {element : Element}
    (found : definition.element? id = some element) (hfork : definition.isFork element = true)
    (hreturns : ¬ definition.Returns id) {arc : Arc} (harc : arc ∈ definition.exits id) :
    Spent definition arc.1.target (element :: forks) := by
  refine ⟨h.nodup_cons found, h.proper_cons found hfork, fun fork hmem hreach => ?_⟩
  rcases List.mem_cons.mp hmem with rfl | hmem
  · rw [Definition.id_of_element? found] at hreach
    exact hreturns (Definition.returns_of_mem_exits harc hreach)
  · exact h.behind fork hmem (Definition.reaches_of_mem_exits harc hreach)

end Spent

/-! ## Trails of bounded depth -/

namespace Engine

variable {engine : Engine} {definition : Definition}

/-- Where branches begin in front of which a branch would not have ended, there is a proper fork. -/
theorem isFork_of_split {element : Element} {vars : Variables} {arcs : List Arc}
    (enters : definition.awaits true false element = false)
    (does : engine.step definition element vars = .split arcs) :
    definition.isFork element = true := by
  obtain ⟨hkind, rfl, hmany⟩ := step_eq_split does
  rw [Definition.awaits, Bool.not_false, Bool.and_self, Bool.true_and] at enters
  rw [Definition.isFork, enters, hkind, ← Definition.map_fst_exits, List.length_map,
    decide_eq_true hmany]
  rfl

/-- A traversal leaves a trail of some depth at most, if it does so behind its first visit: along
any flow, in branches that begin there, and behind the join of those branches. -/
theorem exists_traces_visit {inBranch : Bool} {remaining : Nat} {resumed : Bool}
    {came : Option Arc} {vars : Variables} {id : String} {depth : Nat}
    (hgo : ∀ arc ∈ definition.exits id, ∀ after, ∃ rest,
      engine.Traces definition inBranch remaining false (some arc) after arc.1.target rest ∧
        rest.depth ≤ depth)
    (hsplit : ∀ element arcs, definition.element? id = some element →
      definition.awaits inBranch resumed element = false →
      engine.step definition element vars = .split arcs →
      ∀ arc ∈ definition.exits id,
        (∃ branch, engine.Traces definition true engine.maxSteps false (some arc) vars
          arc.1.target branch ∧ branch.depth < depth) ∧
        ∀ join after, definition.Reaches arc.1.target join → ∃ rest,
          engine.Traces definition inBranch remaining true none after join rest ∧
            rest.depth ≤ depth) :
    ∃ trail, engine.Traces definition inBranch (remaining + 1) resumed came vars id trail ∧
      trail.depth ≤ depth := by
  rcases hfound : definition.element? id with _ | element
  · exact ⟨_, .missing hfound, Trail.depth_halt_le⟩
  rcases hawaits : definition.awaits inBranch resumed element
  swap
  · exact ⟨_, .join hfound hawaits, Trail.depth_halt_le⟩
  obtain rfl := Definition.id_of_element? hfound
  rcases hdoes : engine.step definition element vars with ⟨outcome, after⟩ | ⟨arc, after⟩ | arcs
  · exact ⟨_, .stop hfound hawaits hdoes, Trail.depth_visit_nil_le Trail.depth_halt_le⟩
  · obtain ⟨rest, htraces, hdepth⟩ := hgo arc (step_eq_go hdoes).1 after
    exact ⟨_, .go hfound hawaits hdoes htraces, Trail.depth_visit_nil_le hdepth⟩
  have hexits := (step_eq_split hdoes).2.1
  have harcs := hsplit element arcs hfound hawaits hdoes
  rw [← hexits] at harcs
  choose! branch htraces using fun arc harc => (harcs arc harc).1
  have hdepths : ∀ trail ∈ arcs.map branch, trail.depth < depth := by
    intro trail htrail
    obtain ⟨arc, harc, rfl⟩ := List.mem_map.mp htrail
    exact (htraces arc harc).2
  have heach := fun arc harc => (htraces arc harc).1
  rcases hsequel : sequel definition inBranch vars (arcs.map branch) with
    ⟨outcome, after⟩ | ⟨join, after⟩
  · exact ⟨_, .part hfound hawaits hdoes heach hsequel,
      Trail.depth_visit_le hdepths Trail.depth_halt_le⟩
  · obtain ⟨arc, harc, hreach⟩ := Traces.reaches_of_resume hdoes heach hsequel
    rw [← hexits] at harc
    obtain ⟨rest, hrest, hdepth⟩ := (harcs arc harc).2 join after hreach
    exact ⟨_, .meet hfound hawaits hdoes heach hsequel hrest,
      Trail.depth_visit_le hdepths hdepth⟩

/-- A traversal leaves a trail of some depth at most, if every branch that begins where the same
forks are spent leaves one of a lower depth. -/
theorem exists_traces_of_branches {forks : List Element} {depth : Nat}
    (hbranch : ∀ (came : Option Arc) (vars : Variables) (id : String), Spent definition id forks →
      ∃ trail, engine.Traces definition true engine.maxSteps false came vars id trail ∧
        trail.depth < depth)
    (inBranch : Bool) (remaining : Nat) :
    ∀ (resumed : Bool) (came : Option Arc) (vars : Variables) (id : String),
      Spent definition id forks →
      ∃ trail, engine.Traces definition inBranch remaining resumed came vars id trail ∧
        trail.depth ≤ depth := by
  induction remaining with
  | zero =>
    intro resumed came vars id _
    obtain ⟨trail, htraces, hdepth⟩ := exists_traces_zero inBranch resumed came vars id
    exact ⟨trail, htraces, by omega⟩
  | succ remaining ih =>
    intro resumed came vars id hspent
    have hexits : ∀ arc ∈ definition.exits id, Spent definition arc.1.target forks :=
      fun arc harc => hspent.of_reaches (.single (Definition.leads_of_mem_exits harc))
    refine exists_traces_visit (fun arc harc after => ih false (some arc) after _ (hexits arc harc))
      fun element arcs _ _ _ arc harc => ⟨hbranch (some arc) vars _ (hexits arc harc), ?_⟩
    intro join after hreach
    exact ih true none after join ((hexits arc harc).of_reaches hreach)

/-- A branch leaves a trail that is at most as deep as there are forks not spent when it begins, if
no proper fork lies on a cycle. -/
theorem exists_traces_of_spent
    (hforks : ∀ element ∈ definition.elements, definition.isFork element = true →
      ¬ definition.Returns element.id) (depth : Nat) :
    ∀ (remaining : Nat) (forks : List Element) (came : Option Arc) (vars : Variables)
      (id : String), Spent definition id forks →
      definition.elements.countP definition.isFork ≤ forks.length + depth →
      ∃ trail, engine.Traces definition true remaining false came vars id trail ∧
        trail.depth ≤ depth := by
  -- the depth goes down with every branch, the visits that are left along the traversal
  induction depth using Nat.strongRecOn with
  | ind depth ihdepth =>
    intro remaining
    induction remaining with
    | zero =>
      intro forks came vars id _ _
      obtain ⟨trail, htraces, hdepth⟩ := exists_traces_zero true false came vars id
      exact ⟨trail, htraces, by omega⟩
    | succ remaining ih =>
      intro forks came vars id hspent hcount
      refine exists_traces_visit (fun arc harc after => ?_)
        fun element arcs found enters does arc harc => ?_
      · exact ih forks (some arc) after _
          (hspent.of_reaches (.single (Definition.leads_of_mem_exits harc))) hcount
      -- the branch did not end here, so this is a proper fork, and from here on it is spent
      have hfork := isFork_of_split enters does
      have hreturns := hforks element (Definition.mem_of_element? found) hfork
      rw [Definition.id_of_element? found] at hreturns
      have hlength := hspent.length_lt found hfork
      have hbehind := hspent.cons found hfork hreturns harc
      have hbranch : ∀ (came : Option Arc) (vars : Variables) (id : String),
          Spent definition id (element :: forks) →
          ∃ trail, engine.Traces definition true engine.maxSteps false came vars id trail ∧
            trail.depth < depth := by
        intro came vars id hspent'
        obtain ⟨trail, htraces, hdepth⟩ := ihdepth (depth - 1) (by omega) engine.maxSteps
          (element :: forks) came vars id hspent' (by rw [List.length_cons]; omega)
        exact ⟨trail, htraces, by omega⟩
      refine ⟨hbranch (some arc) vars _ hbehind, fun join after hreach => ?_⟩
      exact exists_traces_of_branches hbranch true remaining true none after join
        (hbehind.of_reaches hreach)

/-! ## Runs -/

/-- A run leaves a trail at most one level deeper than there are proper forks, if none of these lies
on a cycle. -/
theorem exists_runTraces_of_forks {context : Context} {start : Element}
    (hprocess : engine.process? context.processId = some definition)
    (hforks : ∀ element ∈ definition.elements, definition.isFork element = true →
      ¬ definition.Returns element.id) (hstart : definition.start = .ok start) :
    ∃ trail, engine.RunTraces definition context trail ∧
      engine.Traces definition false engine.maxSteps false none context.vars start.id trail ∧
      trail.depth ≤ definition.nesting := by
  have hbranch : ∀ (came : Option Arc) (vars : Variables) (id : String), Spent definition id [] →
      ∃ trail, engine.Traces definition true engine.maxSteps false came vars id trail ∧
        trail.depth < definition.nesting := by
    intro came vars id hspent
    obtain ⟨trail, htraces, hdepth⟩ := exists_traces_of_spent hforks
      (definition.elements.countP definition.isFork) engine.maxSteps [] came vars id hspent
      (by omega)
    exact ⟨trail, htraces, Nat.lt_succ_of_le hdepth⟩
  obtain ⟨trail, htraces, hdepth⟩ := exists_traces_of_branches hbranch false engine.maxSteps false
    none context.vars start.id Spent.nil
  exact ⟨trail, ⟨hprocess, start, hstart, htraces⟩, htraces, hdepth⟩

/-- A run leaves a trail if no proper fork lies on a cycle. -/
theorem exists_leaves_of_forks {context : Context}
    (hprocess : engine.process? context.processId = some definition)
    (hforks : ∀ element ∈ definition.elements, definition.isFork element = true →
      ¬ definition.Returns element.id) :
    ∃ trail, engine.Leaves definition context trail ∧ trail.depth ≤ definition.nesting := by
  rcases hstart : definition.start with error | start
  · exact ⟨_, .nothing hstart, Trail.depth_halt_le⟩
  · obtain ⟨trail, -, htraces, hdepth⟩ := exists_runTraces_of_forks hprocess hforks hstart
    exact ⟨trail, .traces hstart htraces, hdepth⟩

/-- **Runs terminate.** A run through a process whose proper forks lie on no cycle comes to an end.
Its trail is finite: each of its traversals, at whatever depth, visits no more elements than the
limit allows, and branches are nested at most one level deeper than there are proper forks.  A
deeper nesting than that, if it were allowed, would change nothing. -/
theorem run_terminates (engine : Engine) (definition : Definition) (context : Context) (now : Nat)
    (hprocess : engine.process? context.processId = some definition)
    (hforks : ∀ element ∈ definition.elements, definition.isFork element = true →
      ¬ definition.Returns element.id) :
    (engine.run context now).value.1 ≠ .unbounded ∧
      ∀ start, definition.start = .ok start →
        ∃ trail, engine.RunTraces definition context trail ∧
          trail.depth ≤ definition.elements.countP definition.isFork + 1 ∧
          (∀ segment ∈ trail.segments, segment.own.length ≤ engine.maxSteps) ∧
          (engine.run context now).value =
            (trail.outcome.completion, context.after (trail.traversal context.current)) ∧
          ∀ levels, definition.nesting ≤ levels →
            (engine.traverse definition levels false context start.id now).value =
              trail.traversal context.current := by
  constructor
  · obtain ⟨trail, hleaves, hdepth⟩ := exists_leaves_of_forks hprocess hforks
    rw [hleaves.run_eq hprocess hdepth]
    exact hleaves.bounded hdepth now
  · intro start hstart
    obtain ⟨trail, hrun, htraces, hdepth⟩ := exists_runTraces_of_forks hprocess hforks hstart
    exact ⟨trail, hrun, hdepth, htraces.length_own_le_of_mem_segments,
      hrun.value_run now, fun levels hlevels =>
        htraces.value_traverse (Nat.le_trans hdepth hlevels) now⟩

end Engine

/-! ## A join that forks again

Behind a proper fork there is a join that is a fork as well, and one of its branches comes back to
it.  Only the limit of visits ends the run. -/

namespace ForkingJoin

/-- A fork, and a join on a cycle that forks. -/
def process : Definition where
  id := "again"
  name := none
  elements := [⟨"start", none, .startEvent⟩, ⟨"fork", none, .parallelGateway⟩,
    ⟨"again", none, .parallelGateway⟩, ⟨"back", none, .exclusiveGateway⟩, ⟨"end", none, .endEvent⟩]
  flows := [⟨"start", "fork", none⟩, ⟨"fork", "again", none⟩, ⟨"fork", "again", none⟩,
    ⟨"again", "end", none⟩, ⟨"again", "back", none⟩, ⟨"back", "again", none⟩]

/-- An engine without agents. -/
def engine : Engine :=
  { Engine.empty 3 Evaluator.conditions .null with processes := [("again", process)] }

/-- The beginning of the run. -/
def context : Context :=
  .start "again" ⟨"i"⟩ []

/-- How far from the start an element is; those on the cycle are equally far. -/
def rank (id : String) : Nat :=
  if id = "start" then 0 else if id = "fork" then 1 else if id = "end" then 3 else 2

theorem not_returns : ∀ element ∈ process.elements, process.isFork element = true →
    ¬ process.Returns element.id := by
  intro element helement hfork
  obtain rfl : element = ⟨"fork", none, .parallelGateway⟩ := by
    revert element
    decide
  exact Definition.not_returns_of_rank rank (by decide) (by decide)

/-- The run comes to an end. -/
theorem loop_terminates :
    engine.process? context.processId = some process ∧
      (∀ element ∈ process.elements, process.isFork element = true →
        ¬ process.Returns element.id) ∧
      (engine.run context 0).value.1 ≠ .unbounded :=
  ⟨rfl, not_returns, (Engine.run_terminates engine process context 0 rfl not_returns).1⟩

example : (engine.run context 0).value.1 = .failed (.stepLimitExceeded 3) := rfl

end ForkingJoin

end Workflow
