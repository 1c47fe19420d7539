import Mathlib.Data.List.Dedup
import Workflow.Proofs.Nesting
import Workflow.Proofs.Trail.Arrivals

/-!
# Joins that are shared by nested forks

The continuation behind a join should run once, also when forks that are nested in each other share
the join.  To this end a fork inside a branch goes on through the join only if its own branches have
as many arrivals there as flows lead to the join, and else leaves the join to the fork around it.
But two branches that come over the same flow are two arrivals.  So the fork may go on although
another flow to the join is still out, and whoever comes over that flow goes on through the join
again.

* `Engine.Traces.settles` — the account of arrivals: for every time that a branch visits the join,
  as many flows to the join were taken as lead there.
* `Engine.visits_of_join` — how often a run visits a join, and when a fork that goes on through it
  has arrived on every flow to it.
* `SharedMerge.visits_twice` — a run that visits a join twice.
-/

namespace Workflow

/-! ## The account of arrivals -/

/-- How many arrivals at a join a traversal needs to go through it. -/
def Definition.toll (definition : Definition) (inBranch : Bool) (join : String) : Nat :=
  if inBranch then (definition.entries join).length else 1

namespace Trail

/-- The flows to a join that were taken, and some more arrivals, pay for all visits to the join, at
one rate for those of branches and at another for those of the traversal itself, and for the
arrivals that are left at the end. -/
def Settles (join : String) (rate toll more : Nat) (trail : Trail) : Prop :=
  rate * trail.within join + toll * trail.own.count join + trail.outcome.arrivalsAt join ≤
    (trail.takenTo join).length + more

variable {join : String} {rate toll more : Nat}

theorem settles_halt {came : Option Arc} {outcome : Outcome} {vars : Variables}
    (h : outcome.arrivalsAt join ≤ (came.toList.filter (·.1.target == join)).length + more) :
    (halt came outcome vars).Settles join rate toll more := by
  rw [Settles, within_halt, takenTo_halt, own, Trail.outcome, List.count_nil]
  omega

/-- The arrivals of branches pay for what the rest of the traversal needs more. -/
theorem Settles.visit {came : Option Arc} {element : Element} {vars : Variables}
    {branches : List Trail} {rest : Trail} {spent : Nat} (h : rest.Settles join rate toll spent)
    (hvisit : toll * (if element.id == join then 1 else 0) ≤
      (came.toList.filter (·.1.target == join)).length + more)
    (hbranches : rate * (branches.map (·.path.count join)).sum + spent ≤
      (branches.flatMap (takenTo join)).length) :
    (visit came element vars branches rest).Settles join rate toll more := by
  rw [Settles] at h ⊢
  rw [within_visit, own, List.count_cons, Trail.outcome, takenTo_visit, List.length_append,
    List.length_append, Nat.mul_add, Nat.mul_add]
  omega

theorem Settles.visit_nil {came : Option Arc} {element : Element} {vars : Variables} {rest : Trail}
    (h : rest.Settles join rate toll 0)
    (hvisit : toll * (if element.id == join then 1 else 0) ≤
      (came.toList.filter (·.1.target == join)).length + more) :
    (Trail.visit came element vars [] rest).Settles join rate toll more :=
  h.visit hvisit (Nat.le_refl _)

/-- The accounts of branches add up. -/
theorem settles_branches {branches : List Trail}
    (h : ∀ branch ∈ branches, branch.Settles join rate rate 0) :
    rate * (branches.map (·.path.count join)).sum +
        ((branches.map Trail.outcome).map (Outcome.arrivalsAt join)).sum ≤
      (branches.flatMap (takenTo join)).length := by
  induction branches with
  | nil => exact Nat.le_refl _
  | cons first more ih =>
    have hfirst := h first List.mem_cons_self
    have hmore := ih fun branch hbranch => h branch (List.mem_cons_of_mem _ hbranch)
    rw [Settles] at hfirst
    rw [List.map_cons, List.map_cons, List.map_cons, List.sum_cons, List.sum_cons,
      List.flatMap_cons, List.length_append, Nat.mul_add, count_path_eq, Nat.mul_add]
    omega

end Trail

namespace Engine.Traces

variable {engine : Engine} {definition : Definition} {inBranch : Bool} {remaining : Nat}
  {resumed : Bool} {came : Option Arc} {vars : Variables} {id : String} {trail : Trail}
  {join : String}

/-- A visit to a join is paid for: the traversal resumes there, or it is no branch and came by a
flow. -/
theorem toll_le (hcomes : Comes definition inBranch resumed came id)
    (hjoin : ∀ element, definition.element? join = some element →
      definition.isJoin element = true) {element : Element}
    (found : definition.element? id = some element)
    (enters : definition.awaits inBranch resumed element = false) :
    definition.toll inBranch join * (if element.id == join then 1 else 0) ≤
      (came.toList.filter (·.1.target == join)).length +
        if came = none ∧ id = join then definition.toll inBranch join else 0 := by
  by_cases heq : element.id = join
  · have hid : id = join := (Definition.id_of_element? found).symm.trans heq
    rcases hcame : came with _ | arc
    · simp only [heq, hid, beq_self_eq_true, and_self, if_true]
      omega
    · have hrun : inBranch = false := by
        by_contra hbranch
        rw [Bool.not_eq_false] at hbranch
        rw [came_eq_none_of_enters hbranch hjoin hcomes found enters heq] at hcame
        cases hcame
      have htarget : arc.1.target = join := by
        cases hcomes with
        | along => exact (Option.some.inj hcame) ▸ hid
        | _ => cases hcame
      rw [Option.toList_some, List.filter_singleton, htarget, beq_self_eq_true,
        if_pos (beq_iff_eq.mpr heq), Definition.toll, hrun]
      exact Nat.le_add_right _ _
  · rw [if_neg (fun h => heq (beq_iff_eq.mp h)), Nat.mul_zero]
    exact Nat.zero_le _

/-- A traversal that resumes at a join has the arrivals that it needs. -/
theorem toll_le_of_resume {arcs : List Arc} {branch : Arc → Trail}
    {after : Variables}
    (each : ∀ arc ∈ arcs, engine.Traces definition true engine.maxSteps false (some arc) vars
      arc.1.target (branch arc))
    (meets : sequel definition inBranch vars (arcs.map branch) = .resume join after) :
    definition.toll inBranch join ≤
      (((arcs.map branch).map Trail.outcome).map (Outcome.arrivalsAt join)).sum := by
  obtain ⟨-, -, arrivals, hconv, hmany⟩ := sequel_eq_resume meets
  rw [← (convergence_eq_some hconv).2, Definition.toll]
  split
  · rename_i hbranch
    rw [Definition.length_entries]
    exact hmany hbranch
  · exact arrivals_pos_of_each (fun arc harc => (each arc harc).arrivalsAt_pos) hconv

/-- A branch that ends with its own branches at a join has their arrivals there. -/
theorem arrivalsAt_le_of_stop {branches : List Trail} {outcome : Outcome} {after : Variables}
    (ends : sequel definition inBranch vars branches = .stop outcome after) (join : String) :
    outcome.arrivalsAt join ≤
      ((branches.map Trail.outcome).map (Outcome.arrivalsAt join)).sum := by
  by_cases hjoin : outcome.join? = some join
  · exact Nat.le_of_eq (convergence_eq_some (convergence_of_sequel_eq_stop ends hjoin)).2
  · rw [Outcome.arrivalsAt_eq_zero hjoin]
    exact Nat.zero_le _

theorem settles_of_each {element : Element} {arcs : List Arc} {branch : Arc → Trail}
    (does : engine.step definition element vars = .split arcs)
    (ihe : ∀ arc ∈ arcs, Comes definition true false (some arc) arc.1.target →
      (branch arc).Settles join (definition.entries join).length (definition.toll true join)
        (if some arc = none ∧ arc.1.target = join then definition.toll true join else 0)) :
    (definition.entries join).length * ((arcs.map branch).map (·.path.count join)).sum +
        (((arcs.map branch).map Trail.outcome).map (Outcome.arrivalsAt join)).sum ≤
      ((arcs.map branch).flatMap (Trail.takenTo join)).length := by
  refine Trail.settles_branches fun trail htrail => ?_
  obtain ⟨arc, harc, rfl⟩ := List.mem_map.mp htrail
  have hbranch := ihe arc harc (comes_of_split does harc)
  rw [if_neg (fun hnone => by cases hnone.1), Definition.toll, if_pos rfl] at hbranch
  exact hbranch

/-- **The account of arrivals.** The flows to a join that were taken pay for all visits to it: those
of a branch need as many arrivals as flows lead there, and those of the run itself one. -/
theorem settles (h : engine.Traces definition inBranch remaining resumed came vars id trail)
    (hcomes : Comes definition inBranch resumed came id)
    (hjoin : ∀ element, definition.element? join = some element →
      definition.isJoin element = true) :
    trail.Settles join (definition.entries join).length (definition.toll inBranch join)
      (if came = none ∧ id = join then definition.toll inBranch join else 0) := by
  induction h with
  | missing => exact Trail.settles_halt (Nat.zero_le _)
  | @join inBranch remaining resumed came vars id element found awaits =>
    have htraces : engine.Traces definition inBranch remaining resumed came vars id _ :=
      .join found awaits
    refine Trail.settles_halt (Nat.le_add_right_of_le ?_)
    rw [← Trail.takenTo_halt]
    exact (htraces.length_standing hcomes).symm.trans_le
      (htraces.standing_sublist_takenTo hcomes).length_le
  | limit => exact Trail.settles_halt (Nat.zero_le _)
  | stop found enters does =>
    have hended := Outcome.arrivalsAt_eq_zero (join?_of_step_eq_stop does join)
    exact .visit_nil (Trail.settles_halt (Nat.le_of_eq hended))
      (toll_le hcomes hjoin found enters)
  | go found enters does goes ih =>
    have hrest := ih (comes_of_go does)
    rw [if_neg (fun hnone => by cases hnone.1)] at hrest
    exact .visit_nil hrest (toll_le hcomes hjoin found enters)
  | part found enters does each ends ihe =>
    refine .visit (Trail.settles_halt (Nat.le_add_left _ _)) (toll_le hcomes hjoin found enters) ?_
    exact Nat.le_trans (Nat.add_le_add_left (arrivalsAt_le_of_stop ends join) _)
      (settles_of_each does ihe)
  | @meet _ _ _ _ _ _ _ _ _ join' _ _ found enters does each meets goes ihe ih =>
    refine .visit (ih (.behind _)) (toll_le hcomes hjoin found enters) ?_
    refine Nat.le_trans (Nat.add_le_add_left ?_ _) (settles_of_each does ihe)
    -- at the join itself the arrivals of the branches pay for the visit behind them
    by_cases heq : join' = join
    · subst heq
      rw [if_pos ⟨rfl, rfl⟩]
      exact toll_le_of_resume each meets
    · rw [if_neg fun h => heq h.2]
      exact Nat.zero_le _

end Engine.Traces

/-! ## Runs -/

namespace Engine

variable {engine : Engine} {definition : Definition}

/-- A process does not start at a join. -/
theorem start_id_ne {start join : Element} (hids : definition.ids.Nodup)
    (hstart : definition.start = .ok start) (hmem : join ∈ definition.elements)
    (hjoin : definition.isJoin join = true) : start.id ≠ join.id := by
  intro hid
  have hstarts : start ∈ definition.starts :=
    List.mem_of_mem_head? (Definition.head?_starts hstart)
  obtain ⟨hstart, hkind⟩ := List.mem_filter.mp hstarts
  obtain rfl := List.inj_on_of_nodup_map hids hstart hmem hid
  rw [Definition.isJoin, Bool.and_eq_true] at hjoin
  revert hkind
  rcases hk : start.kind with _ | _ | _ | _ | _
  · rw [hk] at hjoin
    cases hjoin.1
  all_goals nofun

theorem isJoin_of_element? {join : Element} (hids : definition.ids.Nodup)
    (hmem : join ∈ definition.elements) (hjoin : definition.isJoin join = true) :
    ∀ element, definition.element? join.id = some element → definition.isJoin element = true := by
  intro element helement
  rw [(Definition.element?_eq_some_iff hids).mpr ⟨hmem, rfl⟩] at helement
  exact Option.some.inj helement ▸ hjoin

/-- Arrivals on flows to a join cover these flows just when they lie on as many different ones. -/
theorem entries_subset_iff {join : String} {arrivals : List Arc}
    (h : arrivals ⊆ definition.entries join) :
    definition.entries join ⊆ arrivals ↔
      (definition.entries join).length ≤ arrivals.dedup.length := by
  have hnodup := definition.nodup_entries join
  constructor
  · intro hcovers
    exact (hnodup.subperm fun arc harc => List.mem_dedup.mpr (hcovers harc)).length_le
  · intro hlength
    have hperm := ((List.nodup_dedup arrivals).subperm
      fun arc harc => h (List.mem_dedup.mp harc)).perm_of_length_le hlength
    exact fun arc harc => List.mem_dedup.mp (hperm.mem_iff.mpr harc)

/-- A run pays for every visit to a join: for those in branches with as many flows that were taken
as lead there, for its own with one. -/
theorem length_mul_le_of_run {start join : Element} {remaining : Nat} {vars : Variables}
    {trail : Trail} (hids : definition.ids.Nodup) (hstart : definition.start = .ok start)
    (hmem : join ∈ definition.elements) (hjoin : definition.isJoin join = true)
    (htraces : engine.Traces definition false remaining false none vars start.id trail) :
    (definition.entries join.id).length * (trail.passing join.id).length +
        trail.own.count join.id ≤ (trail.takenTo join.id).length := by
  have hfound := isJoin_of_element? hids hmem hjoin
  have hsettles := htraces.settles (.first rfl start.id) hfound
  rw [Trail.Settles, if_neg fun h => start_id_ne hids hstart hmem hjoin h.2,
    htraces.within_eq_length_passing hfound, Definition.toll, if_neg Bool.false_ne_true,
    Nat.one_mul] at hsettles
  omega

/-- If no more flows to a join are taken than there are, one visit at most is paid for. -/
theorem visits_le_one {flows passing own taken : Nat} (hmany : 1 < flows)
    (hpaid : flows * passing + own ≤ taken) (htaken : taken ≤ flows) (hown : own ≤ 1) :
    passing + own ≤ 1 := by
  rcases passing with _ | _ | passing
  · omega
  · omega
  · rw [Nat.mul_add, Nat.mul_add] at hpaid
    omega

/-- **How often a join is visited.** In a run through a process without cycles, a join is visited
once for each fork inside a branch that goes on through it, and at most once by the run itself; so
it is visited at most once just when not two of these do so.  A fork inside a branch that goes on
through the join has as many arrivals there as flows lead there; so it has arrived on every flow
just when they lie on so many different flows.  Each visit in a branch needs as many flows that were
taken as lead to the join, so all is well when none of them is taken twice. -/
theorem visits_of_join (engine : Engine) (definition : Definition) (context : Context) (now : Nat)
    (start join : Element) (hprocess : engine.process? context.processId = some definition)
    (hvalid : definition.validate = .ok ()) (hacyclic : ∀ id, ¬ definition.Returns id)
    (hstart : definition.start = .ok start) (hmem : join ∈ definition.elements)
    (hjoin : definition.isJoin join = true) :
    ∃ trail, engine.RunTraces definition context trail ∧
      (engine.run context now).value.2.path = context.path ++ trail.path ∧
      trail.path.count join.id =
        (trail.passing join.id).length + trail.own.count join.id ∧
      trail.own.count join.id ≤ 1 ∧
      (definition.entries join.id).length * (trail.passing join.id).length +
          trail.own.count join.id ≤ (trail.takenTo join.id).length ∧
      (∀ fork ∈ trail.passing join.id,
        (definition.entries join.id).length ≤ (fork.arrivals join.id).length ∧
        fork.arrivals join.id ⊆ definition.entries join.id ∧
        (definition.entries join.id ⊆ fork.arrivals join.id ↔
          (definition.entries join.id).length ≤ (fork.arrivals join.id).dedup.length)) ∧
      ((trail.takenTo join.id).Nodup → trail.path.count join.id ≤ 1 ∧
        ∀ fork ∈ trail.passing join.id,
          definition.entries join.id ⊆ fork.arrivals join.id) := by
  have hids := Definition.nodup_ids_of_validate hvalid
  have hfound := isJoin_of_element? hids hmem hjoin
  obtain ⟨trail, hrun, htraces, -⟩ :=
    exists_runTraces_of_forks hprocess (fun element _ _ => hacyclic element.id) hstart
  have hcomes : Comes definition false false none start.id := .first rfl start.id
  have hcount : trail.path.count join.id =
      (trail.passing join.id).length + trail.own.count join.id := by
    rw [Trail.count_path_eq, htraces.within_eq_length_passing hfound, Nat.add_comm]
  have hown : trail.own.count join.id ≤ 1 :=
    List.nodup_iff_count_le_one.mp (htraces.nodup_own hacyclic) join.id
  have htaken : trail.takenTo join.id ⊆ definition.entries join.id := by
    intro arc harc
    obtain ⟨harc, htarget⟩ := List.mem_filter.mp harc
    exact Definition.mem_entries.mpr
      ⟨htraces.mem_arcs_of_mem_taken hcomes harc, beq_iff_eq.mp htarget⟩
  have harrivals : ∀ fork ∈ trail.passing join.id,
      fork.arrivals join.id ⊆ definition.entries join.id := fun fork hfork arc harc =>
    htaken ((htraces.arrivals_of_passing hfork).2.subset harc)
  have hpaid := length_mul_le_of_run hids hstart hmem hjoin htraces
  refine ⟨trail, hrun, ?_, hcount, hown, hpaid, fun fork hfork =>
    ⟨(htraces.arrivals_of_passing hfork).1, harrivals fork hfork,
      entries_subset_iff (harrivals fork hfork)⟩, fun hnodup => ⟨?_, ?_⟩⟩
  · rw [hrun.value_run now]
    rfl
  · rw [Definition.isJoin, Bool.and_eq_true, decide_eq_true_eq,
      ← Definition.length_entries] at hjoin
    rw [hcount]
    exact visits_le_one hjoin.2 hpaid (hnodup.subperm htaken).length_le hown
  · -- as many arrivals as flows, no two of them on the same flow
    intro fork hfork
    obtain ⟨hlength, hsublist⟩ := htraces.arrivals_of_passing hfork
    refine (entries_subset_iff (harrivals fork hfork)).mpr ?_
    rw [(hsublist.nodup hnodup).dedup]
    exact hlength

end Engine

/-! ## A join that is visited twice

An outer fork has a flow to the join of its own and another one to an inner fork.  Both branches of
the inner fork come to the join over one flow, behind an exclusive gateway at which they merge.  So
the inner fork counts two arrivals, as many as flows lead to the join, and goes on through it while
the outer fork's own branch waits there. -/

namespace SharedMerge

/-- Two forks that share a join, to which the branches of the inner one come over one flow. -/
def process : Definition where
  id := "shared"
  name := none
  elements := [⟨"start", none, .startEvent⟩, ⟨"outer", none, .parallelGateway⟩,
    ⟨"inner", none, .parallelGateway⟩, ⟨"merge", none, .exclusiveGateway⟩,
    ⟨"join", none, .parallelGateway⟩, ⟨"end", none, .endEvent⟩]
  flows := [⟨"start", "outer", none⟩, ⟨"outer", "inner", none⟩, ⟨"outer", "join", none⟩,
    ⟨"inner", "merge", none⟩, ⟨"inner", "merge", none⟩, ⟨"merge", "join", none⟩,
    ⟨"join", "end", none⟩]

/-- An engine without agents. -/
def engine : Engine :=
  { Engine.empty 20 (fun _ _ => false) .null with processes := [("shared", process)] }

/-- The beginning of the run. -/
def context : Context :=
  .start "shared" ⟨"i"⟩ []

/-- How far from the start an element is. -/
def rank (id : String) : Nat :=
  ["start", "outer", "inner", "merge", "join", "end"].idxOf id

theorem acyclic (id : String) : ¬ process.Returns id :=
  Definition.acyclic_of_rank rank (by decide) id

/-- The law at this join. -/
theorem visits_counted :
    engine.process? context.processId = some process ∧ process.validate = .ok () ∧
      (∀ id, ¬ process.Returns id) ∧ process.isJoin ⟨"join", none, .parallelGateway⟩ = true ∧
      ∃ trail, engine.RunTraces process context trail ∧
        (engine.run context 0).value.2.path = context.path ++ trail.path ∧
        trail.path.count "join" = (trail.passing "join").length + trail.own.count "join" := by
  obtain ⟨trail, hrun, hpath, hcount, -⟩ := Engine.visits_of_join engine process context 0
    ⟨"start", none, .startEvent⟩ ⟨"join", none, .parallelGateway⟩ rfl rfl acyclic rfl (by decide)
    (by decide)
  exact ⟨rfl, rfl, acyclic, by decide, trail, hrun, hpath, hcount⟩

/-- A run through a process without cycles visits a join twice. -/
theorem visits_twice :
    process.validate = .ok () ∧ (∀ id, ¬ process.Returns id) ∧
      process.isJoin ⟨"join", none, .parallelGateway⟩ = true ∧
      (engine.run context 0).value.1 = .completed ∧
      (engine.run context 0).value.2.path =
        ["start", "outer", "inner", "merge", "merge", "join", "end", "join", "end"] ∧
      (engine.run context 0).value.2.path.count "join" = 2 := by
  have hpath : (engine.run context 0).value.2.path =
      ["start", "outer", "inner", "merge", "merge", "join", "end", "join", "end"] := rfl
  refine ⟨rfl, acyclic, by decide, rfl, hpath, ?_⟩
  rw [hpath]
  decide

end SharedMerge

end Workflow
