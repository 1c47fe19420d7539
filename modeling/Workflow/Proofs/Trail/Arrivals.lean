import Mathlib.Data.List.Flatten
import Workflow.Proofs.Trail.Reach
import Workflow.Proofs.Trail.Segments

/-!
# Arrivals at joins

A branch that ends at a join stands there on some of the flows into it: on the one by which it came,
or on all those on which its own branches stand if it leaves the join to the fork around it.

* `Trail.standing` — the flows on which a branch stands at a join when it ends.
* `Trail.arrivals` — those on which the branches of a fork stand there together.
* `Trail.passing` — the forks in branches that went on through the join themselves.
* `Engine.Traces.length_standing` — what the engine counts as arrivals are those flows, each of them
  as often as a branch stands on it.
* `Engine.Traces.arrivals_of_passing` — a fork in a branch that goes on through a join has as many
  arrivals there as flows lead there.
-/

namespace Workflow

namespace Trail

/-! ## Flows on which branches stand -/

/-- The flows on which a traversal stands at a join when it ends. -/
def standing (join : String) : Trail → List Arc
  | halt came outcome _ => if outcome.join? = some join then came.toList else []
  | visit _ _ _ branches (halt came outcome _) =>
    if outcome.join? = some join then branches.flatMap (standing join) ++ came.toList else []
  | visit _ _ _ _ rest => rest.standing join

/-- The flows on which the branches begun at the first visit stand at a join. -/
def arrivals (join : String) (trail : Trail) : List Arc :=
  trail.branches.flatMap (standing join)

/-- Whether a traversal goes on through a join on which the branches begun at the first visit
converged. -/
def continues (join : String) : Trail → Bool
  | halt _ _ _ => false
  | visit _ _ _ _ rest => rest.came.isNone && rest.own.head? == some join

/-- The forks in branches, at every depth, that went on through a join themselves. -/
def passing (join : String) (trail : Trail) : List Trail :=
  (trail.inner.flatMap parts).filter (continues join)

/-- How often branches, at every depth, visited an element. -/
def within (id : String) (trail : Trail) : Nat :=
  (trail.inner.map (·.own.count id)).sum

/-- The flows to an element that a traversal and its branches took. -/
def takenTo (id : String) (trail : Trail) : List Arc :=
  trail.taken.filter (·.1.target == id)

section Visit

variable {join : String} {came : Option Arc} {element : Element} {vars : Variables}
  {branches : List Trail} {rest : Trail} {outcome : Outcome} {after : Variables}

theorem standing_halt : (halt came outcome vars).standing join =
    if outcome.join? = some join then came.toList else [] := by
  rw [standing]

theorem standing_visit_halt {came' : Option Arc} :
    (visit came element vars branches (halt came' outcome after)).standing join =
      if outcome.join? = some join then branches.flatMap (standing join) ++ came'.toList
      else [] := by
  rw [standing]

/-- Without branches a visit adds nothing. -/
theorem standing_visit_nil :
    (visit came element vars [] rest).standing join = rest.standing join := by
  rcases rest with ⟨came', outcome, after⟩ | _
  · rw [standing_visit_halt, standing_halt, List.flatMap_nil, List.nil_append]
  · rw [standing]
    nofun

theorem standing_visit_visit {came' : Option Arc} {element' : Element} {vars' : Variables}
    {branches' : List Trail} {rest' : Trail} :
    (visit came element vars branches (visit came' element' vars' branches' rest')).standing join =
      (visit came' element' vars' branches' rest').standing join := by
  rw [standing]
  nofun

theorem count_path_eq (id : String) (trail : Trail) :
    trail.path.count id = trail.own.count id + trail.within id := by
  rw [count_path, segments, List.map_cons, List.sum_cons, within]

@[simp] theorem within_halt {id : String} : (halt came outcome vars).within id = 0 := by
  simp [within]

@[simp] theorem within_visit {id : String} : (visit came element vars branches rest).within id =
    (branches.map (·.path.count id)).sum + rest.within id := by
  have hbranches : branches.map (·.path.count id) =
      branches.map fun branch => (branch.segments.map (·.own.count id)).sum :=
    List.map_congr_left fun branch _ => count_path id branch
  rw [within, inner_visit, List.map_append, List.sum_append, List.map_flatMap, List.flatMap_def,
    List.sum_flatten, List.map_map, hbranches]
  rfl

@[simp] theorem takenTo_halt {id : String} : (halt came outcome vars).takenTo id =
    came.toList.filter (·.1.target == id) := by
  rw [takenTo, taken_halt]

@[simp] theorem takenTo_visit {id : String} : (visit came element vars branches rest).takenTo id =
    came.toList.filter (·.1.target == id) ++ (branches.flatMap (takenTo id) ++ rest.takenTo id) := by
  rw [takenTo, taken_visit, List.filter_append, List.filter_append, List.filter_flatMap]
  rfl

end Visit

end Trail

/-! ## By the rules -/

namespace Engine.Traces

variable {engine : Engine} {definition : Definition} {inBranch : Bool} {remaining : Nat}
  {resumed : Bool} {came : Option Arc} {vars : Variables} {id : String} {trail : Trail}
  {join : String}

/-- A traversal that came to a join as a branch came there by a flow. -/
theorem along_of_awaits (hcomes : Comes definition inBranch resumed came id) {element : Element}
    (awaits : definition.awaits inBranch resumed element = true) :
    ∃ arc ∈ definition.arcs, came = some arc ∧ arc.1.target = id := by
  cases hcomes with
  | along harc => exact ⟨_, harc, rfl, rfl⟩
  | behind =>
    rw [Definition.awaits, Bool.not_true, Bool.and_false, Bool.false_and] at awaits
    cases awaits
  | first hrun =>
    rw [Definition.awaits, hrun, Bool.false_and, Bool.false_and] at awaits
    cases awaits

/-- A traversal that resumed does not stop in front of the join. -/
theorem standing_visit_of_resumed {element : Element} {branches : List Trail}
    {before : Variables} {from' : Option Arc} {rest : Trail}
    (h : engine.Traces definition inBranch remaining true none vars id rest) :
    (Trail.visit from' element before branches rest).standing join = rest.standing join := by
  cases h with
  | missing =>
    rw [Trail.standing_visit_halt, Trail.standing_halt]
    rfl
  | join _ awaits =>
    obtain ⟨_, _, hnone, -⟩ := along_of_awaits (.behind id) awaits
    cases hnone
  | limit =>
    rw [Trail.standing_visit_halt, Trail.standing_halt]
    rfl
  | _ => exact Trail.standing_visit_visit

/-- What the engine counts as arrivals are the flows on which a branch stands. -/
theorem length_standing
    (h : engine.Traces definition inBranch remaining resumed came vars id trail)
    (hcomes : Comes definition inBranch resumed came id) :
    (trail.standing join).length = trail.outcome.arrivalsAt join := by
  induction h with
  | missing =>
    rw [Trail.standing_halt]
    rfl
  | join found awaits =>
    obtain ⟨arc, -, rfl, -⟩ := along_of_awaits hcomes awaits
    rw [Trail.standing_halt, Trail.outcome, Outcome.arrivalsAt, Outcome.join?]
    simp only [Option.some_inj]
    split <;> rfl
  | limit =>
    rw [Trail.standing_halt]
    rfl
  | stop _ _ does =>
    have hjoin := join?_of_step_eq_stop does join
    rw [Trail.standing_visit_nil, Trail.standing_halt, if_neg hjoin]
    exact (Outcome.arrivalsAt_eq_zero hjoin).symm
  | go _ _ does _ ih =>
    rw [Trail.standing_visit_nil, Trail.outcome]
    exact ih (comes_of_go does)
  | @part _ _ _ _ _ _ _ arcs branch outcome _ _ _ does _ ends ihe =>
    rw [Trail.standing_visit_halt, Trail.outcome, Trail.outcome]
    split
    · -- the branches converged on the join, and their arrivals there were added up
      rename_i hjoin
      have hlengths : (arcs.map branch).map (fun trail => (trail.standing join).length) =
          ((arcs.map branch).map Trail.outcome).map (Outcome.arrivalsAt join) := by
        rw [List.map_map, List.map_map, List.map_map]
        exact List.map_congr_left fun arc harc => ihe arc harc (comes_of_split does harc)
      rw [(convergence_eq_some (convergence_of_sequel_eq_stop ends hjoin)).2, ← hlengths,
        Option.toList_none, List.append_nil, List.length_flatMap]
    · rename_i hjoin
      exact (Outcome.arrivalsAt_eq_zero hjoin).symm
  | meet _ _ _ _ _ goes _ ih =>
    rw [standing_visit_of_resumed goes, Trail.outcome]
    exact ih (.behind _)

theorem mem_arcs_of_comes (hcomes : Comes definition inBranch resumed came id) {arc : Arc}
    (harc : arc ∈ came.toList) : arc ∈ definition.arcs := by
  cases hcomes with
  | along hmem => exact List.mem_singleton.mp harc ▸ hmem
  | _ => cases harc

theorem mem_arcs_of_each {element : Element} {arcs : List Arc} {branch : Arc → Trail}
    (does : engine.step definition element vars = .split arcs) {arc : Arc}
    (ihe : ∀ next ∈ arcs, Comes definition true false (some next) next.1.target →
      arc ∈ (branch next).taken → arc ∈ definition.arcs)
    (harc : arc ∈ (arcs.map branch).flatMap Trail.taken) : arc ∈ definition.arcs := by
  obtain ⟨trail, htrail, hmem⟩ := List.mem_flatMap.mp harc
  obtain ⟨next, hnext, rfl⟩ := List.mem_map.mp htrail
  exact ihe next hnext (comes_of_split does hnext) hmem

/-- Every flow that was taken is one of the process. -/
theorem mem_arcs_of_mem_taken
    (h : engine.Traces definition inBranch remaining resumed came vars id trail)
    (hcomes : Comes definition inBranch resumed came id) {arc : Arc} (harc : arc ∈ trail.taken) :
    arc ∈ definition.arcs := by
  induction h with
  | missing => exact mem_arcs_of_comes hcomes (Trail.taken_halt ▸ harc)
  | join => exact mem_arcs_of_comes hcomes (Trail.taken_halt ▸ harc)
  | limit => exact mem_arcs_of_comes hcomes (Trail.taken_halt ▸ harc)
  | stop =>
    rw [Trail.taken_visit, Trail.taken_halt, List.flatMap_nil] at harc
    rcases List.mem_append.mp harc with harc | harc
    · exact mem_arcs_of_comes hcomes harc
    · cases harc
  | go _ _ does _ ih =>
    rw [Trail.taken_visit] at harc
    rcases List.mem_append.mp harc with harc | harc
    · exact mem_arcs_of_comes hcomes harc
    · exact ih (comes_of_go does) harc
  | part _ _ does _ _ ihe =>
    rw [Trail.taken_visit, Trail.taken_halt, Option.toList_none, List.append_nil] at harc
    rcases List.mem_append.mp harc with harc | harc
    · exact mem_arcs_of_comes hcomes harc
    · exact mem_arcs_of_each does ihe harc
  | meet _ _ does _ _ _ ihe ih =>
    rw [Trail.taken_visit] at harc
    rcases List.mem_append.mp harc with harc | harc
    · exact mem_arcs_of_comes hcomes harc
    · rcases List.mem_append.mp harc with harc | harc
      · exact mem_arcs_of_each does ihe harc
      · exact ih (.behind _) harc

/-- A branch stands on flows that it took, or that its branches took. -/
theorem standing_sublist_takenTo
    (h : engine.Traces definition inBranch remaining resumed came vars id trail)
    (hcomes : Comes definition inBranch resumed came id) :
    (trail.standing join).Sublist (trail.takenTo join) := by
  induction h with
  | missing =>
    rw [Trail.standing_halt]
    exact List.nil_sublist _
  | join found awaits =>
    obtain ⟨arc, -, rfl, htarget⟩ := along_of_awaits hcomes awaits
    rw [Trail.standing_halt, Trail.takenTo_halt]
    split
    · rename_i hjoin
      have hid : arc.1.target = join := by
        rw [htarget, ← Definition.id_of_element? found]
        exact Option.some.inj hjoin
      rw [Option.toList_some, List.filter_singleton, hid, beq_self_eq_true]
      exact List.Sublist.refl _
    · exact List.nil_sublist _
  | limit =>
    rw [Trail.standing_halt]
    exact List.nil_sublist _
  | stop _ _ does =>
    rw [Trail.standing_visit_nil, Trail.standing_halt]
    split
    · exact List.nil_sublist _
    · exact List.nil_sublist _
  | go _ _ does _ ih =>
    rw [Trail.standing_visit_nil, Trail.takenTo_visit, List.flatMap_nil, List.nil_append]
    exact (ih (comes_of_go does)).trans (List.sublist_append_right _ _)
  | part _ _ does each ends ihe =>
    rw [Trail.standing_visit_halt, Trail.takenTo_visit]
    split
    · have hbranches := List.Sublist.flatMap_right _ fun trail htrail => by
        obtain ⟨arc, harc, rfl⟩ := List.mem_map.mp htrail
        exact ihe arc harc (comes_of_split does harc)
      rw [Option.toList_none, List.append_nil]
      exact (hbranches.trans (List.sublist_append_left _ _)).trans (List.sublist_append_right _ _)
    · exact List.nil_sublist _
  | meet _ _ _ _ _ goes _ ih =>
    rw [standing_visit_of_resumed goes, Trail.takenTo_visit]
    exact ((ih (.behind _)).trans (List.sublist_append_right _ _)).trans
      (List.sublist_append_right _ _)

theorem arrivals_pos_of_each {arcs : List Arc} {branch : Arc → Trail} {arrivals : Nat}
    (hpos : ∀ arc ∈ arcs, (branch arc).outcome.join? = some join →
      0 < (branch arc).outcome.arrivalsAt join)
    (hconv : convergence ((arcs.map branch).map Trail.outcome) = some (join, arrivals)) :
    0 < arrivals := by
  obtain ⟨hfirst, rfl⟩ := convergence_eq_some hconv
  obtain ⟨outcome, houtcome, hjoin⟩ := List.exists_of_findSome?_eq_some hfirst
  have harrivals := List.mem_map_of_mem (f := Outcome.arrivalsAt join) houtcome
  obtain ⟨trail, htrail, rfl⟩ := List.mem_map.mp houtcome
  obtain ⟨arc, harc, rfl⟩ := List.mem_map.mp htrail
  exact List.sum_pos_iff_exists_pos_nat.mpr ⟨_, harrivals, hpos arc harc hjoin⟩

/-- A branch that ends at a join has an arrival there. -/
theorem arrivalsAt_pos
    (h : engine.Traces definition inBranch remaining resumed came vars id trail)
    (hjoin : trail.outcome.join? = some join) : 0 < trail.outcome.arrivalsAt join := by
  induction h with
  | missing => cases hjoin
  | join =>
    rw [Trail.outcome, Outcome.arrivalsAt, if_pos (Option.some.inj hjoin)]
    exact Nat.one_pos
  | limit => cases hjoin
  | stop _ _ does => exact absurd hjoin (join?_of_step_eq_stop does join)
  | go _ _ _ _ ih => exact ih hjoin
  | part _ _ _ _ ends ihe =>
    exact arrivals_pos_of_each ihe (convergence_of_sequel_eq_stop ends hjoin)
  | meet _ _ _ _ _ _ _ ih => exact ih hjoin

end Engine.Traces

/-! ## Joins that branches go through -/

namespace Trail

variable {join : String}

/-- A traversal visits a join as often as its forks go on through it, and once more if it begins
where it resumes there. -/
def Recounts (join : String) (trail : Trail) : Prop :=
  trail.own.count join = (if trail.came = none ∧ trail.own.head? = some join then 1 else 0) +
    trail.parts.countP (continues join)

theorem recounts_halt {came : Option Arc} {outcome : Outcome} {vars : Variables} :
    (halt came outcome vars).Recounts join := by
  rw [Recounts, if_neg]
  · rfl
  · rintro ⟨-, hhead⟩
    cases hhead

theorem Recounts.visit {came : Option Arc} {element : Element} {vars : Variables}
    {branches : List Trail} {rest : Trail} (hfirst : element.id = join → came = none)
    (h : rest.Recounts join) : (visit came element vars branches rest).Recounts join := by
  have hcontinues : continues join (.visit came element vars branches rest) = true ↔
      rest.came = none ∧ rest.own.head? = some join := by
    rw [continues, Bool.and_eq_true, Option.isNone_iff_eq_none, beq_iff_eq]
  rw [Recounts] at h ⊢
  rw [own, List.count_cons, h, Trail.came, parts, List.countP_cons, List.head?_cons]
  simp only [hcontinues, beq_iff_eq, Option.some_inj]
  -- where the visit is to the join, the traversal begins by resuming there
  have hhead : came = none ∧ element.id = join ↔ element.id = join :=
    ⟨fun h => h.2, fun heq => ⟨hfirst heq, heq⟩⟩
  simp only [hhead]
  omega

end Trail

namespace Engine.Traces

variable {engine : Engine} {definition : Definition} {inBranch : Bool} {remaining : Nat}
  {resumed : Bool} {came : Option Arc} {vars : Variables} {id : String} {trail : Trail}
  {join : String}

/-- A branch comes through a join only where it resumes. -/
theorem came_eq_none_of_enters (hbranch : inBranch = true)
    (hjoin : ∀ element, definition.element? join = some element →
      definition.isJoin element = true) {element : Element}
    (hcomes : Comes definition inBranch resumed came id)
    (found : definition.element? id = some element)
    (enters : definition.awaits inBranch resumed element = false) (heq : element.id = join) :
    came = none := by
  have hid : id = join := (Definition.id_of_element? found).symm.trans heq
  rw [Definition.awaits, hbranch, hjoin element (hid ▸ found), Bool.and_true,
    Bool.true_and] at enters
  cases hcomes with
  | along => cases enters
  | _ => rfl

theorem recounts (h : engine.Traces definition inBranch remaining resumed came vars id trail)
    (hbranch : inBranch = true) (hcomes : Comes definition inBranch resumed came id)
    (hjoin : ∀ element, definition.element? join = some element →
      definition.isJoin element = true) : trail.Recounts join := by
  induction h with
  | missing => exact Trail.recounts_halt
  | join => exact Trail.recounts_halt
  | limit => exact Trail.recounts_halt
  | stop found enters =>
    exact .visit (came_eq_none_of_enters hbranch hjoin hcomes found enters) Trail.recounts_halt
  | go found enters does _ ih =>
    exact .visit (came_eq_none_of_enters hbranch hjoin hcomes found enters)
      (ih hbranch (comes_of_go does))
  | part found enters =>
    exact .visit (came_eq_none_of_enters hbranch hjoin hcomes found enters) Trail.recounts_halt
  | meet found enters _ _ _ _ _ ih =>
    exact .visit (came_eq_none_of_enters hbranch hjoin hcomes found enters)
      (ih hbranch (.behind _))

/-- Branches visit a join just as often as forks in them go on through it. -/
theorem within_eq_length_passing
    (h : engine.Traces definition inBranch remaining resumed came vars id trail)
    (hjoin : ∀ element, definition.element? join = some element →
      definition.isJoin element = true) :
    trail.within join = (trail.passing join).length := by
  have hsegments : ∀ segment ∈ trail.inner,
      segment.own.count join = segment.parts.countP (Trail.continues join) := by
    intro segment hsegment
    obtain ⟨arc, harc, _, hbranch⟩ := h.of_mem_inner hsegment
    have hcount := hbranch.recounts rfl (.along harc) hjoin
    -- a branch begins with a flow, so it does not begin by resuming
    rw [Trail.Recounts, hbranch.came_eq, if_neg (fun hnone => by cases hnone.1),
      Nat.zero_add] at hcount
    exact hcount
  rw [Trail.within, Trail.passing, ← List.countP_eq_length_filter, List.countP_flatMap,
    List.map_congr_left hsegments]
  rfl

/-- The flows on which branches stand at a join lead there. -/
theorem arrivals_sublist_takenTo {arcs : List Arc} {branch : Arc → Trail} {element : Element}
    (does : engine.step definition element vars = .split arcs)
    (each : ∀ arc ∈ arcs, engine.Traces definition true engine.maxSteps false (some arc) vars
      arc.1.target (branch arc)) :
    ((arcs.map branch).flatMap (Trail.standing join)).Sublist
      ((arcs.map branch).flatMap (Trail.takenTo join)) := by
  refine List.Sublist.flatMap_right _ fun trail htrail => ?_
  obtain ⟨arc, harc, rfl⟩ := List.mem_map.mp htrail
  exact (each arc harc).standing_sublist_takenTo (comes_of_split does harc)

theorem length_arrivals {arcs : List Arc} {branch : Arc → Trail} {element : Element}
    {arrivals : Nat} (does : engine.step definition element vars = .split arcs)
    (each : ∀ arc ∈ arcs, engine.Traces definition true engine.maxSteps false (some arc) vars
      arc.1.target (branch arc))
    (hconv : convergence ((arcs.map branch).map Trail.outcome) = some (join, arrivals)) :
    ((arcs.map branch).flatMap (Trail.standing join)).length = arrivals := by
  rw [(convergence_eq_some hconv).2, List.length_flatMap, List.map_map, List.map_map, List.map_map]
  refine congrArg List.sum (List.map_congr_left fun arc harc => ?_)
  exact (each arc harc).length_standing (comes_of_split does harc)

/-- A fork in a branch that goes on through a join has as many arrivals there as flows lead there,
on flows that it or its branches took. -/
theorem arrivals_of_passing
    (h : engine.Traces definition inBranch remaining resumed came vars id trail)
    {fork : Trail} (hfork : fork ∈ trail.passing join) :
    (definition.entries join).length ≤ (fork.arrivals join).length ∧
      (fork.arrivals join).Sublist (trail.takenTo join) := by
  obtain ⟨hmem, hcontinues⟩ := List.mem_filter.mp hfork
  obtain ⟨segment, hsegment, hpart⟩ := List.mem_flatMap.mp hmem
  obtain ⟨arc, harc, _, hbranch⟩ := h.of_mem_inner hsegment
  obtain ⟨_, _, _, _, _, hcomes, htraces⟩ := hbranch.of_mem_parts (.along harc) hpart
  have htaken : (fork.takenTo join).Sublist (trail.takenTo join) :=
    ((Trail.taken_sublist_of_mem_parts hpart).trans
      (Trail.taken_sublist_of_mem_inner hsegment)).filter _
  cases htraces with
  | missing => cases hcontinues
  | join => cases hcontinues
  | limit => cases hcontinues
  | stop => cases hcontinues
  | go _ _ _ goes =>
    rw [Trail.continues, goes.came_eq] at hcontinues
    cases hcontinues
  | part => cases hcontinues
  | @meet _ _ _ _ _ _ _ arcs branch join' after rest found enters does each meets goes =>
    obtain ⟨-, -, arrivals, hconv, hmany⟩ := sequel_eq_resume meets
    rw [Trail.continues, Bool.and_eq_true, beq_iff_eq] at hcontinues
    -- the first visit behind the branches is to the join on which they converged
    obtain rfl : join' = join := by
      cases goes with
      | missing => cases hcontinues.2
      | join => cases hcontinues.2
      | limit => cases hcontinues.2
      | stop found' | go found' | part found' | meet found' =>
        rw [← Definition.id_of_element? found']
        exact Option.some.inj hcontinues.2
    rw [Definition.length_entries]
    refine ⟨?_, (arrivals_sublist_takenTo does each).trans (List.Sublist.trans ?_ htaken)⟩
    · exact (length_arrivals does each hconv).symm ▸ hmany rfl
    · rw [Trail.takenTo_visit]
      exact (List.sublist_append_left _ _).trans (List.sublist_append_right _ _)

end Engine.Traces

end Workflow
