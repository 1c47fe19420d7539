import Mathlib.Algebra.BigOperators.Group.List.Basic
import Workflow.Proofs.Trail.Rules

/-!
# The traversals in a trail

A trail is that of one traversal, with the trails of its branches in it, and the trails of theirs.

* `Trail.inner`, `Trail.segments` — the trails of all the traversals in a trail.
* `Trail.parts` — what is left of one traversal from each of its visits on.
* `Trail.taken` — the flows that were taken, by the traversal and by its branches.
* `Engine.Traces.of_mem_inner`, `Engine.Traces.of_mem_parts` — a branch in a trail leaves its own
  trail by the rules, and so does a traversal from each of its visits on.
-/

namespace Workflow

namespace Trail

/-! ## Induction on trails -/

/-- What holds of a trail if it holds of the branches at its first visit and of the rest. -/
theorem induction {motive : Trail → Prop}
    (halt : ∀ came outcome vars, motive (.halt came outcome vars))
    (visit : ∀ came element vars branches rest, (∀ branch ∈ branches, motive branch) →
      motive rest → motive (.visit came element vars branches rest)) :
    ∀ trail, motive trail
  | .halt came outcome vars => halt came outcome vars
  | .visit came element vars branches rest =>
    visit came element vars branches rest (fun branch _ => induction halt visit branch)
      (induction halt visit rest)

/-! ## Traversals, visits and flows -/

/-- The trails of the branches in a trail, at every depth. -/
def inner : Trail → List Trail
  | halt _ _ _ => []
  | visit _ _ _ branches rest =>
    branches.flatMap (fun branch => branch :: branch.inner) ++ rest.inner

/-- The traversals that leave a trail together: the one that it is of, and those of all branches in
it. -/
def segments (trail : Trail) : List Trail :=
  trail :: trail.inner

/-- What is left of a traversal from each of its own visits on. -/
def parts : Trail → List Trail
  | halt _ _ _ => []
  | visit came element vars branches rest => visit came element vars branches rest :: rest.parts

/-- The flows that a traversal and its branches took, also those to joins where branches ended. -/
def taken : Trail → List Arc
  | halt came _ _ => came.toList
  | visit came _ _ branches rest => came.toList ++ (branches.flatMap taken ++ rest.taken)

section Visit

variable {came : Option Arc} {element : Element} {vars : Variables} {branches : List Trail}
  {rest : Trail} {outcome : Outcome}

@[simp] theorem inner_halt : (halt came outcome vars).inner = [] := by
  rw [inner]

@[simp] theorem inner_visit : (visit came element vars branches rest).inner =
    branches.flatMap segments ++ rest.inner := by
  rw [inner]
  rfl

@[simp] theorem taken_halt : (halt came outcome vars).taken = came.toList := by
  rw [taken]

@[simp] theorem taken_visit : (visit came element vars branches rest).taken =
    came.toList ++ (branches.flatMap taken ++ rest.taken) := by
  rw [taken]

theorem mem_inner_visit {segment : Trail} :
    segment ∈ (visit came element vars branches rest).inner ↔
      (∃ branch ∈ branches, segment ∈ branch.segments) ∨ segment ∈ rest.inner := by
  rw [inner_visit, List.mem_append, List.mem_flatMap]

end Visit

/-- An element is on the path of a trail as often as its traversals visited it. -/
theorem count_path (id : String) (trail : Trail) :
    trail.path.count id = (trail.segments.map (·.own.count id)).sum := by
  induction trail using Trail.induction with
  | halt => simp [segments, own]
  | visit came element vars branches rest ihb ih =>
    -- the path of a branch counts what all the traversals in the branch visited
    have hbranches : (branches.map (·.path.count id)).sum =
        ((branches.flatMap segments).map (·.own.count id)).sum := by
      rw [List.map_flatMap, List.flatMap_def, List.sum_flatten, List.map_map]
      exact congrArg List.sum (List.map_congr_left ihb)
    rw [segments, List.map_cons, List.sum_cons] at ih
    rw [path_visit, segments, inner_visit, List.map_cons, List.map_append, List.sum_cons,
      List.sum_append, List.count_cons, List.count_append, List.count_flatMap, ih, own,
      List.count_cons]
    have hcomp : List.count id ∘ path = (·.path.count id) := rfl
    rw [hcomp, hbranches]
    omega

/-! ### Flows within a trail -/

theorem sublist_flatMap_of_mem {branches : List Trail} {branch : Trail} (h : branch ∈ branches)
    (f : Trail → List Arc) : (f branch).Sublist (branches.flatMap f) := by
  rw [List.flatMap_def]
  exact List.sublist_flatten_of_mem (List.mem_map_of_mem h)

theorem taken_sublist_of_mem_parts {trail part : Trail} (h : part ∈ trail.parts) :
    part.taken.Sublist trail.taken := by
  induction trail using Trail.induction with
  | halt => cases h
  | visit came element vars branches rest _ ih =>
    rcases List.mem_cons.mp h with rfl | h
    · exact List.Sublist.refl _
    · rw [taken_visit]
      exact ((ih h).trans (List.sublist_append_right _ _)).trans (List.sublist_append_right _ _)

theorem taken_sublist_of_mem_inner {trail segment : Trail} (h : segment ∈ trail.inner) :
    segment.taken.Sublist trail.taken := by
  induction trail using Trail.induction with
  | halt => simp at h
  | visit came element vars branches rest ihb ih =>
    rw [taken_visit]
    refine List.Sublist.trans ?_ (List.sublist_append_right _ _)
    rcases mem_inner_visit.mp h with ⟨branch, hbranch, hsegment⟩ | h
    · have hbranches := sublist_flatMap_of_mem hbranch taken
      refine List.Sublist.trans ?_ (List.sublist_append_left _ _)
      rcases List.mem_cons.mp hsegment with rfl | hsegment
      · exact hbranches
      · exact (ihb branch hbranch hsegment).trans hbranches
    · exact (ih h).trans (List.sublist_append_right _ _)

end Trail

/-! ## By the rules -/

/-- How a traversal comes to an element, if it does not come to a join as a branch and stop there. -/
inductive Comes (definition : Definition) (inBranch : Bool) : Bool → Option Arc → String → Prop where
  /-- by a flow -/
  | along {arc : Arc} (harc : arc ∈ definition.arcs) :
    Comes definition inBranch false (some arc) arc.1.target
  /-- behind its branches -/
  | behind (id : String) : Comes definition inBranch true none id
  /-- where the process starts -/
  | first (hrun : inBranch = false) (id : String) : Comes definition inBranch false none id

/-- By the rules, a branch that began with a flow leaves a trail. -/
def Engine.BranchTraces (engine : Engine) (definition : Definition) (trail : Trail) : Prop :=
  ∃ arc ∈ definition.arcs, ∃ vars, engine.Traces definition true engine.maxSteps false (some arc)
    vars arc.1.target trail

namespace Engine.Traces

variable {engine : Engine} {definition : Definition} {inBranch : Bool} {remaining : Nat}
  {resumed : Bool} {came : Option Arc} {vars : Variables} {id : String} {trail : Trail}

/-- A trail begins by the flow by which the traversal came. -/
theorem came_eq (h : engine.Traces definition inBranch remaining resumed came vars id trail) :
    trail.came = came := by
  cases h <;> rfl

theorem comes_of_go {element : Element} {arc : Arc} {after : Variables}
    (does : engine.step definition element vars = .go arc after) :
    Comes definition inBranch false (some arc) arc.1.target :=
  .along (Definition.mem_exits.mp (step_eq_go does).1).1

theorem comes_of_split {element : Element} {arcs : List Arc}
    (does : engine.step definition element vars = .split arcs) {arc : Arc} (harc : arc ∈ arcs) :
    Comes definition inBranch false (some arc) arc.1.target := by
  rw [(step_eq_split does).2.1] at harc
  exact .along (Definition.mem_exits.mp harc).1

theorem branchTraces_of_each {element : Element} {arcs : List Arc} {branch : Arc → Trail}
    (does : engine.step definition element vars = .split arcs)
    (each : ∀ arc ∈ arcs, engine.Traces definition true engine.maxSteps false (some arc) vars
      arc.1.target (branch arc)) {segment : Trail}
    (ihe : ∀ arc ∈ arcs, segment ∈ (branch arc).inner → engine.BranchTraces definition segment)
    (h : ∃ trail ∈ arcs.map branch, segment ∈ trail.segments) :
    engine.BranchTraces definition segment := by
  obtain ⟨trail, htrail, hmem⟩ := h
  obtain ⟨arc, harc, rfl⟩ := List.mem_map.mp htrail
  rcases List.mem_cons.mp hmem with rfl | hmem
  · refine ⟨arc, ?_, vars, each arc harc⟩
    rw [(step_eq_split does).2.1] at harc
    exact (Definition.mem_exits.mp harc).1
  · exact ihe arc harc hmem

/-- A branch in a trail leaves its trail by the rules. -/
theorem of_mem_inner
    (h : engine.Traces definition inBranch remaining resumed came vars id trail)
    {segment : Trail} (hsegment : segment ∈ trail.inner) :
    engine.BranchTraces definition segment := by
  induction h with
  | missing => simp at hsegment
  | join => simp at hsegment
  | limit => simp at hsegment
  | stop => simp at hsegment
  | go _ _ _ _ ih =>
    rcases Trail.mem_inner_visit.mp hsegment with ⟨_, hbranch, -⟩ | hrest
    · cases hbranch
    · exact ih hrest
  | part _ _ does each _ ihe =>
    rcases Trail.mem_inner_visit.mp hsegment with hbranch | hrest
    · exact branchTraces_of_each does each ihe hbranch
    · simp at hrest
  | meet _ _ does each _ _ ihe ih =>
    rcases Trail.mem_inner_visit.mp hsegment with hbranch | hrest
    · exact branchTraces_of_each does each ihe hbranch
    · exact ih hrest

/-- From each of its visits on, a traversal leaves its trail by the rules. -/
theorem of_mem_parts
    (h : engine.Traces definition inBranch remaining resumed came vars id trail)
    (hcomes : Comes definition inBranch resumed came id) {part : Trail}
    (hpart : part ∈ trail.parts) :
    ∃ remaining resumed came vars id, Comes definition inBranch resumed came id ∧
      engine.Traces definition inBranch remaining resumed came vars id part := by
  induction h with
  | missing => cases hpart
  | join => cases hpart
  | limit => cases hpart
  | @stop _ remaining _ _ _ _ _ _ _ found enters does =>
    obtain rfl := List.mem_singleton.mp hpart
    exact ⟨remaining + 1, _, _, _, _, hcomes, .stop found enters does⟩
  | go found enters does goes ih =>
    rcases List.mem_cons.mp hpart with rfl | hpart
    · exact ⟨_, _, _, _, _, hcomes, .go found enters does goes⟩
    · exact ih (comes_of_go does) hpart
  | @part _ remaining _ _ _ _ _ _ _ _ _ found enters does each ends =>
    obtain rfl := List.mem_singleton.mp hpart
    exact ⟨remaining + 1, _, _, _, _, hcomes, .part found enters does each ends⟩
  | meet found enters does each meets goes _ ih =>
    rcases List.mem_cons.mp hpart with rfl | hpart
    · exact ⟨_, _, _, _, _, hcomes, .meet found enters does each meets goes⟩
    · exact ih (.behind _) hpart

end Engine.Traces

end Workflow
