import Mathlib.Data.List.Induction
import Workflow.Proofs.Table
import Workflow.Proofs.Trail.Traversal

/-!
# Which variables a traversal writes

A task writes the variable that it declares as its output, and nothing else writes a variable.  So a
variable that no task on the path of a traversal declares keeps its value (`Traces.get?_final`), a
variable is never taken away (`Traces.isSome_final`), and a traversal that ended well holds every
variable that it wrote (`Traces.isSome_final_of_writes`).
-/

namespace Workflow

/-! ## Elements -/

/-- Whether an element is a task whose value goes to a variable. -/
def Element.writes (element : Element) (key : String) : Bool :=
  element.kind.task?.any fun spec => spec.output == some key

/-- Whether the element of an id writes a variable. -/
def Definition.writes (definition : Definition) (key : String) (id : String) : Bool :=
  (definition.element? id).any fun element => element.writes key

/-- Whether a traversal, or a branch within it, visited an element that writes a variable. If it
ended well, it completed every task that it visited. -/
def Traversal.wrote (definition : Definition) (key : String) (traversal : Traversal) : Bool :=
  traversal.path.any (definition.writes key)

theorem Definition.writes_of_element? {definition : Definition} {id : String} {element : Element}
    (h : definition.element? id = some element) (key : String) :
    definition.writes key element.id = element.writes key := by
  rw [writes, id_of_element? h, h]
  rfl

namespace Engine.Works

variable {engine : Engine} {element : Element} {vars after : Variables} {key : String}

theorem sorted (h : engine.Works element vars after) (hvars : vars.Sorted) : after.Sorted := by
  cases h with
  | idle => exact hvars
  | stored =>
    unfold TaskSpec.store
    split
    · exact hvars.set _ _
    · exact hvars

theorem isSome (h : engine.Works element vars after) (hvars : (vars.get? key).isSome) :
    (after.get? key).isSome := by
  cases h with
  | idle => exact hvars
  | stored =>
    unfold TaskSpec.store
    split
    · exact Table.isSome_get?_set hvars _ _
    · exact hvars

theorem get?_eq (h : engine.Works element vars after) (hkey : element.writes key = false) :
    after.get? key = vars.get? key := by
  cases h with
  | idle => rfl
  | @stored spec value htask _ =>
    rw [Element.writes, htask, Option.any_some, beq_eq_false_iff_ne] at hkey
    unfold TaskSpec.store
    split
    · rename_i other houtput
      rw [houtput] at hkey
      exact Table.get?_set_ne vars value fun heq => hkey (congrArg some heq)
    · rfl

theorem isSome_of_writes (h : engine.Works element vars after) (hkey : element.writes key = true) :
    (after.get? key).isSome := by
  cases h with
  | idle htask =>
    rw [Element.writes, htask] at hkey
    cases hkey
  | @stored spec value htask _ =>
    rw [Element.writes, htask, Option.any_some, beq_iff_eq] at hkey
    rw [TaskSpec.store, hkey]
    dsimp only
    rw [Table.get?_set_self]
    rfl

end Engine.Works

/-! ## Branches written one after the other -/

section Merge

variable {vars : Variables} {branches : List Trail} {key : String}

theorem mergeTrails_concat (branch : Trail) :
    mergeTrails vars (branches ++ [branch]) = (mergeTrails vars branches).merge branch.final := by
  rw [mergeTrails, List.foldl_append]
  rfl

theorem sorted_mergeTrails (h : vars.Sorted) : (mergeTrails vars branches).Sorted := by
  induction branches using List.reverseRecOn with
  | nil => exact h
  | append_singleton branches branch ih =>
    rw [mergeTrails_concat]
    exact ih.merge _

theorem isSome_mergeTrails (h : (vars.get? key).isSome) :
    ((mergeTrails vars branches).get? key).isSome := by
  induction branches using List.reverseRecOn with
  | nil => exact h
  | append_singleton branches branch ih =>
    rw [mergeTrails_concat]
    exact Table.isSome_get?_merge ih _

theorem get?_mergeTrails (hsorted : ∀ branch ∈ branches, branch.final.Sorted)
    (h : ∀ branch ∈ branches, branch.final.get? key = vars.get? key) :
    (mergeTrails vars branches).get? key = vars.get? key := by
  induction branches using List.reverseRecOn with
  | nil => rfl
  | append_singleton branches branch ih =>
    rw [mergeTrails_concat, Table.get?_merge _ (hsorted branch (by simp)), h branch (by simp),
      ih (fun b hb => hsorted b (List.mem_append_left _ hb))
        (fun b hb => h b (List.mem_append_left _ hb)), Option.or_self]

theorem isSome_mergeTrails_of_mem {branch : Trail} (hbranch : branch ∈ branches)
    (hsorted : ∀ branch ∈ branches, branch.final.Sorted) (h : (branch.final.get? key).isSome) :
    ((mergeTrails vars branches).get? key).isSome := by
  induction branches using List.reverseRecOn with
  | nil => cases hbranch
  | append_singleton branches last ih =>
    rw [mergeTrails_concat, Table.get?_merge _ (hsorted last (by simp)), Option.isSome_or]
    rcases List.mem_append.mp hbranch with hbranch | hbranch
    · rw [ih hbranch fun b hb => hsorted b (List.mem_append_left _ hb), Bool.or_true]
    · rw [← List.mem_singleton.mp hbranch, h, Bool.true_or]

end Merge

/-! ## Traversals -/

/-- What holds of an element on a path holds of the first, or in a branch, or further on. -/
theorem Trail.any_path_visit (p : String → Bool) {came : Option Arc} {element : Element}
    {vars : Variables} {branches : List Trail} {rest : Trail} :
    (visit came element vars branches rest).path.any p =
      (p element.id || (branches.any (·.path.any p) || rest.path.any p)) := by
  rw [path_visit, List.any_cons, List.any_append, List.any_flatMap]

namespace Engine.Traces

variable {engine : Engine} {definition : Definition} {inBranch : Bool} {remaining : Nat}
  {resumed : Bool} {came : Option Arc} {vars : Variables} {id : String} {trail : Trail}
  {key : String}

theorem sorted_final
    (h : engine.Traces definition inBranch remaining resumed came vars id trail)
    (hvars : vars.Sorted) : trail.final.Sorted := by
  induction h with
  | missing => exact hvars
  | join => exact hvars
  | limit => exact hvars
  | stop _ _ does =>
    rcases step_eq_stop does with ⟨-, rfl⟩ | ⟨-, hworks⟩
    · exact hvars
    · exact hworks.sorted hvars
  | go _ _ does _ ih => exact ih ((step_eq_go does).2.sorted hvars)
  | part _ _ _ _ ends =>
    rcases sequel_eq_stop ends with ⟨-, -, rfl⟩ | ⟨-, rfl, -⟩
    · exact hvars
    · exact sorted_mergeTrails hvars
  | meet _ _ _ _ meets _ _ ih =>
    obtain ⟨-, rfl, -⟩ := sequel_eq_resume meets
    exact ih (sorted_mergeTrails hvars)

/-- No variable is ever taken away. -/
theorem isSome_final
    (h : engine.Traces definition inBranch remaining resumed came vars id trail)
    (hkey : (vars.get? key).isSome) : (trail.final.get? key).isSome := by
  induction h with
  | missing => exact hkey
  | join => exact hkey
  | limit => exact hkey
  | stop _ _ does =>
    rcases step_eq_stop does with ⟨-, rfl⟩ | ⟨-, hworks⟩
    · exact hkey
    · exact hworks.isSome hkey
  | go _ _ does _ ih => exact ih ((step_eq_go does).2.isSome hkey)
  | part _ _ _ _ ends =>
    rcases sequel_eq_stop ends with ⟨-, -, rfl⟩ | ⟨-, rfl, -⟩
    · exact hkey
    · exact isSome_mergeTrails hkey
  | meet _ _ _ _ meets _ _ ih =>
    obtain ⟨-, rfl, -⟩ := sequel_eq_resume meets
    exact ih (isSome_mergeTrails hkey)

theorem sorted_final_of_each {arcs : List Arc} {branch : Arc → Trail} (hvars : vars.Sorted)
    (each : ∀ arc ∈ arcs, engine.Traces definition true engine.maxSteps false (some arc) vars
      arc.1.target (branch arc)) :
    ∀ trail ∈ arcs.map branch, trail.final.Sorted := by
  intro trail htrail
  obtain ⟨arc, harc, rfl⟩ := List.mem_map.mp htrail
  exact (each arc harc).sorted_final hvars

/-- Branches that do not write a variable give back its value. -/
theorem get?_mergeTrails_of_each {arcs : List Arc} {branch : Arc → Trail} (hvars : vars.Sorted)
    (each : ∀ arc ∈ arcs, engine.Traces definition true engine.maxSteps false (some arc) vars
      arc.1.target (branch arc))
    (hframe : ∀ arc ∈ arcs, vars.Sorted →
      (branch arc).path.any (definition.writes key) = false →
      (branch arc).final.get? key = vars.get? key)
    (hkey : (arcs.map branch).any (·.path.any (definition.writes key)) = false) :
    (mergeTrails vars (arcs.map branch)).get? key = vars.get? key := by
  refine get?_mergeTrails (sorted_final_of_each hvars each) fun trail htrail => ?_
  have hquiet := Bool.eq_false_iff.mpr (List.any_eq_false.mp hkey trail htrail)
  obtain ⟨arc, harc, rfl⟩ := List.mem_map.mp htrail
  exact hframe arc harc hvars hquiet

/-- A variable that nothing on the path writes keeps its value, or its absence. -/
theorem get?_final
    (h : engine.Traces definition inBranch remaining resumed came vars id trail)
    (hvars : vars.Sorted) (hkey : trail.path.any (definition.writes key) = false) :
    trail.final.get? key = vars.get? key := by
  induction h with
  | missing => rfl
  | join => rfl
  | limit => rfl
  | stop found _ does =>
    rw [Trail.any_path_visit, Bool.or_eq_false_iff, definition.writes_of_element? found] at hkey
    rcases step_eq_stop does with ⟨-, rfl⟩ | ⟨-, hworks⟩
    · rfl
    · exact hworks.get?_eq hkey.1
  | go found _ does _ ih =>
    rw [Trail.any_path_visit, Bool.or_eq_false_iff, Bool.or_eq_false_iff,
      definition.writes_of_element? found] at hkey
    have hworks := (step_eq_go does).2
    exact (ih (hworks.sorted hvars) hkey.2.2).trans (hworks.get?_eq hkey.1)
  | part _ _ _ each ends ihe =>
    rw [Trail.any_path_visit, Bool.or_eq_false_iff, Bool.or_eq_false_iff] at hkey
    rcases sequel_eq_stop ends with ⟨-, -, rfl⟩ | ⟨-, rfl, -⟩
    · rfl
    · exact get?_mergeTrails_of_each hvars each ihe hkey.2.1
  | meet _ _ _ each meets _ ihe ih =>
    rw [Trail.any_path_visit, Bool.or_eq_false_iff, Bool.or_eq_false_iff] at hkey
    obtain ⟨-, rfl, -⟩ := sequel_eq_resume meets
    exact (ih (sorted_mergeTrails hvars) hkey.2.2).trans
      (get?_mergeTrails_of_each hvars each ihe hkey.2.1)

/-- An element where branches begin is no task. -/
theorem element_writes_of_split {element : Element} {arcs : List Arc}
    (h : engine.step definition element vars = .split arcs) : element.writes key = false := by
  rw [Element.writes, (step_eq_split h).1]
  rfl

/-- A variable that a branch wrote is there when the branches have come together. -/
theorem isSome_mergeTrails_of_each {arcs : List Arc} {branch : Arc → Trail}
    (hvars : vars.Sorted)
    (each : ∀ arc ∈ arcs, engine.Traces definition true engine.maxSteps false (some arc) vars
      arc.1.target (branch arc))
    (hall : ∀ trail ∈ arcs.map branch, trail.outcome.succeeded = true)
    (hwrites : ∀ arc ∈ arcs, vars.Sorted → (branch arc).outcome.succeeded = true →
      (branch arc).path.any (definition.writes key) = true →
      ((branch arc).final.get? key).isSome)
    (hkey : (arcs.map branch).any (·.path.any (definition.writes key)) = true) :
    ((mergeTrails vars (arcs.map branch)).get? key).isSome := by
  obtain ⟨trail, htrail, hwrote⟩ := List.any_eq_true.mp hkey
  have hended := hall trail htrail
  refine isSome_mergeTrails_of_mem htrail (sorted_final_of_each hvars each) ?_
  obtain ⟨arc, harc, rfl⟩ := List.mem_map.mp htrail
  exact hwrites arc harc hvars hended hwrote

/-- A traversal that ended well holds every variable that it wrote. -/
theorem isSome_final_of_writes
    (h : engine.Traces definition inBranch remaining resumed came vars id trail)
    (hvars : vars.Sorted) (hended : trail.outcome.succeeded = true)
    (hkey : trail.path.any (definition.writes key) = true) : (trail.final.get? key).isSome := by
  induction h with
  | missing => cases hended
  | join =>
    rw [Trail.path_halt] at hkey
    cases hkey
  | limit => cases hended
  | stop found _ does =>
    rw [Trail.any_path_visit, Trail.path_halt, definition.writes_of_element? found,
      List.any_nil, List.any_nil, Bool.or_false, Bool.or_false] at hkey
    rcases step_eq_stop does with ⟨⟨_, rfl⟩, -⟩ | ⟨-, hworks⟩
    · cases hended
    · exact hworks.isSome_of_writes hkey
  | go found _ does goes ih =>
    rw [Trail.any_path_visit, definition.writes_of_element? found, List.any_nil,
      Bool.false_or, Bool.or_eq_true] at hkey
    have hworks := (step_eq_go does).2
    -- what the task here wrote is not taken away further on
    rcases hkey with hkey | hkey
    · exact goes.isSome_final (hworks.isSome_of_writes hkey)
    · exact ih (hworks.sorted hvars) hended hkey
  | part found _ does each ends ihe =>
    rw [Trail.any_path_visit, definition.writes_of_element? found,
      element_writes_of_split does, Trail.path_halt, List.any_nil, Bool.false_or,
      Bool.or_false] at hkey
    rcases sequel_eq_stop ends with ⟨-, hfailed, -⟩ | ⟨hall, rfl, -⟩
    · rw [Trail.outcome, Trail.outcome, hfailed] at hended
      cases hended
    · exact isSome_mergeTrails_of_each hvars each hall ihe hkey
  | meet found _ does each meets goes ihe ih =>
    rw [Trail.any_path_visit, definition.writes_of_element? found,
      element_writes_of_split does, Bool.false_or, Bool.or_eq_true] at hkey
    obtain ⟨hall, rfl, -⟩ := sequel_eq_resume meets
    rcases hkey with hkey | hkey
    · exact goes.isSome_final (isSome_mergeTrails_of_each hvars each hall ihe hkey)
    · exact ih (sorted_mergeTrails hvars) hended hkey

end Engine.Traces

end Workflow
