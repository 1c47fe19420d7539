import Mathlib.Algebra.GroupWithZero.Nat
import Workflow.Proofs.Trail.Basic

/-!
# What the rules can say

All that a step and a sequel can be, so that nothing else has to open their definitions.

* `Engine.step_eq_go`, `Engine.step_eq_stop`, `Engine.step_eq_split` — the three ways a visit goes.
* `sequel_eq_stop`, `sequel_eq_resume` — the two ways a traversal goes behind its branches.
-/

namespace Workflow

namespace Engine

variable {engine : Engine} {definition : Definition} {element : Element} {vars : Variables}

/-! ## Steps -/

/-- The variables after an element did its work: a task stores its value, and nothing else has work
to do. -/
inductive Works (engine : Engine) (element : Element) (vars : Variables) : Variables → Prop where
  /-- the element is no task -/
  | idle (h : element.kind.task? = none) : Works engine element vars vars
  /-- the task gave a value -/
  | stored {spec : TaskSpec} {value : Value} (h : element.kind.task? = some spec)
    (performs : engine.perform element spec vars = .ok value) :
    Works engine element vars (spec.store vars value)

theorem depart_eq_go {arc : Arc} {after : Variables}
    (h : depart definition element vars = .go arc after) :
    arc ∈ definition.exits element.id ∧ after = vars := by
  unfold depart at h
  split at h
  · rename_i hexits
    cases h
    exact ⟨hexits ▸ List.mem_cons_self, rfl⟩
  · cases h

theorem depart_eq_stop {outcome : Outcome} {after : Variables}
    (h : depart definition element vars = .stop outcome after) :
    outcome = .finished ∧ after = vars := by
  unfold depart at h
  split at h
  · cases h
  · cases h
    exact ⟨rfl, rfl⟩

theorem depart_ne_split {arcs : List Arc} : depart definition element vars ≠ .split arcs := by
  unfold depart
  split <;> nofun

theorem select_mem {arcs : List Arc} {arc : Arc} (h : engine.select vars arcs = some arc) :
    arc ∈ arcs := by
  unfold select at h
  split at h
  · cases h
    exact List.mem_singleton_self _
  · exact List.mem_of_find?_eq_some h

/-- A visit that takes a flow takes one out of the element, when the element has done its work. -/
theorem step_eq_go {arc : Arc} {after : Variables}
    (h : engine.step definition element vars = .go arc after) :
    arc ∈ definition.exits element.id ∧ engine.Works element vars after := by
  unfold step at h
  split at h
  case h_1 => cases h
  case h_2 hkind =>
    obtain ⟨harc, rfl⟩ := depart_eq_go h
    exact ⟨harc, .idle (by rw [hkind]; rfl)⟩
  case h_3 hkind =>
    split at h
    · rename_i hperform
      obtain ⟨harc, rfl⟩ := depart_eq_go h
      exact ⟨harc, .stored (by rw [hkind]; rfl) hperform⟩
    · cases h
  case h_4 hkind =>
    split at h
    · rename_i hselect
      cases h
      exact ⟨select_mem hselect, .idle (by rw [hkind]; rfl)⟩
    · cases h
  case h_5 hkind =>
    split at h
    · cases h
    · obtain ⟨harc, rfl⟩ := depart_eq_go h
      exact ⟨harc, .idle (by rw [hkind]; rfl)⟩

/-- A visit that ends its traversal fails and leaves the variables alone, or ends it well when the
element has done its work. -/
theorem step_eq_stop {outcome : Outcome} {after : Variables}
    (h : engine.step definition element vars = .stop outcome after) :
    (∃ error, outcome = .failed error) ∧ after = vars ∨
      outcome = .finished ∧ engine.Works element vars after := by
  unfold step at h
  split at h
  case h_1 hkind =>
    cases h
    exact Or.inr ⟨rfl, .idle (by rw [hkind]; rfl)⟩
  case h_2 hkind =>
    obtain ⟨rfl, rfl⟩ := depart_eq_stop h
    exact Or.inr ⟨rfl, .idle (by rw [hkind]; rfl)⟩
  case h_3 hkind =>
    split at h
    · rename_i hperform
      obtain ⟨rfl, rfl⟩ := depart_eq_stop h
      exact Or.inr ⟨rfl, .stored (by rw [hkind]; rfl) hperform⟩
    · cases h
      exact Or.inl ⟨⟨_, rfl⟩, rfl⟩
  case h_4 hkind =>
    split at h
    · cases h
    · cases h
      exact Or.inl ⟨⟨_, rfl⟩, rfl⟩
  case h_5 hkind =>
    split at h
    · cases h
    · obtain ⟨rfl, rfl⟩ := depart_eq_stop h
      exact Or.inr ⟨rfl, .idle (by rw [hkind]; rfl)⟩

/-- A visit begins branches at a parallel gateway, along all of the several flows out of it. -/
theorem step_eq_split {arcs : List Arc} (h : engine.step definition element vars = .split arcs) :
    element.kind = .parallelGateway ∧ arcs = definition.exits element.id ∧ 1 < arcs.length := by
  unfold step at h
  split at h
  case h_1 => cases h
  case h_2 => exact absurd h depart_ne_split
  case h_3 =>
    split at h
    · exact absurd h depart_ne_split
    · cases h
  case h_4 => split at h <;> cases h
  case h_5 hkind =>
    split at h
    · rename_i first second more hexits
      cases h
      refine ⟨hkind, hexits.symm, ?_⟩
      rw [List.length_cons, List.length_cons]
      omega
    · exact absurd h depart_ne_split

end Engine

/-! ## Sequels -/

namespace Outcome

/-- Whether a traversal ended well. -/
def succeeded : Outcome → Bool
  | finished => true
  | atJoin _ _ => true
  | failed _ => false
  | unbounded => false

theorem isUnbounded_iff {outcome : Outcome} :
    outcome.isUnbounded = true ↔ outcome = unbounded := by
  cases outcome <;> simp [isUnbounded]

theorem error?_eq_some_iff {outcome : Outcome} {error : Error} :
    outcome.error? = some error ↔ outcome = failed error := by
  cases outcome <;> simp [error?]

theorem succeeded_iff {outcome : Outcome} :
    outcome.succeeded = true ↔ outcome.isUnbounded = false ∧ outcome.error? = none := by
  cases outcome <;> simp [succeeded, isUnbounded, error?]

theorem succeeded_of_completion {outcome : Outcome} (h : outcome.completion = .completed) :
    outcome.succeeded = true := by
  cases outcome with
  | finished => rfl
  | atJoin => rfl
  | _ => cases h

theorem eq_failed_of_completion {outcome : Outcome} {error : Error}
    (h : outcome.completion = .failed error) : outcome = .failed error := by
  cases outcome with
  | failed => exact congrArg failed (Completion.failed.inj h)
  | _ => cases h

theorem succeeded_of_join? {outcome : Outcome} {join : String} (h : outcome.join? = some join) :
    outcome.succeeded = true := by
  cases outcome with
  | atJoin => rfl
  | _ => cases h

theorem arrivalsAt_eq_zero {outcome : Outcome} {join : String}
    (h : outcome.join? ≠ some join) : outcome.arrivalsAt join = 0 := by
  cases outcome with
  | atJoin id arrivals => exact if_neg fun heq => h (congrArg some heq)
  | _ => rfl

theorem join?_of_not_succeeded {outcome : Outcome} (h : outcome.succeeded = false)
    (join : String) : outcome.join? ≠ some join := by
  intro hjoin
  rw [succeeded_of_join? hjoin] at h
  cases h

end Outcome

/-- No visit by itself ends a traversal at a join. -/
theorem Engine.join?_of_step_eq_stop {engine : Engine} {definition : Definition}
    {element : Element} {vars after : Variables} {outcome : Outcome}
    (h : engine.step definition element vars = .stop outcome after) (join : String) :
    outcome.join? ≠ some join := by
  rcases step_eq_stop h with ⟨⟨_, rfl⟩, -⟩ | ⟨rfl, -⟩ <;> nofun

/-! ### Reunions -/

/-- Branches converge on the join of the first that came to one, and all their arrivals there are
counted. -/
theorem convergence_eq_some {outcomes : List Outcome} {join : String} {arrivals : Nat}
    (h : convergence outcomes = some (join, arrivals)) :
    outcomes.findSome? Outcome.join? = some join ∧
      arrivals = (outcomes.map (Outcome.arrivalsAt join)).sum := by
  unfold convergence at h
  rcases hjoin : outcomes.findSome? Outcome.join? with _ | first
  · rw [hjoin] at h
    cases h
  · rw [hjoin] at h
    cases h
    rw [List.sum_eq_foldr, List.foldr_map]
    exact ⟨rfl, rfl⟩

/-- Some branch came to the join on which branches converge. -/
theorem exists_join?_of_convergence {arcs : List Arc} {branch : Arc → Trail} {join : String}
    {arrivals : Nat}
    (h : convergence ((arcs.map branch).map Trail.outcome) = some (join, arrivals)) :
    ∃ arc ∈ arcs, (branch arc).outcome.join? = some join := by
  obtain ⟨outcome, houtcome, hjoin⟩ :=
    List.exists_of_findSome?_eq_some (convergence_eq_some h).1
  obtain ⟨trail, htrail, rfl⟩ := List.mem_map.mp houtcome
  obtain ⟨arc, harc, rfl⟩ := List.mem_map.mp htrail
  exact ⟨arc, harc, hjoin⟩

section Reunion

variable {vars : Variables} {branches : List Traversal}

/-- Branches that all ended well come together. -/
theorem reunite_of_succeeded (h : ∀ branch ∈ branches, branch.outcome.succeeded = true) :
    reunite vars branches =
      .joined (convergence (branches.map Traversal.outcome)) (mergeBranches vars branches) := by
  have hbounded : (branches.map Traversal.outcome).any Outcome.isUnbounded = false := by
    rw [List.any_eq_false]
    intro outcome houtcome
    obtain ⟨branch, hbranch, rfl⟩ := List.mem_map.mp houtcome
    rw [(Outcome.succeeded_iff.mp (h branch hbranch)).1]
    exact Bool.false_ne_true
  have herrors : (branches.map Traversal.outcome).findSome? Outcome.error? = none := by
    rw [List.findSome?_eq_none_iff]
    intro outcome houtcome
    obtain ⟨branch, hbranch, rfl⟩ := List.mem_map.mp houtcome
    exact (Outcome.succeeded_iff.mp (h branch hbranch)).2
  rw [reunite, hbounded, herrors]
  rfl

/-- Branches that come together all ended well. -/
theorem succeeded_of_reunite {merged : Variables} {join : Option (String × Nat)}
    (h : reunite vars branches = .joined join merged) :
    ∀ branch ∈ branches, branch.outcome.succeeded = true := by
  rw [reunite] at h
  split at h
  · cases h
  · rename_i hbounded
    split at h
    · cases h
    · rename_i herrors
      intro branch hbranch
      have hmem := List.mem_map_of_mem (f := Traversal.outcome) hbranch
      refine Outcome.succeeded_iff.mpr ⟨?_, List.findSome?_eq_none_iff.mp herrors _ hmem⟩
      rw [Bool.not_eq_true, List.any_eq_false] at hbounded
      exact Bool.eq_false_iff.mpr (hbounded _ hmem)

theorem reunite_of_unbounded {branch : Traversal} (hbranch : branch ∈ branches)
    (hcut : branch.outcome = .unbounded) : reunite vars branches = .unbounded := by
  rw [reunite]
  apply if_pos
  rw [List.any_map, List.any_eq_true]
  exact ⟨branch, hbranch, Outcome.isUnbounded_iff.mpr hcut⟩

/-- Branches that do not come together come to what one of them came to. -/
theorem exists_of_reunite_unbounded (h : reunite vars branches = .unbounded) :
    ∃ branch ∈ branches, branch.outcome = .unbounded := by
  rw [reunite] at h
  split at h
  · rename_i hany
    obtain ⟨outcome, houtcome, hunbounded⟩ := List.any_eq_true.mp hany
    obtain ⟨branch, hbranch, rfl⟩ := List.mem_map.mp houtcome
    exact ⟨branch, hbranch, Outcome.isUnbounded_iff.mp hunbounded⟩
  · split at h <;> cases h

theorem exists_of_reunite_failed {error : Error} (h : reunite vars branches = .failed error) :
    ∃ branch ∈ branches, branch.outcome = .failed error := by
  rw [reunite] at h
  split at h
  · cases h
  · split at h
    · rename_i herror
      cases h
      obtain ⟨outcome, houtcome, hfailed⟩ := List.exists_of_findSome?_eq_some herror
      obtain ⟨branch, hbranch, rfl⟩ := List.mem_map.mp houtcome
      exact ⟨branch, hbranch, Outcome.error?_eq_some_iff.mp hfailed⟩
    · cases h

end Reunion

/-! ### Trails of branches -/

/-- The variables of branches, written one after the other over those before them. -/
def mergeTrails (vars : Variables) (branches : List Trail) : Variables :=
  branches.foldl (fun merged branch => merged.merge branch.final) vars

theorem mergeBranches_traversals (vars : Variables) (branches : List Trail) :
    mergeBranches vars (branches.map (Trail.traversal · none)) = mergeTrails vars branches := by
  rw [mergeBranches, mergeTrails, List.foldl_map]
  rfl

theorem outcomes_traversals (branches : List Trail) :
    (branches.map (Trail.traversal · none)).map Traversal.outcome =
      branches.map Trail.outcome := by
  rw [List.map_map]
  rfl

/-- Trails of branches that come together. -/
theorem reunite_traversals_eq_joined {vars merged : Variables} {branches : List Trail}
    {join : Option (String × Nat)}
    (h : reunite vars (branches.map (Trail.traversal · none)) = .joined join merged) :
    (∀ branch ∈ branches, branch.outcome.succeeded = true) ∧
      join = convergence (branches.map Trail.outcome) ∧ merged = mergeTrails vars branches := by
  have hall := succeeded_of_reunite h
  rw [reunite_of_succeeded hall, outcomes_traversals, mergeBranches_traversals] at h
  cases h
  exact ⟨fun branch hbranch => hall _ (List.mem_map_of_mem hbranch), rfl, rfl⟩

variable {definition : Definition} {inBranch : Bool} {vars after : Variables}
  {branches : List Trail}

/-- A traversal that ends with its branches ends badly as one of them did, with the variables before
them, or ends well when all of them did: at no join, or at one that it leaves to the fork around it.
-/
theorem sequel_eq_stop {outcome : Outcome}
    (h : sequel definition inBranch vars branches = .stop outcome after) :
    ((∃ branch ∈ branches, branch.outcome = outcome) ∧ outcome.succeeded = false ∧ after = vars) ∨
      ((∀ branch ∈ branches, branch.outcome.succeeded = true) ∧
        after = mergeTrails vars branches ∧
        ((convergence (branches.map Trail.outcome) = none ∧ outcome = .finished) ∨
          ∃ join arrivals, convergence (branches.map Trail.outcome) = some (join, arrivals) ∧
            inBranch = true ∧ arrivals < (definition.incoming join).length ∧
            outcome = .atJoin join arrivals)) := by
  unfold sequel at h
  split at h
  · rename_i hreunite
    cases h
    obtain ⟨_, htrail, houtcome⟩ := exists_of_reunite_unbounded hreunite
    obtain ⟨branch, hbranch, rfl⟩ := List.mem_map.mp htrail
    exact Or.inl ⟨⟨branch, hbranch, houtcome⟩, rfl, rfl⟩
  · rename_i hreunite
    cases h
    obtain ⟨_, htrail, houtcome⟩ := exists_of_reunite_failed hreunite
    obtain ⟨branch, hbranch, rfl⟩ := List.mem_map.mp htrail
    exact Or.inl ⟨⟨branch, hbranch, houtcome⟩, rfl, rfl⟩
  · rename_i converged merged hreunite
    obtain ⟨hall, rfl, rfl⟩ := reunite_traversals_eq_joined hreunite
    -- all branches ended well: they converged nowhere, or with too few arrivals
    right
    rcases hconv : convergence (branches.map Trail.outcome) with _ | ⟨join, arrivals⟩
    · rw [hconv, Engine.rejoin] at h
      cases h
      exact ⟨hall, rfl, Or.inl ⟨rfl, rfl⟩⟩
    · rw [hconv, Engine.rejoin] at h
      split at h
      · rename_i outcome' hstop
        split at hstop
        · rename_i hfew
          cases hstop
          cases h
          obtain ⟨hbranch, hfew⟩ := (Bool.and_eq_true _ _).mp hfew
          exact ⟨hall, rfl, Or.inr ⟨join, arrivals, rfl, hbranch, of_decide_eq_true hfew, rfl⟩⟩
        · cases hstop
      · cases h

/-- A traversal ends well with its branches only if they all did. -/
theorem succeeded_of_sequel_eq_stop {outcome : Outcome}
    (h : sequel definition inBranch vars branches = .stop outcome after)
    (hended : outcome.succeeded = true) : ∀ branch ∈ branches, branch.outcome.succeeded = true := by
  rcases sequel_eq_stop h with ⟨-, hfailed, -⟩ | ⟨hall, -⟩
  · rw [hfailed] at hended
    cases hended
  · exact hall

/-- A traversal that ends with its branches at a join does so where they converged, with their
arrivals. -/
theorem convergence_of_sequel_eq_stop {outcome : Outcome} {join : String}
    (h : sequel definition inBranch vars branches = .stop outcome after)
    (hjoin : outcome.join? = some join) :
    convergence (branches.map Trail.outcome) = some (join, outcome.arrivalsAt join) := by
  rcases sequel_eq_stop h with
    ⟨-, hfailed, -⟩ | ⟨-, -, ⟨-, rfl⟩ | ⟨join', arrivals, hconv, -, -, rfl⟩⟩
  · exact absurd hjoin (Outcome.join?_of_not_succeeded hfailed join)
  · cases hjoin
  · obtain rfl : join' = join := Option.some.inj hjoin
    rw [hconv, Outcome.arrivalsAt, if_pos rfl]

/-- A traversal that resumes does so where its branches, all of them ended well, converged; in a
branch, on as many arrivals as flows lead there. -/
theorem sequel_eq_resume {join : String}
    (h : sequel definition inBranch vars branches = .resume join after) :
    (∀ branch ∈ branches, branch.outcome.succeeded = true) ∧ after = mergeTrails vars branches ∧
      ∃ arrivals, convergence (branches.map Trail.outcome) = some (join, arrivals) ∧
        (inBranch = true → (definition.incoming join).length ≤ arrivals) := by
  unfold sequel at h
  split at h
  · cases h
  · cases h
  · rename_i converged merged hreunite
    obtain ⟨hall, rfl, rfl⟩ := reunite_traversals_eq_joined hreunite
    refine ⟨hall, ?_⟩
    rcases hconv : convergence (branches.map Trail.outcome) with _ | ⟨join', arrivals⟩
    · rw [hconv, Engine.rejoin] at h
      cases h
    · rw [hconv, Engine.rejoin] at h
      split at h
      · cases h
      · rename_i next resumed hgo
        split at hgo
        · cases hgo
        · rename_i hfew
          cases hgo
          cases h
          refine ⟨rfl, arrivals, rfl, fun hbranch => ?_⟩
          rw [hbranch, Bool.true_and, decide_eq_true_eq] at hfew
          exact Nat.not_lt.mp hfew

/-- A traversal fails with its branches, on the first of their errors, with the variables before
them. -/
theorem sequel_eq_failed {error : Error}
    (hbounded : ∀ branch ∈ branches, branch.outcome.isUnbounded = false)
    (herror : (branches.map Trail.outcome).findSome? Outcome.error? = some error) :
    sequel definition inBranch vars branches = .stop (.failed error) vars := by
  have hany : (branches.map Trail.outcome).any Outcome.isUnbounded = false := by
    rw [List.any_map, List.any_eq_false]
    exact fun branch hbranch => Bool.eq_false_iff.mp (hbounded branch hbranch)
  rw [sequel, reunite, outcomes_traversals, hany, herror]
  rfl

/-- A traversal whose branches all ended well resumes where they converged, if it is no branch or
has as many arrivals there as flows lead there. -/
theorem sequel_eq_resume_of_convergence {join : String} {arrivals : Nat}
    (hended : ∀ branch ∈ branches, branch.outcome.succeeded = true)
    (hconv : convergence (branches.map Trail.outcome) = some (join, arrivals))
    (hmany : inBranch = true → (definition.incoming join).length ≤ arrivals) :
    sequel definition inBranch vars branches = .resume join (mergeTrails vars branches) := by
  have hall : ∀ traversal ∈ branches.map (Trail.traversal · none),
      traversal.outcome.succeeded = true := by
    intro traversal htraversal
    obtain ⟨branch, hbranch, rfl⟩ := List.mem_map.mp htraversal
    exact hended branch hbranch
  have hrejoin : Engine.rejoin definition inBranch (some (join, arrivals)) = .go join true := by
    rw [Engine.rejoin]
    refine if_neg fun hfew => ?_
    rw [Bool.and_eq_true, decide_eq_true_eq] at hfew
    exact Nat.not_lt.mpr (hmany hfew.1) hfew.2
  rw [sequel, reunite_of_succeeded hall, outcomes_traversals, mergeBranches_traversals, hconv]
  dsimp only
  rw [hrejoin]

end Workflow
