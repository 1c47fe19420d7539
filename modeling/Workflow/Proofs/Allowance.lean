import Workflow.Proofs.History.Tells

/-!
# What a traversal is allowed

A traversal may visit only so many elements, and branches may be nested only up to so many levels.
Where one of these bounds is come to, a traversal ends on that account; where it ends otherwise, the
bounds were of no consequence.  So as long as a way to end does not tell of a bound, lifting the
bound does not change a traversal that ends in this way, nor what it says and when.

The levels are only a means to define traversals.  A run is given as many of them as it needs, so
every level at which it is not cut off shows what the run is.

* `Extends` — a way to traverse branches does the same as another one, wherever that ends in one of
  several ways.
* `Engine.walk_eq_of_extends`, `Engine.traverse_extends` — with more visits or more levels the same
  traversals end in the same way.
* `Engine.runOn_eq`, `Engine.run_eq_runThrough` — a run is the run through so many levels, if they
  suffice.
* `Engine.exists_leaves_iff` — a run is cut off only if its branches are nested without bound.
-/

namespace Workflow

/-- The same engine with another limit. -/
def Engine.limited (engine : Engine) (limit : Nat) : Engine :=
  { engine with maxSteps := limit }

/-! ## Ways to end -/

/-- Wherever a way to traverse branches ends in one of several ways, another one does the same. -/
def Extends (ends : Outcome → Prop) (other branch : BranchTraversal) : Prop :=
  ∀ context id now, ends (branch context id now).value.outcome →
    other context id now = branch context id now

/-- A bound is lifted, unless coming to it is one of several ways to end; then it is kept. -/
structure Lifts (ends : Outcome → Prop) (cut : Outcome) (bound lifted : Nat) : Prop where
  /-- it is not lowered -/
  le : bound ≤ lifted
  /-- it is the same if coming to it counts -/
  eq : ends cut → lifted = bound

namespace Lifts

variable {ends : Outcome → Prop} {cut : Outcome} {bound lifted : Nat}

theorem of_le (h : bound ≤ lifted) (hcut : ¬ ends cut) : Lifts ends cut bound lifted :=
  ⟨h, fun hends => absurd hends hcut⟩

theorem refl (ends : Outcome → Prop) (cut : Outcome) (bound : Nat) : Lifts ends cut bound bound :=
  ⟨Nat.le_refl bound, fun _ => rfl⟩

/-- Below a bound that is not zero a lifted one is not zero either. -/
theorem exists_succ (h : Lifts ends cut (bound + 1) lifted) :
    ∃ less, lifted = less + 1 ∧ Lifts ends cut bound less := by
  obtain ⟨less, rfl⟩ := Nat.exists_eq_succ_of_ne_zero (Nat.ne_zero_of_lt h.le)
  exact ⟨less, rfl, Nat.le_of_succ_le_succ h.le, fun hends => Nat.succ.inj (h.eq hends)⟩

end Lifts

/-- A traversal goes on, or it ends in one of several ways. -/
def Move.Proceeds (ends : Outcome → Prop) : Move → Prop
  | .stop outcome => ends outcome
  | .go _ _ => True

/-- Ways to end in one of which every branch of a fork ends, unless the fork ends in another one. -/
def Inherited (ends : Outcome → Prop) : Prop :=
  ∀ (definition : Definition) (inBranch : Bool) (gateway : Element) (vars : Variables)
    (branches : List Traversal) (now : Nat),
    (Engine.reunion definition inBranch gateway vars branches now).value.move.Proceeds ends →
    ∀ branch ∈ branches, ends branch.outcome

/-- Behind branches a traversal goes on or ends well only if they all ended well. -/
theorem inherited_succeeded : Inherited fun outcome => outcome.succeeded = true := by
  intro definition inBranch gateway vars branches now h
  unfold Engine.reunion at h
  dsimp only at h
  split at h
  · cases h
  · cases h
  · rename_i hreunite
    exact succeeded_of_reunite hreunite

/-- Where a branch is cut off for its nesting, so is all that is around it. -/
theorem inherited_bounded : Inherited fun outcome => outcome ≠ .unbounded := by
  intro definition inBranch gateway vars branches now h branch hbranch hcut
  unfold Engine.reunion at h
  dsimp only at h
  rw [reunite_of_unbounded hbranch hcut] at h
  exact h rfl

namespace Engine

variable {engine : Engine} {definition : Definition} {ends : Outcome → Prop} {limit : Nat}

/-! ## Visits -/

section Visit

variable {inBranch : Bool} {branch other : BranchTraversal} {context : Context} {now : Nat}

theorem fork_eq_of_extends (hends : Inherited ends) (hother : Extends ends other branch)
    {gateway : Element} {flows : List Flow}
    (h : (fork definition inBranch branch gateway flows context now).value.move.Proceeds ends) :
    fork definition inBranch other gateway flows context now =
      fork definition inBranch branch gateway flows context now := by
  have hall : sideBySide other flows context now = sideBySide branch flows context now := by
    refine List.map_congr_left fun entry hentry => hother _ _ _ ?_
    exact hends _ _ _ _ _ _ h _ (List.mem_map_of_mem (List.mem_map_of_mem hentry))
  rw [fork_eq_andThen, fork_eq_andThen]
  dsimp only [Timed.andThen, Timed.done]
  rw [hall]

/-- A visit is the same if its branches are, or if it has none; its engine's limit does not matter.
-/
theorem visit_eq_of_extends (hends : Inherited ends) (hother : Extends ends other branch)
    (limit : Nat) {element : Element}
    (h : (engine.visit definition inBranch branch element context now).value.move.Proceeds ends) :
    (engine.limited limit).visit definition inBranch other element context now =
      engine.visit definition inBranch branch element context now := by
  unfold visit at h ⊢
  rcases hkind : element.kind with _ | _ | ⟨kind, spec⟩ | _ | _
  case parallelGateway =>
    rw [hkind] at h
    dsimp only at h ⊢
    split at h
    · exact fork_eq_of_extends hends hother h
    · rfl
  all_goals rfl

end Visit

/-! ## Walks -/

section Walk

variable {inBranch resumed : Bool} {branch other : BranchTraversal} {remaining more : Nat}
  {context : Context} {id : String} {now : Nat} {element : Element}

/-- A walk that comes to no element does not depend on the visits left. -/
theorem walk_limited_of_missing (absent : definition.element? id = none) :
    (engine.limited limit).walk definition inBranch other more resumed context id now =
      engine.walk definition inBranch branch remaining resumed context id now := by
  rw [walk_of_missing absent, walk_of_missing absent]

/-- Neither does one that ends in front of a join, so bounds matter only where a walk comes to an
element that it is to visit. -/
theorem walk_limited_of_enters
    (h : ∀ element, definition.element? id = some element →
      definition.awaits inBranch resumed element = false →
      (engine.limited limit).walk definition inBranch other more resumed context id now =
        engine.walk definition inBranch branch remaining resumed context id now) :
    (engine.limited limit).walk definition inBranch other more resumed context id now =
      engine.walk definition inBranch branch remaining resumed context id now := by
  rcases hfound : definition.element? id with _ | element
  · exact walk_limited_of_missing hfound
  rcases hawaits : definition.awaits inBranch resumed element
  · exact h element hfound hawaits
  · rw [walk_of_awaits hfound hawaits, walk_of_awaits hfound hawaits]

/-- A walk that ends in one of several ways is the same with other bounds, if these are not lower
and those to which it may come are kept. -/
theorem walk_eq_of_extends (hends : Inherited ends) (hother : Extends ends other branch)
    (hlimit : Lifts ends (.failed (.stepLimitExceeded engine.maxSteps)) engine.maxSteps limit)
    (hmore : Lifts ends (.failed (.stepLimitExceeded engine.maxSteps)) remaining more)
    (h : ends (engine.walk definition inBranch branch remaining resumed context id
      now).value.outcome) :
    (engine.limited limit).walk definition inBranch other more resumed context id now =
      engine.walk definition inBranch branch remaining resumed context id now := by
  induction remaining generalizing more resumed context id now with
  | zero =>
    refine walk_limited_of_enters fun element found enters => ?_
    -- to come to the limit is one of the ways to end, so the limit is kept
    rw [walk_of_limit found enters] at h
    obtain rfl := hlimit.eq h
    obtain rfl := hmore.eq h
    rw [walk_of_limit found enters, walk_of_limit found enters]
    rfl
  | succ remaining ih =>
    refine walk_limited_of_enters fun element found enters => ?_
    obtain ⟨more, rfl, hless⟩ := hmore.exists_succ
    rw [walk_of_enters found enters] at h ⊢
    rw [walk_of_enters found enters]
    dsimp only [Timed.andThen, Timed.done] at h ⊢
    rcases hmove : (engine.visit definition inBranch branch element
        { context with current := some element.id } now).value.move with outcome | ⟨next, resumes⟩
    · rw [hmove] at h
      have hvisit := visit_eq_of_extends hends hother limit (by rw [hmove]; exact h)
      rw [hvisit, hmove]
    · rw [hmove] at h
      have hvisit := visit_eq_of_extends hends hother limit (by rw [hmove]; trivial)
      have hrest := ih hless h
      rw [hvisit, hmove]
      dsimp only
      rw [hrest]

end Walk

/-! ## Traversals -/

section Traverse

variable {levels deeper : Nat}

/-- A traversal that ends in one of several ways is the same with other bounds, if these are not
lower and those to which it may come are kept. -/
theorem traverse_extends (hends : Inherited ends)
    (hlimit : Lifts ends (.failed (.stepLimitExceeded engine.maxSteps)) engine.maxSteps limit)
    (hlevels : Lifts ends .unbounded levels deeper) (inBranch : Bool) :
    Extends ends ((engine.limited limit).traverse definition deeper inBranch)
      (engine.traverse definition levels inBranch) := by
  induction levels generalizing deeper inBranch with
  | zero =>
    intro context id now h
    rw [traverse_eq_walk] at h
    rw [traverse_eq_walk, traverse_eq_walk]
    refine walk_eq_of_extends hends (fun context id now hcut => ?_) hlimit hlimit h
    -- branches end unbounded at once, and if that counts, they do so with the other bound
    obtain rfl := hlevels.eq hcut
    rfl
  | succ levels ih =>
    intro context id now h
    obtain ⟨deeper, rfl, hdeeper⟩ := hlevels.exists_succ
    rw [traverse_eq_walk] at h
    rw [traverse_eq_walk, traverse_eq_walk]
    exact walk_eq_of_extends hends (ih hdeeper true) hlimit hlimit h

end Traverse

/-! ## Runs of bounded depth -/

section Run

variable {levels deeper : Nat} {context : Context} {now : Nat}

/-- A run is the same with other bounds if its traversal is. -/
theorem runThrough_eq_of_traverse_eq (limit : Nat) (h : ∀ start, definition.start = .ok start →
      (engine.limited limit).traverse definition deeper false context start.id now =
        engine.traverse definition levels false context start.id now) :
    (engine.limited limit).runThrough definition deeper context now =
      engine.runThrough definition levels context now := by
  unfold runThrough
  split
  · rfl
  · rename_i start hstart
    unfold runFrom
    dsimp only [Timed.andThen, Timed.done]
    rw [h start hstart]

/-- A run that was not cut off for its nesting is the same if branches may be nested more deeply. -/
theorem runThrough_eq_of_le
    (hbounded : (engine.runThrough definition levels context now).value.1 ≠ .unbounded)
    (hdeeper : levels ≤ deeper) :
    engine.runThrough definition deeper context now =
      engine.runThrough definition levels context now := by
  refine runThrough_eq_of_traverse_eq engine.maxSteps fun start hstart => ?_
  exact traverse_extends inherited_bounded (.refl _ _ _) (.of_le hdeeper fun h => h rfl) false _ _ _
    (bounded_traverse hstart hbounded)

/-- All runs that are not cut off for their nesting are one and the same. -/
theorem runThrough_eq_runThrough
    (hbounded : (engine.runThrough definition levels context now).value.1 ≠ .unbounded)
    (hbounded' : (engine.runThrough definition deeper context now).value.1 ≠ .unbounded) :
    engine.runThrough definition deeper context now =
      engine.runThrough definition levels context now := by
  rcases Nat.le_total levels deeper with hle | hle
  · exact runThrough_eq_of_le hbounded hle
  · exact (runThrough_eq_of_le hbounded' hle).symm

/-! ## Runs as deep as they come to be -/

/-- The search for levels that suffice ends if these do, and else it begins anew. -/
theorem sufficientLevels_eq (engine : Engine) (definition : Definition) (context : Context)
    (now levels : Nat) :
    engine.sufficientLevels definition context now levels =
      if (engine.runThrough definition levels context now).value.1 = .unbounded then
        engine.sufficientLevels definition context now (2 * levels)
      else levels := by
  refine (repeatM_eq_of_monadTail levels).trans ?_
  by_cases hcut : (engine.runThrough definition levels context now).value.1 = .unbounded
  · simp only [repeatM.body, hcut, if_true, pure_bind]
    rfl
  · simp only [repeatM.body, hcut, if_false, pure_bind]
    rfl

/-- If any number of levels suffices, such a number is found. -/
theorem bounded_sufficientLevels (hlevels : 0 < levels)
    (hbounded : (engine.runThrough definition deeper context now).value.1 ≠ .unbounded) :
    (engine.runThrough definition (engine.sufficientLevels definition context now levels) context
      now).value.1 ≠ .unbounded := by
  -- the levels that are missing become fewer
  induction hmissing : deeper - levels using Nat.strongRecOn generalizing levels with
  | ind missing ih =>
    rw [sufficientLevels_eq]
    split
    · rename_i hcut
      have hless : levels < deeper := by
        by_contra hle
        rw [runThrough_eq_of_le hbounded (Nat.le_of_not_lt hle)] at hcut
        exact hbounded hcut
      exact ih (deeper - 2 * levels) (by omega) (by omega) rfl
    · assumption

/-- A run is one of the runs of bounded depth. -/
theorem exists_runOn_eq (engine : Engine) (definition : Definition) (context : Context)
    (now : Nat) :
    ∃ levels, engine.runOn definition context now =
      engine.runThrough definition levels context now := by
  unfold runOn
  dsimp only
  split
  · exact ⟨_, rfl⟩
  · exact ⟨_, rfl⟩

/-- A run is cut off only if it would be nested more deeply than any number of levels allows. -/
theorem bounded_runOn
    (hbounded : (engine.runThrough definition levels context now).value.1 ≠ .unbounded) :
    (engine.runOn definition context now).value.1 ≠ .unbounded := by
  unfold runOn
  dsimp only
  split
  · exact bounded_sufficientLevels (by unfold Definition.nesting; omega) hbounded
  · assumption

/-- A run is the run through so many levels, if they suffice. -/
theorem runOn_eq
    (hbounded : (engine.runThrough definition levels context now).value.1 ≠ .unbounded) :
    engine.runOn definition context now = engine.runThrough definition levels context now := by
  have hrun := bounded_runOn hbounded
  obtain ⟨found, hfound⟩ := exists_runOn_eq engine definition context now
  rw [hfound] at hrun ⊢
  exact runThrough_eq_runThrough hbounded hrun

/-- A relation between runs, perhaps of two processes on two engines, holds of them if it holds at
every depth and does not relate a run that was cut off to one that was not. -/
theorem runOn_related {other : Engine} {definition' : Definition}
    (alike : Timed (Completion × Context) → Timed (Completion × Context) → Prop)
    (hcut : ∀ run run', alike run run' → (run.value.1 = .unbounded ↔ run'.value.1 = .unbounded))
    (hnesting : definition.nesting = definition'.nesting)
    (h : ∀ levels, alike (engine.runThrough definition levels context now)
      (other.runThrough definition' levels context now)) :
    alike (engine.runOn definition context now) (other.runOn definition' context now) := by
  have hcut' := fun levels => propext (hcut _ _ (h levels))
  -- the searches go by the same answers, so they find the same levels, or neither ends
  have hlevels : engine.sufficientLevels definition context now =
      other.sufficientLevels definition' context now := by
    funext levels
    unfold sufficientLevels
    simp only [hcut']
  unfold runOn
  dsimp only
  simp only [hlevels, hcut', hnesting]
  split
  · exact h _
  · exact h _

theorem run_eq_runOn (hprocess : engine.process? context.processId = some definition) (now : Nat) :
    engine.run context now = engine.runOn definition context now := by
  rw [run, hprocess]

/-- A run is the run through so many levels of its process, if they suffice. -/
theorem run_eq_runThrough (hprocess : engine.process? context.processId = some definition)
    (hbounded : (engine.runThrough definition levels context now).value.1 ≠ .unbounded) :
    engine.run context now = engine.runThrough definition levels context now := by
  rw [run_eq_runOn hprocess, runOn_eq hbounded]

/-! ## Runs that leave trails -/

variable {trail : Trail}

theorem Leaves.outcome_ne_unbounded (h : engine.Leaves definition context trail) :
    trail.outcome ≠ .unbounded := by
  cases h with
  | nothing => nofun
  | traces _ goes => exact goes.outcome_ne_unbounded

/-- A run that leaves a trail is not cut off if it may be nested as deeply as the trail is. -/
theorem Leaves.bounded (h : engine.Leaves definition context trail) (hdepth : trail.depth ≤ levels)
    (now : Nat) : (engine.runThrough definition levels context now).value.1 ≠ .unbounded := by
  rw [h.value_runThrough hdepth]
  exact completion_ne_unbounded h.outcome_ne_unbounded

theorem Leaves.run_eq (h : engine.Leaves definition context trail)
    (hprocess : engine.process? context.processId = some definition) (hdepth : trail.depth ≤ levels)
    (now : Nat) : engine.run context now = engine.runThrough definition levels context now :=
  run_eq_runThrough hprocess (h.bounded hdepth now)

/-- A run that leaves a trail comes to what the trail says. -/
theorem RunTraces.value_run (h : engine.RunTraces definition context trail) (now : Nat) :
    (engine.run context now).value =
      (trail.outcome.completion, context.after (trail.traversal context.current)) := by
  obtain ⟨start, hstart, htraces⟩ := h.traces
  have hleaves : engine.Leaves definition context trail := .traces hstart htraces
  rw [hleaves.run_eq h.process (Nat.le_refl _), hleaves.value_runThrough (Nat.le_refl _)]

/-- **Runs end where they can.** A run is not cut off just when it leaves a trail, and a trail is
finite: so it is cut off only if its branches would be nested without bound. -/
theorem exists_leaves_iff :
    (∃ trail, engine.Leaves definition context trail) ↔
      (engine.runOn definition context now).value.1 ≠ .unbounded := by
  constructor
  · rintro ⟨trail, hleaves⟩
    exact bounded_runOn (hleaves.bounded (Nat.le_refl _) now)
  · intro hbounded
    obtain ⟨levels, hrun⟩ := exists_runOn_eq engine definition context now
    rw [hrun] at hbounded
    obtain ⟨trail, hleaves, -⟩ := exists_leaves hbounded
    exact ⟨trail, hleaves⟩

end Run

end Engine

/-! ## A loop through a fork

A fork lies on a cycle, which a guard leaves when the cycle was gone round five times.  Its branches
are nested in each other, more deeply than there are forks. -/

namespace Rounds

/-- One branch of the fork counts and comes back while it has not counted far enough. -/
def process : Definition where
  id := "rounds"
  name := none
  elements := [⟨"start", none, .startEvent⟩, ⟨"again", none, .exclusiveGateway⟩,
    ⟨"fork", none, .parallelGateway⟩,
    ⟨"count", none, .task .service { TaskSpec.of "clerk" with output := some "rounds" }⟩,
    ⟨"check", none, .exclusiveGateway⟩, ⟨"aside", none, .endEvent⟩, ⟨"end", none, .endEvent⟩]
  flows := [⟨"start", "again", none⟩, ⟨"again", "fork", none⟩, ⟨"fork", "count", none⟩,
    ⟨"fork", "aside", none⟩, ⟨"count", "check", none⟩, ⟨"check", "end", some "enough"⟩,
    ⟨"check", "again", some "else"⟩]

/-- How many rounds are counted in variables. -/
def counted (vars : Variables) : Int :=
  match vars.get? "rounds" with
  | some (.int rounds) => rounds
  | _ => 0

/-- Counts on. -/
def counting : Executor where
  name := "counting"
  execute request := .now (.ok (.int (counted request.vars + 1)))

/-- An engine with an agent for the task. Five rounds are enough. -/
def engine : Engine where
  maxSteps := 10
  evaluator guard vars := guard == "else" || counted vars == 5
  sink := .null
  agents := [("clerk", ⟨some counting, none, none, .null⟩)]
  processes := [("rounds", process)]

/-- The beginning of the run. -/
def context : Context :=
  .start "rounds" ⟨"i"⟩ []

example : (engine.runThrough process process.nesting context 0).value.1 = .unbounded := by
  decide +kernel

example : (engine.run context 0).value.1 = .completed := by
  have hbounded : (engine.runThrough process 5 context 0).value.1 ≠ .unbounded := by decide +kernel
  rw [Engine.run_eq_runThrough rfl hbounded]
  decide +kernel

end Rounds

end Workflow
