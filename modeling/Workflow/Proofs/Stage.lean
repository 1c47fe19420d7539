import Workflow.Proofs.History.Tells

/-!
# Stages of traversals

A traversal goes from stage to stage, each with one visit less left to make.  What it comes to is
what the walk on from any of these stages comes to, behind the path that led there.  So what happens
at one stage can be said of the whole traversal.

* `Stage`, `Engine.onward` — how far a traversal has come, and the walk on from there.
* `Engine.Passes` — a traversal comes from one stage to another.
* `Engine.exists_last` — a traversal that fails does so at a stage behind which it does not get.
* `Engine.ForksAt`, `Engine.branchesAt` — a stage at which branches begin, and the branches.
* `Engine.getElem?_branchesAt` — a branch is a walk of its own.
* `Engine.Descends` — the traversals of branches at every depth.
-/

namespace Workflow

/-- How far a traversal has come. -/
structure Stage where
  /-- how deeply branches may still be nested -/
  levels : Nat
  /-- whether it is the traversal of a branch -/
  inBranch : Bool
  /-- how many visits are left -/
  remaining : Nat
  /-- whether it resumes at the join of its own branches -/
  resumed : Bool
  /-- its context -/
  context : Context
  /-- the id that it comes to -/
  id : String
  /-- the time -/
  now : Nat

namespace Stage

/-- The context in which an element is visited. -/
def arrived (stage : Stage) (element : Element) : Context :=
  { stage.context with current := some element.id }

/-- The stage behind a visit. -/
def next (stage : Stage) (element : Element) (visit : Timed Visit) (target : String)
    (resumed : Bool) : Stage :=
  { stage with
    remaining := stage.remaining - 1
    resumed := resumed
    context := { stage.arrived element with vars := visit.value.vars }
    id := target
    now := visit.finish }

end Stage

namespace Engine

variable {engine : Engine} {definition : Definition} {stage : Stage} {element : Element}

/-- The stage at which a traversal begins. -/
def outset (engine : Engine) (levels : Nat) (inBranch : Bool) (context : Context) (id : String)
    (now : Nat) : Stage :=
  ⟨levels, inBranch, engine.maxSteps, false, context, id, now⟩

/-- The walk on from a stage. -/
def onward (engine : Engine) (definition : Definition) (stage : Stage) : Timed Traversal :=
  engine.walk definition stage.inBranch (engine.branching definition stage.levels) stage.remaining
    stage.resumed stage.context stage.id stage.now

theorem onward_outset (engine : Engine) (definition : Definition) (levels : Nat) (inBranch : Bool)
    (context : Context) (id : String) (now : Nat) :
    engine.onward definition (engine.outset levels inBranch context id now) =
      engine.traverse definition levels inBranch context id now := by
  rw [traverse_eq_walk]
  rfl

/-! ## Visits -/

/-- At a stage an element is visited. -/
structure Enters (definition : Definition) (stage : Stage) (element : Element) : Prop where
  /-- it is the element that the traversal comes to -/
  found : definition.element? stage.id = some element
  /-- the traversal does not end in front of it -/
  enters : definition.awaits stage.inBranch stage.resumed element = false
  /-- a visit is left -/
  left : stage.remaining ≠ 0

/-- The visit to an element at a stage. -/
def visitAt (engine : Engine) (definition : Definition) (stage : Stage) (element : Element) :
    Timed Visit :=
  engine.visit definition stage.inBranch (engine.branching definition stage.levels) element
    (stage.arrived element) stage.now

theorem Enters.unique (h : Enters definition stage element) {other : Element}
    (hother : Enters definition stage other) : element = other :=
  Option.some.inj (h.found.symm.trans hother.found)

/-- A visit that ends its traversal. -/
theorem onward_of_stop (h : Enters definition stage element) {outcome : Outcome}
    (hmove : (engine.visitAt definition stage element).value.move = .stop outcome) :
    engine.onward definition stage =
      ⟨⟨outcome, (engine.visitAt definition stage element).value.vars, some element.id,
          element.id :: (engine.visitAt definition stage element).value.path⟩,
        (engine.visitAt definition stage element).finish,
        (stage.now, visiting element stage.context) ::
          (engine.visitAt definition stage element).history⟩ := by
  obtain ⟨levels, inBranch, remaining, resumed, context, id, now⟩ := stage
  obtain ⟨found, enters, left⟩ := h
  obtain ⟨remaining, rfl⟩ := Nat.exists_eq_succ_of_ne_zero left
  rw [onward, walk_of_enters found enters]
  dsimp only [Timed.andThen, Timed.done]
  rw [visitAt] at hmove ⊢
  dsimp only [Stage.arrived] at hmove ⊢
  rw [hmove]
  simp [visiting]

/-- A visit behind which its traversal goes on. -/
theorem onward_of_go (h : Enters definition stage element) {target : String} {resumed : Bool}
    (hmove : (engine.visitAt definition stage element).value.move = .go target resumed) :
    let visit := engine.visitAt definition stage element
    let rest := engine.onward definition (stage.next element visit target resumed)
    engine.onward definition stage =
      ⟨{ rest.value with path := element.id :: (visit.value.path ++ rest.value.path) }, rest.finish,
        (stage.now, visiting element stage.context) :: (visit.history ++ rest.history)⟩ := by
  obtain ⟨levels, inBranch, remaining, resumed', context, id, now⟩ := stage
  obtain ⟨found, enters, left⟩ := h
  obtain ⟨remaining, rfl⟩ := Nat.exists_eq_succ_of_ne_zero left
  intro visit rest
  rw [onward, walk_of_enters found enters]
  dsimp only [Timed.andThen, Timed.done]
  rw [visitAt] at hmove
  dsimp only [Stage.arrived] at hmove
  rw [hmove]
  rfl

/-! ## From stage to stage -/

/-- A traversal comes from a stage to another, and on the way it goes along a path. -/
inductive Passes (engine : Engine) (definition : Definition) :
    Stage → List String → Stage → Prop where
  /-- it is there -/
  | here (stage : Stage) : Passes engine definition stage [] stage
  /-- it visits an element and goes on -/
  | on {stage later : Stage} {element : Element} {target : String} {resumed : Bool}
    {path : List String} (enters : Enters definition stage element)
    (goes : (engine.visitAt definition stage element).value.move = .go target resumed)
    (passes : Passes engine definition
      (stage.next element (engine.visitAt definition stage element) target resumed) path later) :
    Passes engine definition stage
      (element.id :: ((engine.visitAt definition stage element).value.path ++ path)) later

section Passes

variable {later : Stage} {path : List String}

/-- A traversal comes to what the walk on from any of its stages comes to, behind the path that led
there. -/
theorem Passes.value_onward (h : engine.Passes definition stage path later) :
    (engine.onward definition stage).value =
      { (engine.onward definition later).value with
        path := path ++ (engine.onward definition later).value.path } := by
  induction h with
  | here => rfl
  | on enters goes _ ih =>
    rw [onward_of_go enters goes]
    dsimp only
    rw [ih]
    simp

theorem Passes.finish_onward (h : engine.Passes definition stage path later) :
    (engine.onward definition stage).finish = (engine.onward definition later).finish := by
  induction h with
  | here => rfl
  | on enters goes _ ih =>
    rw [onward_of_go enters goes]
    exact ih

/-- What happens behind a stage happens last. -/
theorem Passes.exists_history (h : engine.Passes definition stage path later) :
    ∃ before, (engine.onward definition stage).history =
      before ++ (engine.onward definition later).history := by
  induction h with
  | here => exact ⟨[], rfl⟩
  | @on stage _ element _ _ _ enters goes _ ih =>
    obtain ⟨before, hbefore⟩ := ih
    rw [onward_of_go enters goes]
    dsimp only
    rw [hbefore]
    refine ⟨(stage.now, visiting element stage.context) ::
      ((engine.visitAt definition stage element).history ++ before), ?_⟩
    simp

end Passes

/-! ## Where a traversal fails -/

theorem vars_reunion_of_failed {inBranch : Bool} {gateway : Element} {vars : Variables}
    {branches : List Traversal} {now : Nat} {error : Error}
    (h : (reunion definition inBranch gateway vars branches now).value.move =
      .stop (.failed error)) :
    (reunion definition inBranch gateway vars branches now).value.vars = vars := by
  unfold reunion at h ⊢
  dsimp only at h ⊢
  split at h
  · rfl
  · rfl
  · -- branches that come together end well
    rename_i join merged _
    rcases join with _ | ⟨join, arrivals⟩
    · cases h
    · dsimp only [rejoin, Timed.value_done] at h
      split at h <;> cases h

/-- A visit that fails leaves the variables alone. -/
theorem vars_visitAt_of_failed {error : Error}
    (h : (engine.visitAt definition stage element).value.move = .stop (.failed error)) :
    (engine.visitAt definition stage element).value.vars = stage.context.vars := by
  rw [visitAt, value_visit] at h ⊢
  rcases hstep : engine.step definition element (stage.arrived element).vars with
    ⟨outcome, after⟩ | ⟨arc, after⟩ | arcs
  · rw [hstep] at h
    obtain rfl : outcome = .failed error := Move.stop.inj h
    rcases step_eq_stop hstep with ⟨-, rfl⟩ | ⟨hfinished, -⟩
    · rfl
    · cases hfinished
  · rw [hstep] at h
    cases h
  · rw [hstep] at h
    exact vars_reunion_of_failed h

/-- A traversal that makes no visit keeps its variables. -/
theorem vars_onward_of_not_enters (h : ∀ element, ¬ Enters definition stage element) :
    (engine.onward definition stage).value.vars = stage.context.vars := by
  unfold onward walk
  split
  · rfl
  · rename_i element found
    split
    · rfl
    · rename_i hawaits
      split
      · rfl
      · rename_i remaining hremaining
        refine absurd ⟨found, Bool.eq_false_iff.mpr hawaits, ?_⟩ (h element)
        rw [hremaining]
        exact Nat.succ_ne_zero remaining

/-- A traversal that fails comes to a stage behind which it does not get, and ends with the
variables that it has there. -/
theorem exists_last {error : Error}
    (h : (engine.onward definition stage).value.outcome = .failed error) :
    ∃ path last, engine.Passes definition stage path last ∧
      (∀ path' later, engine.Passes definition last path' later → later = last) ∧
      (engine.onward definition stage).value.vars = last.context.vars := by
  induction hremaining : stage.remaining using Nat.strongRecOn generalizing stage with
  | ind remaining ih =>
    by_cases henters : ∃ element, Enters definition stage element
    · obtain ⟨element, henters⟩ := henters
      rcases hmove : (engine.visitAt definition stage element).value.move with
        outcome | ⟨target, resumed⟩
      · rw [onward_of_stop henters hmove] at h ⊢
        obtain rfl : outcome = .failed error := h
        refine ⟨[], stage, .here stage, ?_, vars_visitAt_of_failed hmove⟩
        intro path' later hpasses
        cases hpasses with
        | here => rfl
        | on enters goes =>
          rw [← henters.unique enters, hmove] at goes
          cases goes
      · have honward := onward_of_go henters hmove
        rw [honward] at h ⊢
        have hless : stage.remaining - 1 < remaining := by
          have := henters.left
          omega
        obtain ⟨path, last, hpasses, hlast, hvars⟩ := ih _ hless h rfl
        exact ⟨_, last, .on henters hmove hpasses, hlast, hvars⟩
    · rw [not_exists] at henters
      refine ⟨[], stage, .here stage, ?_, vars_onward_of_not_enters henters⟩
      intro path' later hpasses
      cases hpasses with
      | here => rfl
      | on enters => exact absurd enters (henters _)

/-! ## Forks -/

/-- At a stage branches begin. -/
structure ForksAt (definition : Definition) (stage : Stage) (gateway : Element) : Prop
    extends Enters definition stage gateway where
  /-- it is a gateway at which they can begin -/
  kind : gateway.kind = .parallelGateway
  /-- several flows lead out of it -/
  many : 1 < (definition.outgoing gateway.id).length

/-- The branches that begin at a stage, as they run side by side. -/
def branchesAt (engine : Engine) (definition : Definition) (stage : Stage) (gateway : Element) :
    List (Timed Traversal) :=
  sideBySide (engine.branching definition stage.levels) (definition.outgoing gateway.id)
    (stage.arrived gateway) stage.now

/-- The stage at which the branch along a flow begins. -/
def branchAt (engine : Engine) (stage : Stage) (gateway : Element) (index : Nat) (flow : Flow) :
    Stage :=
  engine.outset (stage.levels - 1) true ((stage.arrived gateway).fork index) flow.target stage.now

section Fork

variable {gateway : Element} {index : Nat} {flow : Flow}

theorem length_branchesAt (engine : Engine) (definition : Definition) (stage : Stage)
    (gateway : Element) :
    (engine.branchesAt definition stage gateway).length =
      (definition.outgoing gateway.id).length := by
  simp [branchesAt, sideBySide]

theorem visitAt_of_forksAt (h : ForksAt definition stage gateway) :
    engine.visitAt definition stage gateway =
      fork definition stage.inBranch (engine.branching definition stage.levels) gateway
        (definition.outgoing gateway.id) (stage.arrived gateway) stage.now := by
  have hmany := h.many
  rw [visitAt, visit, h.kind]
  dsimp only
  split
  · rename_i houtgoing
    rw [houtgoing]
  · rename_i hfew
    rcases houtgoing : definition.outgoing gateway.id with _ | ⟨first, _ | ⟨second, more⟩⟩
    · simp [houtgoing] at hmany
    · simp [houtgoing] at hmany
    · exact absurd houtgoing (hfew first second more)

/-- Behind the branches the traversal goes on as their reunion says. -/
theorem value_visitAt_of_forksAt (engine : Engine) (h : ForksAt definition stage gateway) :
    ∃ now, (engine.visitAt definition stage gateway).value =
      (reunion definition stage.inBranch gateway stage.context.vars
        ((engine.branchesAt definition stage gateway).map Timed.value) now).value := by
  rw [visitAt_of_forksAt h]
  exact ⟨_, rfl⟩

/-- No branch of a traversal is nested too deeply, unless the traversal is. -/
theorem bounded_branchesAt (h : ForksAt definition stage gateway)
    (hbounded : (engine.onward definition stage).value.outcome ≠ .unbounded) :
    ∀ branch ∈ engine.branchesAt definition stage gateway, branch.value.outcome ≠ .unbounded := by
  intro branch hbranch hcut
  apply hbounded
  obtain ⟨now, hvisit⟩ := value_visitAt_of_forksAt engine h
  have hmove : (engine.visitAt definition stage gateway).value.move = .stop .unbounded := by
    rw [hvisit, reunion, reunite_of_unbounded (List.mem_map_of_mem hbranch) hcut]
    rfl
  rw [onward_of_stop h.toEnters hmove]

theorem levels_ne_zero (h : ForksAt definition stage gateway)
    (hbounded : (engine.onward definition stage).value.outcome ≠ .unbounded) :
    stage.levels ≠ 0 := by
  intro hlevels
  have hpositive : 0 < (engine.branchesAt definition stage gateway).length := by
    rw [length_branchesAt]
    exact Nat.zero_lt_of_lt h.many
  apply bounded_branchesAt h hbounded _ (List.getElem_mem hpositive)
  simp [branchesAt, sideBySide, hlevels, branching, ending]

/-- The branch along a flow is the walk on from the stage at which it begins, whatever the others
come to. -/
theorem getElem?_branchesAt (engine : Engine) (hlevels : stage.levels ≠ 0)
    (leads : (definition.outgoing gateway.id)[index]? = some flow) :
    (engine.branchesAt definition stage gateway)[index]? =
      some (engine.onward definition (engine.branchAt stage gateway index flow)) := by
  obtain ⟨levels, hlevels⟩ := Nat.exists_eq_succ_of_ne_zero hlevels
  rw [branchesAt, sideBySide, List.getElem?_map, List.getElem?_zipIdx, leads, hlevels]
  simp [branchAt, hlevels, onward_outset, branching]

end Fork

/-! ## Branches at every depth -/

/-- From the traversal that begins at a stage, one comes to the traversals of its branches, to those
of their branches, and so on.  At each fork on the way down only some branches are chosen. -/
inductive Descends (engine : Engine) (definition : Definition)
    (chosen : List (Timed Traversal) → Nat → Prop) (root : Stage) : Stage → Prop where
  /-- the traversal itself -/
  | root : Descends engine definition chosen root root
  /-- a branch of one of these traversals -/
  | branch {start stage : Stage} {path : List String} {gateway : Element} {index : Nat}
    {flow : Flow} (descends : Descends engine definition chosen root start)
    (passes : engine.Passes definition start path stage)
    (forks : ForksAt definition stage gateway)
    (leads : (definition.outgoing gateway.id)[index]? = some flow)
    (chooses : chosen (engine.branchesAt definition stage gateway) index) :
    Descends engine definition chosen root (engine.branchAt stage gateway index flow)

/-- Where a traversal is bounded, all branches within it are. -/
theorem Descends.bounded {chosen : List (Timed Traversal) → Nat → Prop} {root start : Stage}
    (h : engine.Descends definition chosen root start)
    (hbounded : (engine.onward definition root).value.outcome ≠ .unbounded) :
    (engine.onward definition start).value.outcome ≠ .unbounded := by
  induction h with
  | root => exact hbounded
  | branch _ passes forks leads _ ih =>
    rw [passes.value_onward] at ih
    apply bounded_branchesAt forks ih
    exact List.mem_of_getElem? (getElem?_branchesAt engine (levels_ne_zero forks ih) leads)

end Engine

end Workflow
