import Workflow.Proofs.Block.Layout
import Workflow.Proofs.Block.Walk

/-!
# Traversals go through blocks

The graph knows nothing of blocks: a traversal goes on from one element to the next, and what brings
it back behind the branches of a parallel block is that each of them ends at the closing gateway,
and that they are as many as flows lead there.

What is shown of a block is stated with what follows it: if the traversal comes to something behind
the block, with what the block leaves to it, then from the entry of the block on it comes to what
the block says and after that to the same thing (`Block.Follows`).  This holds of every kind of
block if it holds of the blocks inside, so it holds of all blocks (`Block.follows`).
-/

namespace Workflow

/-! ## Blocks -/

/-- A traversal goes through a block as the block says: whatever it comes to behind the block, with
some visits left, it comes to from the entry on, with as many visits more as the block has elements
and in branches nested as much more deeply as the block has forks. -/
def Block.Follows (engine : Engine) (definition : Definition) (block : Block) (next : String) :
    Prop :=
  ∀ (inBranch : Bool) (vars : Variables) (visits depth : Nat) (rest : Course),
    ((block.eval engine vars).failure = none → ∀ remaining, visits ≤ remaining →
      engine.Walks definition inBranch depth remaining (block.eval engine vars).vars next rest) →
    ∀ remaining, block.elements.length + visits ≤ remaining →
      engine.Walks definition inBranch (block.elements.countP definition.isFork + depth) remaining
        vars (block.entry next) ((block.eval engine vars).followedBy rest)

/-- A traversal goes through every branch as the branch says. -/
def Branches.Follow (engine : Engine) (definition : Definition) (next : String) :
    Branches → Prop
  | .nil => True
  | .cons _ block more =>
    block.Follows engine definition next ∧ more.Follow engine definition next

namespace Block

variable {engine : Engine} {definition : Definition} {next : String}

theorem empty_follows : Block.empty.Follows engine definition next := by
  intro inBranch vars visits depth rest hrest remaining hremaining
  have h := hrest rfl remaining (by rwa [elements, List.length_nil, Nat.zero_add] at hremaining)
  rw [elements, List.countP_nil, Nat.zero_add]
  exact h

theorem task_follows {id : String} {name : Option String} {kind : TaskKind} {spec : TaskSpec}
    {label : Option String}
    (hsits : (Block.task id name kind spec label).Sits definition next) :
    (Block.task id name kind spec label).Follows engine definition next := by
  intro inBranch vars visits depth rest hrest remaining hremaining
  obtain ⟨remaining, rfl⟩ : ∃ n, remaining = n + 1 := by
    rw [elements, List.length_singleton] at hremaining
    exact ⟨remaining - 1, by omega⟩
  have hmem := List.mem_singleton_self (⟨id, name, .task kind spec⟩ : Element)
  have hfound := hsits.part.found _ hmem
  have hout : definition.outgoing id = [⟨id, next, label⟩] := by
    rw [hsits.part.outgoing _ hmem, flows, List.filter_singleton, beq_self_eq_true]
    rfl
  have henters : definition.awaits inBranch false ⟨id, name, .task kind spec⟩ = false :=
    Engine.enters_of_not_join rfl inBranch false
  rcases hperform : engine.perform ⟨id, name, .task kind spec⟩ spec vars with error | value
  · have hdoes : engine.step definition ⟨id, name, .task kind spec⟩ vars =
        .stop (.failed error) vars := by
      simp only [Engine.step, hperform]
    rw [eval, hperform]
    exact Engine.walks_stop hfound henters hdoes
  · obtain ⟨arc, hdepart, htarget⟩ := Engine.exists_depart_eq_go
      ⟨id, name, .task kind spec⟩ hout (spec.store vars value)
    have hdoes : engine.step definition ⟨id, name, .task kind spec⟩ vars =
        .go arc (spec.store vars value) := by
      simp only [Engine.step, hperform, hdepart]
    rw [eval, hperform] at hrest ⊢
    rw [elements, List.length_singleton] at hremaining
    have hnext := hrest rfl remaining (by omega)
    rw [← show arc.1.target = next from htarget] at hnext
    exact (Engine.walks_go hfound henters hdoes hnext).mono (Nat.le_add_left _ _)

theorem seq_follows {first second : Block}
    (hfirst : first.Follows engine definition (second.entry next))
    (hsecond : second.Follows engine definition next) :
    (Block.seq first second).Follows engine definition next := by
  intro inBranch vars visits depth rest hrest remaining hremaining
  rw [elements, List.length_append] at hremaining
  rw [elements, List.countP_append, entry, eval, Result.followedBy_andThen, Nat.add_assoc]
  refine hfirst inBranch vars (second.elements.length + visits) _ _ ?_ remaining (by omega)
  intro hsuccess remaining hremaining
  refine hsecond inBranch _ visits depth rest ?_ remaining hremaining
  intro hsuccess' remaining hremaining
  rw [eval, Result.andThen_of_success hsuccess] at hrest
  exact hrest hsuccess' remaining hremaining

end Block

/-! ### One of several branches -/

theorem Branches.condition_of_openings {branches : Branches} (hguarded : branches.Guarded)
    {source next : String} {flow : Flow} (h : flow ∈ branches.openings source next) :
    flow.condition.isSome = true := by
  match branches with
  | .nil => cases h
  | .cons guard block more =>
    rcases List.mem_cons.mp h with rfl | h
    · exact hguarded.1
    · exact Branches.condition_of_openings hguarded.2 h

section Exclusive

variable {engine : Engine} {definition : Definition} {source next : String} {vars : Variables}

/-- If no guard holds, no flow is selected. -/
theorem Branches.find?_of_evalFirst_eq_none {branches : Branches}
    (h : branches.evalFirst engine vars = none) {arcs : List Arc}
    (harcs : arcs.map Prod.fst = branches.openings source next) :
    arcs.find? (engine.opens vars) = none := by
  match branches, arcs with
  | .nil, [] => rfl
  | .nil, _ :: _ => cases harcs
  | .cons guard block more, [] => cases harcs
  | .cons guard block more, arc :: arcs =>
    rw [List.map_cons, openings] at harcs
    obtain ⟨hflow, harcs⟩ := List.cons.inj harcs
    rw [evalFirst] at h
    split at h
    · cases h
    · rename_i hguard
      rw [List.find?_cons_of_neg (by rw [Engine.opens, hflow]; exact hguard)]
      exact Branches.find?_of_evalFirst_eq_none h harcs

/-- If a guard holds, the flow with that guard is selected, and behind it the traversal goes through
the branch. -/
theorem Branches.find?_of_evalFirst_eq_some {branches : Branches}
    (hfollow : branches.Follow engine definition next) {result : Result}
    (h : branches.evalFirst engine vars = some result) {arcs : List Arc}
    (harcs : arcs.map Prod.fst = branches.openings source next) :
    ∃ arc, arcs.find? (engine.opens vars) = some arc ∧
      ∀ (inBranch : Bool) (visits depth : Nat) (rest : Course),
        (result.failure = none → ∀ remaining, visits ≤ remaining →
          engine.Walks definition inBranch depth remaining result.vars next rest) →
        ∀ remaining, branches.elements.length + visits ≤ remaining →
          engine.Walks definition inBranch
            (branches.elements.countP definition.isFork + depth) remaining vars arc.1.target
            (result.followedBy rest) := by
  match branches, arcs with
  | .nil, _ => cases h
  | .cons guard block more, [] => cases harcs
  | .cons guard block more, arc :: arcs =>
    rw [List.map_cons, openings] at harcs
    obtain ⟨hflow, harcs⟩ := List.cons.inj harcs
    rw [evalFirst] at h
    rw [elements, List.length_append, List.countP_append]
    split at h
    · rename_i hguard
      obtain rfl := Option.some.inj h
      refine ⟨arc, List.find?_cons_of_pos (by rw [Engine.opens, hflow]; exact hguard), ?_⟩
      intro inBranch visits depth rest hrest remaining hremaining
      rw [hflow]
      exact (hfollow.1 inBranch vars visits depth rest hrest remaining (by omega)).mono (by omega)
    · rename_i hguard
      obtain ⟨arc', hfind, hwalks⟩ :=
        Branches.find?_of_evalFirst_eq_some hfollow.2 h harcs
      refine ⟨arc', ?_, ?_⟩
      · rw [List.find?_cons_of_neg (by rw [Engine.opens, hflow]; exact hguard)]
        exact hfind
      · intro inBranch visits depth rest hrest remaining hremaining
        exact (hwalks inBranch visits depth rest hrest remaining (by omega)).mono (by omega)

theorem Block.exclusive_follows {opening closing : Gate} {branches : Branches}
    (hbetween : Between definition opening.exclusive closing.exclusive none next branches)
    (hguarded : branches.Guarded) (hfollow : branches.Follow engine definition closing.id) :
    (Block.exclusive opening closing branches).Follows engine definition next := by
  intro inBranch vars visits depth rest hrest remaining hremaining
  rw [elements, List.length_cons, List.length_append, List.length_singleton] at hremaining
  obtain ⟨remaining, rfl⟩ : ∃ n, remaining = n + 1 := ⟨remaining - 1, by omega⟩
  have harcs : (definition.exits opening.id).map Prod.fst =
      branches.openings opening.id closing.id :=
    (Definition.map_fst_exits _ _).trans hbetween.opens
  have henters : ∀ gate : Gate, definition.awaits inBranch false gate.exclusive = false :=
    fun gate => Engine.enters_of_not_join rfl inBranch false
  have hselect : engine.select vars (definition.exits opening.id) =
      (definition.exits opening.id).find? (engine.opens vars) := by
    refine Engine.select_of_guarded (fun arc harc => ?_) vars
    exact Branches.condition_of_openings hguarded (harcs ▸ List.mem_map_of_mem harc)
  rw [elements, List.countP_cons, List.countP_append, entry]
  rcases hfirst : branches.evalFirst engine vars with _ | result
  · have hdoes : engine.step definition opening.exclusive vars =
        .stop (.failed (.noMatchingCondition opening.id)) vars := by
      rw [Branches.find?_of_evalFirst_eq_none hfirst harcs] at hselect
      simp only [Engine.step, Gate.exclusive, hselect]
    rw [eval, hfirst]
    exact Engine.walks_stop hbetween.foundOpening (henters opening) hdoes
  · obtain ⟨arc, hfind, hwalks⟩ := Branches.find?_of_evalFirst_eq_some hfollow hfirst harcs
    have hdoes : engine.step definition opening.exclusive vars = .go arc vars := by
      rw [hfind] at hselect
      simp only [Engine.step, Gate.exclusive, hselect]
    rw [eval, hfirst] at hrest ⊢
    dsimp only at hrest ⊢
    rw [Result.followedBy_andThen, Result.followedBy_andThen]
    -- to the opening gateway, through the branch, and from the closing gateway on
    refine (Engine.walks_go hbetween.foundOpening (henters opening) hdoes
      (hwalks inBranch (visits + 1) depth _ ?_ remaining (by omega))).mono (by omega)
    intro hsuccess remaining hremaining
    obtain ⟨remaining, rfl⟩ : ∃ n, remaining = n + 1 := ⟨remaining - 1, by omega⟩
    obtain ⟨back, hback, rfl⟩ :=
      engine.exists_step_exclusive closing hbetween.closes result.vars
    refine Engine.walks_go hbetween.foundClosing (henters closing) hback ?_
    rw [Result.andThen_of_success rfl, Result.andThen_of_success hsuccess] at hrest
    exact hrest rfl remaining (by omega)

end Exclusive

/-! ### Several branches -/

namespace Result

/-- What a branch comes to that goes through a block and then to the closing gateway. -/
def arriving (closing : String) (result : Result) : Course :=
  result.thenEnds (.atJoin closing 1)

variable (closing : String) (result : Result)

theorem error?_arriving : (result.arriving closing).outcome.error? = result.failure := by
  rw [arriving, thenEnds, followedBy]
  split
  · rename_i herror
    exact herror.symm
  · rename_i hnone
    exact hnone.symm

theorem isUnbounded_arriving : (result.arriving closing).outcome.isUnbounded = false := by
  rw [arriving, thenEnds, followedBy]
  split <;> rfl

theorem outcome_arriving {result : Result} (h : result.failure = none) :
    (result.arriving closing).outcome = .atJoin closing 1 := by
  rw [arriving, thenEnds, followedBy_of_success h]

end Result

section Arriving

variable {closing : String} {results : List Result} {trails : List Trail}

/-- What trails say of branches that arrive at a gateway. -/
theorem map_eq_of_courses {α : Type} (h : trails.map Trail.course =
    results.map (Result.arriving closing)) (f : Course → α) :
    trails.map (fun trail => f trail.course) =
      results.map fun result => f (result.arriving closing) := by
  have := congrArg (List.map f) h
  rwa [List.map_map, List.map_map] at this

theorem flatMap_path_of_courses
    (h : trails.map Trail.course = results.map (Result.arriving closing)) :
    trails.flatMap Trail.path = results.flatMap Result.path := by
  have hpaths := map_eq_of_courses h Course.path
  rw [List.flatMap_def, List.flatMap_def]
  refine congrArg List.flatten (hpaths.trans (List.map_congr_left fun result _ => ?_))
  exact result.path_thenEnds (.atJoin closing 1)

theorem mergeTrails_of_courses
    (h : trails.map Trail.course = results.map (Result.arriving closing)) (vars : Variables) :
    mergeTrails vars trails =
      results.foldl (fun merged result => merged.merge result.vars) vars := by
  have hvars := map_eq_of_courses h Course.vars
  simp only [Result.arriving, Result.vars_thenEnds] at hvars
  have hfold := congrArg (List.foldl Table.merge vars) hvars
  rw [List.foldl_map, List.foldl_map] at hfold
  exact hfold

theorem findSome?_error_of_courses
    (h : trails.map Trail.course = results.map (Result.arriving closing)) :
    (trails.map Trail.outcome).findSome? Outcome.error? = results.findSome? Result.failure := by
  have herrors := congrArg (List.findSome? id)
    (map_eq_of_courses h fun course => course.outcome.error?)
  rw [List.findSome?_map, List.findSome?_map] at herrors
  rw [List.findSome?_map]
  refine herrors.trans (congrArg (List.findSome? · results) (funext fun result => ?_))
  exact result.error?_arriving closing

theorem isUnbounded_of_courses
    (h : trails.map Trail.course = results.map (Result.arriving closing)) :
    ∀ trail ∈ trails, trail.outcome.isUnbounded = false := by
  intro trail htrail
  have hmem : trail.course ∈ results.map (Result.arriving closing) :=
    h ▸ List.mem_map_of_mem htrail
  obtain ⟨result, -, hresult⟩ := List.mem_map.mp hmem
  have hbounded := result.isUnbounded_arriving closing
  rw [hresult] at hbounded
  exact hbounded

/-- Branches that all succeed end at the gateway. -/
theorem outcomes_of_courses
    (h : trails.map Trail.course = results.map (Result.arriving closing))
    (hsuccess : ∀ result ∈ results, result.failure = none) :
    trails.map Trail.outcome = List.replicate results.length (.atJoin closing 1) := by
  have houtcomes := map_eq_of_courses h Course.outcome
  rw [← List.map_const']
  exact houtcomes.trans (List.map_congr_left fun result hresult =>
    Result.outcome_arriving closing (hsuccess result hresult))

theorem convergence_replicate (closing : String) (n : Nat) :
    convergence (List.replicate (n + 1) (.atJoin closing 1)) = some (closing, n + 1) := by
  have hcount : ∀ n, (List.replicate n (Outcome.atJoin closing 1)).foldr
      (fun outcome count => outcome.arrivalsAt closing + count) 0 = n := by
    intro n
    induction n with
    | zero => rfl
    | succ n ih =>
      rw [List.replicate_succ, List.foldr_cons, ih, Outcome.arrivalsAt, if_pos rfl, Nat.add_comm]
  have hjoin : (List.replicate (n + 1) (Outcome.atJoin closing 1)).findSome? Outcome.join? =
      some closing := rfl
  rw [convergence, hjoin]
  exact congrArg (fun count => some (closing, count)) (hcount (n + 1))

end Arriving

section Parallel

variable {engine : Engine} {definition : Definition} {source next : String} {vars : Variables}

/-- Branches leave trails that say what the branches come to. -/
theorem Branches.exists_traces {branches : Branches}
    (hfollow : branches.Follow engine definition next)
    (hjoin : ∀ vars remaining,
      engine.Walks definition true 0 remaining vars next ⟨.atJoin next 1, vars, []⟩)
    (hsteps : branches.elements.length ≤ engine.maxSteps) (vars : Variables) {arcs : List Arc}
    (hnodup : arcs.Nodup) (harcs : arcs.map Prod.fst = branches.openings source next) :
    ∃ branch : Arc → Trail,
      (∀ arc ∈ arcs, engine.Traces definition true engine.maxSteps false (some arc) vars
        arc.1.target (branch arc)) ∧
      (arcs.map branch).map Trail.course =
        (branches.evalAll engine vars).map (Result.arriving next) ∧
      ∀ arc ∈ arcs, (branch arc).depth ≤ branches.elements.countP definition.isFork := by
  match branches, arcs with
  | .nil, [] => exact ⟨fun _ => default, nofun, rfl, nofun⟩
  | .nil, _ :: _ => cases harcs
  | .cons guard block more, [] => cases harcs
  | .cons guard block more, arc :: arcs =>
    rw [List.map_cons, openings] at harcs
    obtain ⟨hflow, harcs⟩ := List.cons.inj harcs
    obtain ⟨hnew, hnodup⟩ := List.nodup_cons.mp hnodup
    rw [elements, List.length_append] at hsteps
    rw [elements, List.countP_append]
    obtain ⟨branch, htraces, hcourses, hdepth⟩ :=
      Branches.exists_traces hfollow.2 hjoin (by omega) vars hnodup harcs
    obtain ⟨trail, htrail, hcourse, hdepth'⟩ := hfollow.1 true vars 0 0 _
      (fun _ remaining _ => hjoin _ remaining) engine.maxSteps (by omega) (some arc)
    -- the flows are distinct, so the trail of the first one leaves the other trails as they are
    have hother : ∀ other ∈ arcs, Function.update branch arc trail other = branch other :=
      fun other hmem =>
        Function.update_of_ne (fun heq : other = arc => hnew (heq ▸ hmem)) _ _
    have hthis : Function.update branch arc trail arc = trail := Function.update_self ..
    refine ⟨Function.update branch arc trail, ?_, ?_, ?_⟩
    · intro other hmem
      rcases List.mem_cons.mp hmem with rfl | hmem
      · rw [hthis, hflow]
        exact htrail
      · rw [hother other hmem]
        exact htraces other hmem
    · rw [List.map_cons, List.map_congr_left hother, List.map_cons, hthis, hcourses, hcourse,
        evalAll]
      rfl
    · intro other hmem
      rcases List.mem_cons.mp hmem with rfl | hmem
      · rw [hthis]
        omega
      · rw [hother other hmem]
        exact Nat.le_trans (hdepth other hmem) (Nat.le_add_left _ _)

theorem Branches.length_openings (branches : Branches) (source next : String) :
    (branches.openings source next).length = branches.length := by
  match branches with
  | .nil => rfl
  | .cons guard block more =>
    rw [openings, List.length_cons, Branches.length_openings more, Branches.length]

theorem Branches.length_evalAll (branches : Branches) (engine : Engine) (vars : Variables) :
    (branches.evalAll engine vars).length = branches.length := by
  match branches with
  | .nil => rfl
  | .cons guard block more =>
    rw [evalAll, List.length_cons, Branches.length_evalAll more, Branches.length]

/-- A branch that comes to the closing gateway ends there. -/
theorem walks_to_join {closing : Element} (found : definition.element? closing.id = some closing)
    (hjoin : definition.isJoin closing = true) (vars : Variables) (remaining : Nat) :
    engine.Walks definition true 0 remaining vars closing.id ⟨.atJoin closing.id 1, vars, []⟩ := by
  intro came
  refine ⟨_, .join found ?_, ?_, Trail.depth_halt_le⟩
  · rw [Definition.awaits, hjoin]
    rfl
  · rw [Trail.course, Trail.path_halt]
    rfl

section Gateways

variable {opening closing : Gate} {label : Option String} {branches : Branches}

/-- What the gateways of a parallel block are, in front of the branches and behind them. -/
structure ParallelGateways (definition : Definition) (opening closing : Gate) : Prop where
  /-- several flows leave the opening one -/
  many : 1 < (definition.exits opening.id).length
  /-- the opening one is a fork -/
  fork : definition.isFork opening.parallel = true
  /-- the opening one is no join -/
  enters : definition.isJoin opening.parallel = false
  /-- the closing one is a join -/
  join : definition.isJoin closing.parallel = true

theorem Between.gateways
    (h : Between definition opening.parallel closing.parallel label next branches)
    (hlength : 1 < branches.length) : ParallelGateways definition opening closing := by
  have hout : definition.outgoing opening.parallel.id =
      branches.openings opening.id closing.id := h.opens
  have hmany : 1 < (definition.outgoing opening.parallel.id).length := by
    rw [hout, Branches.length_openings]
    exact hlength
  have henters : definition.isJoin opening.parallel = false := by
    rw [Definition.isJoin, h.enters]
    rfl
  refine ⟨?_, ?_, henters, ?_⟩
  · rw [← Definition.map_fst_exits, List.length_map] at hmany
    exact hmany
  · rw [Definition.isFork, henters, decide_eq_true hmany]
    rfl
  · rw [Definition.isJoin, h.converges, decide_eq_true hlength]
    rfl

theorem eval_parallel_of_failure {error : Error}
    (h : (branches.evalAll engine vars).findSome? Result.failure = some error) :
    (Block.parallel opening closing label branches).eval engine vars =
      ⟨some error, vars, opening.id :: (branches.evalAll engine vars).flatMap Result.path⟩ := by
  rw [Block.eval, h]

theorem eval_parallel_of_success
    (h : (branches.evalAll engine vars).findSome? Result.failure = none) :
    (Block.parallel opening closing label branches).eval engine vars =
      ⟨none, (branches.evalAll engine vars).foldl (fun merged result => merged.merge result.vars)
          vars,
        opening.id :: (branches.evalAll engine vars).flatMap Result.path ++ [closing.id]⟩ := by
  rw [Block.eval, h]

/-- Branches of a parallel block that all succeed bring the traversal to the closing gateway. -/
theorem sequel_of_success {trails : List Trail} (inBranch : Bool)
    (h : Between definition opening.parallel closing.parallel label next branches)
    (hlength : 1 < branches.length)
    (hcourses : trails.map Trail.course =
      (branches.evalAll engine vars).map (Result.arriving closing.id))
    (hsuccess : (branches.evalAll engine vars).findSome? Result.failure = none) :
    sequel definition inBranch vars trails = .resume closing.id
      ((branches.evalAll engine vars).foldl (fun merged result => merged.merge result.vars)
        vars) := by
  have houtcomes := outcomes_of_courses hcourses (List.findSome?_eq_none_iff.mp hsuccess)
  obtain ⟨n, hn⟩ : ∃ n, branches.length = n + 1 := ⟨branches.length - 1, by omega⟩
  rw [Branches.length_evalAll, hn] at houtcomes
  rw [← mergeTrails_of_courses hcourses]
  refine sequel_eq_resume_of_convergence (fun trail htrail => ?_)
    (houtcomes ▸ convergence_replicate closing.id n) fun _ => ?_
  · have hmem := List.mem_map_of_mem (f := Trail.outcome) htrail
    rw [houtcomes] at hmem
    rw [List.eq_of_mem_replicate hmem]
    rfl
  · exact Nat.le_of_eq (h.converges.trans hn)

end Gateways

/-- Behind the branches a traversal goes on through the closing gateway, if all of them succeeded,
and else it fails as the first of them that failed. -/
theorem Block.parallel_follows {opening closing : Gate} {label : Option String}
    {branches : Branches}
    (hbetween : Between definition opening.parallel closing.parallel label next branches)
    (hlength : 1 < branches.length) (hfollow : branches.Follow engine definition closing.id)
    (hsteps : branches.elements.length ≤ engine.maxSteps) :
    (Block.parallel opening closing label branches).Follows engine definition next := by
  intro inBranch vars visits depth rest hrest remaining hremaining came
  rw [elements, List.length_cons, List.length_append, List.length_singleton] at hremaining
  obtain ⟨remaining, rfl⟩ : ∃ n, remaining = n + 2 := ⟨remaining - 2, by omega⟩
  have hgateways := hbetween.gateways hlength
  have henters := Engine.enters_of_not_join hgateways.enters inBranch false
  have hdoes := engine.step_split opening hgateways.many vars
  obtain ⟨branch, htraces, hcourses, hdepth⟩ := Branches.exists_traces hfollow
    (walks_to_join hbetween.foundClosing hgateways.join) hsteps vars
    (definition.nodup_exits opening.id) ((definition.map_fst_exits _).trans hbetween.opens)
  have hdepths : ∀ trail ∈ (definition.exits opening.id).map branch, trail.depth <
      (Block.parallel opening closing label branches).elements.countP definition.isFork + depth := by
    intro trail htrail
    obtain ⟨arc, harc, rfl⟩ := List.mem_map.mp htrail
    have := hdepth arc harc
    rw [elements, List.countP_cons, List.countP_append, hgateways.fork, if_pos rfl]
    omega
  rcases hfailure : (branches.evalAll engine vars).findSome? Result.failure with _ | error
  · rw [eval_parallel_of_success hfailure] at hrest ⊢
    obtain ⟨back, hdepart, hback⟩ := Engine.exists_depart_eq_go closing.parallel hbetween.closes
      ((branches.evalAll engine vars).foldl (fun merged result => merged.merge result.vars) vars)
    rw [← engine.step_parallel closing hbetween.closes] at hdepart
    -- behind the branches the traversal resumes at the closing gateway, which it does not await
    obtain ⟨trail, hgoes, rfl, hle⟩ := hrest rfl remaining (by omega) (some back)
    rw [← show back.1.target = next from hback] at hgoes
    have hresumed : definition.awaits inBranch true closing.parallel = false := by
      rw [Definition.awaits, Bool.not_true, Bool.and_false, Bool.false_and]
    refine ⟨_, .meet hbetween.foundOpening henters hdoes htraces
      (sequel_of_success inBranch hbetween hlength hcourses hfailure)
      (.go hbetween.foundClosing hresumed hdepart hgoes), ?_,
      Trail.depth_visit_le hdepths (Trail.depth_visit_nil_le (by omega))⟩
    rw [Trail.course, Trail.path_visit, flatMap_path_of_courses hcourses, Trail.path_visit,
      Result.followedBy_of_success rfl, List.flatMap_nil, List.nil_append, List.cons_append,
      List.cons_append, List.append_assoc]
    rfl
  · rw [eval_parallel_of_failure hfailure]
    refine ⟨_, .part hbetween.foundOpening henters hdoes htraces
      (sequel_eq_failed (isUnbounded_of_courses hcourses)
        ((findSome?_error_of_courses hcourses).trans hfailure)), ?_,
      Trail.depth_visit_le hdepths Trail.depth_halt_le⟩
    rw [Trail.course, Trail.path_visit, flatMap_path_of_courses hcourses, Trail.path_halt,
      List.append_nil]
    rfl

end Parallel

/-! ### All blocks -/

section All

variable {engine : Engine} {definition : Definition}

mutual

/-- **Blocks are followed.** A traversal goes through every block as the block says. -/
theorem Block.follows (block : Block) {next : String} (hsits : block.Sits definition next)
    (hregular : block.Regular) (hsteps : block.elements.length ≤ engine.maxSteps) :
    block.Follows engine definition next := by
  match block with
  | .empty => exact Block.empty_follows
  | .task .. => exact Block.task_follows hsits
  | .seq first second =>
    rw [Block.elements, List.length_append] at hsteps
    exact Block.seq_follows (first.follows hsits.first hregular.1 (by omega))
      (second.follows hsits.second hregular.2 (by omega))
  | .exclusive opening closing branches =>
    obtain ⟨-, hguarded, hregular⟩ := hregular
    rw [Block.elements, List.length_cons, List.length_append] at hsteps
    exact Block.exclusive_follows hsits.exclusive hguarded
      (branches.follow hsits.exclusive.sit hregular (by omega))
  | .parallel opening closing label branches =>
    rw [Block.elements, List.length_cons, List.length_append] at hsteps
    exact Block.parallel_follows hsits.parallel hregular.1
      (branches.follow hsits.parallel.sit hregular.2 (by omega)) (by omega)

/-- A traversal goes through all branches as the branches say. -/
theorem Branches.follow (branches : Branches) {source next : String}
    (hsit : branches.Sit definition source next) (hregular : branches.Regular)
    (hsteps : branches.elements.length ≤ engine.maxSteps) :
    branches.Follow engine definition next := by
  match branches with
  | .nil => exact trivial
  | .cons guard block more =>
    rw [Branches.elements, List.length_append] at hsteps
    exact ⟨block.follows hsit.block hregular.1 (by omega),
      more.follow hsit.more hregular.2 (by omega)⟩

end

end All

end Workflow
