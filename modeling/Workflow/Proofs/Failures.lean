import Workflow.Proofs.Provenance
import Workflow.Proofs.Spans
import Workflow.Proofs.Trail.Reach

/-!
# Where errors come from

A run fails because nothing starts its process, at the limit, or on the error of a visit: of a task
that gives no value, or of a gateway that cannot be left.  Forks hand on the error of a branch as it
is, so the visit may have been in any branch.  That a traversal comes to an id under which there is
no element does not happen in a well-formed process, since flows lead between elements.

* `Engine.Miscarries` — why a task gives no value.
* `Engine.exists_leaves_of_failed` — a run that fails leaves a trail.
* `Engine.Leaves.exists_raises` — where the error of a run comes from.
-/

namespace Workflow

/-! ## Well-formed processes -/

namespace Definition

variable {definition : Definition}

/-- In a well-formed process, flows lead from elements to elements only. -/
theorem WellFormed.mem_ids_of_reaches (h : definition.WellFormed) {id next : String}
    (hid : id ∈ definition.ids) (hreach : definition.Reaches id next) : next ∈ definition.ids := by
  induction hreach with
  | refl => exact hid
  | tail _ hleads =>
    obtain ⟨flow, hflow, -, rfl⟩ := hleads
    exact (h.2 flow hflow).2

end Definition

namespace Engine

variable {engine : Engine} {definition : Definition}

/-! ## The errors of tasks -/

/-- Why the task of an element gives no value, and on which error. -/
inductive Miscarries (engine : Engine) (element : Element) (vars : Variables) : Error → Prop where
  /-- the agent that it names is not there -/
  | unserved {spec : TaskSpec} (task : element.kind.task? = some spec)
    (absent : engine.agent? spec.agent = none) :
    Miscarries engine element vars (.unknownAgent element.id spec.agent)
  /-- the agent has no executor for it -/
  | unassigned {spec : TaskSpec} {agent : Agent} {kind : String}
    (task : element.kind.task? = some spec) (served : engine.agent? spec.agent = some agent)
    (refuses : agent.assign element = .error (.unsupportedTask element.id kind)) :
    Miscarries engine element vars (.unsupportedTask element.id kind)
  /-- the executor fails -/
  | failed {spec : TaskSpec} {agent : Agent} {instructions : String} {executor : Executor}
    {reason : Error} (task : element.kind.task? = some spec)
    (served : engine.agent? spec.agent = some agent)
    (assigned : agent.assign element = .ok (spec, instructions, executor))
    (fails : (executor.execute ⟨instructions, spec.resolve vars, vars⟩).result = .error reason) :
    Miscarries engine element vars (Agent.blame element reason)

theorem exists_of_assign_eq_error {agent : Agent} {element : Element} {error : Error}
    (h : agent.assign element = .error error) :
    ∃ kind, error = .unsupportedTask element.id kind := by
  unfold Agent.assign at h
  split at h
  · split at h
    · cases h
    · cases h
      exact ⟨_, rfl⟩
  · cases h
    exact ⟨_, rfl⟩

/-- A task that gives an error miscarries in one of these ways. -/
theorem Fails.miscarries {element : Element} {vars : Variables} {error : Error}
    (h : engine.Fails error element vars) : engine.Miscarries element vars error := by
  obtain ⟨spec, task, performs⟩ := h
  unfold perform at performs
  rcases served : engine.agent? spec.agent with _ | agent
  · rw [served] at performs
    cases performs
    exact .unserved task served
  rw [served] at performs
  dsimp only at performs
  unfold Agent.perform at performs
  split at performs
  · rename_i refuses
    cases performs
    obtain ⟨kind, rfl⟩ := exists_of_assign_eq_error refuses
    exact .unassigned task served refuses
  · rename_i spec' instructions executor assigned
    obtain rfl : spec' = spec := Option.some.inj ((assign_eq_ok assigned).symm.trans task)
    rcases fails : (executor.execute ⟨instructions, spec'.resolve vars, vars⟩).result with
      reason | value
    · rw [fails] at performs
      cases performs
      exact .failed task served assigned fails
    · rw [fails] at performs
      cases performs

/-- The error of a task is always one of a task, whatever its executor said. -/
theorem Miscarries.isOfTask {element : Element} {vars : Variables} {error : Error}
    (h : engine.Miscarries element vars error) : error.isOfTask = true := by
  cases h with
  | unserved => rfl
  | unassigned => rfl
  | failed =>
    unfold Agent.blame
    split <;> rfl

/-! ## The errors of runs -/

theorem mem_ids_of_start {start : Element} (h : definition.start = .ok start) :
    start.id ∈ definition.ids := by
  have hstart := List.mem_of_mem_head? (Definition.head?_starts h)
  exact List.mem_map_of_mem (List.mem_filter.mp hstart).1

theorem start_eq_error {error : Error} (h : definition.start = .error error) :
    definition.starts = [] ∧ error = .malformedProcess (.noStart definition.id) := by
  unfold Definition.start at h
  split at h
  · cases h
  · rename_i hstarts
    cases h
    exact ⟨hstarts, rfl⟩

section Run

variable {levels : Nat} {context : Context} {now : Nat} {trail : Trail} {error : Error}

/-- A run that fails leaves a trail. -/
theorem exists_leaves_of_failed
    (h : (engine.runThrough definition levels context now).value.1 = .failed error) :
    ∃ trail, engine.Leaves definition context trail ∧ trail.outcome = .failed error ∧
      (engine.runThrough definition levels context now).value.2 =
        context.after (trail.traversal context.current) := by
  have hbounded : (engine.runThrough definition levels context now).value.1 ≠ .unbounded := by
    rw [h]
    nofun
  obtain ⟨trail, hleaves, hdepth⟩ := exists_leaves hbounded
  have hvalue := hleaves.value_runThrough hdepth now
  rw [hvalue] at h ⊢
  exact ⟨trail, hleaves, Outcome.eq_failed_of_completion h, rfl⟩

/-- A run through a well-formed process fails because nothing starts the process, at the limit, or
on the error of a visit. -/
theorem Leaves.exists_raises (hwell : definition.WellFormed)
    (h : engine.Leaves definition context trail) (hfailed : trail.outcome = .failed error) :
    (definition.starts = [] ∧ error = .malformedProcess (.noStart definition.id)) ∨
      error = .stepLimitExceeded engine.maxSteps ∨
      ∃ station ∈ trail.stations, engine.Raises error station.element station.vars := by
  cases h with
  | nothing unstarted =>
    obtain rfl := Outcome.failed.inj hfailed
    exact Or.inl (start_eq_error unstarted)
  | traces starts goes =>
    rcases goes.exists_raises hfailed with ⟨missing, hreach, habsent, -⟩ | hraises
    · -- flows lead between elements
      have hmissing := hwell.mem_ids_of_reaches (mem_ids_of_start starts) hreach
      obtain ⟨element, hfound⟩ := Definition.exists_element?_of_mem_ids hmissing
      rw [habsent] at hfound
      cases hfound
    · exact Or.inr hraises

end Run

end Engine

end Workflow
