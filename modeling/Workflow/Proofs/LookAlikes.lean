import Mathlib.Data.List.Basic
import Workflow.Proofs.Allowance

/-!
# Definitions that look alike

A run does not read all that a definition says.  It looks up elements by their ids, counts the flows
into a join, and asks where the flows out of an element lead; only at an exclusive gateway does it
look at a flow itself.  Two definitions that agree in these things look alike to every run.

* `Definition.LooksLike` — what two definitions have to agree in.
* `Definition.LooksLike.visit_eq`, `walk_eq`, `traverse_eq` — no visit and no traversal, at whatever
  depth, tells them apart.
* `Definition.LooksLike.runThrough_eq`, `run_load_eq` — neither does a run, and not only in what it
  comes to: it also says and reports the same at the same times.
-/

namespace Workflow

/-- Another definition looks like this one to a run. -/
structure Definition.LooksLike (definition other : Definition) : Prop where
  /-- the processes have the same id -/
  id : other.id = definition.id
  /-- they have the same elements, in some order -/
  elements : other.elements.Perm definition.elements
  /-- under each id the same element is found -/
  element? : ∀ id, other.element? id = definition.element? id
  /-- they start with the same element -/
  first : other.starts.head? = definition.starts.head?
  /-- as many flows lead to each element -/
  incoming : ∀ id, (other.incoming id).length = (definition.incoming id).length
  /-- the flows out of each element lead to the same elements, in the same order -/
  targets : ∀ id, (other.outgoing id).map Flow.target = (definition.outgoing id).map Flow.target
  /-- those out of an exclusive gateway also have the same guards -/
  guards : ∀ element ∈ definition.elements, element.kind = .exclusiveGateway →
    other.outgoing element.id = definition.outgoing element.id

namespace Definition.LooksLike

variable {definition other : Definition}

/-! ## Visits -/

theorem length_outgoing (h : definition.LooksLike other) (id : String) :
    (other.outgoing id).length = (definition.outgoing id).length := by
  have htargets := congrArg List.length (h.targets id)
  rwa [List.length_map, List.length_map] at htargets

theorem isJoin_eq (h : definition.LooksLike other) (element : Element) :
    other.isJoin element = definition.isJoin element := by
  rw [isJoin, isJoin, h.incoming]

theorem isFork_eq (h : definition.LooksLike other) (element : Element) :
    other.isFork element = definition.isFork element := by
  rw [isFork, isFork, h.length_outgoing, h.isJoin_eq]

theorem leave_eq (h : definition.LooksLike other) (element : Element) (vars : Variables)
    (now : Nat) :
    Engine.leave other element vars now = Engine.leave definition element vars now := by
  have htargets := h.targets element.id
  unfold Engine.leave
  rcases houtgoing : definition.outgoing element.id with _ | ⟨first, more⟩
  · rw [houtgoing, List.map_nil, List.map_eq_nil_iff] at htargets
    rw [htargets]
  · -- only the target of the first flow counts
    rw [houtgoing, List.map_cons, List.map_eq_cons_iff] at htargets
    obtain ⟨other, others, hother, htarget, -⟩ := htargets
    rw [hother]
    dsimp only
    rw [htarget]

theorem choose_eq (h : definition.LooksLike other) (engine : Engine) {gateway : Element}
    (hmem : gateway ∈ definition.elements) (hkind : gateway.kind = .exclusiveGateway)
    (vars : Variables) (now : Nat) :
    engine.choose other gateway vars now = engine.choose definition gateway vars now := by
  unfold Engine.choose
  rw [h.guards gateway hmem hkind]

theorem rejoin_eq (h : definition.LooksLike other) (inBranch : Bool)
    (converged : Option (String × Nat)) :
    Engine.rejoin other inBranch converged = Engine.rejoin definition inBranch converged := by
  unfold Engine.rejoin
  rcases converged with _ | ⟨join, arrivals⟩
  · rfl
  · dsimp only
    rw [h.incoming]

theorem reunion_eq (h : definition.LooksLike other) (inBranch : Bool) (gateway : Element)
    (vars : Variables) (branches : List Traversal) (now : Nat) :
    Engine.reunion other inBranch gateway vars branches now =
      Engine.reunion definition inBranch gateway vars branches now := by
  unfold Engine.reunion
  simp only [h.rejoin_eq]

/-- The branches of a fork depend on its flows only by where they lead. -/
theorem sideBySide_eq {branch : BranchTraversal} {flows flows' : List Flow}
    (h : flows'.map Flow.target = flows.map Flow.target) (context : Context) (now : Nat) :
    Engine.sideBySide branch flows' context now = Engine.sideBySide branch flows context now := by
  have htargets : ∀ flows : List Flow, Engine.sideBySide branch flows context now =
      (flows.map Flow.target).zipIdx.map fun (target, index) =>
        branch (context.fork index) target now := by
    intro flows
    rw [List.zipIdx_map, List.map_map]
    rfl
  rw [htargets, htargets, h]

theorem fork_eq (h : definition.LooksLike other) (inBranch : Bool) (branch : BranchTraversal)
    (gateway : Element) (context : Context) (now : Nat) :
    Engine.fork other inBranch branch gateway (other.outgoing gateway.id) context now =
      Engine.fork definition inBranch branch gateway (definition.outgoing gateway.id) context
        now := by
  rw [Engine.fork_eq_andThen, Engine.fork_eq_andThen, Engine.forking, Engine.forking,
    h.length_outgoing]
  simp only [sideBySide_eq (h.targets gateway.id), h.reunion_eq]

/-- A parallel gateway is a fork if several flows leave it. -/
theorem visit_of_parallel (definition : Definition) (engine : Engine) (inBranch : Bool)
    (branch : BranchTraversal) {element : Element} (hkind : element.kind = .parallelGateway)
    (context : Context) (now : Nat) :
    engine.visit definition inBranch branch element context now =
      if 1 < (definition.outgoing element.id).length then
        Engine.fork definition inBranch branch element (definition.outgoing element.id) context now
      else Engine.leave definition element context.vars now := by
  unfold Engine.visit
  rw [hkind]
  dsimp only
  rcases definition.outgoing element.id with _ | ⟨first, _ | ⟨second, more⟩⟩
  · rfl
  · rfl
  · rw [if_pos (by simp)]

/-- No visit tells the definitions apart. -/
theorem visit_eq (h : definition.LooksLike other) (engine : Engine) (inBranch : Bool)
    (branch : BranchTraversal) {element : Element} (hmem : element ∈ definition.elements)
    (context : Context) (now : Nat) :
    engine.visit other inBranch branch element context now =
      engine.visit definition inBranch branch element context now := by
  rcases hkind : element.kind with _ | _ | ⟨kind, spec⟩ | _ | _
  case parallelGateway =>
    rw [visit_of_parallel other engine inBranch branch hkind,
      visit_of_parallel definition engine inBranch branch hkind, h.length_outgoing, h.fork_eq,
      h.leave_eq]
  all_goals unfold Engine.visit
  case startEvent =>
    rw [hkind]
    exact h.leave_eq element context.vars now
  case endEvent => rw [hkind]
  case task =>
    rw [hkind]
    simp only [h.leave_eq]
  case exclusiveGateway =>
    rw [hkind]
    exact h.choose_eq engine hmem hkind context.vars now

/-! ## Traversals -/

theorem walk_eq (h : definition.LooksLike other) (engine : Engine) (inBranch : Bool)
    (branch : BranchTraversal) (remaining : Nat) (resumed : Bool) (context : Context) (id : String)
    (now : Nat) :
    engine.walk other inBranch branch remaining resumed context id now =
      engine.walk definition inBranch branch remaining resumed context id now := by
  induction remaining generalizing resumed context id now with
  | zero =>
    unfold Engine.walk
    simp only [h.element?, h.id, h.isJoin_eq]
  | succ remaining ih =>
    unfold Engine.walk
    rw [h.element?, h.id]
    rcases hfound : definition.element? id with _ | element
    · rfl
    · dsimp only
      simp only [h.isJoin_eq, h.visit_eq engine inBranch branch (mem_of_element? hfound), ih]

/-- No traversal tells the definitions apart. -/
theorem traverse_eq (h : definition.LooksLike other) (engine : Engine) (levels : Nat)
    (inBranch : Bool) :
    engine.traverse other levels inBranch = engine.traverse definition levels inBranch := by
  refine Engine.traverse_related Eq (by rfl) (fun inBranch branch branch' hbranch => ?_)
    levels inBranch
  funext context id now
  rw [hbranch]
  exact h.walk_eq engine inBranch branch' _ _ context id now

/-! ## Runs -/

theorem start_eq (h : definition.LooksLike other) : other.start = definition.start := by
  have hfirst := h.first
  unfold start
  rcases hstarts : definition.starts with _ | ⟨first, more⟩
  · rw [hstarts, List.head?_nil, List.head?_eq_none_iff] at hfirst
    rw [hfirst, h.id]
  · rw [hstarts, List.head?_cons, List.head?_eq_some_iff] at hfirst
    obtain ⟨others, hother⟩ := hfirst
    rw [hother]

theorem length_starts (h : definition.LooksLike other) :
    other.starts.length = definition.starts.length :=
  (h.elements.filter _).length_eq

theorem nesting_eq (h : definition.LooksLike other) : other.nesting = definition.nesting := by
  have hforks : other.isFork = definition.isFork := funext h.isFork_eq
  rw [nesting, nesting, hforks, h.elements.countP_eq]

/-- No run tells the definitions apart. -/
theorem runThrough_eq (h : definition.LooksLike other) (engine : Engine) (levels : Nat)
    (context : Context) (now : Nat) :
    engine.runThrough other levels context now =
      engine.runThrough definition levels context now := by
  unfold Engine.runThrough
  rw [h.start_eq]
  rcases definition.start with error | start
  · rfl
  · dsimp only
    unfold Engine.runFrom Engine.startWarning
    rw [h.length_starts, h.id, h.traverse_eq]

end Definition.LooksLike

/-! ## Loading -/

namespace Engine

theorem walk_load (engine : Engine) (id : String) (loaded definition : Definition)
    (inBranch : Bool) (branch : BranchTraversal) (remaining : Nat) (resumed : Bool)
    (context : Context) (target : String) (now : Nat) :
    (engine.load id loaded).1.walk definition inBranch branch remaining resumed context target now =
      engine.walk definition inBranch branch remaining resumed context target now := by
  induction remaining generalizing resumed context target now with
  | zero =>
    unfold walk
    rfl
  | succ remaining ih =>
    unfold walk
    simp only [ih]
    rfl

/-- What is loaded does not matter to a traversal, which is given its definition. -/
theorem traverse_load (engine : Engine) (id : String) (loaded definition : Definition)
    (levels : Nat) (inBranch : Bool) :
    (engine.load id loaded).1.traverse definition levels inBranch =
      engine.traverse definition levels inBranch := by
  refine traverse_related Eq (by rfl) (fun inBranch branch branch' hbranch => ?_) levels inBranch
  funext context target now
  rw [hbranch]
  exact walk_load engine id loaded definition inBranch branch' _ _ context target now

/-- A run on an engine into which a definition was loaded goes through it if the context is for its
id, and else is what it was before. -/
theorem run_load (engine : Engine) (id : String) (definition : Definition) (context : Context)
    (now : Nat) :
    (engine.load id definition).1.run context now =
      if id = context.processId then engine.runOn definition context now
      else engine.run context now := by
  have hthrough : ∀ process, (engine.load id definition).1.runOn process context now =
      engine.runOn process context now := by
    intro process
    refine runOn_related Eq (fun _ _ h => by rw [h]) rfl fun levels => ?_
    unfold runThrough runFrom
    rw [traverse_load]
  have hprocess : (engine.load id definition).1.process? context.processId =
      if id = context.processId then some definition else engine.process? context.processId :=
    Table.get?_set engine.processes id context.processId definition
  unfold run
  rw [hprocess]
  by_cases hid : id = context.processId
  · rw [if_pos hid, if_pos hid]
    exact hthrough definition
  · rw [if_neg hid, if_neg hid]
    simp only [hthrough]

end Engine

namespace Definition.LooksLike

variable {definition other : Definition}

theorem runOn_eq (h : definition.LooksLike other) (engine : Engine) (context : Context)
    (now : Nat) : engine.runOn other context now = engine.runOn definition context now :=
  Engine.runOn_related Eq (fun _ _ h => by rw [h]) h.nesting_eq fun levels =>
    h.runThrough_eq engine levels context now

/-- Nor does it matter to any run which of them was loaded. -/
theorem run_load_eq (h : definition.LooksLike other) (engine : Engine) (id : String)
    (context : Context) (now : Nat) :
    (engine.load id other).1.run context now = (engine.load id definition).1.run context now := by
  rw [Engine.run_load, Engine.run_load, h.runOn_eq]

end Definition.LooksLike

end Workflow
