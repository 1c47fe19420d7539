import Workflow.Proofs.FailedFork
import Workflow.Proofs.InstanceId

/-!
# Ids of branches that are under way together

The id of a branch is that of the run with the numbers of the branches on the way down to it.  Two
traversals of a run that are under way at one time are either one within the other, or within two
branches of one fork.  Either way the ways down to them differ, and so do their ids.  Traversals
that are not under way together may share an id: a later fork of a traversal numbers its branches
like an earlier one.

* `Engine.Passes.instanceId_eq`, `Engine.Nests.exists_descend` — the id of a traversal.
* `Engine.Alongside` — traversals that are under way together.
* `Engine.ids_tell_branches_apart` — an id tells the way down to its branch, and no two traversals
  that are under way together share one.
-/

namespace Workflow

namespace Engine

variable {engine : Engine} {definition : Definition} {root start stage later : Stage}
  {path : List String}

/-- A traversal keeps its id. -/
theorem Passes.instanceId_eq (h : engine.Passes definition stage path later) :
    later.context.instanceId = stage.context.instanceId := by
  induction h with
  | here => rfl
  | on _ _ _ ih => exact ih

/-- The id of a branch that begins at a stage of a traversal. -/
theorem Passes.instanceId_branchAt (h : engine.Passes definition start path stage)
    (gateway : Element) (index : Nat) (flow : Flow) :
    (engine.branchAt stage gateway index flow).context.instanceId =
      start.context.instanceId.branch index :=
  congrArg (InstanceId.branch · index) h.instanceId_eq

/-- The id of a traversal within another one tells the way down from there. -/
theorem Nests.exists_descend (h : engine.Nests definition root start) :
    ∃ places, start.context.instanceId = root.context.instanceId.descend places := by
  induction h with
  | root => exact ⟨[], rfl⟩
  | @branch start stage path gateway index flow _ passes _ _ _ ih =>
    obtain ⟨places, hplaces⟩ := ih
    refine ⟨places ++ [index], ?_⟩
    rw [passes.instanceId_branchAt, hplaces, InstanceId.descend_append]
    rfl

/-- Two traversals are under way together: a traversal waits at a fork for the branches there and
all that is within them, and the branches of one fork, with all that is within them, run side by
side. -/
inductive Alongside (engine : Engine) (definition : Definition) : Stage → Stage → Prop where
  /-- the second one is within a branch of the first one -/
  | around {start stage inner : Stage} {path : List String} {gateway : Element} {index : Nat}
    {flow : Flow} (passes : engine.Passes definition start path stage)
    (forks : ForksAt definition stage gateway)
    (leads : (definition.outgoing gateway.id)[index]? = some flow)
    (nests : engine.Nests definition (engine.branchAt stage gateway index flow) inner) :
    Alongside engine definition start inner
  /-- they are within two branches of one fork -/
  | beside {stage first second : Stage} {gateway : Element} {index other : Nat} {flow flow' : Flow}
    (forks : ForksAt definition stage gateway)
    (leads : (definition.outgoing gateway.id)[index]? = some flow)
    (leads' : (definition.outgoing gateway.id)[other]? = some flow')
    (apart : index ≠ other)
    (nests : engine.Nests definition (engine.branchAt stage gateway index flow) first)
    (nests' : engine.Nests definition (engine.branchAt stage gateway other flow') second) :
    Alongside engine definition first second

/-- Traversals that are under way together have different ids. -/
theorem Alongside.instanceId_ne {first second : Stage}
    (h : engine.Alongside definition first second) :
    first.context.instanceId ≠ second.context.instanceId := by
  cases h with
  | @around _ stage _ path gateway index flow passes _ _ nests =>
    obtain ⟨places, hplaces⟩ := nests.exists_descend
    rw [passes.instanceId_branchAt, ← InstanceId.descend_cons] at hplaces
    intro heq
    have hways := InstanceId.descend_injective first.context.instanceId
      (show InstanceId.descend _ [] = InstanceId.descend _ (index :: places) from heq.trans hplaces)
    cases hways
  | @beside stage _ _ gateway index other flow flow' _ _ _ apart nests nests' =>
    have hstage : engine.Passes definition stage [] stage := .here stage
    obtain ⟨places, hplaces⟩ := nests.exists_descend
    obtain ⟨others, hothers⟩ := nests'.exists_descend
    rw [hstage.instanceId_branchAt, ← InstanceId.descend_cons] at hplaces hothers
    intro heq
    rw [hplaces, hothers] at heq
    exact apart (List.head_eq_of_cons_eq (InstanceId.descend_injective _ heq))

/-- **Ids identify branches.** Whatever the id of a context is, the ids of the branches below it at
every depth differ as the ways down to them do.  Every traversal within a run has the id to which
the way down to it leads, and no two of them that are under way together, be it one within the other
or side by side, have the same id. -/
theorem ids_tell_branches_apart :
    (∀ (id : InstanceId) (places others : List Nat),
      id.descend places = id.descend others → places = others) ∧
    ∀ (engine : Engine) (definition : Definition),
      (∀ root start, engine.Nests definition root start →
        ∃ places, start.context.instanceId = root.context.instanceId.descend places) ∧
      ∀ first second, engine.Alongside definition first second →
        first.context.instanceId ≠ second.context.instanceId := by
  refine ⟨fun id places others h => InstanceId.descend_injective id h, fun engine definition => ?_⟩
  exact ⟨fun root start h => h.exists_descend, fun first second h => h.instanceId_ne⟩

end Engine

/-! ## Branches of branches

The second branch of the outer fork in `LateFailure` forks again, while the third one is under
way. -/

namespace LateFailure

/-- The stage at which the first branch of the inner fork begins. -/
def left : Stage :=
  engine.branchAt inner (element "inner") 0 ⟨"inner", "left", none⟩

/-- The stage at which the third branch of the outer fork begins. -/
def last : Stage :=
  engine.branchAt outer (element "outer") 2 ⟨"outer", "last", none⟩

theorem left_within_inner : engine.Nests process inner left :=
  .branch .root (.here inner) inner_forks rfl trivial

/-- The inner branch and the third one are told apart by their ids, and both from the run. -/
theorem ids_of_branches :
    engine.Alongside process left last ∧ left.context.instanceId ≠ last.context.instanceId ∧
      engine.Alongside process root left ∧ root.context.instanceId ≠ left.context.instanceId ∧
      left.context.instanceId = context.instanceId.descend [1, 0] := by
  have hbeside : engine.Alongside process left last :=
    .beside outer_forks rfl rfl (by decide) left_within_inner .root
  have haround : engine.Alongside process root left := by
    obtain ⟨path, hpasses⟩ := passes
    exact .around hpasses outer_forks rfl left_within_inner
  obtain ⟨hways, hruns⟩ := Engine.ids_tell_branches_apart
  obtain ⟨-, hids⟩ := hruns engine process
  exact ⟨hbeside, hids left last hbeside, haround, hids root left haround, rfl⟩

end LateFailure

end Workflow
