import Workflow.Proofs.Writes

/-!
# The last write of several branches

Behind a fork a variable should have the value with which the last branch that wrote it left it.
But each branch brings all its variables back, also those that it has only copied from the context
before the fork.  So a value from before the fork is put back over what an earlier branch wrote when
the last branch did not write the variable.

* `get?_mergeBranches` — what a variable is after branches, each of which keeps what it does not
  write, were written one after the other.
* `value_of_key_after_fork` — what a variable is behind any fork whose branches ended well, and when
  that is the last write.
-/

namespace Workflow

/-- What a variable should be behind branches: as the last branch that wrote it left it, or as it
was before them if none did. -/
def lastWrite (definition : Definition) (key : String) (vars : Variables)
    (branches : List Traversal) : Option Value :=
  match (branches.filter (Traversal.wrote definition key)).getLast? with
  | some branch => branch.vars.get? key
  | none => vars.get? key

/-- Whether the last of several branches wrote a variable. -/
def lastWrote (definition : Definition) (key : String) (branches : List Traversal) : Bool :=
  branches.getLast?.any (Traversal.wrote definition key)

/-- What the traversals of the branches of a fork come to. -/
def Engine.branchTraversals (engine : Engine) (definition : Definition) (levels : Nat)
    (flows : List Flow) (context : Context) (now : Nat) : List Traversal :=
  flows.zipIdx.map fun (flow, index) =>
    (engine.traverse definition levels true (context.fork index) flow.target now).value

/-! ## Branches that begin with the same variables -/

/-- A branch that began with variables and ended well, as far as one variable is concerned. -/
structure Traversal.Handles (definition : Definition) (key : String) (vars : Variables)
    (branch : Traversal) : Prop where
  /-- its variables are in order -/
  sorted : branch.vars.Sorted
  /-- it does not take the variable away -/
  kept : (vars.get? key).isSome → (branch.vars.get? key).isSome
  /-- it keeps the variable if it does not write it -/
  quiet : branch.wrote definition key = false → branch.vars.get? key = vars.get? key
  /-- it holds the variable if it wrote it -/
  held : branch.wrote definition key = true → (branch.vars.get? key).isSome

section Merge

variable {definition : Definition} {key : String} {vars : Variables} {branches : List Traversal}

theorem mergeBranches_concat (branch : Traversal) :
    mergeBranches vars (branches ++ [branch]) = (mergeBranches vars branches).merge branch.vars := by
  rw [mergeBranches, List.foldl_append]
  rfl

theorem lastWrite_concat_of_wrote {branch : Traversal} (h : branch.wrote definition key = true) :
    lastWrite definition key vars (branches ++ [branch]) = branch.vars.get? key := by
  rw [lastWrite, List.filter_append, List.filter_cons_of_pos h, List.filter_nil,
    List.getLast?_append, List.getLast?_singleton, Option.some_or]

theorem lastWrite_concat_of_not {branch : Traversal} (h : branch.wrote definition key = false) :
    lastWrite definition key vars (branches ++ [branch]) =
      lastWrite definition key vars branches := by
  rw [lastWrite, List.filter_append, List.filter_cons_of_neg (by rw [h]; exact Bool.false_ne_true),
    List.filter_nil, List.append_nil, lastWrite]

theorem lastWrote_concat (branch : Traversal) :
    lastWrote definition key (branches ++ [branch]) = branch.wrote definition key := by
  rw [lastWrote, List.getLast?_append, List.getLast?_singleton, Option.some_or, Option.any_some]

/-- Nothing hides a write of a variable that was not there before. -/
theorem get?_mergeBranches_of_absent
    (h : ∀ branch ∈ branches, branch.Handles definition key vars) (hkey : vars.get? key = none) :
    (mergeBranches vars branches).get? key = lastWrite definition key vars branches := by
  induction branches using List.reverseRecOn with
  | nil => rfl
  | append_singleton branches last ih =>
    have hlast := h last (by simp)
    have hbranches := ih fun branch hbranch => h branch (List.mem_append_left _ hbranch)
    rw [mergeBranches_concat, Table.get?_merge _ hlast.sorted]
    -- a branch that did not write the variable does not have it
    rcases hwrote : last.wrote definition key
    · rw [lastWrite_concat_of_not hwrote, hlast.quiet hwrote, hkey, Option.none_or, hbranches]
    · rw [lastWrite_concat_of_wrote hwrote, Option.or_of_isSome (hlast.held hwrote)]

/-- What a variable is behind branches: the value from before them if there was one and the last
branch did not write the variable, else the last write. -/
theorem get?_mergeBranches (h : ∀ branch ∈ branches, branch.Handles definition key vars) :
    (mergeBranches vars branches).get? key =
      if (vars.get? key).isSome && !lastWrote definition key branches then vars.get? key
      else lastWrite definition key vars branches := by
  rcases hkey : vars.get? key with _ | value
  · exact get?_mergeBranches_of_absent h hkey
  induction branches using List.reverseRecOn with
  | nil =>
    rw [← hkey]
    split <;> rfl
  | append_singleton branches last =>
    -- the last branch has the variable in any case, so no other branch counts
    have hlast := h last (by simp)
    have hsome := hlast.kept (by rw [hkey]; rfl)
    rw [mergeBranches_concat, Table.get?_merge _ hlast.sorted, Option.or_of_isSome hsome,
      lastWrote_concat]
    rcases hwrote : last.wrote definition key
    · rw [hlast.quiet hwrote, hkey]
      rfl
    · rw [lastWrite_concat_of_wrote hwrote]
      rfl

end Merge

/-! ## Forks -/

namespace Engine

variable {engine : Engine} {definition : Definition} {levels : Nat} {flows : List Flow}
  {context : Context} {now : Nat}

/-- A branch of a fork handles every variable, if it ended well. -/
theorem handles_of_branchTraversals (hvars : context.vars.Sorted) (key : String)
    {branch : Traversal}
    (hbranch : branch ∈ engine.branchTraversals definition levels flows context now)
    (hended : branch.outcome.succeeded = true) :
    branch.Handles definition key context.vars := by
  obtain ⟨⟨flow, index⟩, -, rfl⟩ := List.mem_map.mp hbranch
  dsimp only at hended ⊢
  have hbounded : (engine.traverse definition levels true (context.fork index) flow.target
      now).value.outcome ≠ .unbounded := by
    intro hcut
    rw [hcut] at hended
    cases hended
  obtain ⟨trail, htraces, hdepth⟩ := exists_traces none hbounded
  rw [htraces.value_traverse hdepth now] at hended ⊢
  exact ⟨htraces.sorted_final hvars, htraces.isSome_final, htraces.get?_final hvars,
    htraces.isSome_final_of_writes hvars hended⟩

/-- Behind a fork whose branches ended well stand the variables of the branches, written one after
the other over those before it. -/
theorem vars_value_fork (inBranch : Bool) (gateway : Element)
    (hended : ∀ branch ∈ engine.branchTraversals definition levels flows context now,
      branch.outcome.succeeded = true) :
    (fork definition inBranch (engine.traverse definition levels true) gateway flows context
        now).value.vars =
      mergeBranches context.vars
        (engine.branchTraversals definition levels flows context now) := by
  have hvalues : (flows.zipIdx.map fun (flow, index) =>
      engine.traverse definition levels true (context.fork index) flow.target now).map
        Timed.value = engine.branchTraversals definition levels flows context now := by
    rw [branchTraversals, List.map_map]
    rfl
  rw [fork, Timed.value_andThen, Timed.value_andThen, Timed.value_all, Timed.done, hvalues,
    reunion, reunite_of_succeeded hended]
  rfl

/-- What a variable is behind a fork whose branches ended well: the value from before the fork if
there was one and the last branch did not write the variable, else the last write.  So it is the
last write just when the variable was not there before the fork, or the last branch wrote it, or the
last write gave it the value from before the fork again. -/
theorem value_of_key_after_fork (engine : Engine) (definition : Definition) (levels : Nat)
    (inBranch : Bool) (gateway : Element) (flows : List Flow) (context : Context) (now : Nat)
    (key : String) (hvars : context.vars.Sorted)
    (hended : ∀ branch ∈ engine.branchTraversals definition levels flows context now,
      branch.outcome.succeeded = true) :
    let branches := engine.branchTraversals definition levels flows context now
    let before := context.vars.get? key
    let after := (fork definition inBranch (engine.traverse definition levels true) gateway flows
      context now).value.vars.get? key
    let last := lastWrite definition key context.vars branches
    after = (if before.isSome && !lastWrote definition key branches then before else last) ∧
      (after = last ↔
        before = none ∨ lastWrote definition key branches = true ∨ last = before) := by
  intro branches before after last
  have hafter : after =
      if before.isSome && !lastWrote definition key branches then before else last := by
    have hmerged := vars_value_fork inBranch gateway hended
    have hlaw := get?_mergeBranches fun branch hbranch =>
      handles_of_branchTraversals hvars key hbranch (hended branch hbranch)
    rw [← hmerged] at hlaw
    exact hlaw
  refine ⟨hafter, ?_⟩
  rw [hafter]
  rcases hbefore : before with _ | value
  · exact iff_of_true rfl (Or.inl rfl)
  rcases hlast : lastWrote definition key branches
  · refine ⟨fun h => Or.inr (Or.inr h.symm), ?_⟩
    rintro (h | h | h)
    · cases h
    · cases h
    · exact h.symm
  · exact iff_of_true rfl (Or.inr (Or.inl rfl))

end Engine

/-! ## A write that is lost

Two branches: the first writes a variable that was there before the fork, the second does not. -/

namespace StaleBranch

/-- A fork into a task that writes a variable and a task that does not. -/
def process : Definition where
  id := "stale"
  name := none
  elements := [⟨"start", none, .startEvent⟩, ⟨"fork", none, .parallelGateway⟩,
    ⟨"write", none, .task .service { TaskSpec.of "one" with output := some "k" }⟩,
    ⟨"read", none, .task .service (TaskSpec.of "one")⟩, ⟨"join", none, .parallelGateway⟩,
    ⟨"end", none, .endEvent⟩]
  flows := [⟨"start", "fork", none⟩, ⟨"fork", "write", none⟩, ⟨"fork", "read", none⟩,
    ⟨"write", "join", none⟩, ⟨"read", "join", none⟩, ⟨"join", "end", none⟩]

/-- An engine whose only agent gives the number one to every task. -/
def engine : Engine where
  maxSteps := 10
  evaluator := fun _ _ => true
  sink := .null
  agents := [("one", ⟨some (.constant (.int 1) 0), none, none, .null⟩)]
  processes := [("stale", process)]

/-- The variable is zero before the run. -/
def context : Context :=
  .start "stale" ⟨"i"⟩ [("k", .int 0)]

/-- What the two branches come to. -/
def branches : List Traversal :=
  engine.branchTraversals process 1 (process.outgoing "fork") context 0

/-- What the visit to the fork comes to. -/
def visit : Visit :=
  (Engine.fork process false (engine.traverse process 1 true) ⟨"fork", none, .parallelGateway⟩
    (process.outgoing "fork") context 0).value

theorem sorted_vars : context.vars.Sorted :=
  List.pairwise_singleton _ _

theorem succeeded : ∀ branch ∈ branches, branch.outcome.succeeded = true := by
  decide

/-- The law at this fork: the value from before it stands behind it. -/
theorem value_of_key :
    context.vars.Sorted ∧ (∀ branch ∈ branches, branch.outcome.succeeded = true) ∧
      visit.vars.get? "k" = context.vars.get? "k" :=
  ⟨sorted_vars, succeeded,
    (Engine.value_of_key_after_fork engine process 1 false _ _ context 0 "k" sorted_vars
      succeeded).1⟩

/-- The first branch is the last that wrote the variable, and its write is lost behind the fork and
at the end of the run. -/
theorem write_is_lost :
    (∀ branch ∈ branches, branch.outcome.succeeded = true) ∧
      lastWrite process "k" context.vars branches = some (.int 1) ∧
      visit.vars.get? "k" ≠ lastWrite process "k" context.vars branches ∧
      (engine.run context 0).value.1 = .completed ∧
      (engine.run context 0).value.2.path = ["start", "fork", "write", "read", "join", "end"] ∧
      (engine.run context 0).value.2.vars.get? "k" = some (.int 0) := by
  refine ⟨succeeded, rfl, ?_, by decide, by decide, rfl⟩
  rw [show visit.vars.get? "k" = some (.int 0) from rfl,
    show lastWrite process "k" context.vars branches = some (.int 1) from rfl]
  nofun

end StaleBranch

end Workflow
