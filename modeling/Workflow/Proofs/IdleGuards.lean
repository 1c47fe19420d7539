import Workflow.Proofs.LookAlikes

/-!
# Guards that are idle

Every flow may carry a guard, but only an exclusive gateway asks whether it holds.  All other
elements send a traversal on whatever their flows say: to the target of the first flow, or, behind
a fork, to all targets.  So what stands in the guards of their flows is idle.

* `Definition.pruned` — a definition without its idle guards; two definitions that are the same when
  pruned differ in idle guards only.
* `Definition.looksLike_pruned` — a definition looks to every run like itself pruned.
* `Engine.idle_guards_do_nothing` — runs through definitions that differ in idle guards only are
  the same.
-/

namespace Workflow

namespace Definition

/-- Whether an exclusive gateway has the id. -/
def isExclusive (definition : Definition) (id : String) : Bool :=
  definition.elements.any fun element => element.id == id && element.kind == .exclusiveGateway

/-- A flow without its guard, unless it leaves an exclusive gateway. -/
def prune (definition : Definition) (flow : Flow) : Flow :=
  if definition.isExclusive flow.source then flow else { flow with condition := none }

/-- The definition without the guards of flows that do not leave an exclusive gateway. -/
def pruned (definition : Definition) : Definition :=
  { definition with flows := definition.flows.map definition.prune }

variable {definition : Definition}

@[simp] theorem source_prune (definition : Definition) (flow : Flow) :
    (definition.prune flow).source = flow.source := by
  unfold prune
  split <;> rfl

@[simp] theorem target_prune (definition : Definition) (flow : Flow) :
    (definition.prune flow).target = flow.target := by
  unfold prune
  split <;> rfl

theorem outgoing_pruned (definition : Definition) (id : String) :
    definition.pruned.outgoing id = (definition.outgoing id).map definition.prune := by
  have hsource : (fun flow : Flow => flow.source == id) ∘ definition.prune =
      fun flow => flow.source == id :=
    funext fun flow => by rw [Function.comp_apply, source_prune]
  rw [outgoing, outgoing, pruned, List.filter_map, hsource]

theorem length_incoming_pruned (definition : Definition) (id : String) :
    (definition.pruned.incoming id).length = (definition.incoming id).length := by
  have htarget : (fun flow : Flow => flow.target == id) ∘ definition.prune =
      fun flow => flow.target == id :=
    funext fun flow => by rw [Function.comp_apply, target_prune]
  rw [incoming, incoming, pruned, List.filter_map, List.length_map, htarget]

/-- An exclusive gateway keeps its flows as they are. -/
theorem outgoing_pruned_of_exclusive {gateway : Element} (hmem : gateway ∈ definition.elements)
    (hkind : gateway.kind = .exclusiveGateway) :
    definition.pruned.outgoing gateway.id = definition.outgoing gateway.id := by
  have hexclusive : definition.isExclusive gateway.id = true := by
    refine List.any_eq_true.mpr ⟨gateway, hmem, ?_⟩
    rw [hkind, beq_self_eq_true, beq_self_eq_true]
    rfl
  rw [outgoing_pruned]
  refine (List.map_congr_left fun flow hflow => ?_).trans (List.map_id' _)
  have hsource : flow.source = gateway.id := beq_iff_eq.mp (List.mem_filter.mp hflow).2
  rw [prune, hsource, if_pos hexclusive]

/-- No run tells a definition from itself pruned. -/
theorem looksLike_pruned (definition : Definition) : definition.LooksLike definition.pruned where
  id := rfl
  elements := .refl _
  element? _ := rfl
  first := rfl
  incoming := definition.length_incoming_pruned
  targets id := by
    rw [outgoing_pruned, List.map_map]
    exact List.map_congr_left fun flow _ => definition.target_prune flow
  guards _ hmem hkind := outgoing_pruned_of_exclusive hmem hkind

end Definition

/-- **Guards act at exclusive gateways only.** Let two definitions, well formed or not, be the same
but for the guards of flows that do not leave an exclusive gateway.  Then runs through them are the
same, for every engine and context and however deeply branches may be nested, and so are the runs on
two engines one of which has loaded the one definition and the other the other one: they come to the
same end with the same variables and along the same path, and say and report the same at the same
times. -/
theorem Engine.idle_guards_do_nothing (engine : Engine) (definition other : Definition)
    (hsame : other.pruned = definition.pruned) (id : String) (context : Context) (now : Nat) :
    (engine.load id other).1.run context now = (engine.load id definition).1.run context now ∧
      ∀ levels, engine.runThrough other levels context now =
        engine.runThrough definition levels context now := by
  have hother := other.looksLike_pruned
  have hdefinition := definition.looksLike_pruned
  constructor
  · calc (engine.load id other).1.run context now
      _ = (engine.load id other.pruned).1.run context now :=
        (hother.run_load_eq engine id context now).symm
      _ = (engine.load id definition.pruned).1.run context now := by rw [hsame]
      _ = (engine.load id definition).1.run context now :=
        hdefinition.run_load_eq engine id context now
  · intro levels
    calc engine.runThrough other levels context now
      _ = engine.runThrough other.pruned levels context now :=
        (hother.runThrough_eq engine levels context now).symm
      _ = engine.runThrough definition.pruned levels context now := by rw [hsame]
      _ = engine.runThrough definition levels context now :=
        hdefinition.runThrough_eq engine levels context now

/-! ## A process with guards everywhere

Before and behind a fork, one of whose branches comes to an exclusive gateway, every flow has a
guard that never holds. -/

namespace Unguarded

/-- A fork into a task and into an exclusive gateway. The flows out of the gateway have guards of
their own, all others the one given. -/
def process (idle : Option String) (detour : String) : Definition where
  id := "guards"
  name := none
  elements := [⟨"start", none, .startEvent⟩, ⟨"fork", none, .parallelGateway⟩,
    ⟨"task", none, .task .service (TaskSpec.of "one")⟩, ⟨"choice", none, .exclusiveGateway⟩,
    ⟨"detour", none, .task .user (TaskSpec.of "one")⟩, ⟨"join", none, .parallelGateway⟩,
    ⟨"end", none, .endEvent⟩]
  flows := [⟨"start", "fork", idle⟩, ⟨"fork", "task", idle⟩, ⟨"fork", "choice", idle⟩,
    ⟨"choice", "detour", some detour⟩, ⟨"choice", "join", some "true"⟩,
    ⟨"detour", "join", idle⟩, ⟨"task", "join", idle⟩, ⟨"join", "end", idle⟩]

/-- An engine with one agent. -/
def engine : Engine where
  maxSteps := 10
  evaluator := fun guard _ => guard == "true"
  sink := .null
  agents := [("one", ⟨some (.constant (.int 1) 5), none, none, .recording "spans"⟩)]
  processes := []

/-- The beginning of the run. -/
def context : Context :=
  .start "guards" ⟨"i"⟩ []

/-- The run through a process. -/
def run (definition : Definition) : Timed (Completion × Context) :=
  (engine.load "guards" definition).1.run context 0

/-- Guards that never hold keep the run from nothing, unless they stand behind the gateway: there
the run goes another way. -/
theorem run_without_guards :
    (process (some "false") "false").pruned = (process none "false").pruned ∧
      run (process (some "false") "false") = run (process none "false") ∧
      (run (process none "false")).value.1 = .completed ∧
      (run (process none "false")).value.2.path =
        ["start", "fork", "task", "choice", "join", "end"] ∧
      (run (process none "true")).value.2.path =
        ["start", "fork", "task", "choice", "detour", "join", "end"] := by
  have hpruned : (process (some "false") "false").pruned = (process none "false").pruned := by
    decide
  refine ⟨hpruned, ?_, by decide +kernel, by decide +kernel, by decide +kernel⟩
  exact (Engine.idle_guards_do_nothing engine (process none "false")
    (process (some "false") "false") hpruned "guards" context 0).1

end Unguarded

end Workflow
