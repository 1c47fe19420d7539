import Mathlib.Data.List.Induction
import Workflow.Proofs.Executors
import Workflow.Proofs.Table
import Workflow.Proofs.Trail.Traversal

/-!
# What tasks see

A task sees the variables of its process and, over them, its own inputs.  Of several inputs under
one name the last counts.  An input hides the variable of its name even where the variable that it
is taken from is absent: it is `null` then.

* `Table.get?_ofList` — of several entries for a key, the last is in the table.
* `TaskSpec.input?`, `TaskSpec.sees?` — the input that counts under a name, and the value there.
* `TaskSpec.get?_merge_resolve`, `TaskSpec.get?_resolve_or` — the two ways in which executors look
  at inputs and variables come to this.
* `Agent.executeTask_of_assigned` — what the task of an element gives.
-/

namespace Workflow

/-- What the table of a list of entries has for a key. -/
theorem Table.get?_ofList {α : Type} (entries : List (String × α)) (key : String) :
    (ofList entries).get? key = (entries.reverse.find? (·.1 = key)).map Prod.snd := by
  -- from the end, where the entry stands that counts
  induction entries using List.reverseRecOn with
  | nil => rfl
  | append_singleton entries entry ih =>
    have hset : ofList (entries ++ [entry]) = (ofList entries).set entry.1 entry.2 := by
      rw [ofList, List.foldl_append]
      rfl
    rw [hset, get?_set, List.reverse_append, List.reverse_singleton, List.singleton_append,
      List.find?_cons]
    by_cases hkey : entry.1 = key
    · simp [hkey]
    · simp [hkey, ih]

namespace TaskSpec

/-- The last input of a task under a name. -/
def input? (spec : TaskSpec) (name : String) : Option Input :=
  spec.inputs.reverse.find? (·.name = name)

/-- What a task sees under a name: its input, or else the variable. -/
def sees? (spec : TaskSpec) (vars : Variables) (name : String) : Option Value :=
  match spec.input? name with
  | some input => some ((vars.get? input.source).getD .null)
  | none => vars.get? name

variable {spec : TaskSpec} {vars : Variables} {name : String}

theorem get?_resolve : (spec.resolve vars).get? name =
    (spec.input? name).map fun input => (vars.get? input.source).getD .null := by
  rw [resolve, Table.get?_ofList, ← List.map_reverse, List.find?_map, Option.map_map, input?]
  rfl

/-- The inputs, or else the variables. -/
theorem get?_resolve_or : ((spec.resolve vars).get? name).or (vars.get? name) =
    spec.sees? vars name := by
  rw [get?_resolve, sees?]
  rcases spec.input? name with _ | input <;> rfl

/-- The inputs written over the variables. -/
theorem get?_merge_resolve :
    (vars.merge (spec.resolve vars)).get? name = spec.sees? vars name := by
  have hsorted : (spec.resolve vars).Sorted := Table.sorted_ofList _
  rw [Table.get?_merge vars hsorted, get?_resolve_or]

end TaskSpec

/-- What the task of an element gives is what the executor makes of its instructions, its inputs and
the variables. -/
theorem Agent.executeTask_of_assigned {agent : Agent} {element : Element} {kind : TaskKind}
    {spec : TaskSpec} {instructions : String} {executor : Executor}
    (hkind : element.kind = .task kind spec)
    (assigned : agent.assign element = .ok (spec, instructions, executor)) (context : Context)
    (now : Nat) :
    (agent.executeTask element context now).value.1 =
      (executor.execute ⟨instructions, spec.resolve context.vars, context.vars⟩).result.mapError
        (blame element) := by
  rw [Engine.value_executeTask agent hkind, perform, assigned]
  dsimp only
  rcases (executor.execute ⟨instructions, spec.resolve context.vars, context.vars⟩).result with
    error | value <;> rfl

end Workflow
