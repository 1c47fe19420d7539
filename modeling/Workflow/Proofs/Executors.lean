import Mathlib.Data.List.TakeWhile
import Workflow.Agent

/-!
# What executors give

Of the executors that come with the engine, all that fail say only that they failed.  The one that
evaluates rules fails for want of a rule.  The rules of a task come to it joined by line feeds, and
it splits them at every line feed again, also at those within a rule.  So what it evaluates are the
lines of the rules, without those that are blank.

* `Text.trim_eq_nil_iff` — what is trimmed to nothing.
* `Executor.rulesOf_intercalate` — the rules in joined texts are those in each of them.
* `Executor.rulesOf_eq_nil_iff` — where there is no rule.
* `Executor.rules_eq_error_iff` — on which error the evaluation of rules fails, and when.
* `Executor.Plain` — an executor says only that it failed.
-/

namespace Workflow

/-! ## Blanks and lines -/

namespace Text

theorem trimStart_eq_nil_iff {text : List Char} :
    trimStart text = [] ↔ ∀ c ∈ text, isBlank c = true :=
  List.dropWhile_eq_nil_iff

theorem trimEnd_eq_nil_iff {text : List Char} :
    trimEnd text = [] ↔ ∀ c ∈ text, isBlank c = true := by
  rw [trimEnd, List.reverse_eq_nil_iff, List.dropWhile_eq_nil_iff]
  simp only [List.mem_reverse]

/-- What is left behind the blanks at the start begins with something else. -/
theorem not_isBlank_of_trimStart {text rest : List Char} {c : Char}
    (h : trimStart text = c :: rest) : isBlank c = false := by
  induction text with
  | nil => cases h
  | cons first more ih =>
    rw [trimStart, List.dropWhile_cons] at h
    split at h
    · exact ih h
    · rename_i hfirst
      cases h
      exact Bool.eq_false_iff.mpr hfirst

/-- A text is trimmed to nothing if there is nothing but blanks in it. -/
theorem trim_eq_nil_iff {text : List Char} : trim text = [] ↔ ∀ c ∈ text, isBlank c = true := by
  rw [trim, trimEnd_eq_nil_iff]
  rcases hrest : trimStart text with _ | ⟨c, rest⟩
  · exact iff_of_true (by simp) (trimStart_eq_nil_iff.mp hrest)
  · -- neither holds, since the first character that is left is no blank
    have hblank := not_isBlank_of_trimStart hrest
    refine iff_of_false (fun h => ?_) fun h => ?_
    · rw [h c List.mem_cons_self] at hblank
      cases hblank
    · rw [trimStart_eq_nil_iff.mpr h] at hrest
      cases hrest

/-- The lines of two texts with a line feed between them. -/
theorem splitFeeds_append_feed (before after : List Char) :
    splitFeeds (before ++ '\n' :: after) = splitFeeds before ++ splitFeeds after := by
  induction before with
  | nil => simp [splitFeeds]
  | cons c rest ih =>
    rw [List.cons_append, splitFeeds, splitFeeds, ih]
    split
    · rfl
    · rcases hlines : splitFeeds rest with _ | ⟨line, more⟩
      · exact absurd hlines (splitFeeds_ne_nil rest)
      · rfl

end Text

namespace Executor

open Text

/-! ## Rules in instructions -/

theorem rulesOf_empty : rulesOf "" = [] := by
  rw [rulesOf, String.toList_empty]
  rfl

/-- The rules in two texts with a line feed between them. -/
theorem rulesOf_append_feed (first second : String) :
    rulesOf (first ++ "\n" ++ second) = rulesOf first ++ rulesOf second := by
  have htext : (first ++ "\n" ++ second).toList = first.toList ++ '\n' :: second.toList := by
    simp
  rw [rulesOf, htext, splitFeeds_append_feed, List.map_append, List.filter_append, List.map_append]
  rfl

/-- The rules in texts that were joined by line feeds are those in each of them. -/
theorem rulesOf_intercalate (texts : List String) :
    rulesOf (String.intercalate "\n" texts) = texts.flatMap rulesOf := by
  induction texts with
  | nil => rw [String.intercalate_nil, rulesOf_empty, List.flatMap_nil]
  | cons first more ih =>
    rw [List.flatMap_cons]
    rcases more with _ | ⟨second, more⟩
    · rw [String.intercalate_singleton, List.flatMap_nil, List.append_nil]
    · rw [String.intercalate_cons_cons, rulesOf_append_feed, ih]

/-- There is no rule in a text if all its lines are blank. -/
theorem rulesOf_eq_nil_iff {text : String} :
    rulesOf text = [] ↔ ∀ line ∈ splitFeeds text.toList, ∀ c ∈ line, isBlank c = true := by
  rw [rulesOf, List.map_eq_nil_iff, List.filter_eq_nil_iff, List.forall_mem_map]
  refine forall₂_congr fun line _ => ?_
  rw [← trim_eq_nil_iff, Bool.not_eq_true, Bool.not_eq_false', List.isEmpty_iff]

/-! ## Values and errors -/

theorem exists_value_echo (request : Request) :
    ∃ value, (echo.execute request).result = .ok value := by
  unfold echo
  dsimp only
  split <;> exact ⟨_, rfl⟩

theorem exists_value_collect (request : Request) :
    ∃ value, (collect.execute request).result = .ok value := by
  unfold collect
  dsimp only
  split <;> exact ⟨_, rfl⟩

theorem exists_value_template (request : Request) :
    ∃ value, (template.execute request).result = .ok value :=
  ⟨_, rfl⟩

/-- Rules can be evaluated if there are any. -/
theorem rules_eq_error_iff {evaluator : Evaluator} {request : Request} {error : Error} :
    ((rules evaluator).execute request).result = .error error ↔
      rulesOf request.instructions = [] ∧ error = .capability "no rules to evaluate" := by
  unfold rules
  dsimp only
  split
  · rename_i hnone
    rw [hnone, Reply.now, Except.error.injEq, eq_comm]
    simp only [true_and]
  · rename_i hsome
    exact iff_of_false nofun fun h => hsome h.1

/-- An executor that fails says no more than that it failed. -/
def Plain (executor : Executor) : Prop :=
  ∀ request error, (executor.execute request).result = .error error →
    ∃ message, error = .capability message

/-- The executors that come with the engine. -/
inductive Provided : Executor → Prop where
  | collect : Provided collect
  | echo : Provided echo
  | rules (evaluator : Evaluator) : Provided (rules evaluator)
  | template : Provided template
  | constant (value : Value) (delay : Nat) : Provided (constant value delay)
  | failing (message : String) (delay : Nat) : Provided (failing message delay)

theorem plain_of_exists_value {executor : Executor}
    (h : ∀ request, ∃ value, (executor.execute request).result = .ok value) :
    executor.Plain := by
  intro request error herror
  obtain ⟨value, hvalue⟩ := h request
  rw [hvalue] at herror
  cases herror

/-- None of these says more. -/
theorem Provided.plain {executor : Executor} (h : executor.Provided) : executor.Plain := by
  cases h with
  | collect => exact plain_of_exists_value exists_value_collect
  | echo => exact plain_of_exists_value exists_value_echo
  | rules => exact fun _ _ herror => ⟨_, (rules_eq_error_iff.mp herror).2⟩
  | template => exact plain_of_exists_value exists_value_template
  | constant value => exact plain_of_exists_value fun _ => ⟨value, rfl⟩
  | failing message => exact fun _ _ herror => ⟨message, (Except.error.inj herror).symm⟩

end Executor

/-! ## Agents -/

/-- An agent calls the executor that it has for the category of a task. -/
theorem Agent.assign_of_category {agent : Agent} {element : Element} {spec : TaskSpec}
    {category : TaskCategory} {executor : Executor} (task : element.kind.task? = some spec)
    (of : TaskCategory.of element.kind = some category)
    (has : agent.executor? category = some executor) :
    agent.assign element = .ok (spec, category.instructions spec, executor) := by
  rw [assign, task, of]
  dsimp only
  rw [has]

/-- All executors of an agent say no more than that they failed. -/
def Agent.Plain (agent : Agent) : Prop :=
  ∀ category executor, agent.executor? category = some executor → executor.Plain

theorem Agent.plain_builtin (sink : Sink) (evaluator : Evaluator) :
    (Agent.builtin sink evaluator).Plain := by
  intro category executor h
  cases category with
  | generative =>
    cases h
    exact Executor.Provided.echo.plain
  | ruleBased =>
    cases h
    exact (Executor.Provided.rules evaluator).plain
  | transform =>
    cases h
    exact Executor.Provided.template.plain

end Workflow
