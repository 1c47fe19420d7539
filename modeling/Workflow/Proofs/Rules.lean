import Workflow.Proofs.Conditions.Reading
import Workflow.Proofs.Inputs

/-!
# What business rule tasks give

The rules of a task are texts of any number of lines.  They are joined by line feeds on their way to
the executor, which splits what it gets at the line feeds.  A line may also end with a carriage
return and a line feed; the carriage return is then a blank at the end of the line, and is trimmed
with the others.  So what is evaluated are the lines of the rules, in order, each without the blanks
around it and none if there is nothing else in it.

* `Text.lines` — the lines of a text.
* `Text.map_trim_splitFeeds` — the pieces between line feeds are trimmed to what the lines are.
* `TaskSpec.checks`, `Executor.rulesOf_instructions` — what the rules of a task ask for, and that
  just this comes out of the instructions.
* `Agent.rules_are_evaluated` — what a built-in agent makes of business rule tasks.
-/

namespace Workflow

namespace Text

/-! ## Lines -/

/-- The lines of a text. Each but the last ends with a line feed, or with a carriage return and a
line feed. -/
def lines : List Char → List (List Char)
  | '\r' :: '\n' :: rest => [] :: lines rest
  | '\n' :: rest => [] :: lines rest
  | c :: rest => (lines rest).modifyHead (c :: ·)
  | [] => [[]]

/-- The pieces between line feeds are the lines, up to a carriage return at the end. -/
theorem forall₂_splitFeeds_lines (text : List Char) :
    List.Forall₂ (fun piece line => piece = line ∨ piece = line ++ ['\r']) (splitFeeds text)
      (lines text) := by
  induction text using lines.induct with
  | case1 rest ih => exact .cons (.inr rfl) ih
  | case2 rest ih => exact .cons (.inl rfl) ih
  | case3 c rest hreturn hfeed ih =>
    -- the character goes to the first piece and to the first line
    rcases hpieces : splitFeeds rest with _ | ⟨piece, morePieces⟩
    · exact absurd hpieces (splitFeeds_ne_nil rest)
    · rw [hpieces] at ih
      obtain ⟨line, moreLines, hline, hmore, hlines⟩ := List.forall₂_cons_left_iff.mp ih
      rw [lines.eq_3 c rest hreturn hfeed, splitFeeds, if_neg hfeed, hpieces, hlines]
      exact .cons (hline.imp (congrArg (c :: ·)) (congrArg (c :: ·))) hmore
  | case4 => exact .cons (.inl rfl) .nil

example : lines "a\r\n\nb\r".toList = ["a".toList, [], "b\r".toList] := by decide

theorem trim_append_return (line : List Char) : trim (line ++ ['\r']) = trim line := by
  have hend : trimEnd (line ++ ['\r']) = trimEnd line := by
    rw [trimEnd_append]
    exact if_pos (by decide)
  rw [← trim_trimEnd, hend, trim_trimEnd]

theorem map_trim_splitFeeds (text : List Char) :
    (splitFeeds text).map trim = (lines text).map trim := by
  rw [← List.forall₂_eq_eq_eq, List.forall₂_map_left_iff, List.forall₂_map_right_iff]
  refine (forall₂_splitFeeds_lines text).imp ?_
  rintro piece line (rfl | rfl)
  · rfl
  · exact trim_append_return line

end Text

/-! ## Rules -/

/-- What the rules of a task ask for: their lines, trimmed, without those that are blank. -/
def TaskSpec.checks (spec : TaskSpec) : List String :=
  spec.rules.flatMap fun rule =>
    (((Text.lines rule.toList).map Text.trim).filter (!·.isEmpty)).map String.ofList

namespace Executor

/-- The instructions for a business rule task ask for what its rules do. -/
theorem rulesOf_instructions (spec : TaskSpec) :
    rulesOf (TaskCategory.ruleBased.instructions spec) = spec.checks := by
  rw [TaskCategory.instructions, rulesOf_intercalate, TaskSpec.checks]
  congr 1
  funext rule
  rw [rulesOf, Text.map_trim_splitFeeds]

theorem execute_rules_of_nil (evaluator : Evaluator) {request : Request}
    (hnone : rulesOf request.instructions = []) :
    ((rules evaluator).execute request).result = .error (.capability "no rules to evaluate") := by
  rw [rules]
  dsimp only
  rw [hnone]
  rfl

theorem execute_rules_of_ne (evaluator : Evaluator) {request : Request}
    (hsome : rulesOf request.instructions ≠ []) :
    ((rules evaluator).execute request).result =
      .ok (.bool ((rulesOf request.instructions).all fun rule =>
        evaluator rule (request.vars.merge request.inputs))) := by
  rw [rules]
  dsimp only
  split
  · rename_i hnone
    exact absurd hnone hsome
  · rfl

end Executor

/-- A task asks for nothing if no line of its rules has anything but blanks in it. -/
theorem TaskSpec.checks_eq_nil_iff {spec : TaskSpec} : spec.checks = [] ↔
    ∀ rule ∈ spec.rules, ∀ line ∈ Text.lines rule.toList, ∀ c ∈ line, Text.isBlank c = true := by
  rw [checks, List.flatMap_eq_nil_iff]
  refine forall₂_congr fun rule _ => ?_
  rw [List.map_eq_nil_iff, List.filter_eq_nil_iff, List.forall_mem_map]
  refine forall₂_congr fun line _ => ?_
  rw [← Text.trim_eq_nil_iff, Bool.not_eq_true, Bool.not_eq_false', List.isEmpty_iff]

namespace Agent

variable {sink : Sink} {evaluator : Evaluator} {element : Element} {spec : TaskSpec}

/-- What a business rule task gives. -/
theorem executeTask_businessRule (hkind : element.kind = .task .businessRule spec)
    (context : Context) (now : Nat) :
    ((Agent.builtin sink evaluator).executeTask element context now).value.1 =
      if spec.checks = [] then .error (.executionFailed element.id "no rules to evaluate")
      else .ok (.bool (spec.checks.all fun rule =>
        evaluator rule (context.vars.merge (spec.resolve context.vars)))) := by
  have hassign : (Agent.builtin sink evaluator).assign element =
      .ok (spec, TaskCategory.ruleBased.instructions spec, .rules evaluator) :=
    assign_of_category (by rw [hkind]; rfl) (by rw [hkind]; rfl) rfl
  let request : Request :=
    ⟨TaskCategory.ruleBased.instructions spec, spec.resolve context.vars, context.vars⟩
  have hrules : Executor.rulesOf request.instructions = spec.checks :=
    Executor.rulesOf_instructions spec
  rw [executeTask_of_assigned hkind hassign]
  split
  · rename_i hnone
    rw [Executor.execute_rules_of_nil evaluator (hrules.trans hnone)]
    rfl
  · rename_i hsome
    rw [Executor.execute_rules_of_ne evaluator (hrules.trans_ne hsome), hrules]
    rfl

end Agent

/-- **Business rule tasks evaluate their rules.** Take a business rule task and let a built-in agent
do it, under whichever variables and with whichever evaluator.  The rules that come out of the
instructions for it are the lines of its rules, trimmed and without the blank ones, each as often
and in the order in which they stand there.  They are evaluated on the variables with the inputs
over them: under a name the last input counts, which is `null` if its variable is absent, or else
the variable.  The task fails if and only if all lines are blank, and says which task it is.  It
gives `true` if and only if there is a rule and all hold, and `false` if and only if one does not.
-/
theorem Agent.rules_are_evaluated (sink : Sink) (evaluator : Evaluator) {element : Element}
    {spec : TaskSpec} (hkind : element.kind = .task .businessRule spec) (context : Context)
    (now : Nat) :
    let run := (Agent.builtin sink evaluator).executeTask element context now
    let scope := context.vars.merge (spec.resolve context.vars)
    Executor.rulesOf (TaskCategory.ruleBased.instructions spec) = spec.checks ∧
      (∀ name, scope.get? name = spec.sees? context.vars name) ∧
      (spec.checks = [] ↔ ∀ rule ∈ spec.rules, ∀ line ∈ Text.lines rule.toList, ∀ c ∈ line,
        Text.isBlank c = true) ∧
      (∀ error, run.value.1 = .error error ↔
        spec.checks = [] ∧ error = .executionFailed element.id "no rules to evaluate") ∧
      (run.value.1 = .ok (.bool true) ↔
        spec.checks ≠ [] ∧ ∀ rule ∈ spec.checks, evaluator rule scope = true) ∧
      (run.value.1 = .ok (.bool false) ↔ ∃ rule ∈ spec.checks, evaluator rule scope = false) := by
  intro run scope
  refine ⟨Executor.rulesOf_instructions spec, fun _ => TaskSpec.get?_merge_resolve,
    TaskSpec.checks_eq_nil_iff, ?_⟩
  have hrun : run.value.1 = _ := executeTask_businessRule hkind context now
  rw [hrun]
  by_cases hnone : spec.checks = []
  · rw [if_pos hnone]
    refine ⟨fun error => ?_, by simp [hnone], by simp [hnone]⟩
    rw [Except.error.injEq, eq_comm, and_iff_right hnone]
  · rw [if_neg hnone]
    refine ⟨fun error => ?_, by simp [hnone, scope], by simp [scope]⟩
    exact iff_of_false (fun herror => by cases herror) fun hfails => hnone hfails.1

/-! ## An audit

Rules with both kinds of line breaks, blank lines and a blank rule; two inputs under one name, and
one whose variable is absent. -/

namespace Audit

/-- The task. -/
def spec : TaskSpec :=
  { TaskSpec.of "auditor" with
    rules := ["  count == 1\r\n\r\n!gone", " \n", "count == 1\n", "open\r"],
    inputs := [⟨"open", some "count"⟩, ⟨"one", some "count"⟩, ⟨"lost", some "gone"⟩] }

/-- The element. -/
def element : Element :=
  ⟨"audit", none, .task .businessRule spec⟩

/-- Without its inputs the task would count to two, and there would be something gone. -/
def context : Context :=
  .start "p" ⟨"i"⟩ [("count", .int 2), ("gone", .bool true), ("one", .int 1), ("open", .bool true)]

/-- All four rules hold. -/
theorem audit_passes :
    element.kind = .task .businessRule spec ∧
      spec.checks = ["count == 1", "!gone", "count == 1", "open"] ∧
      ((Agent.builtin .null .conditions).executeTask element context 0).value.1 =
        .ok (.bool true) := by
  have hkind : element.kind = .task .businessRule spec := rfl
  have hchecks : spec.checks = ["count == 1", "!gone", "count == 1", "open"] := by
    decide +kernel
  obtain ⟨-, -, -, -, hpasses, -⟩ :=
    Agent.rules_are_evaluated .null .conditions hkind context 0
  refine ⟨hkind, hchecks, hpasses.mpr ?_⟩
  rw [hchecks]
  exact ⟨List.cons_ne_nil _ _, by decide +kernel⟩

end Audit

end Workflow
