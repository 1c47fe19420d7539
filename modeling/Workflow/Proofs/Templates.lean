import Workflow.Proofs.Cuts
import Workflow.Proofs.Inputs

/-!
# What script tasks give

A script task gives its script with every closed placeholder replaced by what the task sees under
the name in it.  The script is gone through once: what is put in for a placeholder is followed by
what the rest of the script comes to, whatever braces there are in it.  Where a placeholder begins
and ends is settled by the first pair of braces of either kind, so one more brace in front of a pair
belongs to the pair.

* `Template.render_plain`, `Template.render_unclosed`, `Template.render_closed` — how a template is
  rendered that has no placeholder, one that is not closed, or one that is.
* `Template.shape` — there are no other templates.
* `TaskSpec.shows` — what a script task puts in for a name.
* `Agent.scripts_are_rendered` — what a built-in agent makes of script tasks.
-/

namespace Workflow

open Text

namespace Template

variable {lookup : String → Option Value} {text front name rest : List Char}

/-! ## Placeholders -/

/-- A template is cut where its first placeholder begins. -/
theorem cut_opening_iff : cut opening text = some (front, rest) ↔
    text = front ++ opening ++ rest ∧ ¬opening <:+: front ∧ front.getLast? ≠ some '{' :=
  cut_double_iff

/-- A name is cut off where the placeholder is closed first. -/
theorem cut_closing_iff : cut closing text = some (name, rest) ↔
    text = name ++ closing ++ rest ∧ ¬closing <:+: name ∧ name.getLast? ≠ some '}' :=
  cut_double_iff

/-- A template has no placeholder, or its first one is not closed, or this one is and more follows
behind it. -/
theorem shape (text : List Char) :
    ¬opening <:+: text ∨
      (∃ front rest, text = front ++ opening ++ rest ∧ ¬opening <:+: front ∧
        front.getLast? ≠ some '{' ∧ ¬closing <:+: rest) ∨
      ∃ front name rest, text = front ++ opening ++ (name ++ closing ++ rest) ∧
        ¬opening <:+: front ∧ front.getLast? ≠ some '{' ∧
        ¬closing <:+: name ∧ name.getLast? ≠ some '}' := by
  rcases hopen : cut opening text with _ | ⟨front, after⟩
  · exact .inl (cut_eq_none_iff.mp hopen)
  · obtain ⟨rfl, hplain, hlast⟩ := cut_opening_iff.mp hopen
    rcases hclose : cut closing after with _ | ⟨name, rest⟩
    · exact .inr (.inl ⟨front, after, rfl, hplain, hlast, cut_eq_none_iff.mp hclose⟩)
    · obtain ⟨rfl, hname⟩ := cut_closing_iff.mp hclose
      exact .inr (.inr ⟨front, name, rest, rfl, hplain, hlast, hname⟩)

/-! ## Rendering -/

theorem render_plain (hplain : ¬opening <:+: text) : render lookup text = text := by
  rw [render]
  split
  · rfl
  · rename_i hcut
    cases (cut_eq_none_iff.mpr hplain).symm.trans hcut

theorem render_unclosed (hplain : ¬opening <:+: front) (hlast : front.getLast? ≠ some '{')
    (hunclosed : ¬closing <:+: rest) :
    render lookup (front ++ opening ++ rest) = front ++ opening ++ rest := by
  have hopen : cut opening (front ++ opening ++ rest) = some (front, rest) :=
    cut_opening_iff.mpr ⟨rfl, hplain, hlast⟩
  have hclose : cut closing rest = none := cut_eq_none_iff.mpr hunclosed
  rw [render]
  split <;> rename_i hcut <;> cases hopen.symm.trans hcut
  split <;> rename_i hcut <;> cases hclose.symm.trans hcut
  rfl

theorem render_closed (hplain : ¬opening <:+: front) (hlast : front.getLast? ≠ some '{')
    (hname : ¬closing <:+: name) (hend : name.getLast? ≠ some '}') :
    render lookup (front ++ opening ++ (name ++ closing ++ rest)) =
      front ++ shownName lookup name ++ render lookup rest := by
  have hopen : cut opening (front ++ opening ++ (name ++ closing ++ rest)) =
      some (front, name ++ closing ++ rest) := cut_opening_iff.mpr ⟨rfl, hplain, hlast⟩
  have hclose : cut closing (name ++ closing ++ rest) = some (name, rest) :=
    cut_closing_iff.mpr ⟨rfl, hname, hend⟩
  rw [render]
  split <;> rename_i hcut <;> cases hopen.symm.trans hcut
  split <;> rename_i hcut <;> cases hclose.symm.trans hcut
  rfl

end Template

/-! ## Script tasks -/

/-- What a script task puts in for a name, by the variable that the last input under the name is
taken from, or else the variable of this name. -/
def TaskSpec.shows (spec : TaskSpec) (vars : Variables) (name : String) : List Char :=
  match vars.get? ((spec.input? name).elim name Input.source) with
  | none => []
  | some .null => []
  | some (.string text) => text.toList
  | some value => Json.write value

theorem TaskSpec.shownName_sees? {spec : TaskSpec} {vars : Variables} {name : List Char} :
    Template.shownName (spec.sees? vars) name =
      spec.shows vars (String.ofList (trim name)) := by
  rw [Template.shownName, sees?, shows]
  -- inputs do not tell an absent variable from `null`, but neither of them is shown
  rcases spec.input? (String.ofList (trim name)) with _ | input
  · dsimp only [Option.elim_none]
    rcases vars.get? (String.ofList (trim name)) with _ | value
    · rfl
    · cases value <;> rfl
  · dsimp only [Option.elim_some]
    rcases vars.get? input.source with _ | value
    · rfl
    · cases value <;> rfl

theorem Executor.execute_template (instructions : String) (spec : TaskSpec) (vars : Variables) :
    (template.execute ⟨instructions, spec.resolve vars, vars⟩).result =
      .ok (.string (String.ofList (Template.render (spec.sees? vars) instructions.toList))) := by
  have hlookup : (fun name => (spec.resolve vars).get? name <|> vars.get? name) =
      spec.sees? vars := by
    funext name
    rw [← TaskSpec.get?_resolve_or, Option.or_eq_orElse]
    rfl
  rw [template, ← hlookup]
  rfl

/-- **Script tasks are rendered once.** Take a script task and let a built-in agent do it, under
whichever variables.  It gives a text, which is its script, rendered.  A text without an opening is
rendered as it is, and so is one whose first opening is closed nowhere.  A text whose first
placeholder is closed is rendered as what stands before it, then what the task shows for the name in
it, then what the text behind it is rendered as.  There are no other texts.  What the task shows for
a name comes from the variable that the last input under this name is taken from, or from the
variable of this name if there is no such input: nothing if it is absent or `null`, a text as it is,
and any other value as compact JSON. -/
theorem Agent.scripts_are_rendered (sink : Sink) (evaluator : Evaluator) {element : Element}
    {spec : TaskSpec} (hkind : element.kind = .task .script spec) (context : Context)
    (now : Nat) :
    let run := (Agent.builtin sink evaluator).executeTask element context now
    let render := Template.render (spec.sees? context.vars)
    run.value.1 = .ok (.string (String.ofList (render (spec.script.getD "").toList))) ∧
      (∀ text, ¬Template.opening <:+: text → render text = text) ∧
      (∀ front rest, ¬Template.opening <:+: front → front.getLast? ≠ some '{' →
        ¬Template.closing <:+: rest →
        render (front ++ Template.opening ++ rest) = front ++ Template.opening ++ rest) ∧
      (∀ front name rest, ¬Template.opening <:+: front → front.getLast? ≠ some '{' →
        ¬Template.closing <:+: name → name.getLast? ≠ some '}' →
        render (front ++ Template.opening ++ (name ++ Template.closing ++ rest)) =
          front ++ spec.shows context.vars (String.ofList (trim name)) ++ render rest) ∧
      ∀ text, ¬Template.opening <:+: text ∨
        (∃ front rest, text = front ++ Template.opening ++ rest ∧
          ¬Template.opening <:+: front ∧ front.getLast? ≠ some '{' ∧
          ¬Template.closing <:+: rest) ∨
        ∃ front name rest,
          text = front ++ Template.opening ++ (name ++ Template.closing ++ rest) ∧
          ¬Template.opening <:+: front ∧ front.getLast? ≠ some '{' ∧
          ¬Template.closing <:+: name ∧ name.getLast? ≠ some '}' := by
  intro run render
  refine ⟨?_, fun _ hplain => Template.render_plain hplain,
    fun _ _ hplain hlast hunclosed => Template.render_unclosed hplain hlast hunclosed,
    fun front name rest hplain hlast hname hend => ?_, Template.shape⟩
  · have hassign : (Agent.builtin sink evaluator).assign element =
        .ok (spec, spec.script.getD "", .template) :=
      assign_of_category (by rw [hkind]; rfl) (by rw [hkind]; rfl) rfl
    have hrun : run.value.1 = _ := executeTask_of_assigned hkind hassign context now
    rw [hrun, Executor.execute_template]
    rfl
  · rw [← TaskSpec.shownName_sees?]
    exact Template.render_closed hplain hlast hname hend

/-! ## A script full of braces

Inputs that hide variables, one of them taken from an absent one, and values with braces in them. -/

namespace Braces

/-- A placeholder. -/
def placeholder (name : String) : List Char :=
  Template.opening ++ name.toList ++ Template.closing

/-- The task: the second of the two inputs under one name counts. -/
def spec : TaskSpec :=
  { TaskSpec.of "writer" with
    script := some (String.ofList (['{', ' '] ++ placeholder " list " ++ placeholder "a" ++
      placeholder "b" ++ ['}', ' ', '{'] ++ placeholder "list" ++ Template.opening ++ ['a'])),
    inputs := [⟨"b", some "a"⟩, ⟨"a", none⟩, ⟨"absent", some "b"⟩] }

/-- The element. -/
def element : Element :=
  ⟨"note", none, .task .script spec⟩

/-- What looks like a placeholder, a list, and a variable that is hidden. -/
def context : Context :=
  .start "p" ⟨"i"⟩ [("a", .string (String.ofList (placeholder "list" ++ ['{']))), ("b", .int 7),
    ("list", .array [.int 1, .null])]

/-- The value is not looked at again, the hidden variable is not shown, and the braces beside a
pair belong to the name. -/
theorem note_is_rendered :
    element.kind = .task .script spec ∧
      ((Agent.builtin .null .conditions).executeTask element context 0).value.1 =
        .ok (.string (String.ofList (['{', ' '] ++ "[1,null]".toList ++ placeholder "list" ++
          ['{', '}', ' '] ++ Template.opening ++ ['a']))) := by
  have hkind : element.kind = .task .script spec := rfl
  obtain ⟨hvalue, -⟩ := Agent.scripts_are_rendered .null .conditions hkind context 0
  have hrender : Template.render (spec.sees? context.vars) (spec.script.getD "").toList =
      ['{', ' '] ++ "[1,null]".toList ++ placeholder "list" ++ ['{', '}', ' '] ++
        Template.opening ++ ['a'] := by decide +kernel
  refine ⟨hkind, ?_⟩
  rw [hvalue, hrender]

end Braces

end Workflow
