import Workflow.Proofs.Conditions.Reading

/-!
# The variable of a condition

The text of a condition tells which variable it looks at, and it looks at no other.  Without the
variable nothing holds but the literal and what asks for its absence, and a text that is no
condition holds nowhere.

A variable may have the name of a literal.  The literal is what such a key alone is read as, but an
exclamation mark in front of a key always asks for the variable.

* `Condition.key?` — the variable that a condition looks at.
* `Condition.holds_congr`, `Condition.holds_iff_of_absent` — conditions on variables that agree on
  it, and on variables without it.
* `Evaluator.negations_ask_for_variables` — when the negation of a key is the opposite of the key.
* `Evaluator.guards_fail_closed` — what any text at all means.
-/

namespace Workflow

open Text

theorem Text.not_isBlank_of_trim {text : List Char} :
    ∀ c ∈ (trim text).head?, isBlank c = false := by
  rcases hstart : trimStart text with _ | ⟨c, rest⟩
  · simp [trim, hstart]
  · have hc : isBlank c = false := not_isBlank_of_trimStart hstart
    rw [trim, hstart, trimEnd_cons_of_not rest hc]
    simpa using hc

namespace Condition

/-! ## The variable that a condition looks at -/

/-- The key of the variable that a condition looks at, if it does. -/
def key? : Condition → Option String
  | relation _ key _ => some key
  | truthy key => some key
  | falsy key => some key
  | literal _ => none
  | malformed => none

section Meaning

variable {vars vars' : Variables} {condition : Condition}

/-- What a condition means is told by its variable. -/
theorem holds_congr (h : ∀ key ∈ condition.key?, vars.get? key = vars'.get? key) :
    condition.holds vars = condition.holds vars' := by
  cases condition with
  | literal b => rfl
  | relation r key operand => simp only [holds, h key rfl]
  | truthy key => simp only [holds, h key rfl]
  | falsy key => simp only [holds, h key rfl]
  | malformed => rfl

/-- Without its variable a condition holds only if it is the literal or asks for that. -/
theorem holds_iff_of_absent (h : ∀ key ∈ condition.key?, vars.get? key = none) :
    condition.holds vars = true ↔ condition = .literal true ∨ ∃ key, condition = .falsy key := by
  cases condition with
  | literal b => simp [holds]
  | relation r key operand => simp [holds, h key rfl]
  | truthy key => simp [holds, h key rfl]
  | falsy key => simp [holds, h key rfl]
  | malformed => simp [holds]

end Meaning

/-! ## What texts are read as -/

section Texts

variable {text : String}

theorem read_of_blank (h : trim text.toList = []) : read text = .literal false := by
  rw [read, h]
  rfl

/-- A text that is read as a condition spells it, unless it may be blank. -/
theorem spells_read (hfalse : read text ≠ .literal false) (h : read text ≠ .malformed) :
    Spells (trim text.toList) (read text) :=
  spells_readTrimmed not_isBlank_of_trim (fun hnil => hfalse (read_of_blank hnil)) h

/-- A text that spells no condition holds nowhere. -/
theorem holds_read_of_not_spells (hnot : ¬∃ condition, Spells (trim text.toList) condition)
    (vars : Variables) : (read text).holds vars = false := by
  by_cases hfalse : read text = .literal false
  · rw [hfalse, holds]
  · have hread : read text = .malformed := by
      by_contra h
      exact hnot ⟨_, spells_read hfalse h⟩
    rw [hread, holds]

theorem read_eq_literal_true_iff :
    read text = .literal true ↔ trim text.toList = "true".toList := by
  constructor
  · intro h
    have hspells : Spells (trim text.toList) (read text) :=
      spells_read (by simp [h]) (by simp [h])
    rw [h] at hspells
    generalize trim text.toList = trimmed at hspells
    cases hspells
    rfl
  · intro h
    rw [read, h]
    rfl

theorem exists_read_eq_falsy_iff : (∃ key, read text = .falsy key) ↔
    ∃ name, isKey name = true ∧ trim text.toList = '!' :: name := by
  constructor
  · rintro ⟨key, h⟩
    have hspells : Spells (trim text.toList) (read text) :=
      spells_read (by simp [h]) (by simp [h])
    rw [h] at hspells
    generalize trim text.toList = trimmed at hspells ⊢
    cases hspells with
    | falsy hkey => exact ⟨_, hkey, rfl⟩
  · rintro ⟨name, hname, h⟩
    exact ⟨String.ofList name, by rw [read, h, readTrimmed_negated hname]⟩

end Texts

end Condition

namespace Evaluator

/-! ## Keys and their negations -/

section Keys

variable {key : String} (hkey : isKey key.toList = true)
include hkey

theorem conditions_negated (vars : Variables) :
    conditions ("!" ++ key) vars = !(vars.get? key).any Value.isTruthy := by
  have hmark : isBlank '!' = false := by decide
  have htext : trim ("!" ++ key).toList = '!' :: key.toList := by
    have hcons : ("!" ++ key).toList = '!' :: key.toList := by simp
    rw [hcons, trim_cons_of_not _ hmark, trimEnd_of_isKey hkey]
  rw [conditions, Condition.read, htext, Condition.readTrimmed_negated hkey, String.ofList_toList,
    Condition.holds]

theorem conditions_key (htrue : key ≠ "true") (hfalse : key ≠ "false") (vars : Variables) :
    conditions key vars = (vars.get? key).any Value.isTruthy := by
  rw [conditions, Condition.read, trim_of_isKey hkey, Condition.readTrimmed_key hkey
    (fun h => htrue (String.toList_inj.mp h)) (fun h => hfalse (String.toList_inj.mp h)),
    String.ofList_toList, Condition.holds]

end Keys

theorem conditions_true (vars : Variables) : conditions "true" vars = true := rfl

theorem conditions_false (vars : Variables) : conditions "false" vars = false := rfl

/-- **Negations ask for variables.** An exclamation mark in front of a key says that there is no
variable of this name or that it is not truthy, even if the name is that of a literal.  So it is the
negation of the key for every key that is no literal, and for the literals just if there is a truthy
variable `true`, and if there is none that is called `false`. -/
theorem negations_ask_for_variables (key : String) (hkey : isKey key.toList = true)
    (vars : Variables) :
    conditions ("!" ++ key) vars = !(vars.get? key).any Value.isTruthy ∧
    ((conditions ("!" ++ key) vars = !conditions key vars) ↔
      (key = "true" → (vars.get? key).any Value.isTruthy = true) ∧
      (key = "false" → (vars.get? key).any Value.isTruthy = false)) := by
  refine ⟨conditions_negated hkey vars, ?_⟩
  rw [conditions_negated hkey vars, Bool.not_inj_iff]
  by_cases htrue : key = "true"
  · subst htrue
    simp [conditions_true]
  by_cases hfalse : key = "false"
  · subst hfalse
    simp [conditions_false]
  · simp [conditions_key hkey htrue hfalse, htrue, hfalse]

end Evaluator

/-! ## Variables that are called like literals -/

namespace Namesake

/-- A truthy variable called `true`. -/
def vars : Variables :=
  [("true", .int 1)]

/-- With it, the negation of the literal is that. -/
theorem negation_of_namesake :
    isKey "true".toList = true ∧
      Evaluator.conditions ("!" ++ "true") vars = !Evaluator.conditions "true" vars := by
  have hkey : isKey "true".toList = true := by decide
  exact ⟨hkey, (Evaluator.negations_ask_for_variables "true" hkey vars).2.mpr
    ⟨fun _ => rfl, fun h => absurd h (by decide)⟩⟩

/-- Without it, the literal and its negation both hold. -/
theorem literal_beside_negation :
    isKey "true".toList = true ∧
      Evaluator.conditions ("!" ++ "true") [] ≠ !Evaluator.conditions "true" [] := by
  decide +kernel

end Namesake

/-! ## Any text at all -/

/-- **Guards fail closed.** For every text there is a key such that what the text means is told by
the variable under it.  Without that variable it holds only if it is the literal `true` or an
exclamation mark and a key, blanks around it aside; and then it does.  A text that spells no
condition holds on no variables. -/
theorem Evaluator.guards_fail_closed (text : String) :
    (∃ key, (∀ vars vars' : Variables, vars.get? key = vars'.get? key →
        conditions text vars = conditions text vars') ∧
      ∀ vars : Variables, vars.get? key = none →
        (conditions text vars = true ↔ trim text.toList = "true".toList ∨
          ∃ name, isKey name = true ∧ trim text.toList = '!' :: name)) ∧
    ((¬∃ condition, Condition.Spells (trim text.toList) condition) →
      ∀ vars, conditions text vars = false) := by
  constructor
  · -- a text that looks at no variable is told by any
    have hkey : ∀ key ∈ (Condition.read text).key?, key = (Condition.read text).key?.getD "" :=
      fun key hkey => by rw [Option.mem_def.mp hkey, Option.getD_some]
    refine ⟨(Condition.read text).key?.getD "", fun vars vars' hvars => ?_, fun vars hvars => ?_⟩
    · exact Condition.holds_congr fun key h => by rw [hkey key h, hvars]
    · rw [conditions, Condition.holds_iff_of_absent fun key h => by rw [hkey key h, hvars],
        Condition.read_eq_literal_true_iff, Condition.exists_read_eq_falsy_iff]
  · intro hnot vars
    exact Condition.holds_read_of_not_spells hnot vars

namespace Garbled

/-- A relation behind two words. -/
def text : String :=
  " big deal > 3 "

/-- What the two words are. -/
def vars : Variables :=
  [("big", .int 4), ("deal", .int 5)]

/-- It spells no condition, so it does not hold, whatever the words are. -/
theorem garbled_text_fails :
    (¬∃ condition, Condition.Spells (trim text.toList) condition) ∧
      Evaluator.conditions text vars = false := by
  have hread : Condition.readTrimmed (trim text.toList) = .malformed := by decide +kernel
  have hnot : ¬∃ condition, Condition.Spells (trim text.toList) condition := by
    rintro ⟨condition, hspells⟩
    exact hspells.readTrimmed_ne hread
  exact ⟨hnot, (Evaluator.guards_fail_closed text).2 hnot vars⟩

end Garbled

end Workflow
