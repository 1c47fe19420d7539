import Workflow.Proofs.Conditions.Reading

/-!
# Operands

What stands behind the mark of a relation is its operand, to the end of the condition.  An operand
may hold marks, words, quotes and line feeds: none of them makes another relation of the condition.

* `Condition.read_related` — what is read from a key, a relation and an operand.
* `unquote_quoted` — a text between quotes.
* `Evaluator.conditions_related` — what such conditions mean.
* `Evaluator.operands_are_inert` — the same for every key, with what it says of quoted operands and
  of opposite relations.
-/

namespace Workflow

open Text

/-! ## Relations as they are written -/

/-- What a condition writes for a relation, between two blanks. -/
def Relation.word : Relation → String
  | contains => "contains"
  | r => r.mark

namespace Relation

theorem word_of_ne {r : Relation} (h : r ≠ contains) : r.word = r.mark := by
  rcases r with _ | _ | _ | cmp
  case contains => exact absurd rfl h
  all_goals rfl

/-- No mark but one has blanks in it. -/
theorem trimEnd_mark {r : Relation} (h : r ≠ contains) : trimEnd r.mark.toList = r.mark.toList := by
  rcases r with _ | _ | _ | cmp
  case contains => exact absurd rfl h
  case compares => cases cmp <;> rfl
  all_goals rfl

end Relation

namespace Condition

/-- What is read from a key, a relation and an operand. -/
theorem read_related {key rhs : String} {r : Relation} (hkey : isKey key.toList = true)
    (hrhs : r = .contains → trim rhs.toList ≠ []) :
    read (key ++ " " ++ r.word ++ " " ++ rhs) = .relation r key (trim rhs.toList) := by
  by_cases hr : r = .contains
  · subst hr
    have htext : (key ++ " " ++ Relation.contains.word ++ " " ++ rhs).toList =
        key.toList ++ (Relation.contains.mark.toList ++ rhs.toList) := by
      simp [Relation.word, Relation.mark]
    have hend : trimEnd rhs.toList ≠ [] := by
      rw [Ne, trimEnd_eq_nil_iff, ← trim_eq_nil_iff]
      exact hrhs rfl
    rw [read, htext, trim_append_of_isKey hkey, trimEnd_append_of_ne _ hend,
      readTrimmed_containing hkey, trim_trimEnd, String.ofList_toList]
  · have htext : (key ++ " " ++ r.word ++ " " ++ rhs).toList =
        key.toList ++ ([' '] ++ (r.mark.toList ++ ' ' :: rhs.toList)) := by
      simp [Relation.word_of_ne hr]
    have hmark : trimEnd (r.mark.toList ++ ' ' :: rhs.toList) =
        r.mark.toList ++ trimEnd (' ' :: rhs.toList) :=
      trimEnd_append_of_eq _ (Relation.trimEnd_mark hr)
    have hend : trimEnd (r.mark.toList ++ ' ' :: rhs.toList) ≠ [] := by
      obtain ⟨m, mark, hm, -⟩ := r.exists_toList_mark
      rw [hmark, hm]
      exact List.cons_ne_nil _ _
    have htail : (trimEnd (' ' :: rhs.toList)).head? ≠ some '=' := by
      rw [← List.singleton_append, trimEnd_append]
      split
      · decide
      · simp
    rw [read, htext, trim_append_of_isKey hkey, trimEnd_append_of_ne _ hend, hmark,
      List.singleton_append, readTrimmed_related hkey hr htail, trim_trimEnd,
      trim_cons_of_isBlank _ rfl, String.ofList_toList]

end Condition

/-! ## Quoted operands -/

theorem dropWhile_quotes {s : List Char} (h : s.head? ≠ some '"') :
    s.dropWhile (· = '"') = s := by
  rcases s with _ | ⟨c, s⟩
  · rfl
  · have hc : c ≠ '"' := fun hc => h (by rw [hc]; rfl)
    simp [hc]

/-- A text between quotes is itself without them, if it neither begins nor ends with a quote. -/
theorem unquote_quoted {s : List Char} (hfirst : s.head? ≠ some '"')
    (hlast : s.getLast? ≠ some '"') : unquote ('"' :: s ++ ['"']) = s := by
  rcases hs : s with _ | ⟨c, rest⟩
  · rfl
  rw [← hs]
  have hfront : ('"' :: s ++ ['"']).dropWhile (· = '"') = s ++ ['"'] := by
    have hhead : (s ++ ['"']).head? ≠ some '"' := by
      rw [hs] at hfirst ⊢
      exact hfirst
    simpa using dropWhile_quotes hhead
  have hback : (s ++ ['"']).reverse.dropWhile (· = '"') = s.reverse := by
    have hhead : s.reverse.head? ≠ some '"' := by
      rw [List.head?_reverse]
      exact hlast
    simpa using dropWhile_quotes hhead
  rw [unquote, hfront, hback, List.reverse_reverse]

namespace Text

theorem trim_quoted (s : List Char) : trim ('"' :: s ++ ['"']) = '"' :: s ++ ['"'] := by
  have hquote : isBlank '"' = false := by decide
  rw [trim, List.cons_append, trimStart_cons_of_not hquote, ← List.cons_append,
    trimEnd_concat_of_not hquote]

end Text

theorem Operand.read_quoted {s : List Char} (hfirst : s.head? ≠ some '"')
    (hlast : s.getLast? ≠ some '"') :
    Operand.read ('"' :: s ++ ['"']) = .text (String.ofList s) := by
  have hhead : ('"' :: s ++ ['"']).head? = some '"' := rfl
  rw [Operand.read, if_pos hhead, unquote_quoted hfirst hlast]

theorem Value.asText?_eq_some_iff {value : Value} {s : String} :
    value.asText? = some s ↔ value = .string s := by
  cases value <;> simp [Value.asText?]

namespace Relation

variable {value : Value} {s : String}

/-- A value is equal to a quoted text if it is this text. -/
theorem equals_quoted (hfirst : s.toList.head? ≠ some '"') (hlast : s.toList.getLast? ≠ some '"') :
    equals.holds value ('"' :: s.toList ++ ['"']) = true ↔ value = .string s := by
  rw [holds, Operand.read_quoted hfirst hlast, String.ofList_toList, Value.matchesOperand,
    beq_iff_eq, Value.asText?_eq_some_iff]

/-- A value contains a quoted text if it is a text that this one is part of. -/
theorem contains_quoted (hfirst : s.toList.head? ≠ some '"')
    (hlast : s.toList.getLast? ≠ some '"') :
    contains.holds value ('"' :: s.toList ++ ['"']) = true ↔
      ∃ t, value = .string t ∧ s.toList <:+: t.toList := by
  rw [holds, unquote_quoted hfirst hlast]
  rcases htext : value.asText? with _ | t
  · refine iff_of_false Bool.false_ne_true ?_
    rintro ⟨t, rfl, -⟩
    cases htext
  · obtain rfl := Value.asText?_eq_some_iff.mp htext
    simp [contains_iff]

end Relation

/-! ## What conditions with operands mean -/

namespace Evaluator

variable {key : String} {vars : Variables}

/-- A relation on a variable is decided by the variable and the operand. -/
theorem conditions_related {rhs : String} {r : Relation} (hkey : isKey key.toList = true)
    (hrhs : r = .contains → trim rhs.toList ≠ []) :
    conditions (key ++ " " ++ r.word ++ " " ++ rhs) vars =
      (vars.get? key).any fun value => r.holds value (trim rhs.toList) := by
  rw [conditions, Condition.read_related hkey hrhs, Condition.holds]
  rcases vars.get? key with _ | value <;> rfl

theorem conditions_quoted {s : String} {r : Relation} (hkey : isKey key.toList = true) :
    conditions (key ++ " " ++ r.word ++ " " ++ ("\"" ++ s ++ "\"")) vars = true ↔
      ∃ value, vars.get? key = some value ∧
        r.holds value ('"' :: s.toList ++ ['"']) = true := by
  have hquoted : trim ("\"" ++ s ++ "\"").toList = '"' :: s.toList ++ ['"'] := by
    rw [← trim_quoted]
    simp
  have hrhs : r = .contains → trim ("\"" ++ s ++ "\"").toList ≠ [] := fun _ => by
    rw [hquoted]
    exact List.cons_ne_nil _ _
  rw [conditions_related hkey hrhs, hquoted, Option.any_eq_true]

section Quoted

variable {s : String} (hkey : isKey key.toList = true) (hfirst : s.toList.head? ≠ some '"')
  (hlast : s.toList.getLast? ≠ some '"')
include hkey hfirst hlast

/-- A variable equals a quoted text if it is this text. -/
theorem conditions_equals_iff :
    conditions (key ++ " == \"" ++ s ++ "\"") vars = true ↔ vars.get? key = some (.string s) := by
  have htext : key ++ " == \"" ++ s ++ "\"" =
      key ++ " " ++ Relation.equals.word ++ " " ++ ("\"" ++ s ++ "\"") :=
    String.toList_inj.mp (by simp [Relation.word, Relation.mark])
  rw [htext, conditions_quoted hkey]
  simp only [Relation.equals_quoted hfirst hlast, exists_eq_right]

/-- A variable contains a quoted text if it is a text of which this one is part. -/
theorem conditions_contains_iff :
    conditions (key ++ " contains \"" ++ s ++ "\"") vars = true ↔
      ∃ t, vars.get? key = some (.string t) ∧ s.toList <:+: t.toList := by
  have htext : key ++ " contains \"" ++ s ++ "\"" =
      key ++ " " ++ Relation.contains.word ++ " " ++ ("\"" ++ s ++ "\"") :=
    String.toList_inj.mp (by simp [Relation.word])
  rw [htext, conditions_quoted hkey]
  simp only [Relation.contains_quoted hfirst hlast]
  constructor
  · rintro ⟨_, hvalue, t, rfl, hpart⟩
    exact ⟨t, hvalue, hpart⟩
  · rintro ⟨t, hvalue, hpart⟩
    exact ⟨_, hvalue, t, rfl, hpart⟩

end Quoted

/-- A variable that does not equal an operand differs from it. -/
theorem conditions_differs (hkey : isKey key.toList = true) (rhs : String)
    (hvar : (vars.get? key).isSome = true) :
    conditions (key ++ " != " ++ rhs) vars = !conditions (key ++ " == " ++ rhs) vars := by
  have hdiffers : key ++ " != " ++ rhs = key ++ " " ++ Relation.differs.word ++ " " ++ rhs :=
    String.toList_inj.mp (by simp [Relation.word, Relation.mark])
  have hequals : key ++ " == " ++ rhs = key ++ " " ++ Relation.equals.word ++ " " ++ rhs :=
    String.toList_inj.mp (by simp [Relation.word, Relation.mark])
  obtain ⟨value, hvalue⟩ := Option.isSome_iff_exists.mp hvar
  rw [hdiffers, hequals, conditions_related (r := .differs) hkey (by simp),
    conditions_related (r := .equals) hkey (by simp), hvalue]
  rfl

/-- **Operands are inert.** Take any key and any variables.  A condition made of the key, one of the
seven relations and any operand, whatever marks, words, quotes and line feeds it holds, means what
the relation says of the variable and of the operand without the blanks around it, and it does not
hold if there is no such variable; only for a containment the operand must not be blank.  So a
variable equals a quoted text if it is this text, and contains it if it is a text of which this one
is part, provided that the quoted text neither begins nor ends with a quote.  And if there is the
variable, it either equals an operand or differs from it. -/
theorem operands_are_inert (key : String) (hkey : isKey key.toList = true) (vars : Variables) :
    (∀ (r : Relation) (rhs : String), (r = .contains → trim rhs.toList ≠ []) →
      conditions (key ++ " " ++ r.word ++ " " ++ rhs) vars =
        (vars.get? key).any fun value => r.holds value (trim rhs.toList)) ∧
    (∀ s : String, s.toList.head? ≠ some '"' → s.toList.getLast? ≠ some '"' →
      (conditions (key ++ " == \"" ++ s ++ "\"") vars = true ↔
        vars.get? key = some (.string s)) ∧
      (conditions (key ++ " contains \"" ++ s ++ "\"") vars = true ↔
        ∃ t, vars.get? key = some (.string t) ∧ s.toList <:+: t.toList)) ∧
    ∀ rhs : String, (vars.get? key).isSome = true →
      conditions (key ++ " != " ++ rhs) vars = !conditions (key ++ " == " ++ rhs) vars := by
  refine ⟨fun r rhs => conditions_related hkey, fun s hfirst hlast => ⟨?_, ?_⟩,
    conditions_differs hkey⟩
  · exact conditions_equals_iff hkey hfirst hlast
  · exact conditions_contains_iff hkey hfirst hlast

end Evaluator

/-! ## Operands that look like relations -/

namespace Decoy

/-- A text with the marks of other relations in it. -/
def decoy : String :=
  "b != c contains \" >= d\n<= == e"

/-- What a variable is. -/
def vars : Variables :=
  [("note", .string decoy)]

/-- The conditions are on the variable `note`, and the operand is the whole text. -/
theorem decoys_are_operands :
    isKey "note".toList = true ∧ trim decoy.toList ≠ [] ∧
      Evaluator.conditions ("note" ++ " " ++ Relation.contains.word ++ " " ++ decoy) vars = true ∧
      decoy.toList.head? ≠ some '"' ∧ decoy.toList.getLast? ≠ some '"' ∧
      Evaluator.conditions ("note" ++ " == \"" ++ decoy ++ "\"") vars = true ∧
      (vars.get? "note").isSome = true ∧
      Evaluator.conditions ("note" ++ " != " ++ decoy) vars =
        !Evaluator.conditions ("note" ++ " == " ++ decoy) vars := by
  have hkey : isKey "note".toList = true := by decide
  have hrhs : trim decoy.toList ≠ [] := by decide
  have hfirst : decoy.toList.head? ≠ some '"' := by decide
  have hlast : decoy.toList.getLast? ≠ some '"' := by decide
  have hself : Relation.contains.holds (.string decoy) (trim decoy.toList) = true := by
    decide +kernel
  obtain ⟨hrelated, hquoted, hopposite⟩ := Evaluator.operands_are_inert "note" hkey vars
  exact ⟨hkey, hrhs, (hrelated .contains decoy fun _ => hrhs).trans hself, hfirst, hlast,
    (hquoted decoy hfirst hlast).1.mpr rfl, rfl, hopposite decoy rfl⟩

end Decoy

end Workflow
