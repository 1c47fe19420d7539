import Workflow.Table
import Workflow.Text.Cut

/-!
# The environment

The variables of a program's surroundings.  An environment is a list of lines, each of a name, an
equals sign and a value, and a look-up reads the lines as they stand: it finds the first one that
begins with the wanted name and an equals sign, and answers with what is behind them.  So a wanted
name may reach over an equals sign into a value.  A name without one is looked up as in a table
(`get?_eq_get?`).
-/

namespace Workflow

/-- The variables of a program's surroundings. -/
structure Environment where
  /-- what each variable is worth -/
  entries : Table String

namespace Environment

/-- What a line of name and value says about a wanted name. -/
def valueIn? (wanted name value : List Char) : Option (List Char) :=
  Text.behind? (wanted ++ ['=']) (name ++ '=' :: value)

/-- What a name is worth. -/
def get? (environment : Environment) (wanted : String) : Option String :=
  environment.entries.findSome? fun (name, value) =>
    (valueIn? wanted.toList name.toList value.toList).map String.ofList

/-- Where neither name holds an equals sign, a line speaks of its own name only. -/
theorem valueIn?_eq {wanted name : List Char} (value : List Char) (hw : '=' ∉ wanted)
    (hn : '=' ∉ name) :
    valueIn? wanted name value = if name = wanted then some value else none := by
  induction wanted generalizing name with
  | nil =>
    cases name with
    | nil => simp [valueIn?, Text.behind?]
    | cons c name =>
      have hc : '=' ≠ c := fun h => hn (h ▸ List.mem_cons_self)
      simp [valueIn?, Text.behind?, hc]
  | cons w wanted ih =>
    cases name with
    | nil =>
      have hc : w ≠ '=' := fun h => hw (h ▸ List.mem_cons_self)
      simp [valueIn?, Text.behind?, hc]
    | cons c name =>
      have rest : valueIn? wanted name value = if name = wanted then some value else none :=
        ih (fun h => hw (List.mem_cons_of_mem _ h)) (fun h => hn (List.mem_cons_of_mem _ h))
      simp only [valueIn?] at rest
      by_cases hc : w = c
      · subst hc
        simp [valueIn?, Text.behind?, rest]
      · simp [valueIn?, Text.behind?, hc, Ne.symm hc]

/-- Names without an equals sign are looked up as in a table. -/
theorem get?_eq_get? (environment : Environment) (wanted : String) (hw : '=' ∉ wanted.toList)
    (names : ∀ entry ∈ environment.entries, '=' ∉ entry.1.toList) :
    environment.get? wanted = Table.get? environment.entries wanted := by
  obtain ⟨entries⟩ := environment
  induction entries with
  | nil => rfl
  | cons entry entries ih =>
    obtain ⟨name, value⟩ := entry
    have rest := ih fun e he => names e (List.mem_cons_of_mem _ he)
    simp only [get?] at rest
    have hn : '=' ∉ name.toList := names (name, value) (by simp)
    by_cases h : name = wanted
    · subst h
      simp [get?, Table.get?, valueIn?_eq value.toList hw hn]
    · have hl : name.toList ≠ wanted.toList := fun e => h (String.toList_inj.1 e)
      simp [get?, Table.get?, valueIn?_eq value.toList hw hn, h, hl, rest]

end Environment

end Workflow
