import Workflow.Json.Printer
import Workflow.Text.Blank
import Workflow.Text.Cut

/-!
# Templates

A template is text with placeholders between double braces.  Rendering goes through it once, from
left to right, and puts the value of each name in the place of its placeholder; what it puts in is
never looked at again.  A placeholder that is not closed stays as it is written.
-/

namespace Workflow

open Text

namespace Template

/-- Two opening braces. -/
def opening : List Char := ['{', '{']

/-- Two closing braces. -/
def closing : List Char := ['}', '}']

/-- What a template shows for a value: a text as it is, nothing for `null`, and any other value as
compact JSON. -/
def shown : Value → List Char
  | .null => []
  | .string s => s.toList
  | value => Json.write value

/-- What a template shows for a name, given the value under it. -/
def shownName (lookup : String → Option Value) (name : List Char) : List Char :=
  match lookup (String.ofList (trim name)) with
  | some value => shown value
  | none => []

/-- A template with every closed placeholder replaced. -/
def render (lookup : String → Option Value) (text : List Char) : List Char :=
  match hopen : cut opening text with
  | none => text
  | some (before, after) =>
    match hclose : cut closing after with
    | none => text
    | some (name, rest) =>
      have first := length_after_cut_lt (by simp [opening]) hopen
      have second := length_after_cut_lt (by simp [closing]) hclose
      before ++ shownName lookup name ++ render lookup rest
termination_by text.length
decreasing_by omega

end Template

end Workflow
