import Workflow.Text.Cut

/-!
# References in text

A text may refer to variables by name, as in `${name}`.  The text is taken apart once, from left to
right, and each reference is replaced by the variable's value; what is put in is never looked at
again.  A reference to a variable without a value is written out again.
-/

namespace Workflow.Text

/-- A part of a text with references. -/
inductive Segment where
  /-- text that stands for itself -/
  | plain (text : List Char)
  /-- a reference to a variable -/
  | reference (name : List Char)
deriving DecidableEq, Repr

/-- What begins a reference. -/
def referenceStart : List Char := ['$', '{']

/-- What ends a reference. -/
def referenceEnd : List Char := ['}']

/-- The parts of a text. The text behind a reference that does not end is its name. -/
def segments (text : List Char) : List Segment :=
  match hopen : cut referenceStart text with
  | none => [.plain text]
  | some (before, after) =>
    match hclose : cut referenceEnd after with
    | none => [.plain before, .reference after]
    | some (name, rest) =>
      have first := length_after_cut_lt (by simp [referenceStart]) hopen
      have second := length_after_cut_lt (by simp [referenceEnd]) hclose
      .plain before :: .reference name :: segments rest
termination_by text.length
decreasing_by omega

/-- What a part stands for, given the values of variables. -/
def Segment.expand (lookup : String → Option String) : Segment → List Char
  | plain text => text
  | reference name =>
    match lookup (String.ofList name) with
    | some value => value.toList
    | none => referenceStart ++ name ++ referenceEnd

/-- A text with its references replaced. -/
def expand (lookup : String → Option String) (text : List Char) : List Char :=
  (segments text).flatMap (Segment.expand lookup)

/-- The names of the variables that a text refers to. -/
def references (text : List Char) : List String :=
  (segments text).filterMap fun
    | .plain _ => none
    | .reference name => some (String.ofList name)

end Workflow.Text
