import Workflow.Definition.Basic

/-!
# Building definitions

Definitions put together piece by piece.  The pieces may come in any order; only the finished
definition is checked.
-/

namespace Workflow

/-- A piece of a definition. -/
inductive Piece where
  /-- name the process -/
  | name (text : String)
  /-- add an element -/
  | element (e : Element)
  /-- add a flow -/
  | flow (f : Flow)
  /-- add flows without guards from each id to the next -/
  | sequence (ids : List String)

namespace Definition

/-- A definition without elements. -/
def empty (id : String) : Definition :=
  ⟨id, none, [], []⟩

/-- Flows without guards from each id to the next. -/
def chain : List String → List Flow
  | source :: target :: more => ⟨source, target, none⟩ :: chain (target :: more)
  | _ => []

/-- A definition with one more piece. -/
def add (definition : Definition) : Piece → Definition
  | .name text => { definition with name := some text }
  | .element e => { definition with elements := definition.elements ++ [e] }
  | .flow f => { definition with flows := definition.flows ++ [f] }
  | .sequence ids => { definition with flows := definition.flows ++ chain ids }

/-- The definition made of pieces, if it is well formed. -/
def build (id : String) (pieces : List Piece) : Except Error Definition :=
  (pieces.foldl add (empty id)).validated

end Definition

end Workflow
