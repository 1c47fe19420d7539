import Workflow.Definition.Codec
import Workflow.Dialogue
import Workflow.Json.Typed
import Workflow.Toml.Typed

/-!
# Loading definitions

A definition is loaded from JSON or TOML text, or from a file, whose name says by its ending which
of the two is in it.  What is loaded is well formed.
-/

namespace Workflow.Definition

/-- The definition that JSON text gives. -/
def ofJson (text : String) : Except Error Definition := do
  let definition ← Json.decode (Definition.decode .json) text
  definition.validated

/-- The definition that TOML text gives. -/
def ofToml (text : String) : Except Error Definition := do
  let definition ← (Toml.decode (Definition.decode .toml) text).mapError fun reason =>
    .malformedProcess (.unreadable reason)
  definition.validated

/-- The definition that the text of a file gives. -/
def ofFile (path text : String) : Except Error Definition :=
  match Path.ending? path with
  | some "json" => ofJson text
  | some "toml" => ofToml text
  | ending => .error (.malformedProcess (.unsupportedFormat (ending.getD "") path))

/-- Load a definition from a file. -/
def load (path : String) : Dialogue (Except Error Definition) := do
  match ← .question (.read path) with
  | .error fault => return .error (.file fault)
  | .ok text => return ofFile path text

end Workflow.Definition
