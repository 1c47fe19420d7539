import Workflow.Document.Decode
import Workflow.Toml.Reader

/-!
# Typed values from TOML text
-/

namespace Workflow.Toml

/-- What a decoder makes of a text, or why it makes nothing. -/
def decode {α : Type} (decoder : Document → Decoded α) (text : String) : Except String α :=
  match read text with
  | none => .error "invalid TOML"
  | some document => (decoder document).mapError Fault.words

end Workflow.Toml
