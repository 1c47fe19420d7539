import Workflow.Error
import Workflow.Json.Reader

/-!
# Typed values from JSON text

A text is read and its document decoded.  What stands behind the document matters last: a fault
inside it is reported first.
-/

namespace Workflow.Json

/-- The line and column at which `bytesLeft` bytes of a text are left. Lines count from one, columns
are the bytes since the line's start. -/
def placeOf (text : List Char) (bytesLeft : Nat) : Nat × Nat :=
  let total := byteCount text
  let step : Nat × Nat × Nat → Char → Nat × Nat × Nat := fun (index, line, start) c =>
    let next := index + c.utf8Size
    if next + bytesLeft ≤ total && c = '\n' then (next, line + 1, next) else (next, line, start)
  let (_, line, start) := text.foldl step (0, 1, 0)
  (line, total - bytesLeft - start)

/-- What a decoder makes of a text. -/
def decode {α : Type} (decoder : Document → Decoded α) (text : String) : Except Error α :=
  let located (fault : Fault) : JsonFault :=
    match fault with
    | .stop s => ⟨fault, some (placeOf text.toList s.bytesLeft)⟩
    | _ => ⟨fault, none⟩
  let (document, ending) := read text
  match decoder document, ending with
  | .error fault, _ => .error (.json (located fault))
  | .ok _, some stop => .error (.json (located (.stop stop)))
  | .ok value, none => .ok value

/-- The value of a text. -/
def readValueOf (text : String) : Except Error Value :=
  decode (Document.toValue .json 0) text

/-- The quoted text that a text holds. A fault of the wrong shape is placed where reading had come
to: behind a value without parts, in front of any other. -/
def readTextOf (text : String) : Except Error String :=
  match decode Document.text text with
  | .error (.json ⟨.shape message, none⟩) =>
    let chars := skipBlanks text.toList
    let left :=
      match readValue 1 chars with
      | (.scalar _, .ok rest) => byteCount rest
      | _ => byteCount chars
    .error (.json ⟨.shape message, some (placeOf text.toList left)⟩)
  | other => other

end Workflow.Json
