import Workflow.Json.Value
import Workflow.Number.Shortest

/-!
# Values as JSON text

The compact form has no blanks and is what templates show and span logs hold.  The indented form
puts every entry on a line of its own.  Text is escaped only where it has to be: the quote, the
backslash and the control characters, so a line feed never stands in the text of a value.
-/

namespace Workflow.Json

open Number

/-- Doubles are written positionally for exponents from -5 to 15. -/
def doubleLayout : Layout := ⟨-5, 15⟩

/-- A hexadecimal digit in lower case. -/
def hexDigit (n : Nat) : Char :=
  Char.ofNat (if n < 10 then '0'.toNat + n else 'a'.toNat + (n - 10))

/-- A character inside a quoted text. -/
def escape (c : Char) : List Char :=
  if c = '"' then ['\\', '"']
  else if c = '\\' then ['\\', '\\']
  else if c = '\n' then ['\\', 'n']
  else if c = '\r' then ['\\', 'r']
  else if c = '\t' then ['\\', 't']
  else if c.toNat = 0x08 then ['\\', 'b']
  else if c.toNat = 0x0C then ['\\', 'f']
  else if c.toNat < 0x20 then
    ['\\', 'u', '0', '0', hexDigit (c.toNat / 16), hexDigit (c.toNat % 16)]
  else [c]

/-- A text in quotes. -/
def quote (text : String) : List Char :=
  '"' :: (text.toList.flatMap escape ++ ['"'])

/-- A whole number in decimal. -/
def writeInt (i : Int) : List Char :=
  let digits := Nat.toDigits 10 i.natAbs
  if i < 0 then '-' :: digits else digits

/-- Parts with a separator between each two. -/
def separated (separator : List Char) : List (List Char) → List Char
  | [] => []
  | [part] => part
  | part :: more => part ++ separator ++ separated separator more

mutual

/-- A value in the compact form. -/
def write : Value → List Char
  | .null => "null".toList
  | .bool true => "true".toList
  | .bool false => "false".toList
  | .int i => writeInt i
  | .double d => d.write doubleLayout
  | .string s => quote s
  | .array items => '[' :: (separated [','] (writeItems items) ++ [']'])
  | .object fields => '{' :: (separated [','] (writeFields fields) ++ ['}'])

/-- The items of an array, each in the compact form. -/
def writeItems : List Value → List (List Char)
  | [] => []
  | item :: more => write item :: writeItems more

/-- The fields of an object, each in the compact form. -/
def writeFields : List (String × Value) → List (List Char)
  | [] => []
  | (name, value) :: more => (quote name ++ ':' :: write value) :: writeFields more

end

/-- An object in the compact form with its fields in the order given. -/
def writeRecord (fields : List (String × Value)) : List Char :=
  '{' :: (separated [','] (writeFields fields) ++ ['}'])

/-- The compact form of a value. -/
def render (value : Value) : String :=
  String.ofList (write value)

/-! ## The indented form -/

/-- A line feed and the indentation of a depth, two blanks for each level. -/
def newLine (depth : Nat) : List Char :=
  '\n' :: List.replicate (2 * depth) ' '

/-- Entries between two brackets, each on a line of its own. -/
def bracketed (opening closing : Char) (depth : Nat) (entries : List (List Char)) : List Char :=
  if entries.isEmpty then [opening, closing]
  else
    opening :: newLine (depth + 1) ++ separated (',' :: newLine (depth + 1)) entries ++
      newLine depth ++ [closing]

mutual

/-- A value in the indented form, inside `depth` brackets. -/
def writeIndented (depth : Nat) : Value → List Char
  | .array items => bracketed '[' ']' depth (indentedItems (depth + 1) items)
  | .object fields => bracketed '{' '}' depth (indentedFields (depth + 1) fields)
  | .null => "null".toList
  | .bool b => write (.bool b)
  | .int i => write (.int i)
  | .double d => write (.double d)
  | .string s => write (.string s)

/-- The items of an array, each in the indented form. -/
def indentedItems (depth : Nat) : List Value → List (List Char)
  | [] => []
  | item :: more => writeIndented depth item :: indentedItems depth more

/-- The fields of an object, each in the indented form. -/
def indentedFields (depth : Nat) : List (String × Value) → List (List Char)
  | [] => []
  | (name, value) :: more =>
    (quote name ++ ':' :: ' ' :: writeIndented depth value) :: indentedFields depth more

end

/-- The indented form of a value. -/
def renderIndented (value : Value) : String :=
  String.ofList (writeIndented 0 value)

end Workflow.Json
