import Workflow.Json.Value

/-!
# Documents

A document is what a definition, a configuration or a stored value is read from, before its shape is
looked at.  It keeps what a `Value` forgets: the order of the fields, repeated fields, and where
reading came to a stop.

A text is read from left to right, and so is the document made of it: a decoder that walks the
document in order meets a field of the wrong shape before a mistake in the text behind it, and that
is the one it reports.  Some mistakes only matter to a reader who wants the value, such as a number
too large for a double; in a field that nobody asks for they pass.  So an unreadable scalar records
two stops, one for each kind of reader.
-/

namespace Workflow

open Number

/-- What is wrong with a text that is no JSON. -/
inductive Mistake where
  | endInList | endInObject | endInText | endInValue
  | noColon | noListEnd | noObjectEnd | noWord | noValue
  | badEscape | badNumber | numberOutOfRange | controlCharacter | keyNotText
  | loneSurrogate | unfinishedEscape | trailingComma | trailingCharacters | tooDeep
deriving DecidableEq, Repr

namespace Mistake

/-- Whether more text could have mended the mistake. -/
def atEnd : Mistake → Bool
  | endInList | endInObject | endInText | endInValue => true
  | _ => false

/-- The mistake in words. -/
def message : Mistake → String
  | endInList => "EOF while parsing a list"
  | endInObject => "EOF while parsing an object"
  | endInText => "EOF while parsing a string"
  | endInValue => "EOF while parsing a value"
  | noColon => "expected `:`"
  | noListEnd => "expected `,` or `]`"
  | noObjectEnd => "expected `,` or `\x7d`"
  | noWord => "expected ident"
  | noValue => "expected value"
  | badEscape => "invalid escape"
  | badNumber => "invalid number"
  | numberOutOfRange => "number out of range"
  | controlCharacter =>
    "control character (\\u0000-\\u001F) found while parsing a string"
  | keyNotText => "key must be a string"
  | loneSurrogate => "lone leading surrogate in hex escape"
  | unfinishedEscape => "unexpected end of hex escape"
  | trailingComma => "trailing comma"
  | trailingCharacters => "trailing characters"
  | tooDeep => "recursion limit exceeded"

end Mistake

/-- Where and why reading stopped. -/
structure Stop where
  /-- what is wrong -/
  mistake : Mistake
  /-- how many bytes of the text stand behind the place -/
  bytesLeft : Nat
deriving DecidableEq, Repr

/-- A value without parts. -/
inductive Scalar where
  | null
  | bool (b : Bool)
  | int (i : Int)
  | double (d : Double)
  | string (s : String)
deriving DecidableEq, Repr, Inhabited

/-- The value of a scalar. -/
def Scalar.toValue : Scalar → Value
  | null => .null
  | bool b => .bool b
  | int i => .int i
  | double d => .double d
  | string s => .string s

/-- How a list of items ends: closed, or by a stop that comes right after an item or after the comma
behind it. -/
inductive ListEnd where
  | closed
  | stopped (afterComma : Bool) (stop : Stop)
deriving DecidableEq, Repr

/-- A document. Behind an entry whose reading stopped there are no further entries. -/
inductive Document where
  /-- a value without parts -/
  | scalar (s : Scalar)
  /-- an unreadable scalar: the stop for a reader who wants its value, and the one, if any, for a
  reader who passes over it -/
  | unreadable (wanted : Stop) (passed : Option Stop)
  /-- items in order -/
  | list (items : List Document) (ending : ListEnd)
  /-- fields in order, names possibly repeated or unreadable -/
  | record (fields : List (Except Stop String × Document)) (ending : Option Stop)
deriving Inhabited

namespace Document

mutual

/-- The document of a value, its fields in the order of their names. -/
def ofValue : Value → Document
  | .null => .scalar .null
  | .bool b => .scalar (.bool b)
  | .int i => .scalar (.int i)
  | .double d => .scalar (.double d)
  | .string s => .scalar (.string s)
  | .array items => .list (ofItems items) .closed
  | .object fields => .record (ofFields fields) none

/-- The documents of values in order. -/
def ofItems : List Value → List Document
  | [] => []
  | item :: more => ofValue item :: ofItems more

/-- The fields of the document of an object. -/
def ofFields : List (String × Value) → List (Except Stop String × Document)
  | [] => []
  | (name, value) :: more => (.ok name, ofValue value) :: ofFields more

end

end Document

end Workflow
