import Workflow.Number.Double
import Workflow.Table

/-!
# Values

The values that process variables hold: the values of JSON, with whole numbers kept apart from
doubles.  A whole number is one that fits into 64 bits with or without a sign; any other number is
a double.  The fields of an object are a table.
-/

namespace Workflow

open Number

/-- A value of a process variable. -/
inductive Value where
  /-- the absent value -/
  | null
  /-- a truth value -/
  | bool (b : Bool)
  /-- a whole number that fits into 64 bits -/
  | int (i : Int)
  /-- any other number -/
  | double (d : Double)
  /-- a text -/
  | string (s : String)
  /-- values in order -/
  | array (items : List Value)
  /-- values by name, the names in increasing order -/
  | object (fields : List (String × Value))
deriving Inhabited

namespace Value

/-- The text of a value that is a text. -/
def asText? : Value → Option String
  | string s => some s
  | _ => none

/-- The truth value of a value that is one. -/
def asBool? : Value → Option Bool
  | bool b => some b
  | _ => none

end Value

/-- The variables of a process by name. -/
abbrev Variables : Type := Table Value

end Workflow
