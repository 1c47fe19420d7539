import Workflow.Json.Value

/-!
# Log records

What the program says about its own doings, as data: a level, a message and named fields.
-/

namespace Workflow

/-- How much a log record matters. -/
inductive Level where
  | error | warn | info | debug
deriving DecidableEq, Repr

namespace Level

/-- The name of a level. -/
def name : Level → String
  | error => "error"
  | warn => "warn"
  | info => "info"
  | debug => "debug"

/-- The rank of a level; lower ranks matter more. -/
def rank : Level → Nat
  | error => 0
  | warn => 1
  | info => 2
  | debug => 3

end Level

/-- One log record. -/
structure LogRecord where
  /-- how much it matters -/
  level : Level
  /-- what happened -/
  message : String
  /-- the particulars by name -/
  fields : List (String × Value)

end Workflow
