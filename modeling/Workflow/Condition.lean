import Workflow.Json.Value
import Workflow.Number.Literal
import Workflow.Text.Blank
import Workflow.Text.Cut

/-!
# Conditions

The guards on the flows out of an exclusive gateway, and the lines of a business rule.  A condition
looks at one variable: whether it is truthy, whether it is not, or how it relates to an operand.

Reading a condition never fails.  A text that is no condition reads as `malformed`, which holds
nowhere; a relation on an absent variable does not hold either.  The relations are tried in a fixed
order, and the first whose mark stands behind a key decides, so an operand may hold the mark of any
relation, its own included.
-/

namespace Workflow

open Number Text

/-- How a condition relates a variable to its operand. -/
inductive Relation where
  /-- the operand occurs in the text -/
  | contains
  /-- the operand is another value -/
  | differs
  /-- the operand is the value -/
  | equals
  /-- both are numbers that compare so -/
  | compares (cmp : Double.Comparison)
deriving DecidableEq, Repr

namespace Relation

/-- What a condition writes between the key and the operand. -/
def mark : Relation → String
  | contains => " contains "
  | differs => "!="
  | equals => "=="
  | compares .atLeast => ">="
  | compares .atMost => "<="
  | compares .above => ">"
  | compares .below => "<"

/-- The relations in the order in which a condition is searched for them. A mark that contains
another one comes first. -/
def inOrder : List Relation :=
  [contains, differs, equals, compares .atLeast, compares .atMost, compares .above,
    compares .below]

end Relation

/-- A condition on the variables of a process. -/
inductive Condition where
  /-- a literal -/
  | literal (b : Bool)
  /-- the variable under `key` is related to the operand -/
  | relation (r : Relation) (key : String) (operand : List Char)
  /-- the variable under `key` is truthy -/
  | truthy (key : String)
  /-- the variable under `key` is absent or not truthy -/
  | falsy (key : String)
  /-- no condition -/
  | malformed
deriving DecidableEq, Repr

/-! ## Keys and operands -/

/-- The characters of a key. -/
def isKeyChar (c : Char) : Bool :=
  c.isAlphanum || c = '_' || c = '-' || c = '.'

/-- Whether a text is a key that a condition can name. -/
def isKey (text : List Char) : Bool :=
  !text.isEmpty && text.all isKeyChar

/-- A text without the quotes at its start and end, however many there are. -/
def unquote (text : List Char) : List Char :=
  ((text.dropWhile (· = '"')).reverse.dropWhile (· = '"')).reverse

/-- What an operand stands for. -/
inductive Operand where
  | text (s : String)
  | truth (b : Bool)
  | null
  | number (d : Double)
deriving DecidableEq, Repr

/-- The operand of a text: quoted text, one of three words, a number, or else the text itself. -/
def Operand.read (text : List Char) : Operand :=
  if text.head? = some '"' then .text (String.ofList (unquote text))
  else if text = "true".toList then .truth true
  else if text = "false".toList then .truth false
  else if text = "null".toList then .null
  else
    match literal? text with
    | some d => .number d
    | none => .text (String.ofList text)

namespace Value

/-- The number that a value stands for: a number, or a text that writes one. -/
def asNumber? : Value → Option Double
  | int i => some (Double.ofInt i)
  | double d => some d
  | string s => literal? (trim s.toList)
  | _ => none

/-- Whether a value counts as true: not `null`, `false`, zero or empty. -/
def isTruthy : Value → Bool
  | null => false
  | bool b => b
  | int i => i != 0
  | double d => !d.isZero
  | string s => !s.isEmpty
  | array items => !items.isEmpty
  | object fields => !fields.isEmpty

/-- Whether a value is the absent value. -/
def isNull : Value → Bool
  | null => true
  | _ => false

/-- Whether a value is what an operand stands for. -/
def matchesOperand (value : Value) : Operand → Bool
  | .text s => value.asText? == some s
  | .truth b => value.asBool? == some b
  | .null => value.isNull
  | .number d =>
    match value.asNumber? with
    | some x => x.equal d
    | none => false

end Value

/-- Whether a value stands in a relation to an operand. -/
def Relation.holds (value : Value) (operand : List Char) : Relation → Bool
  | contains =>
    match value.asText? with
    | some s => Text.contains (unquote operand) s.toList
    | none => false
  | differs => !value.matchesOperand (Operand.read operand)
  | equals => value.matchesOperand (Operand.read operand)
  | compares cmp =>
    match value.asNumber?, literal? operand with
    | some x, some y => Double.compares cmp x y
    | _, _ => false

namespace Condition

/-! ## Reading -/

/-- The condition of a text in which a relation's mark stands behind a key. -/
def relation? (text : List Char) (r : Relation) : Option Condition :=
  match cut r.mark.toList text with
  | some (before, after) =>
    let key := trim before
    if isKey key then some (.relation r (String.ofList key) (trim after)) else none
  | none => none

/-- The condition of a text without a relation: a key, or an exclamation mark and a key. -/
def readTruth : List Char → Condition
  | '!' :: key => if isKey key then .falsy (String.ofList key) else .malformed
  | key => if isKey key then .truthy (String.ofList key) else .malformed

/-- The condition of a text without blanks around it. -/
def readTrimmed (text : List Char) : Condition :=
  if text = "true".toList then .literal true
  else if text = "false".toList || text.isEmpty then .literal false
  else (Relation.inOrder.findSome? (relation? text)).getD (readTruth text)

/-- The condition of a text. -/
def read (text : String) : Condition :=
  readTrimmed (trim text.toList)

/-! ## Meaning -/

/-- Whether a condition holds on variables. -/
def holds (vars : Variables) : Condition → Bool
  | literal b => b
  | relation r key operand =>
    match vars.get? key with
    | some value => r.holds value operand
    | none => false
  | truthy key => (vars.get? key).any Value.isTruthy
  | falsy key => !(vars.get? key).any Value.isTruthy
  | malformed => false

end Condition

/-- Decides conditions on variables. -/
abbrev Evaluator : Type := String → Variables → Bool

/-- The evaluator that reads conditions and decides what they mean. -/
def Evaluator.conditions : Evaluator :=
  fun text vars => (Condition.read text).holds vars

end Workflow
