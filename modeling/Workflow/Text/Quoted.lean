import Workflow.Text.Invisible

/-!
# Quoted text in messages

How a message shows a text it complains about: in quotes, with the quote and the backslash escaped,
the common controls by letter, and every other character without a shape of its own by its number.
-/

namespace Workflow.Text

/-- A character inside a quoted text of a message. -/
def escapeShown (c : Char) : List Char :=
  if c.toNat = 0 then ['\\', '0']
  else if c = '\t' then ['\\', 't']
  else if c = '\r' then ['\\', 'r']
  else if c = '\n' then ['\\', 'n']
  else if c = '\\' then ['\\', '\\']
  else if c = '"' then ['\\', '"']
  else if isInvisible c then
    '\\' :: 'u' :: '{' :: (Nat.toDigits 16 c.toNat ++ ['}'])
  else [c]

/-- A text in quotes, as a message shows it. -/
def shown (text : String) : String :=
  String.ofList ('"' :: (text.toList.flatMap escapeShown ++ ['"']))

end Workflow.Text
