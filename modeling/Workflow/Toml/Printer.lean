import Workflow.Toml.Layout

/-!
# Writing TOML text

A text is written in the first of these ways that shows it as it is: between double quotes, between
single quotes, between three double quotes, between three single quotes.  Only a text that no such
way can show has escapes.
-/

namespace Workflow.Toml

/-- The length of the longest run of a character. -/
def longestRun (c : Char) (text : List Char) : Nat :=
  let step : Nat × Nat → Char → Nat × Nat := fun (run, longest) d =>
    if d = c then (run + 1, max longest (run + 1)) else (0, longest)
  (text.foldl step (0, 0)).2

/-- Whether only an escape can show a character. -/
def needsEscape (c : Char) : Bool :=
  !isPrintable c && c ≠ '\n'

/-- The hexadecimal digit of a number below sixteen, in upper case. -/
def upperHexDigit (n : Nat) : Char :=
  if n < 10 then Char.ofNat ('0'.toNat + n) else Char.ofNat ('A'.toNat + (n - 10))

/-- A character between double quotes. Line feeds stay as they are between three of them. -/
def writeChar (lines : Bool) (c : Char) : List Char :=
  if c = '\n' then (if lines then [c] else ['\\', 'n'])
  else if c = '\t' then ['\\', 't']
  else if c = '\r' then ['\\', 'r']
  else if c = Char.ofNat 0x08 then ['\\', 'b']
  else if c = Char.ofNat 0x0C then ['\\', 'f']
  else if c = '\\' then ['\\', '\\']
  else if needsEscape c then
    ['\\', 'u', '0', '0', upperHexDigit (c.toNat / 16), upperHexDigit (c.toNat % 16)]
  else [c]

/-- The characters of a text between double quotes. So many double quotes in a row stay as they are;
`run` is the number of those just before. -/
def writeChars (lines : Bool) (kept run : Nat) : List Char → List Char
  | [] => []
  | c :: rest =>
    if c = '"' then
      if run < kept then '"' :: writeChars lines kept (run + 1) rest
      else '\\' :: '"' :: writeChars lines kept 0 rest
    else writeChar lines c ++ writeChars lines kept 0 rest

/-- Three of a quote. -/
def tripled (quote : Char) : List Char := [quote, quote, quote]

/-- The line feed in front of a text of several lines. -/
def leadingFeed (text : List Char) : List Char :=
  if text.contains '\n' then ['\n'] else []

/-- A text in quotes. -/
def writeText (text : List Char) : List Char :=
  let several := text.contains '\n'
  let escapes := text.any needsEscape
  let backslash := text.contains '\\'
  let doubles := longestRun '"' text
  let singles := longestRun '\'' text
  if !escapes && !backslash && doubles = 0 && !several then
    '"' :: writeChars false 0 0 text ++ ['"']
  else if !escapes && singles = 0 && !several then '\'' :: text ++ ['\'']
  else if !escapes && !backslash && doubles ≤ 2 then
    tripled '"' ++ leadingFeed text ++ writeChars true 2 0 text ++ tripled '"'
  else if !escapes && singles ≤ 2 then
    tripled '\'' ++ leadingFeed text ++ text ++ tripled '\''
  else if several then
    tripled '"' ++ leadingFeed text ++ writeChars true 2 0 text ++ tripled '"'
  else '"' :: writeChars false 0 0 text ++ ['"']

end Workflow.Toml
