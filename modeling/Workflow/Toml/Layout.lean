/-!
# Layout of TOML text

What stands between the words of a TOML text: blanks, comments and the ends of lines.  A line ends
with a line feed, in front of which a carriage return may stand; `unifyLines` takes those away
beforehand, so that behind it every carriage return is a mistake.
-/

namespace Workflow.Toml

/-- The blanks of a line. -/
def isBlank (c : Char) : Bool :=
  c = ' ' || c = '\t'

/-- The characters of comments and, their quotes apart, of quoted texts. -/
def isPrintable (c : Char) : Bool :=
  c = '\t' || (0x20 ≤ c.toNat && c.toNat ≠ 0x7F)

/-- A text whose lines all end with a line feed alone. -/
def unifyLines : List Char → List Char
  | '\r' :: '\n' :: rest => '\n' :: unifyLines rest
  | c :: rest => c :: unifyLines rest
  | [] => []

/-- A text without the blanks at its start. -/
def skipBlanks (text : List Char) : List Char :=
  text.dropWhile isBlank

/-- A text without a comment at its start. -/
def skipComment : List Char → List Char
  | '#' :: rest => rest.dropWhile isPrintable
  | text => text

/-- What stands behind the end of a line, which may be the end of the text. -/
def readLineEnd : List Char → Option (List Char)
  | [] => some []
  | '\n' :: rest => some rest
  | _ => none

/-- What stands behind the rest of a line in which nothing but a comment may come. -/
def readLineRest (text : List Char) : Option (List Char) :=
  readLineEnd (skipComment (skipBlanks text))

/-- A text without the blanks, comments and line ends at its start; a comment has to end with its
line. -/
def skipLayout (inComment : Bool) (text : List Char) : Option (List Char) :=
  match text with
  | [] => if inComment then none else some []
  | c :: rest =>
    if c = '\n' then skipLayout false rest
    else if inComment then (if isPrintable c then skipLayout true rest else none)
    else if c = '#' then skipLayout true rest
    else if isBlank c then skipLayout false rest
    else some (c :: rest)

end Workflow.Toml
