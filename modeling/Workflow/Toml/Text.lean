import Workflow.Number.Literal
import Workflow.Toml.Layout

/-!
# Quoted texts and keys in TOML

A text stands between quotes of one of two kinds.  Between double quotes a backslash begins an
escape; between single quotes every character stands for itself.  Three quotes of either kind
enclose a text of several lines: a line feed right behind the opening ones does not belong to it,
and up to two more quotes may stand in front of the closing ones.

A key is a name, or several names with points between them.
-/

namespace Workflow.Toml

open Number

/-! ## Quoted texts -/

/-- How a text is quoted. -/
structure Quotation where
  /-- the quote at its ends -/
  quote : Char
  /-- whether a backslash begins an escape -/
  escapes : Bool
  /-- whether it is enclosed by three quotes, and may hold line feeds -/
  lines : Bool

/-- Where a scan through a quoted text stands. -/
inductive ScanMode where
  /-- between characters -/
  | plain
  /-- behind a backslash -/
  | escape
  /-- behind a backslash and blanks: the line has to end -/
  | lineEnd
  /-- behind the end of a line that a backslash joins to the next one -/
  | joining
  /-- inside the number of a character: how many digits come behind the next one, and the number so
  far -/
  | code (left value : Nat)
deriving DecidableEq, Repr

/-- The character of an escape of one letter. -/
def escaped? : Char → Option Char
  | 'b' => some (Char.ofNat 0x08)
  | 't' => some '\t'
  | 'n' => some '\n'
  | 'f' => some (Char.ofNat 0x0C)
  | 'r' => some '\r'
  | '"' => some '"'
  | '\\' => some '\\'
  | _ => none

/-- A character in front of what was read. -/
def put (c : Char) (read : Option (List Char × List Char)) : Option (List Char × List Char) :=
  read.map fun (text, rest) => (c :: text, rest)

/-- A quoted text behind its opening quotes, and what stands behind its closing ones. -/
def scan (q : Quotation) (mode : ScanMode) (text : List Char) : Option (List Char × List Char) :=
  match text with
  | [] => none
  | c :: rest =>
    if mode = .joining && (isBlank c || c = '\n') then scan q .joining rest
    else
      match mode with
      | .escape =>
        if c = 'u' then scan q (.code 3 0) rest
        else if c = 'U' then scan q (.code 7 0) rest
        else if q.lines && isBlank c then scan q .lineEnd rest
        else if q.lines && c = '\n' then scan q .joining rest
        else
          match escaped? c with
          | some e => put e (scan q .plain rest)
          | none => none
      | .lineEnd =>
        if isBlank c then scan q .lineEnd rest
        else if c = '\n' then scan q .joining rest
        else none
      | .code left value =>
        match hexDigit? c, left with
        | none, _ => none
        | some d, 0 =>
          let value := value * 16 + d
          if value.isValidChar then put (Char.ofNat value) (scan q .plain rest) else none
        | some d, left + 1 => scan q (.code left (value * 16 + d)) rest
      | _ =>
        if c = q.quote then
          if q.lines then
            let quotes := ((c :: rest).takeWhile (· == q.quote)).length
            if quotes < 3 then put c (scan q .plain rest)
            else
              let kept := min 2 (quotes - 3)
              some (List.replicate kept q.quote, (c :: rest).drop (kept + 3))
          else some ([], rest)
        else if q.escapes && c = '\\' then scan q .escape rest
        else if isPrintable c || (q.lines && c = '\n') then put c (scan q .plain rest)
        else none

/-- A text without a line feed at its start. -/
def skipFeed : List Char → List Char
  | '\n' :: rest => rest
  | text => text

/-- A text on one line, between quotes of either kind. -/
def readLineText : List Char → Option (List Char × List Char)
  | '"' :: rest => scan ⟨'"', true, false⟩ .plain rest
  | '\'' :: rest => scan ⟨'\'', false, false⟩ .plain rest
  | _ => none

/-- A quoted text. -/
def readText : List Char → Option (List Char × List Char)
  | '"' :: '"' :: '"' :: rest => scan ⟨'"', true, true⟩ .plain (skipFeed rest)
  | '\'' :: '\'' :: '\'' :: rest => scan ⟨'\'', false, true⟩ .plain (skipFeed rest)
  | text => readLineText text

/-! ## Keys -/

/-- The characters of a name without quotes. -/
def isBare (c : Char) : Bool :=
  c.isAlphanum || c = '-' || c = '_'

/-- One name of a key. -/
def readName (text : List Char) : Option (String × List Char) :=
  match text.takeWhile isBare with
  | [] => (readLineText text).map fun (name, rest) => (String.ofList name, rest)
  | name => some (String.ofList name, text.dropWhile isBare)

/-- A key: the names in front of its last point, and its last name. -/
structure Key where
  /-- the tables that the key goes through -/
  path : List String
  /-- the name in the last of these tables -/
  name : String

/-- How deep values may nest, and how many names a key may have. -/
def maxNesting : Nat := 79

/-- A key of so many names at most, with blanks around each of them. -/
def readKey (names : Nat) (text : List Char) : Option (Key × List Char) :=
  match names with
  | 0 => none
  | names + 1 => do
    let (name, rest) ← readName (skipBlanks text)
    match skipBlanks rest with
    | '.' :: more =>
      let (key, rest) ← readKey names more
      return (⟨name :: key.path, key.name⟩, rest)
    | rest => return (⟨[], name⟩, rest)

end Workflow.Toml
