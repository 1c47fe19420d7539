import Workflow.Toml.Scalar
import Workflow.Toml.Tree

/-!
# Reading TOML text

A text is a sequence of lines: headers, which say which table is meant from there on, and keys with
their values.  A value may go on over several lines.  Reading gives the document of the whole text,
or nothing if there is a mistake anywhere in it.

Lists and tables between braces are read by recursion on the number of levels that may still nest;
within one level, and from line to line, by the length of the text that is left.
-/

namespace Workflow.Toml

/-! ## Values -/

/-- The items of a list behind its bracket or behind a comma, given how an item is read. `left`
bounds their number. -/
def readItems (item : List Char → Option (Document × List Char)) (left : Nat) (text : List Char) :
    Option (List Document × List Char) :=
  match left with
  | 0 => none
  | left + 1 => do
    match ← skipLayout false text with
    | ']' :: rest => return ([], rest)
    | text =>
      let (first, rest) ← item text
      match ← skipLayout false rest with
      | ']' :: rest => return ([first], rest)
      | ',' :: rest =>
        let (others, rest) ← readItems item left rest
        return (first :: others, rest)
      | _ => none

/-- A key and its value, on one line. -/
def readPair? (item : List Char → Option (Document × List Char)) (text : List Char) :
    Option (Key × Document × List Char) := do
  let (key, rest) ← readKey maxNesting text
  let rest ← readMark '=' rest
  let (document, rest) ← item (skipBlanks rest)
  return (key, document, skipBlanks rest)

/-- The rest of a table between braces, which goes on with a key. `left` bounds the number of
keys. -/
def readPairs (item : List Char → Option (Document × List Char)) (left : Nat) (entries : Entries)
    (text : List Char) : Option (Entries × List Char) :=
  match left with
  | 0 => none
  | left + 1 => do
    let (key, document, rest) ← readPair? item text
    let entries ← entries.define key document
    match rest with
    | '}' :: rest => return (entries, rest)
    | ',' :: rest => readPairs item left entries rest
    | _ => none

/-- A value, in which lists and tables may nest so many levels deep. -/
def readValue (levels : Nat) (text : List Char) : Option (Document × List Char) :=
  match levels with
  | 0 => readScalar text
  | levels + 1 =>
    match text with
    | '[' :: rest =>
      (readItems (readValue levels) text.length rest).map fun (items, rest) =>
        (.list items .closed, rest)
    | '{' :: rest =>
      match skipBlanks rest with
      | '}' :: rest => some (.record [] none, rest)
      | rest =>
        (readPairs (readValue levels) text.length [] rest).map fun (entries, rest) =>
          (entries.document, rest)
    | _ => readScalar text

/-! ## Lines -/

/-- What the lines so far have said. -/
structure Progress where
  /-- the table of the whole text -/
  root : Entries
  /-- the path of the table that keys are in -/
  table : List String

/-- A header behind its opening brackets: its key, and the text behind its line. -/
def readHeader (brackets : Nat) (text : List Char) : Option (Key × List Char) := do
  let (key, rest) ← readKey maxNesting text
  let rest ← List.isPrefixOf? (List.replicate brackets ']') rest
  let rest ← readLineRest rest
  return (key, rest)

/-- One line behind the blanks at its start, and the text behind it. -/
def readLine (progress : Progress) (text : List Char) : Option (Progress × List Char) :=
  match text with
  | '[' :: '[' :: rest => do
    let (key, rest) ← readHeader 2 rest
    let root ← progress.root.stateAnother key
    return (⟨root, key.path ++ [key.name]⟩, rest)
  | '[' :: rest => do
    let (key, rest) ← readHeader 1 rest
    let root ← progress.root.state key
    return (⟨root, key.path ++ [key.name]⟩, rest)
  | '#' :: _ => do
    let rest ← readLineRest text
    return (progress, rest)
  | '\n' :: rest => some (progress, rest)
  | _ => do
    let (key, document, rest) ← readPair? (readValue maxNesting) text
    let rest ← readLineRest rest
    let root ← progress.root.change false (fun _ inner => inner.define key document)
      progress.table .stated
    return ({ progress with root }, rest)

/-- All lines. Every line takes up some of the text. -/
def readLines (progress : Progress) (text : List Char) : Option Progress :=
  if text.isEmpty then some progress
  else
    match readLine progress text with
    | none => none
    | some (progress, rest) =>
      let next := skipBlanks rest
      if next.length < text.length then readLines progress next else none
termination_by text.length

/-- A text without a mark of its byte order. -/
def skipOrderMark : List Char → List Char
  | c :: rest => if c.toNat = 0xFEFF then rest else c :: rest
  | [] => []

/-- The document of a text. -/
def read (text : String) : Option Document :=
  let chars := unifyLines (skipOrderMark text.toList)
  (readLines ⟨[], []⟩ (skipBlanks chars)).map fun progress => progress.root.document

end Workflow.Toml
