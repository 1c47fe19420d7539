import Workflow.Error
import Workflow.Table

/-!
# Files

A file system as a value: which directories and files there are, and what is in the files.  A path
leads through directories, piece by piece, and every way in which it can fail to lead anywhere is a
fault of its own.  Some paths fail before their first piece is looked at: no path holds the
character zero or has more bytes than `Path.limit`.

A file holds text, or something that is no text; of that nothing else matters, and it stays so
whatever text is written behind it.
-/

namespace Workflow

/-! ## Paths -/

namespace Path

/-- The pieces of a path between its slashes. -/
def pieces (path : String) : List String :=
  path.splitOn "/"

/-- Whether a piece names something, or goes back by one directory. -/
def leads (piece : String) : Bool :=
  piece ≠ "" && piece ≠ "."

/-- The pieces in front of the last one that leads somewhere. -/
def parents (path : String) : List String :=
  ((pieces path).filter leads).dropLast

/-- The place that a path starts from: the topmost directory, if it begins with a slash. -/
def origin (path : String) : List String :=
  if path.toList.head? = some '/' then ["/"] else []

/-- The place one directory back. Nothing lies in front of the topmost directory. -/
def back (place : List String) : List String :=
  match place.getLast? with
  | none => [".."]
  | some last =>
    if last = "/" then place
    else if last = ".." then place ++ [".."]
    else place.dropLast

/-- The place that pieces lead to, from a place on. -/
def follow (place pieces : List String) : List String :=
  (pieces.filter leads).foldl
    (fun place piece => if piece = ".." then back place else place ++ [piece]) place

/-- How many bytes one piece of a path may have. -/
def pieceLimit : Nat := 255

/-- How many bytes a path may have. -/
def limit : Nat := 4095

/-- Whether a piece has too many bytes to be the name of anything. -/
def tooLong (piece : String) : Bool :=
  pieceLimit < piece.utf8ByteSize

/-- What is wrong with a path wherever it leads. -/
def fault? (path : String) : Option FileFault :=
  if path.toList.contains (Char.ofNat 0) then some .nulInPath
  else if limit < path.utf8ByteSize then some .nameTooLong
  else none

/-- The ending of the name that a path ends with, behind its last point. A point at the start of the
name begins no ending. -/
def ending? (path : String) : Option String := do
  let name ← ((pieces path).filter leads).getLast?
  if name = ".." then none
  else
    let (ending, before) := name.toList.reverse.span (· ≠ '.')
    match before with
    | _ :: _ :: _ => some (String.ofList ending.reverse)
    | _ => none

end Path

/-! ## File systems -/

/-- What is in a file. -/
inductive Content where
  | text (s : String)
  | notText
deriving DecidableEq, Repr

/-- Content with text behind it. -/
def Content.append (text : String) : Content → Content
  | .text s => .text (s ++ text)
  | .notText => .notText

/-- What a path leads to. -/
inductive FileEntry where
  | directory
  | file (content : Content)
deriving DecidableEq, Repr

/-- The directories and files there are, by their places with slashes between the names. A place
is given by the names on the way to it: from the directory that the program runs in, by steps back
first, or from the topmost directory. The directories that lie back are there, and so are those two;
nothing else lies in them but what is put there. -/
structure Files where
  entries : Table FileEntry

namespace Files

/-- Nothing but the directory that the program runs in and those around it. -/
def empty : Files := ⟨[]⟩

/-- What is at a place. -/
def at? (files : Files) (place : List String) : Option FileEntry :=
  match place.getLast? with
  | none => some .directory
  | some last =>
    if last = ".." || last = "/" then some .directory
    else files.entries.get? (String.intercalate "/" place)

/-- Put something at a place. -/
def put (files : Files) (place : List String) (entry : FileEntry) : Files :=
  ⟨files.entries.set (String.intercalate "/" place) entry⟩

/-- The directory that pieces lead to, from a directory on. -/
def walk (files : Files) (place : List String) : List String → Except FileFault (List String)
  | [] => .ok place
  | piece :: more =>
    if !Path.leads piece then walk files place more
    else if piece = ".." then walk files (Path.back place) more
    else if Path.tooLong piece then .error .nameTooLong
    else
      match files.at? (place ++ [piece]) with
      | some .directory => walk files (place ++ [piece]) more
      | some (.file _) => .error .notDirectory
      | none => .error .notFound

/-- The place of a path that ends with a name; `none` if it ends with a directory. -/
def place? (files : Files) (path : String) : Except FileFault (Option (List String)) :=
  let pieces := Path.pieces path
  match Path.fault? path, pieces.getLast? with
  | some fault, _ => .error fault
  | none, none => .error .notFound
  | none, some last =>
    if path = "" then .error .notFound
    else if Path.leads last && last ≠ ".." then do
      let place ← files.walk (Path.origin path) pieces.dropLast
      if Path.tooLong last then throw .nameTooLong
      return some (place ++ [last])
    else do
      let _ ← files.walk (Path.origin path) pieces
      return none

/-- What a path leads to. -/
def find (files : Files) (path : String) : Except FileFault FileEntry := do
  match ← files.place? path with
  | none => return .directory
  | some place =>
    match files.at? place with
    | some entry => return entry
    | none => throw .notFound

/-- Whether a path leads to anything. -/
def isThere (files : Files) (path : String) : Bool :=
  (files.find path).toOption.isSome

/-- The text in a file. -/
def read (files : Files) (path : String) : Except FileFault String := do
  match ← files.find path with
  | .file (.text s) => return s
  | .file .notText => throw .notText
  | .directory => throw .isDirectory

/-- Make the directories that pieces lead through, as far as they are not there. -/
def makeDirectories (files : Files) (place : List String) :
    List String → Files × Except FileFault Unit
  | [] => (files, .ok ())
  | piece :: more =>
    if piece = ".." then makeDirectories files (Path.back place) more
    else if Path.tooLong piece then (files, .error .nameTooLong)
    else
      let next := place ++ [piece]
      match files.at? next with
      | some .directory => makeDirectories files next more
      | some (.file _) =>
        (files, .error (if more.isEmpty then .alreadyExists else .notDirectory))
      | none => makeDirectories (files.put next .directory) next more

/-- Make sure that there is a file to append to. -/
def openFile (files : Files) (path : String) : Files × Except FileFault Unit :=
  let pieces := Path.pieces path
  let last := pieces.getLast?.getD ""
  if path = "" then (files, .error .notFound)
  else if let some fault := Path.fault? path then (files, .error fault)
  else if Path.leads last && last ≠ ".." then
    match files.walk (Path.origin path) pieces.dropLast with
    | .error fault => (files, .error fault)
    | .ok place =>
      if Path.tooLong last then (files, .error .nameTooLong)
      else
        match files.at? (place ++ [last]) with
        | some .directory => (files, .error .isDirectory)
        | some (.file _) => (files, .ok ())
        | none => (files.put (place ++ [last]) (.file (.text "")), .ok ())
  else
    let named := (pieces.reverse.dropWhile (· = "")).reverse
    match files.walk (Path.origin path) named.dropLast with
    | .error fault => (files, .error fault)
    | .ok _ => (files, .error .isDirectory)

/-- Make sure that there is a file to append to, and the directories around it. -/
def openLog (files : Files) (path : String) : Files × Except FileFault Unit :=
  let parents := Path.parents path
  match Path.fault? (String.intercalate "/" parents) with
  | some fault => (files, .error fault)
  | none =>
    match files.makeDirectories (Path.origin path) parents with
    | (files, .ok ()) => files.openFile path
    | (files, .error fault) => (files, .error fault)

/-- Write text behind what is in a file. -/
def append (files : Files) (path text : String) : Files :=
  match files.place? path with
  | .ok (some place) =>
    match files.at? place with
    | some (.file content) => files.put place (.file (content.append text))
    | _ => files
  | _ => files

/-- Files with one more directory. -/
def withDirectory (files : Files) (path : String) : Files :=
  (files.makeDirectories (Path.origin path) ((Path.pieces path).filter Path.leads)).1

/-- Files with one more file, and the directories around it. -/
def withFile (files : Files) (path : String) (content : Content) : Files :=
  (files.makeDirectories (Path.origin path) (Path.parents path)).1.put
    (Path.follow (Path.origin path) (Path.pieces path)) (.file content)

end Files

end Workflow
