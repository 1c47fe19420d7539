import Workflow.Document.Basic
import Workflow.Toml.Text

/-!
# Tables of a TOML text

A TOML text says of many a table in several places what is in it, and there are rules on where a
table may be continued.  A table remembers how it came to be (`Origin`), and that decides.

* A table that a header states, or one between braces, is stated once.  A header may not state it
  again, and a key with points may not reach into it from outside.
* A table that only occurs on the way to another table in a header is implied.  A header may still
  state it.
* A table that came to be by a key with points may be continued by other such keys in the same
  place, but no header may state it.
-/

namespace Workflow.Toml

/-- How a table came to be. -/
inductive Origin where
  /-- by a header of its own, or by braces -/
  | stated
  /-- on the way to another table in a header -/
  | implied
  /-- by a key with points -/
  | dotted
deriving DecidableEq, Repr

/-- What stands under a name in a table. -/
inductive Node where
  /-- a value, which nothing may be added to -/
  | value (document : Document)
  /-- a table -/
  | table (origin : Origin) (entries : List (String × Node))
  /-- tables in order, the last of which goes on; those before it stand last first -/
  | tables (last : List (String × Node)) (earlier : List (List (String × Node)))

/-- The contents of a table, in the order of the text. -/
abbrev Entries : Type := List (String × Node)

namespace Entries

/-- What stands under a name. -/
def get? (entries : Entries) (name : String) : Option Node :=
  match entries with
  | [] => none
  | (other, node) :: more => if other = name then some node else get? more name

/-- Put something under a name. -/
def put (entries : Entries) (name : String) (node : Node) : Entries :=
  match entries with
  | [] => [(name, node)]
  | (other, old) :: more =>
    if other = name then (name, node) :: more else (other, old) :: put more name node

/-- Change the table at the end of a path. Tables that are not there yet come to be on the way, by a
key with points (`dotted`) or by a header. -/
def change (dotted : Bool) (f : Origin → Entries → Option Entries) (path : List String)
    (origin : Origin) (entries : Entries) : Option Entries :=
  match path with
  | [] => f origin entries
  | name :: path =>
    match entries.get? name with
    | none => do
      let origin := if dotted then Origin.dotted else .implied
      let inner ← change dotted f path origin []
      return entries.put name (.table origin inner)
    | some (.value _) => none
    | some (.table origin inner) =>
      if dotted && origin = .stated then none
      else do
        let inner ← change dotted f path origin inner
        return entries.put name (.table origin inner)
    | some (.tables last earlier) => do
      let last ← change dotted f path .stated last
      return entries.put name (.tables last earlier)

/-- Give a key a value, in a table that is stated. No key has two values, and a key with points must
not end in a table that came to be in another way. -/
def define (key : Key) (document : Document) (entries : Entries) : Option Entries :=
  let insert (origin : Origin) (inner : Entries) : Option Entries :=
    if decide (origin = .dotted) == key.path.isEmpty then none
    else if (inner.get? key.name).isSome then none
    else some (inner.put key.name (.value document))
  change true insert key.path .stated entries

/-- State a table by a header. -/
def state (key : Key) (entries : Entries) : Option Entries :=
  let insert (_ : Origin) (inner : Entries) : Option Entries :=
    match inner.get? key.name with
    | none => some (inner.put key.name (.table .stated []))
    | some (.table .implied content) => some (inner.put key.name (.table .stated content))
    | some _ => none
  change false insert key.path .stated entries

/-- Begin another one of several tables by a header. -/
def stateAnother (key : Key) (entries : Entries) : Option Entries :=
  let insert (_ : Origin) (inner : Entries) : Option Entries :=
    match inner.get? key.name with
    | none => some (inner.put key.name (.tables [] []))
    | some (.tables last earlier) => some (inner.put key.name (.tables [] (last :: earlier)))
    | some _ => none
  change false insert key.path .stated entries

end Entries

/-! ## Documents -/

mutual

/-- The document of what stands under a name. -/
def Node.document : Node → Document
  | .value document => document
  | .table _ entries => .record (fieldsOf entries) none
  | .tables last earlier =>
    .list ((recordsOf earlier).reverse ++ [.record (fieldsOf last) none]) .closed

/-- The fields of a table's document. -/
def fieldsOf : List (String × Node) → List (Except Stop String × Document)
  | [] => []
  | (name, node) :: more => (.ok name, Node.document node) :: fieldsOf more

/-- The documents of several tables. -/
def recordsOf : List (List (String × Node)) → List Document
  | [] => []
  | entries :: more => .record (fieldsOf entries) none :: recordsOf more

end

/-- The document of a table. -/
def Entries.document (entries : Entries) : Document :=
  .record (fieldsOf entries) none

end Workflow.Toml
