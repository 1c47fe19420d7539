import Workflow.Document.Basic
import Workflow.Json.Printer
import Workflow.Text.Quoted

/-!
# Decoding documents

A decoder walks a document in the order of its text and fails at the first fault it meets: a stop of
the reader, or a part of the wrong shape.  Most of what is decoded is a record of named slots
(`Slot`); such a record may also be written as the list of its slots in order.
-/

namespace Workflow

open Number

/-- Why a document could not be decoded. -/
inductive Fault where
  /-- reading stopped -/
  | stop (s : Stop)
  /-- a part has the wrong shape -/
  | shape (message : String)
  /-- a part has the right shape and no meaning -/
  | meaning (message : String)
deriving DecidableEq, Repr

/-- A fault in words. -/
def Fault.words : Fault → String
  | stop s => s.mistake.message
  | shape message => message
  | meaning message => message

/-- What becomes of entries too many in a record written as a list. -/
inductive Surplus where
  /-- they are a mistake in the text -/
  | mistaken
  /-- they are passed over -/
  | ignored
  /-- they make the list too long -/
  | counted
deriving DecidableEq, Repr

/-- The rules that the source of a document sets its decoders. -/
structure Source where
  /-- how deep values may nest -/
  maxDepth : Option Nat
  /-- what becomes of entries too many -/
  surplus : Surplus
  /-- whether a kind may be given by its number -/
  numberedKinds : Bool

namespace Source

/-- JSON text: 127 levels, and a list has to end where its last slot ends. -/
def json : Source := ⟨some 127, .mistaken, true⟩

/-- TOML text. -/
def toml : Source := ⟨none, .ignored, false⟩

/-- A part of a document that was read as a whole before its kind was known. -/
def buffered (s : Source) : Source := { s with maxDepth := none, surplus := .counted }

end Source

/-- The outcome of decoding. -/
abbrev Decoded (α : Type) : Type := Except Fault α

namespace Document

/-- What a document is, in the words of a message, unless it cannot be read. -/
def kindInWords : Document → Decoded String
  | .scalar .null => .ok "null"
  | .scalar (.bool b) => .ok ("boolean `" ++ String.ofList (Json.write (.bool b)) ++ "`")
  | .scalar (.int i) => .ok ("integer `" ++ String.ofList (Json.write (.int i)) ++ "`")
  | .scalar (.double d) =>
    .ok ("floating point `" ++ String.ofList (Json.write (.double d)) ++ "`")
  | .scalar (.string s) => .ok ("string " ++ Text.shown s)
  | .unreadable wanted _ => .error (.stop wanted)
  | .list _ _ => .ok "sequence"
  | .record _ _ => .ok "map"

/-- The fault of a document where something else was expected. -/
def mismatch {α : Type} (document : Document) (expected : String) : Decoded α := do
  let found ← document.kindInWords
  throw (.shape ("invalid type: " ++ found ++ ", expected " ++ expected))

/-! ## Passing over and keeping -/

/-- Fail at a stop, if there is one. -/
def stopIf : Option Stop → Decoded Unit
  | none => .ok ()
  | some stop => .error (.stop stop)

/-- Fail if the end of a list is a stop. -/
def closeList : ListEnd → Decoded Unit
  | .closed => .ok ()
  | .stopped _ stop => .error (.stop stop)

mutual

/-- Pass over a document that nobody asks for: only what no reader can pass is a fault. -/
def skip : Document → Decoded Unit
  | .scalar _ => .ok ()
  | .unreadable _ passed => stopIf passed
  | .list items ending => do
    skipItems items
    closeList ending
  | .record fields ending => do
    skipFields fields
    stopIf ending

/-- Pass over items in order. -/
def skipItems : List Document → Decoded Unit
  | [] => .ok ()
  | item :: more => do
    skip item
    skipItems more

/-- Pass over fields in order. -/
def skipFields : List (Except Stop String × Document) → Decoded Unit
  | [] => .ok ()
  | (_, field) :: more => do
    skip field
    skipFields more

end

/-- Enter one more level, `depth` levels being entered already. -/
def enter (source : Source) (depth : Nat) : Decoded Unit :=
  match source.maxDepth with
  | some limit => if depth < limit then .ok () else .error (.stop ⟨.tooDeep, 0⟩)
  | none => .ok ()

mutual

/-- The value of a document, inside `depth` levels. Of fields with one name the last one stays. -/
def toValue (source : Source) (depth : Nat) : Document → Decoded Value
  | .scalar s => .ok s.toValue
  | .unreadable wanted _ => .error (.stop wanted)
  | .list items ending => do
    enter source depth
    let values ← toItems source (depth + 1) items
    closeList ending
    return .array values
  | .record fields ending => do
    enter source depth
    let entries ← toFields source (depth + 1) fields
    stopIf ending
    return .object (Table.ofList entries)

/-- The values of items in order. -/
def toItems (source : Source) (depth : Nat) : List Document → Decoded (List Value)
  | [] => .ok []
  | item :: more => do
    let value ← toValue source depth item
    let values ← toItems source depth more
    return value :: values

/-- The values of fields in order. -/
def toFields (source : Source) (depth : Nat) :
    List (Except Stop String × Document) → Decoded (List (String × Value))
  | [] => .ok []
  | (name, field) :: more => do
    let name ← name.mapError Fault.stop
    let value ← toValue source depth field
    let values ← toFields source depth more
    return (name, value) :: values

end

/-! ## Plain parts -/

/-- A text. -/
def text : Document → Decoded String
  | .scalar (.string s) => .ok s
  | document => document.mismatch "a string"

/-- A truth value. -/
def truth : Document → Decoded Bool
  | .scalar (.bool b) => .ok b
  | document => document.mismatch "a boolean"

/-- A part that may be absent: `null` stands for nothing. -/
def optional {α : Type} (decode : Document → Decoded α) : Document → Decoded (Option α)
  | .scalar .null => .ok none
  | document => some <$> decode document

/-- Decode items in order. -/
def each {α : Type} (decode : Document → Decoded α) : List Document → Decoded (List α)
  | [] => .ok []
  | item :: more => do
    let first ← decode item
    let others ← each decode more
    return first :: others

/-- A list of parts. -/
def listOf {α : Type} (decode : Document → Decoded α) : Document → Decoded (List α)
  | .list items ending => do
    let parts ← each decode items
    closeList ending
    return parts
  | document => document.mismatch "a sequence"

/-- A table of values, inside `depth` levels. -/
def valueTable (source : Source) (depth : Nat) : Document → Decoded Variables
  | .record fields ending => do
    let entries ← toFields source (depth + 1) fields
    stopIf ending
    return Table.ofList entries
  | document => document.mismatch "a map"

end Document

/-! ## Records -/

/-- One slot of a record that is decoded into `β`, a draft whose slots may still be empty. -/
structure Slot (β : Type) where
  /-- the name of the slot -/
  name : String
  /-- whether a list may end before the slot -/
  mayEnd : Bool
  /-- whether the slot is filled -/
  isFilled : β → Bool
  /-- fill the slot from a document -/
  fill : Document → β → Decoded β

/-- The slot of a draft that `get` and `put` read and fill. -/
def Slot.make {β γ : Type} (name : String) (mayEnd : Bool) (decode : Document → Decoded γ)
    (get : β → Option γ) (put : β → γ → β) : Slot β :=
  ⟨name, mayEnd, fun draft => (get draft).isSome,
    fun document draft => do
      let content ← decode document
      return put draft content⟩

/-- A kind of record: its name, its slots in order, and how a draft is completed. -/
structure RecordKind (β α : Type) where
  /-- the name that messages give the kind -/
  name : String
  /-- the slots in the order of a list -/
  slots : List (Slot β)
  /-- the draft with every slot empty -/
  empty : β
  /-- the record of a draft, or the fault of a slot that is still empty -/
  complete : β → Decoded α

namespace RecordKind

variable {α β : Type}

/-- The fault of a missing slot. -/
def missing (name : String) : Fault :=
  .shape ("missing field `" ++ name ++ "`")

/-- The fault of a slot that is given twice. -/
def repeated (name : String) : Fault :=
  .shape ("duplicate field `" ++ name ++ "`")

/-- The content of a slot that has to be filled. -/
def require (name : String) : Option α → Decoded α
  | some value => .ok value
  | none => .error (missing name)

/-- Fill slots from fields in order; a field that is no slot is passed over. -/
def fillFields (slots : List (Slot β)) :
    List (Except Stop String × Document) → β → Decoded β
  | [], draft => .ok draft
  | (name, field) :: more, draft => do
    let name ← name.mapError Fault.stop
    match slots.find? (·.name == name) with
    | none =>
      field.skip
      fillFields slots more draft
    | some slot =>
      if slot.isFilled draft then throw (repeated name)
      let draft ← slot.fill field draft
      fillFields slots more draft

/-- The words for a list of a kind's slots. -/
def inWords (kind : RecordKind β α) : String :=
  "struct " ++ kind.name ++ " with " ++ toString kind.slots.length ++
    (if kind.slots.length = 1 then " element" else " elements")

/-- Fill slots from items in order, `place` being the place of the first. Returns the items that are
left. -/
def fillItems (kind : RecordKind β α) (place : Nat) (ending : ListEnd) :
    List (Slot β) → List Document → β → Decoded (List Document × β)
  | [], items, draft => .ok (items, draft)
  | slot :: slots, item :: items, draft => do
    let draft ← slot.fill item draft
    fillItems kind (place + 1) ending slots items draft
  | slot :: slots, [], draft => do
    Document.closeList ending
    if slot.mayEnd then fillItems kind (place + 1) ending slots [] draft
    else
      throw (.shape ("invalid length " ++ toString place ++ ", expected " ++ kind.inWords))

/-- The end of a record written as a list: `left` are the items behind its last slot. -/
def closeItems (source : Source) (slotCount : Nat) (left : List Document) (ending : ListEnd) :
    Decoded Unit :=
  match source.surplus with
  | .ignored => .ok ()
  | .counted =>
    if left.isEmpty then Document.closeList ending
    else
      throw (.shape ("invalid length " ++ toString (slotCount + left.length) ++ ", expected " ++
        toString slotCount ++ (if slotCount = 1 then " element" else " elements") ++
        " in sequence"))
  | .mistaken =>
    if left.isEmpty then
      match ending with
      | .closed => .ok ()
      | .stopped true stop =>
        if stop.mistake = .trailingComma then throw (.stop stop)
        else throw (.stop ⟨.trailingCharacters, stop.bytesLeft⟩)
      | .stopped false stop =>
        if stop.mistake = .noListEnd then throw (.stop ⟨.trailingCharacters, stop.bytesLeft⟩)
        else throw (.stop stop)
    else throw (.stop ⟨.trailingCharacters, 0⟩)

/-- A record of a kind, given by its fields or as a list of its slots. -/
def decode (kind : RecordKind β α) (source : Source) : Document → Decoded α
  | .record fields ending => do
    let draft ← fillFields kind.slots fields kind.empty
    Document.stopIf ending
    kind.complete draft
  | .list items ending => do
    let (left, draft) ← fillItems kind 0 ending kind.slots items kind.empty
    let result ← kind.complete draft
    closeItems source kind.slots.length left ending
    return result
  | document => document.mismatch ("struct " ++ kind.name)

end RecordKind

end Workflow
