import Workflow.Definition.Basic

/-!
# Definitions as documents

A definition is written as an object, and read from a document of the same shape.  Fields that are
empty are left out, and fields that mean nothing are passed over.

An element says its kind under `type`, among its other fields, and which other fields it has depends
on the kind.  So the fields of an element are first read as a whole, except for the id and the name,
and only then looked at for the kind.
-/

namespace Workflow

/-! ## Writing -/

/-- A field, unless its value is absent. -/
def optionalField (name : String) : Option String → List (String × Value)
  | some text => [(name, .string text)]
  | none => []

/-- A field with a list, unless it is empty. -/
def listField (name : String) : List Value → List (String × Value)
  | [] => []
  | items => [(name, .array items)]

/-- A flow as a value. -/
def Flow.toValue (flow : Flow) : Value :=
  .object (Table.ofList
    ([("sourceRef", .string flow.source), ("targetRef", .string flow.target)] ++
      optionalField "condition" flow.condition))

/-- An input as a value. -/
def Input.toValue (input : Input) : Value :=
  .object (Table.ofList
    (("source", .string input.source) :: optionalField "target" input.target))

/-- The fields of a task. -/
def TaskSpec.fields (spec : TaskSpec) : List (String × Value) :=
  [("agent", .string spec.agent)] ++ optionalField "documentation" spec.documentation ++
    listField "rules" (spec.rules.map .string) ++ optionalField "script" spec.script ++
    listField "inputs" (spec.inputs.map Input.toValue) ++ optionalField "output" spec.output

/-- An element as a value. -/
def Element.toValue (element : Element) : Value :=
  .object (Table.ofList
    ([("id", .string element.id)] ++ optionalField "name" element.name ++
      [("type", .string element.kind.name)] ++
      (match element.kind.task? with
      | some spec => spec.fields
      | none => [])))

/-- A definition as a value. -/
def Definition.toValue (definition : Definition) : Value :=
  .object (Table.ofList
    ([("id", .string definition.id)] ++ optionalField "name" definition.name ++
      [("elements", .array (definition.elements.map Element.toValue)),
        ("flows", .array (definition.flows.map Flow.toValue))]))

/-! ## Reading -/

namespace Flow

/-- A flow of which some slots may still be empty. -/
structure Draft where
  source : Option String
  target : Option String
  condition : Option (Option String)

/-- Flows as records. -/
def recordKind : RecordKind Draft Flow where
  name := "Flow"
  slots := [
    .make "sourceRef" false Document.text Draft.source fun d x => { d with source := some x },
    .make "targetRef" false Document.text Draft.target fun d x => { d with target := some x },
    .make "condition" true (Document.optional Document.text) Draft.condition
      fun d x => { d with condition := some x }]
  empty := ⟨none, none, none⟩
  complete d := do
    let source ← RecordKind.require "sourceRef" d.source
    let target ← RecordKind.require "targetRef" d.target
    return ⟨source, target, d.condition.getD none⟩

end Flow

namespace Input

/-- An input of which some slots may still be empty. -/
structure Draft where
  source : Option String
  target : Option (Option String)

/-- Inputs as records. -/
def recordKind : RecordKind Draft Input where
  name := "InputAssociation"
  slots := [
    .make "source" false Document.text Draft.source fun d x => { d with source := some x },
    .make "target" true (Document.optional Document.text) Draft.target
      fun d x => { d with target := some x }]
  empty := ⟨none, none⟩
  complete d := do
    let source ← RecordKind.require "source" d.source
    return ⟨source, d.target.getD none⟩

end Input

namespace TaskSpec

/-- A task of which some slots may still be empty. -/
structure Draft where
  agent : Option String
  documentation : Option (Option String)
  rules : Option (List String)
  script : Option (Option String)
  inputs : Option (List Input)
  output : Option (Option String)

/-- Tasks as records. -/
def recordKind (source : Source) : RecordKind Draft TaskSpec where
  name := "TaskSpec"
  slots := [
    .make "agent" false Document.text Draft.agent fun d x => { d with agent := some x },
    .make "documentation" true (Document.optional Document.text) Draft.documentation
      fun d x => { d with documentation := some x },
    .make "rules" true (Document.listOf Document.text) Draft.rules
      fun d x => { d with rules := some x },
    .make "script" true (Document.optional Document.text) Draft.script
      fun d x => { d with script := some x },
    .make "inputs" true (Document.listOf (Input.recordKind.decode source)) Draft.inputs
      fun d x => { d with inputs := some x },
    .make "output" true (Document.optional Document.text) Draft.output
      fun d x => { d with output := some x }]
  empty := ⟨none, none, none, none, none, none⟩
  complete d := do
    let agent ← RecordKind.require "agent" d.agent
    return ⟨agent, d.documentation.getD none, d.rules.getD [], d.script.getD none,
      d.inputs.getD [], d.output.getD none⟩

end TaskSpec

namespace ElementKind

/-- A kind of element before the task of a task element is read. -/
inductive Tag where
  | startEvent | endEvent
  | task (kind : TaskKind)
  | exclusiveGateway | parallelGateway
deriving DecidableEq, Repr

/-- All kinds, in the order of their numbers. -/
def Tag.all : List Tag :=
  [.startEvent, .endEvent, .task .service, .task .user, .task .businessRule, .task .script,
    .task .send, .task .receive, .exclusiveGateway, .parallelGateway]

/-- The name of a kind. -/
def Tag.name : Tag → String
  | .startEvent => "startEvent"
  | .endEvent => "endEvent"
  | .task kind => kind.name
  | .exclusiveGateway => "exclusiveGateway"
  | .parallelGateway => "parallelGateway"

/-- The names of all kinds, as a message lists them. -/
def Tag.listed : String :=
  String.intercalate ", " (Tag.all.map fun tag => "`" ++ tag.name ++ "`")

/-- The kind that a document names, or gives by its number where that is allowed. -/
def Tag.decode (source : Source) : Document → Decoded Tag
  | .scalar (.string s) =>
    match Tag.all.find? (·.name == s) with
    | some tag => .ok tag
    | none => .error (.shape ("unknown variant `" ++ s ++ "`, expected one of " ++ Tag.listed))
  | .scalar (.int i) =>
    if source.numberedKinds && 0 ≤ i then
      match Tag.all[i.toNat]? with
      | some tag => .ok tag
      | none =>
        .error (.shape ("invalid value: integer `" ++ toString i ++
          "`, expected variant index 0 <= i < " ++ toString Tag.all.length))
    else (Document.scalar (.int i)).mismatch "variant identifier"
  | document => document.mismatch "variant identifier"

/-- The kind among fields in order, and the other fields. -/
def splitTag (source : Source) :
    List (String × Document) → Option Tag → Decoded (Option Tag × List (String × Document))
  | [], tag => .ok (tag, [])
  | (name, field) :: more, tag => do
    if name = "type" then
      if tag.isSome then throw (RecordKind.repeated "type")
      let found ← Tag.decode source field
      splitTag source more (some found)
    else
      let (tag, others) ← splitTag source more tag
      return (tag, (name, field) :: others)

/-- The kind of an element, from its fields other than the id and the name. -/
def decode (source : Source) (fields : List (String × Document)) : Decoded ElementKind := do
  let (tag, others) ← splitTag source fields none
  match ← RecordKind.require "type" tag with
  | .startEvent => return .startEvent
  | .endEvent => return .endEvent
  | .exclusiveGateway => return .exclusiveGateway
  | .parallelGateway => return .parallelGateway
  | .task kind =>
    let record := Document.record (others.map fun (name, field) => (.ok name, field)) none
    let spec ← (TaskSpec.recordKind source.buffered).decode source.buffered record
    return .task kind spec

end ElementKind

namespace Element

/-- An element of which some parts may still be missing. -/
structure Draft where
  id : Option String
  name : Option (Option String)
  /-- the other fields, last first -/
  others : List (String × Document)

/-- Take in the fields of an element in order, `depth` levels being entered. -/
def readFields (source : Source) (depth : Nat) :
    List (Except Stop String × Document) → Draft → Decoded Draft
  | [], draft => .ok draft
  | (name, field) :: more, draft => do
    let name ← name.mapError Fault.stop
    if name = "id" then
      if draft.id.isSome then throw (RecordKind.repeated "id")
      let id ← field.text
      readFields source depth more { draft with id := some id }
    else if name = "name" then
      if draft.name.isSome then throw (RecordKind.repeated "name")
      let text ← field.optional Document.text
      readFields source depth more { draft with name := some text }
    else
      let _ ← field.toValue source depth
      readFields source depth more { draft with others := (name, field) :: draft.others }

/-- An element, inside `depth` levels. -/
def decode (source : Source) (depth : Nat) : Document → Decoded Element
  | .record fields ending => do
    let draft ← readFields source (depth + 1) fields ⟨none, none, []⟩
    Document.stopIf ending
    let id ← RecordKind.require "id" draft.id
    let kind ← ElementKind.decode source draft.others.reverse
    return ⟨id, draft.name.getD none, kind⟩
  | document => document.mismatch "struct Element"

end Element

namespace Definition

/-- A definition of which some slots may still be empty. -/
structure Draft where
  id : Option String
  name : Option (Option String)
  elements : Option (List Element)
  flows : Option (List Flow)

/-- Definitions as records. -/
def recordKind (source : Source) : RecordKind Draft Definition where
  name := "ProcessDefinition"
  slots := [
    .make "id" false Document.text Draft.id fun d x => { d with id := some x },
    .make "name" true (Document.optional Document.text) Draft.name
      fun d x => { d with name := some x },
    .make "elements" false (Document.listOf (Element.decode source 2)) Draft.elements
      fun d x => { d with elements := some x },
    .make "flows" true (Document.listOf (Flow.recordKind.decode source)) Draft.flows
      fun d x => { d with flows := some x }]
  empty := ⟨none, none, none, none⟩
  complete d := do
    let id ← RecordKind.require "id" d.id
    let elements ← RecordKind.require "elements" d.elements
    return ⟨id, d.name.getD none, elements, d.flows.getD []⟩

/-- A definition, which need not be well formed. -/
def decode (source : Source) (document : Document) : Decoded Definition :=
  (recordKind source).decode source document

end Definition

end Workflow
