import Workflow.Dialogue
import Workflow.Text.References
import Workflow.Toml.Printer
import Workflow.Toml.Typed

/-!
# Configurations

A configuration is a TOML text with three tables.  Whatever it does not say has its usual value, so
that the empty text is a configuration too.  The text may refer to variables of the environment; the
references are replaced before the text is read.
-/

namespace Workflow

/-- The part of a configuration that is about runs. -/
structure EngineSettings where
  /-- how many elements one traversal may visit -/
  maxSteps : Nat
deriving DecidableEq, Repr

/-- The part of a configuration that is about the program's log. -/
structure LogSettings where
  /-- what is said in the log -/
  filter : String
deriving DecidableEq, Repr

/-- The part of a configuration that is about spans. -/
structure SpanSettings where
  /-- whether spans are reported -/
  enabled : Bool
  /-- the span log that they are written to -/
  logPath : Option String
  /-- how many spans the bus keeps at least -/
  busCapacity : Nat
deriving DecidableEq, Repr

/-- What can be set about the program. -/
structure Config where
  engine : EngineSettings
  log : LogSettings
  spans : SpanSettings
deriving DecidableEq, Repr

namespace EngineSettings

/-- What holds if nothing is said. -/
def usual : EngineSettings := ⟨10000⟩

/-- Settings of which some slots may still be empty. -/
structure Draft where
  maxSteps : Option Nat

end EngineSettings

namespace LogSettings

/-- What holds if nothing is said. -/
def usual : LogSettings := ⟨"braid=info,warn"⟩

/-- Settings of which some slots may still be empty. -/
structure Draft where
  filter : Option String

end LogSettings

namespace SpanSettings

/-- What holds if nothing is said. -/
def usual : SpanSettings := ⟨true, none, 256⟩

/-- Settings of which some slots may still be empty. -/
structure Draft where
  enabled : Option Bool
  logPath : Option (Option String)
  busCapacity : Option Nat

end SpanSettings

/-! ## Reading -/

/-- A number that is not negative. -/
def Document.count : Document → Decoded Nat
  | .scalar (.int i) =>
    if 0 ≤ i then .ok i.toNat
    else .error (.shape ("invalid value: integer `" ++ toString i ++ "`, expected a count"))
  | document => document.mismatch "a count"

namespace EngineSettings

/-- Settings as records. -/
def recordKind : RecordKind Draft EngineSettings where
  name := "engine"
  slots := [
    .make "max_steps" true Document.count Draft.maxSteps fun d x => { d with maxSteps := some x }]
  empty := ⟨none⟩
  complete d := .ok ⟨d.maxSteps.getD usual.maxSteps⟩

end EngineSettings

namespace LogSettings

/-- Settings as records. -/
def recordKind : RecordKind Draft LogSettings where
  name := "log"
  slots := [
    .make "filter" true Document.text Draft.filter fun d x => { d with filter := some x }]
  empty := ⟨none⟩
  complete d := .ok ⟨d.filter.getD usual.filter⟩

end LogSettings

namespace SpanSettings

/-- Settings as records. -/
def recordKind : RecordKind Draft SpanSettings where
  name := "spans"
  slots := [
    .make "enabled" true Document.truth Draft.enabled fun d x => { d with enabled := some x },
    .make "jsonl_path" true (Document.optional Document.text) Draft.logPath
      fun d x => { d with logPath := some x },
    .make "bus_capacity" true Document.count Draft.busCapacity
      fun d x => { d with busCapacity := some x }]
  empty := ⟨none, none, none⟩
  complete d :=
    .ok ⟨d.enabled.getD usual.enabled, d.logPath.getD usual.logPath,
      d.busCapacity.getD usual.busCapacity⟩

end SpanSettings

namespace Config

/-- What holds if nothing is said. -/
def usual : Config := ⟨.usual, .usual, .usual⟩

/-- A configuration of which some slots may still be empty. -/
structure Draft where
  engine : Option EngineSettings
  log : Option LogSettings
  spans : Option SpanSettings

/-- Configurations as records. -/
def recordKind (source : Source) : RecordKind Draft Config where
  name := "configuration"
  slots := [
    .make "engine" true (EngineSettings.recordKind.decode source) Draft.engine
      fun d x => { d with engine := some x },
    .make "log" true (LogSettings.recordKind.decode source) Draft.log
      fun d x => { d with log := some x },
    .make "spans" true (SpanSettings.recordKind.decode source) Draft.spans
      fun d x => { d with spans := some x }]
  empty := ⟨none, none, none⟩
  complete d := .ok ⟨d.engine.getD .usual, d.log.getD .usual, d.spans.getD .usual⟩

/-- A configuration from a document. -/
def decode (source : Source) (document : Document) : Decoded Config :=
  (recordKind source).decode source document

/-- The configuration that a text gives, `lookup` being the environment. -/
def ofText (lookup : String → Option String) (text : String) : Except Error Config :=
  (Toml.decode (decode .toml) (String.ofList (Text.expand lookup text.toList))).mapError
    fun reason => .config (.unreadable reason)

/-- Load a configuration from a file. -/
def load (path : String) : Dialogue (Except Error Config) := do
  match ← .question (.read path) with
  | .error _ => return .error (.configNotFound path)
  | .ok text =>
    let environment ← .question (.environment (Text.references text.toList))
    return ofText environment.get? text

/-! ## Writing -/

/-- A configuration as a value. -/
def toValue (config : Config) : Value :=
  .object (Table.ofList
    [("engine", .object (Table.ofList [("max_steps", .int config.engine.maxSteps)])),
      ("log", .object (Table.ofList [("filter", .string config.log.filter)])),
      ("spans", .object (Table.ofList
        [("enabled", .bool config.spans.enabled),
          ("jsonl_path", (config.spans.logPath.map Value.string).getD .null),
          ("bus_capacity", .int config.spans.busCapacity)]))])

/-- A line that gives a key its value. -/
def assignment (key : String) (value : List Char) : List Char :=
  key.toList ++ " = ".toList ++ value ++ ['\n']

/-- A truth value as text. -/
def truthText (b : Bool) : List Char :=
  (if b then "true" else "false").toList

/-- A configuration as TOML text. -/
def render (config : Config) : String :=
  let logPath :=
    match config.spans.logPath with
    | some path => assignment "jsonl_path" (Toml.writeText path.toList)
    | none => []
  String.ofList
    ("[engine]\n".toList ++ assignment "max_steps" (Nat.repr config.engine.maxSteps).toList ++
      "\n[log]\n".toList ++ assignment "filter" (Toml.writeText config.log.filter.toList) ++
      "\n[spans]\n".toList ++ assignment "enabled" (truthText config.spans.enabled) ++ logPath ++
      assignment "bus_capacity" (Nat.repr config.spans.busCapacity).toList)

end Config

end Workflow
