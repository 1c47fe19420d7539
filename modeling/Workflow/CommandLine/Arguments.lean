import Workflow.CommandLine.Variable

/-!
# Arguments

The program is told by its arguments which command to carry out, and on what.  In front of the
command's name stands what is for every command, behind it what is for that command alone, and each
side knows its own options.

Arguments are read from left to right.  An option takes its value from behind an equals sign, or
else from the next argument, unless that looks like an option itself.  A value that came in an
argument of its own is settled only when the next thing is given or the side ends (`settle`), and so
is its fault: an argument that means nothing is found before the value in front of it is looked at.
-/

namespace Workflow.CommandLine

/-! ## What can be said -/

/-- The names of the commands. -/
inductive Verb where
  | validate
  | run
  | config
deriving DecidableEq, Repr

/-- The command of a name. -/
def Verb.ofName? (name : String) : Option Verb :=
  match name with
  | "validate" => some validate
  | "run" => some run
  | "config" => some config
  | _ => none

/-- What help can be asked for. -/
inductive Topic where
  /-- the program -/
  | program
  /-- one command -/
  | command (verb : Verb)
  /-- asking for help by its name -/
  | help
deriving DecidableEq, Repr

/-- The topic of a name. -/
def Topic.ofName? (name : String) : Option Topic :=
  if name = "help" then some help else (Verb.ofName? name).map command

/-- What an argument can set. -/
inductive Setting where
  /-- the configuration file -/
  | config
  /-- the definition's file -/
  | file
  /-- one variable -/
  | entry
  /-- variables, all in one JSON text -/
  | entries
  /-- the id that the process gets -/
  | process
deriving DecidableEq, Repr

/-- Why the program does not get to carry out a command. -/
inductive Refusal where
  /-- there is an argument that means nothing here -/
  | unknownArgument (argument : String)
  /-- there is no command of this name -/
  | unknownCommand (name : String)
  /-- no command is named -/
  | noCommand
  /-- nothing is said at all -/
  | nothingSaid
  /-- the command needs a file -/
  | noFile
  /-- a setting has no value, or an empty one where it needs a path -/
  | noValue (setting : Setting)
  /-- a variable is not given as one -/
  | badVariable (fault : VariableFault)
  /-- what can be set once is set again -/
  | setTwice (setting : Setting)
  /-- an option that takes no value has one -/
  | needlessValue (value : String)
  /-- help is asked for -/
  | help (topic : Topic)
  /-- the version is asked for -/
  | version
deriving DecidableEq, Repr

/-- What options do. -/
inductive Switch where
  /-- set something to the option's value -/
  | set (setting : Setting)
  /-- ask for help -/
  | help
  /-- ask for the version -/
  | version
deriving DecidableEq, Repr

/-- The two sides of the command's name. -/
inductive Side where
  /-- in front of it -/
  | front
  /-- behind it -/
  | behind (verb : Verb)
deriving DecidableEq, Repr

namespace Side

/-- The options that are words. -/
def word? : Side → String → Option Switch
  | _, "help" => some .help
  | front, "version" => some .version
  | front, "config" => some (.set .config)
  | behind .run, "var" => some (.set .entry)
  | behind .run, "vars-json" => some (.set .entries)
  | behind .run, "process" => some (.set .process)
  | _, _ => none

/-- The options that are letters. -/
def letter? : Side → Char → Option Switch
  | _, 'h' => some .help
  | front, 'V' => some .version
  | front, 'c' => some (.set .config)
  | _, _ => none

/-- What help asked for on this side is about. -/
def topic : Side → Topic
  | front => .program
  | behind verb => .command verb

/-- Whether a file can be named on this side. -/
def takesFile : Side → Bool
  | behind .validate => true
  | behind .run => true
  | _ => false

end Side

/-! ## What was said -/

/-- What was set so far. -/
structure Settings where
  config : Option String
  file : Option String
  /-- single variables, in the order in which they were given -/
  entries : List (String × Value)
  entriesText : Option String
  process : Option String

namespace Settings

/-- Nothing was set. -/
def empty : Settings := ⟨none, none, [], none, none⟩

/-- Whether a setting cannot be set any more. -/
def isSet (settings : Settings) : Setting → Bool
  | .config => settings.config.isSome
  | .file => settings.file.isSome
  | .entry => false
  | .entries => settings.entriesText.isSome
  | .process => settings.process.isSome

/-- Whether the value of a setting is a path. -/
def isPath : Setting → Bool
  | .config => true
  | .file => true
  | _ => false

/-- Set something. -/
def set (settings : Settings) (setting : Setting) (text : String) : Except Refusal Settings :=
  if settings.isSet setting then .error (.setTwice setting)
  else if isPath setting && text = "" then .error (.noValue setting)
  else
    match setting with
    | .config => .ok { settings with config := some text }
    | .file => .ok { settings with file := some text }
    | .entries => .ok { settings with entriesText := some text }
    | .process => .ok { settings with process := some text }
    | .entry =>
      match readVariable text with
      | .ok entry => .ok { settings with entries := settings.entries ++ [entry] }
      | .error fault => .error (.badVariable fault)

end Settings

/-- What is not settled yet. -/
inductive Pending where
  /-- nothing -/
  | nothing
  /-- a setting that waits for its value -/
  | awaited (setting : Setting)
  /-- a setting whose value was not looked at yet -/
  | unsettled (setting : Setting) (text : String)
deriving DecidableEq, Repr

/-- How an argument looks. -/
inductive Form where
  /-- two hyphens: what follows holds no options -/
  | separator
  /-- an option that is a word, with what stands behind its equals sign -/
  | word (name : String) (value : Option String)
  /-- options that are letters, of which the first decides -/
  | letter (name : Char) (rest : List Char)
  /-- no option -/
  | plain
deriving DecidableEq, Repr

/-- How an argument looks. One hyphen alone is no option. -/
def Form.of (argument : String) : Form :=
  match argument.toList with
  | ['-', '-'] => separator
  | '-' :: '-' :: rest =>
    match Text.cut ['='] rest with
    | some (name, value) => word (String.ofList name) (some (String.ofList value))
    | none => word (String.ofList rest) none
  | '-' :: name :: rest => letter name rest
  | _ => plain

/-- The value that stands in one argument with an option's letter. -/
def attached : List Char → Option String
  | [] => none
  | '=' :: value => some (String.ofList value)
  | value => some (String.ofList value)

/-! ## Reading -/

/-- How far the arguments of one side are read. -/
structure Reading where
  /-- what was set -/
  settings : Settings
  /-- what is not settled yet -/
  pending : Pending
  /-- whether the arguments that follow hold no options -/
  plainOnly : Bool

namespace Reading

/-- Nothing is read yet. -/
def start : Reading := ⟨.empty, .nothing, false⟩

/-- The settings when what is pending is settled. -/
def settle (reading : Reading) : Except Refusal Settings :=
  match reading.pending with
  | .nothing => .ok reading.settings
  | .awaited setting => .error (.noValue setting)
  | .unsettled setting text => reading.settings.set setting text

/-- Read an option. -/
def option (side : Side) (reading : Reading) (switch : Switch) (value : Option String) :
    Except Refusal Reading :=
  match switch, value with
  | .set setting, some text => do
    let settings ← reading.settle
    return { reading with settings := ← settings.set setting text, pending := .nothing }
  | .set setting, none => do
    return { reading with settings := ← reading.settle, pending := .awaited setting }
  | .help, none => do
    let _ ← reading.settle
    throw (.help side.topic)
  | .version, none => do
    let _ ← reading.settle
    throw .version
  | _, some text => throw (.needlessValue text)

/-- Whether a file was named. -/
def hasFile (reading : Reading) : Bool :=
  match reading.pending with
  | .unsettled .file _ => true
  | _ => reading.settings.file.isSome

/-- Read an argument that stands for itself. -/
def standalone (side : Side) (reading : Reading) (argument : String) : Except Refusal Reading :=
  if side.takesFile && !reading.hasFile then do
    return { reading with settings := ← reading.settle, pending := .unsettled .file argument }
  else if side = .front && !(reading.plainOnly && (Topic.ofName? argument).isSome) then
    throw (.unknownCommand argument)
  else throw (.unknownArgument argument)

/-- Read an argument that does not name the command. -/
def next (side : Side) (reading : Reading) (argument : String) : Except Refusal Reading :=
  if reading.plainOnly then reading.standalone side argument
  else
    match Form.of argument with
    | .separator => .ok { reading with plainOnly := true }
    | .word name value =>
      match side.word? name with
      | some switch => reading.option side switch value
      | none => .error (.unknownArgument argument)
    | .letter name rest =>
      match side.letter? name with
      | some (.set setting) => reading.option side (.set setting) (attached rest)
      | some switch => reading.option side switch none
      | none => .error (.unknownArgument argument)
    | .plain =>
      match reading.pending with
      | .awaited setting => .ok { reading with pending := .unsettled setting argument }
      | _ => reading.standalone side argument

/-- Whether the next argument may name the command. -/
def awaitsCommand (reading : Reading) : Bool :=
  match reading.pending with
  | .awaited _ => false
  | _ => !reading.plainOnly

end Reading

/-- What is to be run. -/
structure RunRequest where
  /-- the definition's file -/
  file : String
  /-- single variables, in the order in which they were given -/
  entries : List (String × Value)
  /-- variables, all in one JSON text -/
  entriesText : Option String
  /-- the id that the process gets, if not its own -/
  process : Option String

/-- What the program is to do. -/
inductive Command where
  /-- check a definition's file -/
  | validate (file : String)
  /-- run a definition -/
  | run (request : RunRequest)
  /-- show the configuration -/
  | config

/-- The command that a verb and its settings give. -/
def Verb.command (settings : Settings) : Verb → Except Refusal Command
  | config => .ok .config
  | validate =>
    match settings.file with
    | some file => .ok (.validate file)
    | none => .error .noFile
  | run =>
    match settings.file with
    | some file => .ok (.run ⟨file, settings.entries, settings.entriesText, settings.process⟩)
    | none => .error .noFile

/-- Read what stands behind a verb. -/
def Verb.read (verb : Verb) (arguments : List String) : Except Refusal Command := do
  let reading ← arguments.foldlM (Reading.next (.behind verb)) Reading.start
  verb.command (← reading.settle)

/-- What the program is told. -/
structure Arguments where
  /-- the configuration file -/
  config : String
  /-- the command -/
  command : Command

/-- The configuration file if none is named. -/
def usualConfig : String := "braid.toml"

/-- What asking for help by its name comes to. Topics have no parts. -/
def helpOn : List String → Refusal
  | [] => .help .program
  | name :: more =>
    match Topic.ofName? name, more with
    | none, _ => .unknownCommand name
    | some topic, [] => .help topic
    | some _, other :: _ => .unknownCommand other

namespace Arguments

/-- Read what stands in front of the command, and then the command. -/
def readFrom (reading : Reading) : List String → Except Refusal Arguments
  | [] => do
    let settings ← reading.settle
    throw (if settings.config.isSome then .noCommand else .nothingSaid)
  | argument :: more =>
    if reading.awaitsCommand && argument = "help" then throw (helpOn more)
    else
      match if reading.awaitsCommand then Verb.ofName? argument else none with
      | some verb => do
        let command ← verb.read more
        let settings ← reading.settle
        return ⟨settings.config.getD usualConfig, command⟩
      | none => do readFrom (← reading.next .front argument) more

/-- Read the arguments of the program, without its name. -/
def read (arguments : List String) : Except Refusal Arguments :=
  readFrom .start arguments

end Arguments

end Workflow.CommandLine
