import Workflow.CommandLine.Arguments

/-!
# Help

What the program says of itself, and what it says to arguments that it can make nothing of.
-/

namespace Workflow.CommandLine

/-- A text of lines. -/
def linesOf (lines : List String) : String :=
  String.join (lines.map (· ++ "\n"))

/-- The help on a topic. -/
def Topic.text : Topic → String
  | program => linesOf [
      "BPMN-style workflow interpreter",
      "",
      "Usage: braid [OPTIONS] <COMMAND>",
      "",
      "Commands:",
      "  validate  Check that a process definition loads and has a start event",
      "  run       Execute a process definition with built-in executors",
      "  config    Show current configuration",
      "  help      Print this message or the help of the given subcommand(s)",
      "",
      "Options:",
      "  -c, --config <CONFIG>  Path to config file [default: " ++ usualConfig ++ "]",
      "  -h, --help             Print help",
      "  -V, --version          Print version"]
  | command .validate => linesOf [
      "Check that a process definition loads and has a start event",
      "",
      "Usage: braid validate <FILE>",
      "",
      "Arguments:",
      "  <FILE>  Definition file (.json or .toml)",
      "",
      "Options:",
      "  -h, --help  Print help"]
  | command .run => linesOf [
      "Execute a process definition with built-in executors",
      "",
      "Usage: braid run [OPTIONS] <FILE>",
      "",
      "Arguments:",
      "  <FILE>  Definition file (.json or .toml)",
      "",
      "Options:",
      "      --var <VARS>             " ++
        "Initial variable as key=value (value parsed as JSON when possible)",
      "      --vars-json <VARS_JSON>  Initial variables as a JSON object",
      "      --process <PROCESS>      Register the definition under this id instead of its own",
      "  -h, --help                   Print help"]
  | command .config => linesOf [
      "Show current configuration",
      "",
      "Usage: braid config",
      "",
      "Options:",
      "  -h, --help  Print help"]
  | help => linesOf [
      "Print this message or the help of the given subcommand(s)",
      "",
      "Usage: braid help [COMMAND]...",
      "",
      "Arguments:",
      "  [COMMAND]...  Print help for the subcommand(s)"]

/-- The name and version of the program. -/
def versionText : String := "braid 0.3.1\n"

/-- How a setting is named on the command line. -/
def Setting.label : Setting → String
  | config => "--config <CONFIG>"
  | file => "<FILE>"
  | entry => "--var <VARS>"
  | entries => "--vars-json <VARS_JSON>"
  | process => "--process <PROCESS>"

/-- What is said instead of carrying out a command. -/
def Refusal.message : Refusal → String
  | unknownArgument argument => "error: unexpected argument '" ++ argument ++ "' found\n"
  | unknownCommand name => "error: unrecognized subcommand '" ++ name ++ "'\n"
  | noCommand => "error: 'braid' requires a subcommand but one was not provided\n"
  | nothingSaid => Topic.program.text
  | noFile =>
    "error: the following required arguments were not provided:\n  " ++ Setting.file.label ++ "\n"
  | noValue setting =>
    "error: a value is required for '" ++ setting.label ++ "' but none was supplied\n"
  | badVariable fault =>
    "error: invalid value for '" ++ Setting.entry.label ++ "': " ++ fault.message ++ "\n"
  | setTwice setting =>
    "error: the argument '" ++ setting.label ++ "' cannot be used multiple times\n"
  | needlessValue value =>
    "error: unexpected value '" ++ value ++ "' found; no more were expected\n"
  | help topic => topic.text
  | version => versionText

end Workflow.CommandLine
