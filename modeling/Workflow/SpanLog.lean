import Workflow.Dialogue
import Workflow.Span

/-!
# Span logs

A span log is a file with one span on each line, the oldest first.  Opening one keeps what is in the
file, so several runs may write to one log.
-/

namespace Workflow.SpanLog

/-- Open a span log, whose file and directories are made if they are not there. -/
def openAt (path : String) : Dialogue (Except Error Unit) := do
  let opened ← .question (.openLog path)
  return opened.mapError Error.file

/-- A span as it stands in a span log. -/
def lineOf (span : Span) : String :=
  String.ofList (span.line ++ ['\n'])

/-- Write a span to a span log. -/
def write (path : String) (span : Span) : Dialogue Unit :=
  .question (.append path (lineOf span))

end Workflow.SpanLog
