import Workflow.Log
import Workflow.Span

/-!
# Sinks

Where spans go.  A sink is a description: what handing it a span does is told by `Sink.take`, as the
list of what it did (`Delivery`) and whether it panicked half-way.  The recordings, buses and logs
that the deliveries end up in are kept elsewhere, by name.

A fan-out hands the span to its members in order, and a member that panics keeps it from those
behind.  Whoever reports a span to a sink goes on as if nothing had happened (`report`); a panic
only leaves a warning in the log.
-/

namespace Workflow

/-- Where spans go. -/
inductive Sink where
  /-- nowhere -/
  | null
  /-- into the recording of a name -/
  | recording (name : String)
  /-- nowhere, by a panic -/
  | panicking
  /-- into the log -/
  | tracing
  /-- onto the bus of a name -/
  | bus (name : String)
  /-- to the end of a span log, by its path -/
  | spanLog (path : String)
  /-- to each of several sinks, in order -/
  | fanout (members : List Sink)

/-- What a sink did with a span. -/
inductive Delivery where
  /-- put it into a recording -/
  | recorded (name : String) (span : Span)
  /-- put it onto a bus -/
  | published (name : String) (span : Span)
  /-- wrote it to a span log -/
  | written (path : String) (span : Span)
  /-- said something in the log -/
  | logged (record : LogRecord)

/-- The spans that deliveries put onto the bus of a name, in order. -/
def Delivery.publishedOn (name : String) (deliveries : List Delivery) : List Span :=
  deliveries.filterMap fun
    | .published other span => if other = name then some span else none
    | _ => none

namespace Sink

/-- What a span says in the log. -/
def traceRecord (span : Span) : LogRecord :=
  let fields :=
    [("task_id", Value.string span.taskId), ("kind", .string span.kind),
      ("process_id", .string span.processId), ("instance_id", .string span.instanceId),
      ("elapsed_ms", .int span.elapsedMillis)]
  if span.success then ⟨.info, "Task span", fields⟩
  else
    ⟨.warn, "Task span (failed)",
      fields ++ [("error", .string (span.error.getD "unknown"))]⟩

mutual

/-- What a sink does with a span, and whether it panics after that. -/
def take (span : Span) : Sink → List Delivery × Bool
  | null => ([], false)
  | recording name => ([.recorded name span], false)
  | panicking => ([], true)
  | tracing => ([.logged (traceRecord span)], false)
  | bus name => ([.published name span], false)
  | spanLog path => ([.written path span], false)
  | fanout members => takeAll span members

/-- What sinks do with a span in order, up to the first that panics. -/
def takeAll (span : Span) : List Sink → List Delivery × Bool
  | [] => ([], false)
  | sink :: more =>
    match take span sink with
    | (done, true) => (done, true)
    | (done, false) =>
      let (others, panicked) := takeAll span more
      (done ++ others, panicked)

end

/-- Report a span to a sink. A panic of the sink goes no further than the log. -/
def report (sink : Sink) (span : Span) : List Delivery :=
  match sink.take span with
  | (done, false) => done
  | (done, true) =>
    done ++ [.logged ⟨.warn, "Observability sink panicked, span dropped",
      [("element_id", .string span.taskId)]⟩]

end Sink

end Workflow
