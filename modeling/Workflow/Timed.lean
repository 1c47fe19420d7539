import Workflow.Sink

/-!
# Computations in time

A run takes time, and its branches run side by side.  A timed computation is given here by what it
comes to: its value, the time at which it is finished, and its history, the list of what it did,
each with the time at which it did it.

Branches never see each other: each works on a context of its own, and an executor is a function of
what it is given.  So the history of branches side by side is that of each branch alone, laid over
one clock (`Timed.all`): in the order of time, and at one time in the order of the branches.  Time
is counted in milliseconds and passes only while an executor works.
-/

namespace Workflow

/-- What happens in a run. -/
inductive Occurrence where
  /-- something is said in the log -/
  | logged (record : LogRecord)
  /-- a span is reported to a sink -/
  | reported (sink : Sink) (span : Span)

/-- What the sinks and the log get of an occurrence. -/
def Occurrence.deliveries : Occurrence → List Delivery
  | logged record => [.logged record]
  | reported sink span => sink.report span

/-- Occurrences with the times at which they happen. -/
abbrev History : Type := List (Nat × Occurrence)

/-- A history in the order of time; what happens at one time keeps its order. -/
def History.inTime (history : History) : History :=
  List.mergeSort history fun a b => a.1 ≤ b.1

/-- What the sinks and the log get of a history. -/
def History.deliveries (history : History) : List Delivery :=
  history.flatMap fun (_, occurrence) => occurrence.deliveries

/-- What a computation in time comes to. -/
structure Timed (α : Type) where
  /-- its value -/
  value : α
  /-- when it is finished -/
  finish : Nat
  /-- what happened, in the order of time -/
  history : History

namespace Timed

variable {α β : Type}

/-- A computation that is finished at once. -/
def done (now : Nat) (value : α) (history : List Occurrence) : Timed α :=
  ⟨value, now, history.map fun occurrence => (now, occurrence)⟩

/-- The same computation with another value. -/
def map (f : α → β) (t : Timed α) : Timed β :=
  ⟨f t.value, t.finish, t.history⟩

/-- One computation after the other. -/
def andThen (first : Timed α) (next : α → Nat → Timed β) : Timed β :=
  let second := next first.value first.finish
  ⟨second.value, second.finish, first.history ++ second.history⟩

/-- Computations side by side, all begun at `now`; finished when the last one is. -/
def all (now : Nat) (branches : List (Timed α)) : Timed (List α) :=
  ⟨branches.map Timed.value, branches.foldl (fun t branch => max t branch.finish) now,
    History.inTime (branches.flatMap Timed.history)⟩

end Timed

end Workflow
