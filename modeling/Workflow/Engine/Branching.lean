import Workflow.Definition.Basic
import Workflow.Timed

/-!
# Branches

A traversal walks through a process along its flows and ends somewhere; an engine makes one of every
run, and at a fork one of every branch.  This module says how a traversal can end and what the ends
of several branches come to together.

A branch comes to a join on one of the flows into it, or on several of them at once if it forked on
its way and its own branches came there (`Outcome.atJoin`).  The branches of a fork converge on the
join of the first of them that came to one.  The fork goes on behind that join if all flows into it
are accounted for, or if nobody else could bring the rest: that is for the traversal to decide
(`Workflow.Engine.Traversal`).
-/

namespace Workflow

/-- How a traversal ended. -/
inductive Outcome where
  /-- at an end event, or at an element that no flow leaves -/
  | finished
  /-- at a join, to which it came on so many of the flows into it -/
  | atJoin (join : String) (arrivals : Nat)
  /-- on an error -/
  | failed (error : Error)
  /-- at a fork whose branches would be nested too deeply -/
  | unbounded
deriving DecidableEq, Repr

namespace Outcome

/-- The join at which a traversal ended. -/
def join? : Outcome → Option String
  | atJoin join _ => some join
  | _ => none

/-- On how many flows a traversal came to a join. -/
def arrivalsAt (join : String) : Outcome → Nat
  | atJoin id arrivals => if id = join then arrivals else 0
  | _ => 0

/-- The error on which a traversal ended. -/
def error? : Outcome → Option Error
  | failed error => some error
  | _ => none

/-- Whether a traversal was nested too deeply. -/
def isUnbounded : Outcome → Bool
  | unbounded => true
  | _ => false

end Outcome

/-- What a traversal comes to. -/
structure Traversal where
  /-- how it ended -/
  outcome : Outcome
  /-- the variables at its end -/
  vars : Variables
  /-- the element that it visited last, leaving its branches aside -/
  current : Option String
  /-- the elements that it and its branches visited -/
  path : List String

/-! ## What branches come to together -/

/-- The join on which branches converge, and on how many of the flows into it they came there. -/
def convergence (outcomes : List Outcome) : Option (String × Nat) := do
  let join ← outcomes.findSome? Outcome.join?
  return (join, outcomes.foldr (fun outcome count => outcome.arrivalsAt join + count) 0)

/-- The variables behind a fork: those of the branches, written one after the other over those
before it. -/
def mergeBranches (vars : Variables) (branches : List Traversal) : Variables :=
  branches.foldl (fun merged branch => Table.merge merged branch.vars) vars

/-- What is said about the branches of a fork that failed, or came to another join than the first.
-/
def complaints (gateway : String) (outcomes : List Outcome) : List Occurrence :=
  outcomes.zipIdx.filterMap fun (outcome, index) =>
    match outcome with
    | .failed error =>
      some (.logged ⟨.warn, "Parallel branch failed",
        [("gateway", .string gateway), ("branch", .int index), ("error", .string error.message)]⟩)
    | .atJoin found _ =>
      match outcomes.findSome? Outcome.join? with
      | some expected =>
        if found = expected then none
        else
          some (.logged ⟨.warn, "Branch converged on a different join",
            [("gateway", .string gateway), ("branch", .int index), ("expected", .string expected),
              ("found", .string found)]⟩)
      | none => none
    | _ => none

/-- What a fork comes to. -/
inductive Reunion where
  /-- every branch ended well; some may have come to a join -/
  | joined (join : Option (String × Nat)) (vars : Variables)
  /-- a branch failed -/
  | failed (error : Error)
  /-- a branch was nested too deeply -/
  | unbounded

/-- What a fork comes to, by the ends of its branches. Of several errors, that of the first branch
counts. -/
def reunite (vars : Variables) (branches : List Traversal) : Reunion :=
  let outcomes := branches.map Traversal.outcome
  if outcomes.any Outcome.isUnbounded then .unbounded
  else
    match outcomes.findSome? Outcome.error? with
    | some error => .failed error
    | none => .joined (convergence outcomes) (mergeBranches vars branches)

end Workflow
