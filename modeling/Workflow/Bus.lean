import Workflow.Span
import Workflow.Table

/-!
# Buses

A bus passes spans on to its subscribers, each of which takes them when it likes.  For all of them
together it has one ring of slots, a power of two, and every span goes into the next slot, over the
one that was put there a whole round before.  A subscriber that falls behind further than that
misses the oldest ones and is told how many they were.

Spans are counted from the first one ever emitted.  A subscriber is the number of the span that it
takes next, so it sees only what is emitted after it subscribed.
-/

namespace Workflow

/-- Passes spans on to subscribers. -/
structure Bus where
  /-- how many slots the ring has -/
  slots : Nat
  /-- the spans in the slots that are in use, which are the first ones -/
  ring : List Span
  /-- how many spans were emitted -/
  emitted : Nat
  /-- the number of the span that each subscriber takes next -/
  subscribers : Table Nat

namespace Bus

/-- How many spans a bus keeps if nothing else is said. -/
def usualCapacity : Nat := 256

/-- How many slots are needed to keep so many spans: the least power of two that is enough. -/
def slotsFor (capacity : Nat) : Nat :=
  if capacity ≤ 1 then 1 else Nat.pow 2 ((capacity - 1).log2 + 1)

/-- A bus that keeps at least so many spans. There is none that keeps no span. -/
def ofCapacity (capacity : Nat) : Option Bus :=
  if capacity = 0 then none else some ⟨slotsFor capacity, [], 0, []⟩

/-- Emit a span. -/
def emit (bus : Bus) (span : Span) : Bus :=
  { bus with
    ring :=
      if bus.ring.length < bus.slots then bus.ring ++ [span]
      else bus.ring.set (bus.emitted % bus.slots) span
    emitted := bus.emitted + 1 }

/-- Let someone subscribe, who takes what is emitted from now on. -/
def subscribe (bus : Bus) (name : String) : Bus :=
  { bus with subscribers := bus.subscribers.set name bus.emitted }

/-- Let someone leave. -/
def unsubscribe (bus : Bus) (name : String) : Bus :=
  { bus with subscribers := bus.subscribers.filter (·.1 != name) }

/-! ## Taking spans -/

/-- The number of the oldest span that is kept. -/
def oldest (bus : Bus) : Nat :=
  bus.emitted - bus.slots

/-- What a subscriber gets when it asks for a span. -/
inductive Reception where
  /-- the next span -/
  | span (span : Span)
  /-- word that it fell behind the oldest span, and by how many spans -/
  | lagged (missed : Nat)
  /-- nothing, as there is no span yet -/
  | nothing
deriving DecidableEq, Repr

/-- What a subscriber gets that asks for the span of a number. -/
def receive (bus : Bus) (next : Nat) : Reception :=
  if bus.emitted ≤ next then .nothing
  else if next < bus.oldest then .lagged (bus.oldest - next)
  else
    match bus.ring[next % bus.slots]? with
    | some span => .span span
    | none => .nothing

/-- Who gets a span has asked for one that was emitted. -/
theorem lt_emitted_of_receive_span {bus : Bus} {next : Nat} {span : Span}
    (h : bus.receive next = .span span) : next < bus.emitted := by
  rw [receive] at h
  split at h
  · cases h
  · omega

/-- Who fell behind is sent on to a span that is kept. -/
theorem lagged_of_receive {bus : Bus} {next missed : Nat} (h : bus.receive next = .lagged missed) :
    next < bus.emitted ∧ 0 < missed := by
  rw [receive] at h
  split at h
  · cases h
  · split at h
    · obtain rfl := Reception.lagged.inj h
      omega
    · split at h <;> cases h

/-- What a subscriber takes. -/
structure Haul where
  /-- the spans, the oldest first -/
  spans : List Span
  /-- how many spans the subscriber missed before these -/
  skipped : Nat
deriving DecidableEq, Repr

/-- Ask for spans from that of a number on until there is none, adding to a haul what comes. Gives
the haul and the number of the span to ask for next time. -/
def take (bus : Bus) (next : Nat) (haul : Haul) : Haul × Nat :=
  match h : bus.receive next with
  | .span span =>
    have := lt_emitted_of_receive_span h
    bus.take (next + 1) { haul with spans := haul.spans ++ [span] }
  | .lagged missed =>
    have := lagged_of_receive h
    bus.take (next + missed) { haul with skipped := haul.skipped + missed }
  | .nothing => (haul, next)
termination_by bus.emitted - next
decreasing_by all_goals omega

section Take

variable {bus : Bus} {next : Nat} (haul : Haul)

theorem take_of_span {span : Span} (h : bus.receive next = .span span) :
    bus.take next haul = bus.take (next + 1) { haul with spans := haul.spans ++ [span] } := by
  rw [take]
  split <;> simp_all

theorem take_of_lagged {missed : Nat} (h : bus.receive next = .lagged missed) :
    bus.take next haul =
      bus.take (next + missed) { haul with skipped := haul.skipped + missed } := by
  rw [take]
  split <;> simp_all

theorem take_of_nothing (h : bus.receive next = .nothing) :
    bus.take next haul = (haul, next) := by
  rw [take]
  split <;> simp_all

end Take

/-- What there is to take from the span of a number on. -/
def haulFrom (bus : Bus) (next : Nat) : Haul :=
  (bus.take next ⟨[], 0⟩).1

/-- Let a subscriber take all that there is for it. -/
def drain (bus : Bus) (name : String) : Option (Haul × Bus) :=
  (bus.subscribers.get? name).map fun next =>
    let (haul, next) := bus.take next ⟨[], 0⟩
    (haul, { bus with subscribers := bus.subscribers.set name next })

end Bus

end Workflow
