import Mathlib.Order.Bounds.Basic
import Workflow.Bus
import Workflow.Proofs.Table

/-!
# What subscribers take from a bus

The spans of a bus stand in a ring, so the slot of a span is told by its number, and a span is gone
once another one of the same slot was emitted.  A subscriber that asks for a span which is gone is
sent on to the oldest one that is left.  However far it fell behind, what it takes when it drains
the bus are the newest of the spans that it has not taken before, as many of them as there are
slots, and the others are counted.

* `Bus.Holds` — the bus has passed on the spans of a list; every action keeps this.
* `Bus.Holds.take_eq` — what a subscriber comes to that asks until there is nothing.
* `Bus.waiting` — what a subscriber has not taken, told by what was done with the bus.
* `Bus.hauls_account_for_spans` — what the drains of a subscriber bring.
-/

namespace Workflow

namespace Bus

/-! ## What is done with a bus -/

/-- What is done with a bus. -/
inductive Action where
  /-- a span is emitted -/
  | emit (span : Span)
  /-- someone subscribes -/
  | subscribe (name : String)
  /-- someone leaves -/
  | unsubscribe (name : String)
  /-- someone takes all that there is -/
  | drain (name : String)
deriving DecidableEq

namespace Action

/-- The span that is emitted. -/
def spans : Action → List Span
  | emit span => [span]
  | subscribe _ => []
  | unsubscribe _ => []
  | drain _ => []

/-- Who does something, unless a span is emitted. -/
def subscriber? : Action → Option String
  | emit _ => none
  | subscribe name => some name
  | unsubscribe name => some name
  | drain name => some name

end Action

/-- The bus after an action. Who has not subscribed takes nothing. -/
def act (bus : Bus) : Action → Bus
  | .emit span => bus.emit span
  | .subscribe name => bus.subscribe name
  | .unsubscribe name => bus.unsubscribe name
  | .drain name => ((bus.drain name).map Prod.snd).getD bus

/-- The bus after several actions. -/
def after (bus : Bus) (actions : List Action) : Bus :=
  actions.foldl act bus

/-- What the drains of a subscriber bring, one after the other, while things are done with a bus. -/
def hauls (name : String) (bus : Bus) : List Action → List Haul
  | [] => []
  | action :: more =>
    (if action = .drain name then ((bus.drain name).map Prod.fst).toList else []) ++
      hauls name (bus.act action) more

/-- The last of some spans, as many as there are slots or else all of them, and how many others
there are before these. -/
def Haul.newest (slots : Nat) (spans : List Span) : Haul :=
  ⟨spans.drop (spans.length - min spans.length slots), spans.length - min spans.length slots⟩

/-- The spans that a subscriber has still to take after an action, if it had some before. -/
def await (name : String) (spans : Option (List Span)) : Action → Option (List Span)
  | .emit span => spans.map (· ++ [span])
  | .subscribe other => if other = name then some [] else spans
  | .unsubscribe other => if other = name then none else spans
  | .drain other => if other = name then spans.map fun _ => [] else spans

/-- The spans that were emitted since someone drained the bus last or else subscribed, if it has
subscribed and has not left. -/
def waiting (name : String) (actions : List Action) : Option (List Span) :=
  actions.foldl (await name) none

/-! ## How many slots there are -/

theorem le_slotsFor (capacity : Nat) : capacity ≤ slotsFor capacity := by
  rw [slotsFor]
  split
  · assumption
  · have hlog : capacity - 1 < 2 ^ ((capacity - 1).log2 + 1) := Nat.lt_log2_self
    exact Nat.le_of_pred_lt hlog

theorem slotsFor_le {capacity n : Nat} (h : 1 ≤ capacity) (hpower : n.isPowerOfTwo)
    (hn : capacity ≤ n) : slotsFor capacity ≤ n := by
  rw [slotsFor]
  split
  · omega
  · obtain ⟨k, rfl⟩ := hpower
    have hlog : 2 ^ (capacity - 1).log2 ≤ capacity - 1 := Nat.log2_self_le (by omega)
    have hlt : 2 ^ (capacity - 1).log2 < 2 ^ k := by omega
    exact Nat.pow_le_pow_right (by decide) ((Nat.pow_lt_pow_iff_right (by decide)).mp hlt)

/-- A bus has the least power of two of slots that is enough. -/
theorem isLeast_slotsFor {capacity : Nat} (h : 1 ≤ capacity) :
    IsLeast {n : Nat | n.isPowerOfTwo ∧ capacity ≤ n} (slotsFor capacity) := by
  refine ⟨⟨?_, le_slotsFor capacity⟩, fun n hn => slotsFor_le h hn.1 hn.2⟩
  rw [slotsFor]
  split
  · exact Nat.isPowerOfTwo_one
  · exact ⟨_, rfl⟩

/-! ## The ring -/

/-- The bus has passed on the spans of a list.  Each of the newest ones stands in the slot that its
number tells, and no subscriber is ahead of them. -/
structure Holds (bus : Bus) (log : List Span) : Prop where
  slots_pos : 0 < bus.slots
  emitted : bus.emitted = log.length
  length_ring : bus.ring.length = min log.length bus.slots
  ring : ∀ i < log.length, log.length ≤ i + bus.slots → bus.ring[i % bus.slots]? = log[i]?
  next_le : ∀ name next, bus.subscribers.get? name = some next → next ≤ log.length

/-- Numbers less than a round apart tell different slots. -/
theorem mod_ne_mod {i n slots : Nat} (hlt : i < n) (hround : n < i + slots) :
    i % slots ≠ n % slots := by
  intro h
  have hdvd : slots ∣ n - i := Nat.dvd_of_mod_eq_zero (Nat.sub_mod_eq_zero_of_mod_eq h.symm)
  have hzero : n - i = 0 := Nat.eq_zero_of_dvd_of_lt hdvd (by omega)
  omega

variable {bus : Bus} {log : List Span} {name : String} {next : Nat}

theorem ring_emit_of_room (h : bus.ring.length < bus.slots) (span : Span) :
    (bus.emit span).ring = bus.ring ++ [span] :=
  if_pos h

theorem ring_emit_of_full (h : ¬bus.ring.length < bus.slots) (span : Span) :
    (bus.emit span).ring = bus.ring.set (bus.emitted % bus.slots) span :=
  if_neg h

/-- A new bus has passed on nothing, and nobody has subscribed. -/
theorem exists_ofCapacity {capacity : Nat} (h : 1 ≤ capacity) :
    ∃ bus, ofCapacity capacity = some bus ∧ bus.slots = slotsFor capacity ∧
      bus.subscribers = [] ∧ bus.Holds [] := by
  have hzero : capacity ≠ 0 := by omega
  refine ⟨_, if_neg hzero, rfl, rfl, ?_⟩
  exact {
    slots_pos := lt_of_lt_of_le h (le_slotsFor capacity)
    emitted := rfl
    length_ring := rfl
    ring := by simp
    next_le := by simp }

namespace Holds

/-- Before the first round is over, the ring is the list. -/
theorem ring_eq (h : bus.Holds log) (hroom : bus.ring.length < bus.slots) : bus.ring = log := by
  have hlength := h.length_ring
  apply List.ext_getElem?
  intro i
  by_cases hi : i < log.length
  · rw [← h.ring i hi (by omega), Nat.mod_eq_of_lt (by omega)]
  · rw [List.getElem?_eq_none (by omega), List.getElem?_eq_none (by omega)]

/-- A span that is emitted is put over none that is still kept. -/
theorem ring_emit (h : bus.Holds log) (span : Span) {i : Nat} (hi : i < log.length + 1)
    (hkept : log.length + 1 ≤ i + bus.slots) :
    (bus.emit span).ring[i % bus.slots]? = (log ++ [span])[i]? := by
  have hslots := h.slots_pos
  have hlength := h.length_ring
  by_cases hroom : bus.ring.length < bus.slots
  · have hmod : i % bus.slots = i := Nat.mod_eq_of_lt (by omega)
    rw [ring_emit_of_room hroom, h.ring_eq hroom, hmod]
  · rw [ring_emit_of_full hroom, h.emitted]
    -- only the number a whole round before has the slot of the new span
    by_cases hlast : i = log.length
    · have hslot : i % bus.slots < bus.ring.length :=
        lt_of_lt_of_le (Nat.mod_lt i hslots) (by omega)
      rw [← hlast, List.getElem?_set_self hslot, hlast, List.getElem?_concat_length]
    · have hne : i % bus.slots ≠ log.length % bus.slots := mod_ne_mod (by omega) (by omega)
      rw [List.getElem?_set_ne hne.symm, h.ring i (by omega) (by omega),
        List.getElem?_append_left (by omega)]

theorem emit (h : bus.Holds log) (span : Span) : (bus.emit span).Holds (log ++ [span]) := by
  have hlength := h.length_ring
  have hlog : (log ++ [span]).length = log.length + 1 := by simp
  refine ⟨h.slots_pos, ?_, ?_, fun i hi hkept => ?_, fun name next hnext => ?_⟩
  · rw [Bus.emit, h.emitted, hlog]
  · rw [hlog]
    by_cases hroom : bus.ring.length < bus.slots
    · rw [ring_emit_of_room hroom, List.length_append, List.length_singleton]
      simp only [Bus.emit]
      omega
    · rw [ring_emit_of_full hroom, List.length_set]
      simp only [Bus.emit]
      omega
  · rw [hlog] at hi hkept
    exact h.ring_emit span hi hkept
  · rw [hlog]
    exact Nat.le_succ_of_le (h.next_le name next hnext)

theorem subscribe (h : bus.Holds log) (name : String) : (bus.subscribe name).Holds log := by
  refine { h with next_le := fun other next hnext => ?_ }
  rw [Bus.subscribe, Table.get?_set] at hnext
  split at hnext
  · obtain rfl := Option.some.inj hnext
    exact h.emitted.le
  · exact h.next_le other next hnext

theorem unsubscribe (h : bus.Holds log) (name : String) : (bus.unsubscribe name).Holds log := by
  refine { h with next_le := fun other next hnext => ?_ }
  rw [Bus.unsubscribe, Table.get?_filter_ne] at hnext
  split at hnext
  · cases hnext
  · exact h.next_le other next hnext

/-! ## Taking spans -/

theorem receive_nothing (h : bus.Holds log) : bus.receive log.length = .nothing := by
  simp [receive, h.emitted]

theorem receive_lagged (h : bus.Holds log) (hgone : next + bus.slots < log.length) :
    bus.receive next = .lagged (log.length - bus.slots - next) := by
  have hlt : ¬log.length ≤ next := by omega
  have hold : next < log.length - bus.slots := by omega
  simp [receive, oldest, h.emitted, hlt, hold]

theorem receive_span (h : bus.Holds log) (hlt : next < log.length)
    (hkept : log.length ≤ next + bus.slots) : bus.receive next = .span log[next] := by
  have hnot : ¬log.length ≤ next := by omega
  have hold : ¬next < log.length - bus.slots := by omega
  simp [receive, oldest, h.emitted, hnot, hold, h.ring next hlt hkept, hlt]

/-- A subscriber for which nothing is gone takes all spans. -/
theorem take_kept (h : bus.Holds log) (hle : next ≤ log.length)
    (hkept : log.length ≤ next + bus.slots) (haul : Haul) :
    bus.take next haul = (⟨haul.spans ++ log.drop next, haul.skipped⟩, log.length) := by
  -- on how many spans are left; none of them is gone, as they are newer than the next one
  obtain ⟨left, hleft⟩ := Nat.exists_eq_add_of_le hle
  induction left generalizing next haul with
  | zero =>
    obtain rfl : next = log.length := by omega
    rw [take_of_nothing haul h.receive_nothing]
    simp
  | succ left ih =>
    have hlt : next < log.length := by omega
    rw [take_of_span haul (h.receive_span hlt hkept), ih (by omega) (by omega) _ (by omega),
      List.append_assoc, List.singleton_append, List.getElem_cons_drop]

/-- What a subscriber takes are the newest of the spans that it has not taken. -/
theorem take_eq (h : bus.Holds log) (hle : next ≤ log.length) :
    bus.take next ⟨[], 0⟩ = (.newest bus.slots (log.drop next), log.length) := by
  have hleft : (log.drop next).length = log.length - next := List.length_drop
  by_cases hkept : log.length ≤ next + bus.slots
  · have hnone : log.length - next - min (log.length - next) bus.slots = 0 := by omega
    rw [h.take_kept hle hkept, Haul.newest, hleft, hnone, List.nil_append, List.drop_zero]
  · have hgone : next + bus.slots < log.length := by omega
    have hskipped : log.length - next - min (log.length - next) bus.slots =
        log.length - bus.slots - next := by omega
    rw [take_of_lagged _ (h.receive_lagged hgone), h.take_kept (by omega) (by omega),
      Haul.newest, hleft, hskipped, List.drop_drop, List.nil_append, Nat.zero_add]

theorem drain_eq (h : bus.Holds log) (hnext : bus.subscribers.get? name = some next) :
    bus.drain name = some (.newest bus.slots (log.drop next), bus.subscribe name) := by
  rw [Bus.drain, hnext, Option.map_some, h.take_eq (h.next_le name next hnext), Bus.subscribe,
    h.emitted]

theorem act (h : bus.Holds log) (action : Action) :
    (bus.act action).Holds (log ++ action.spans) := by
  cases action with
  | emit span => exact h.emit span
  | subscribe name =>
    rw [Action.spans, List.append_nil]
    exact h.subscribe name
  | unsubscribe name =>
    rw [Action.spans, List.append_nil]
    exact h.unsubscribe name
  | drain name =>
    rw [Action.spans, List.append_nil, Bus.act]
    rcases hnext : bus.subscribers.get? name with _ | next
    · rw [Bus.drain, hnext]
      exact h
    · rw [h.drain_eq hnext]
      exact h.subscribe name

/-- What is held after actions is what they emitted, too. -/
theorem after (h : bus.Holds log) (actions : List Action) :
    (bus.after actions).Holds (log ++ actions.flatMap Action.spans) := by
  induction actions generalizing bus log with
  | nil => simpa [Bus.after] using h
  | cons action more ih => simpa [Bus.after] using ih (h.act action)

/-! ## What subscribers have not taken -/

/-- What a subscriber has not taken after an action is told by what it had not taken before. -/
theorem await_eq (h : bus.Holds log) (name : String) (action : Action) :
    await name ((bus.subscribers.get? name).map (log.drop ·)) action =
      ((bus.act action).subscribers.get? name).map ((log ++ action.spans).drop ·) := by
  have hsubscribe : ∀ other : String,
      ((bus.subscribe other).subscribers.get? name).map (log.drop ·) =
        if other = name then some [] else (bus.subscribers.get? name).map (log.drop ·) := by
    intro other
    rw [Bus.subscribe, Table.get?_set, h.emitted]
    split <;> simp
  cases action with
  | emit span =>
    rw [await, Bus.act, Bus.emit, Action.spans]
    rcases hnext : bus.subscribers.get? name with _ | next
    · rfl
    · rw [Option.map_some, Option.map_some, Option.map_some,
        List.drop_append_of_le_length (h.next_le name next hnext)]
  | subscribe other =>
    rw [await, Bus.act, Action.spans, List.append_nil, hsubscribe]
  | unsubscribe other =>
    rw [await, Bus.act, Action.spans, List.append_nil, Bus.unsubscribe, Table.get?_filter_ne]
    split <;> rfl
  | drain other =>
    rw [await, Bus.act, Action.spans, List.append_nil]
    rcases hother : bus.subscribers.get? other with _ | next
    · rw [Bus.drain, hother]
      split
      · rename_i heq
        simp [← heq, hother]
      · rfl
    · rw [h.drain_eq hother]
      simp only [Option.map_some, Option.getD_some, hsubscribe]
      split
      · rename_i heq
        simp [← heq, hother]
      · rfl

theorem foldl_await (h : bus.Holds log) (name : String) (actions : List Action) :
    actions.foldl (await name) ((bus.subscribers.get? name).map (log.drop ·)) =
      ((bus.after actions).subscribers.get? name).map
        ((log ++ actions.flatMap Action.spans).drop ·) := by
  induction actions generalizing bus log with
  | nil => simp [Bus.after]
  | cons action more ih =>
    rw [List.foldl_cons, h.await_eq name action, ih (h.act action), List.flatMap_cons,
      List.append_assoc]
    rfl

end Holds

theorem slots_act (bus : Bus) (action : Action) : (bus.act action).slots = bus.slots := by
  cases action with
  | drain name =>
    rw [act, drain]
    rcases bus.subscribers.get? name with _ | next <;> rfl
  | _ => rfl

theorem slots_after (bus : Bus) (actions : List Action) :
    (bus.after actions).slots = bus.slots := by
  induction actions generalizing bus with
  | nil => rfl
  | cons action more ih => rw [after, List.foldl_cons, ← after, ih, slots_act]

/-! ## Hauls -/

namespace Haul

theorem spans_newest_sublist (slots : Nat) (spans : List Span) :
    (newest slots spans).spans.Sublist spans :=
  List.drop_sublist _ _

/-- What is taken and what is skipped are all that there was. -/
theorem length_newest (slots : Nat) (spans : List Span) :
    (newest slots spans).spans.length + (newest slots spans).skipped = spans.length := by
  simp only [newest, List.length_drop]
  omega

theorem newest_of_le {slots : Nat} {spans : List Span} (h : spans.length ≤ slots) :
    newest slots spans = ⟨spans, 0⟩ := by
  have hnone : spans.length - min spans.length slots = 0 := by omega
  rw [newest, hnone, List.drop_zero]

theorem flatMap_newest_sublist (slots : Nat) (emitted : List (List Span)) :
    ((emitted.map (newest slots)).flatMap spans).Sublist emitted.flatten := by
  induction emitted with
  | nil => exact List.Sublist.refl _
  | cons first more ih => exact (spans_newest_sublist slots first).append ih

theorem flatMap_newest_of_le {slots : Nat} {emitted : List (List Span)}
    (h : ∀ spans ∈ emitted, spans.length ≤ slots) :
    (emitted.map (newest slots)).flatMap spans = emitted.flatten := by
  rw [List.flatMap_map, List.flatten_eq_flatMap]
  exact List.flatMap_congr fun spans hspans => by rw [newest_of_le (h spans hspans)]; rfl

end Haul

theorem hauls_append (name : String) (bus : Bus) (first second : List Action) :
    hauls name bus (first ++ second) =
      hauls name bus first ++ hauls name (bus.after first) second := by
  induction first generalizing bus with
  | nil => rfl
  | cons action more ih =>
    rw [List.cons_append, hauls, ih, hauls, List.append_assoc]
    rfl

/-- Who does not act takes nothing and is where it was. -/
theorem hauls_of_others {actions : List Action}
    (hothers : ∀ action ∈ actions, action.subscriber? ≠ some name) (bus : Bus) :
    hauls name bus actions = [] ∧
      (bus.after actions).subscribers.get? name = bus.subscribers.get? name := by
  induction actions generalizing bus with
  | nil => exact ⟨rfl, rfl⟩
  | cons action more ih =>
    obtain ⟨hfirst, hmore⟩ := List.forall_mem_cons.mp hothers
    obtain ⟨hnone, hstays⟩ := ih hmore (bus.act action)
    have hdrain : action ≠ .drain name := by
      rintro rfl
      exact hfirst rfl
    have hact : (bus.act action).subscribers.get? name = bus.subscribers.get? name := by
      cases action with
      | emit span => rfl
      | subscribe other =>
        exact Table.get?_set_ne _ _ fun heq => hfirst (congrArg some heq)
      | unsubscribe other =>
        rw [act, unsubscribe, Table.get?_filter_ne, if_neg fun heq => hfirst (congrArg some heq)]
      | drain other =>
        rw [act, drain]
        rcases bus.subscribers.get? other with _ | next
        · rfl
        · exact Table.get?_set_ne _ _ fun heq => hfirst (congrArg some heq)
    refine ⟨?_, hstays.trans hact⟩
    rw [hauls, if_neg hdrain, hnone, List.append_nil]

/-- A subscriber that has taken everything drains the bus after each of several stretches. -/
theorem Holds.hauls_eq (h : bus.Holds log) (hnext : bus.subscribers.get? name = some log.length)
    {stretches : List (List Action)}
    (hothers : ∀ stretch ∈ stretches, ∀ action ∈ stretch, action.subscriber? ≠ some name) :
    hauls name bus (stretches.flatMap (· ++ [.drain name])) =
      (stretches.map (List.flatMap Action.spans)).map (Haul.newest bus.slots) := by
  induction stretches generalizing bus log with
  | nil => rfl
  | cons stretch more ih =>
    obtain ⟨hfirst, hmore⟩ := List.forall_mem_cons.mp hothers
    obtain ⟨hnone, hstays⟩ := hauls_of_others hfirst bus
    -- after the drain the subscriber has taken everything again
    have hafter := h.after stretch
    have hdrain := hafter.drain_eq (hstays.trans hnext)
    have hdrained := hafter.act (.drain name)
    rw [List.drop_left] at hdrain
    rw [Action.spans, List.append_nil] at hdrained
    have hact : (bus.after stretch).act (.drain name) = (bus.after stretch).subscribe name := by
      rw [Bus.act, hdrain]
      rfl
    rw [hact] at hdrained
    have hcurrent : ((bus.after stretch).subscribe name).subscribers.get? name =
        some (log ++ stretch.flatMap Action.spans).length := by
      rw [Bus.subscribe, Table.get?_set_self, hafter.emitted]
    rw [List.flatMap_cons, List.append_assoc, hauls_append, hnone, List.nil_append,
      List.singleton_append, hauls, if_pos rfl, hdrain, hact, ih hdrained hcurrent hmore,
      Bus.subscribe, slots_after]
    rfl

/-- **Hauls account for all spans.** Take a bus for any capacity but zero, and the least power of
two that is not less.  Whatever is done with the bus, by however many subscribers: what a
subscriber takes when it drains the bus are the newest of the spans emitted since it drained the bus
last, or else subscribed, as many of them as that power says, in the order of emission, and it is
told how many others there were; someone who has not subscribed, or has left, takes nothing.  So
take anyone who subscribes, after whatever was done before, and then drains the bus now and then,
while others do what they like.  What it takes altogether are spans that were emitted meanwhile, in
their order and none twice; each time, the spans that it takes and those that it is told to have
missed are as many as were emitted; and it takes them all if there are never more than the capacity
between two drains.
-/
theorem hauls_account_for_spans (capacity : Nat) (h : 1 ≤ capacity) :
    ∃ bus slots, ofCapacity capacity = some bus ∧
      IsLeast {n : Nat | n.isPowerOfTwo ∧ capacity ≤ n} slots ∧
      (∀ (name : String) (actions : List Action), ((bus.after actions).drain name).map Prod.fst =
        (waiting name actions).map (Haul.newest slots)) ∧
      ∀ (before : List Action) (name : String) (stretches : List (List Action)),
        (∀ stretch ∈ stretches, ∀ action ∈ stretch, action.subscriber? ≠ some name) →
        let emitted := stretches.map (List.flatMap Action.spans)
        let taken := hauls name (bus.after (before ++ [.subscribe name]))
          (stretches.flatMap (· ++ [.drain name]))
        taken = emitted.map (Haul.newest slots) ∧
        (taken.flatMap Haul.spans).Sublist emitted.flatten ∧
        (taken.map fun haul => haul.spans.length + haul.skipped) = emitted.map List.length ∧
        ((∀ spans ∈ emitted, spans.length ≤ capacity) →
          taken.flatMap Haul.spans = emitted.flatten) := by
  obtain ⟨bus, hbus, hslots, hnobody, hfresh⟩ := exists_ofCapacity h
  refine ⟨bus, slotsFor capacity, hbus, isLeast_slotsFor h, fun name actions => ?_,
    fun before name stretches hothers => ?_⟩
  · have hafter := hfresh.after actions
    have hwaiting := hfresh.foldl_await name actions
    rw [hnobody, Table.get?_nil, Option.map_none] at hwaiting
    rw [waiting, hwaiting]
    rcases hnext : (bus.after actions).subscribers.get? name with _ | next
    · rw [drain, hnext]
      rfl
    · rw [hafter.drain_eq hnext, slots_after, hslots]
      rfl
  · intro emitted taken
    have hafter := hfresh.after (before ++ [.subscribe name])
    have hcurrent : (bus.after (before ++ [.subscribe name])).subscribers.get? name =
        some ([] ++ (before ++ [Action.subscribe name]).flatMap Action.spans).length := by
      rw [← hafter.emitted, after, List.foldl_append]
      exact Table.get?_set_self _ _ _
    have htaken : taken = emitted.map (Haul.newest (slotsFor capacity)) := by
      rw [← hslots, ← slots_after bus (before ++ [.subscribe name])]
      exact hafter.hauls_eq hcurrent hothers
    refine ⟨htaken, ?_⟩
    rw [htaken]
    refine ⟨Haul.flatMap_newest_sublist _ _, ?_, fun hfew => ?_⟩
    · rw [List.map_map]
      exact List.map_congr_left fun spans _ => Haul.length_newest _ spans
    · exact Haul.flatMap_newest_of_le fun spans hspans =>
        (hfew spans hspans).trans (le_slotsFor capacity)

end Bus

/-! ## A subscriber that falls behind

One subscriber takes each span at once, the other one only after six of them. -/

namespace Straggler

/-- The report of a task. -/
def span (id : String) : Span :=
  { (default : Span) with taskId := id }

/-- What is done while the slow subscriber does nothing. -/
def stretches : List (List Bus.Action) :=
  [[.emit (span "a"), .drain "quick", .emit (span "b"), .drain "quick", .emit (span "c"),
      .emit (span "d"), .unsubscribe "quick", .emit (span "e"), .emit (span "f")],
    [.emit (span "g"), .drain "quick"]]

/-- There are four slots, so two spans are gone when the slow one drains the bus, and none later. -/
theorem straggler_is_told :
    1 ≤ 3 ∧ (∀ stretch ∈ stretches, ∀ action ∈ stretch, action.subscriber? ≠ some "slow") ∧
      ∃ bus, Bus.ofCapacity 3 = some bus ∧
        Bus.hauls "slow" (bus.after ([.subscribe "quick"] ++ [.subscribe "slow"]))
            (stretches.flatMap (· ++ [.drain "slow"])) =
          [⟨[span "c", span "d", span "e", span "f"], 2⟩, ⟨[span "g"], 0⟩] := by
  have hothers : ∀ stretch ∈ stretches, ∀ action ∈ stretch, action.subscriber? ≠ some "slow" := by
    decide
  obtain ⟨bus, slots, hbus, hleast, -, hhauls⟩ := Bus.hauls_account_for_spans 3 (by decide)
  obtain ⟨htaken, -⟩ := hhauls [.subscribe "quick"] "slow" stretches hothers
  have hslots : slots = 4 := hleast.unique (Bus.isLeast_slotsFor (by decide))
  refine ⟨by decide, hothers, bus, hbus, ?_⟩
  rw [htaken, hslots]
  rfl

end Straggler

end Workflow
