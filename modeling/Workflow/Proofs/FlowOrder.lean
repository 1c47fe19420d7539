import Workflow.Proofs.LookAlikes

/-!
# The order of declarations

A definition declares its elements and flows in some order.  Of the flows out of one element the
order counts: it is that of the branches of a fork, and that in which an exclusive gateway asks for
guards.  And the first of the start events is where a run starts.  Nothing else depends on the
order: elements are looked up by their ids, of which a valid definition has no two alike, and the
flows into a join are only counted.

* `Definition.Reorders` — another definition declares the same in another order.
* `Definition.Reorders.looksLike` — a valid definition and one that reorders it look alike.
* `Engine.order_between_sources` — runs through them are the same.
-/

namespace Workflow

namespace Definition

variable {definition other : Definition}

/-- Another definition declares the same elements and flows in another order, but the flows out of
each element in the same. -/
structure Reorders (definition other : Definition) : Prop where
  /-- the processes have the same id -/
  id : other.id = definition.id
  /-- they have the same elements, in some order -/
  elements : other.elements.Perm definition.elements
  /-- the first start event is the same -/
  first : other.starts.head? = definition.starts.head?
  /-- the flows out of each element are the same, in the same order -/
  outgoing : ∀ id ∈ definition.ids, other.outgoing id = definition.outgoing id

/-- In a well-formed definition no flow leaves an id that is no element. -/
theorem WellFormed.outgoing_eq_nil (h : definition.WellFormed) {id : String}
    (hid : id ∉ definition.ids) : definition.outgoing id = [] := by
  refine List.filter_eq_nil_iff.mpr fun flow hflow hsource => hid ?_
  rw [← beq_iff_eq.mp hsource]
  exact (h.2 flow hflow).1

namespace Reorders

theorem mem_ids (h : definition.Reorders other) (id : String) :
    id ∈ other.ids ↔ id ∈ definition.ids :=
  (h.elements.map Element.id).mem_iff

/-- Where no two elements share an id, the same element is found under it. -/
theorem element?_eq (h : definition.Reorders other) (hids : definition.ids.Nodup)
    (hids' : other.ids.Nodup) (id : String) : other.element? id = definition.element? id := by
  refine Option.ext fun element => ?_
  rw [element?_eq_some_iff hids', element?_eq_some_iff hids, h.elements.mem_iff]

theorem outgoing_eq (h : definition.Reorders other) (hwell : definition.WellFormed)
    (hwell' : other.WellFormed) (id : String) : other.outgoing id = definition.outgoing id := by
  by_cases hid : id ∈ definition.ids
  · exact h.outgoing id hid
  · rw [hwell.outgoing_eq_nil hid, hwell'.outgoing_eq_nil (mt (h.mem_ids id).mp hid)]

/-- The flows are the same in some order, so as many of them lead to each element. -/
theorem length_incoming (h : definition.Reorders other) (hwell : definition.WellFormed)
    (hwell' : other.WellFormed) (id : String) :
    (other.incoming id).length = (definition.incoming id).length := by
  have hperm : other.flows.Perm definition.flows :=
    Flow.perm_of_outgoing (h.outgoing_eq hwell hwell')
  exact (hperm.filter _).length_eq

/-- No run tells a definition from one that reorders it. -/
theorem looksLike (h : definition.Reorders other) (hwell : definition.WellFormed)
    (hwell' : other.WellFormed) : definition.LooksLike other where
  id := h.id
  elements := h.elements
  element? := h.element?_eq hwell.1 hwell'.1
  first := h.first
  incoming := h.length_incoming hwell hwell'
  targets id := by rw [h.outgoing_eq hwell hwell']
  guards element _ _ := h.outgoing_eq hwell hwell' element.id

end Reorders

end Definition

/-- **Only the order of flows with a common source matters.** Let two valid definitions declare the
same elements and flows in different orders, but the flows out of each element in the same order,
and let their first start events be the same.  Then runs through them are the same, for every engine
and context and however deeply branches may be nested, and so are the runs on two engines one of
which has loaded the one definition and the other the other one: they come to the same end with the
same variables and along the same path, and say and report the same at the same times. -/
theorem Engine.order_between_sources (engine : Engine) (definition other : Definition)
    (hvalid : definition.validate = .ok ()) (hvalid' : other.validate = .ok ())
    (h : definition.Reorders other) (id : String) (context : Context) (now : Nat) :
    (engine.load id other).1.run context now = (engine.load id definition).1.run context now ∧
      ∀ levels, engine.runThrough other levels context now =
        engine.runThrough definition levels context now := by
  have hwell := Definition.wellFormed_of_validate hvalid
  have hwell' := Definition.wellFormed_of_validate hvalid'
  have halike := h.looksLike hwell hwell'
  exact ⟨halike.run_load_eq engine id context now,
    fun levels => halike.runThrough_eq engine levels context now⟩

/-! ## A process declared backwards

All elements and flows of a process are declared in the opposite order, but for the two flows out of
its fork.  When these change places as well, the branches do. -/

namespace Backwards

/-- The elements of the process. -/
def elements : List Element :=
  [⟨"start", none, .startEvent⟩, ⟨"fork", none, .parallelGateway⟩,
    ⟨"left", none, .task .service (TaskSpec.of "one")⟩,
    ⟨"right", none, .task .user (TaskSpec.of "one")⟩, ⟨"join", none, .parallelGateway⟩,
    ⟨"end", none, .endEvent⟩]

/-- A fork into two tasks. -/
def process : Definition where
  id := "order"
  name := none
  elements := elements
  flows := [⟨"start", "fork", none⟩, ⟨"fork", "left", none⟩, ⟨"fork", "right", none⟩,
    ⟨"left", "join", none⟩, ⟨"right", "join", none⟩, ⟨"join", "end", none⟩]

/-- The same process with its declarations in another order. -/
def reordered : Definition where
  id := "order"
  name := some "backwards"
  elements := elements.reverse
  flows := [⟨"join", "end", none⟩, ⟨"fork", "left", none⟩, ⟨"right", "join", none⟩,
    ⟨"left", "join", none⟩, ⟨"fork", "right", none⟩, ⟨"start", "fork", none⟩]

/-- An engine with one agent. -/
def engine : Engine where
  maxSteps := 10
  evaluator := fun _ _ => true
  sink := .null
  agents := [("one", ⟨some (.constant (.int 1) 5), none, none, .recording "spans"⟩)]
  processes := []

/-- The beginning of the run. -/
def context : Context :=
  .start "order" ⟨"i"⟩ []

/-- The run through a process. -/
def run (definition : Definition) : Timed (Completion × Context) :=
  (engine.load "order" definition).1.run context 0

theorem reorders : process.Reorders reordered where
  id := rfl
  elements := List.reverse_perm _
  first := rfl
  outgoing := by decide

/-- The run is the same, and it is another one when the branches change places. -/
theorem run_backwards :
    process.validate = .ok () ∧ reordered.validate = .ok () ∧ process.Reorders reordered ∧
      run reordered = run process ∧
      (run process).value.2.path = ["start", "fork", "left", "right", "join", "end"] ∧
      (run { process with flows := process.flows.reverse }).value.2.path =
        ["start", "fork", "right", "left", "join", "end"] := by
  have hvalid : process.validate = .ok () := by decide
  have hvalid' : reordered.validate = .ok () := by decide
  refine ⟨hvalid, hvalid', reorders, ?_, by decide +kernel, by decide +kernel⟩
  exact (Engine.order_between_sources engine process reordered hvalid hvalid' reorders "order"
    context 0).1

end Backwards

end Workflow
