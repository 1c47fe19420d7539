import Mathlib.Data.List.Nodup
import Workflow.Definition.Basic

/-!
# Elements by id

In a definition that was validated no two elements share an id, so an element is the one that is
found under its id, and every flow leads between elements that are found.  Flows are told by the
elements that they leave: what leads out of each element says, up to order, which flows there are.
-/

namespace Workflow

/-- Flows of which as many lead out of each element, in the same order, are the same in some order.
-/
theorem Flow.perm_of_outgoing {flows flows' : List Flow}
    (h : ∀ id, flows.filter (·.source == id) = flows'.filter (·.source == id)) :
    flows.Perm flows' := by
  rw [List.perm_iff_count]
  intro flow
  -- a flow is counted among those from its own source
  have hcount : ∀ list : List Flow,
      (list.filter (·.source == flow.source)).count flow = list.count flow :=
    fun list => List.count_filter (beq_self_eq_true flow.source)
  rw [← hcount flows, ← hcount flows', h]

namespace Definition

variable {definition : Definition}

/-- None of the ids occurred before exactly if they are distinct from each other and from those seen
so far. -/
theorem firstRepeated_eq_none_iff {seen ids : List String} (hseen : seen.Nodup) :
    firstRepeated seen ids = none ↔ (ids ++ seen).Nodup := by
  induction ids generalizing seen with
  | nil => exact ⟨fun _ => hseen, fun _ => rfl⟩
  | cons id more ih =>
    -- a new id moves from the ids ahead to those seen, so together they stay the same
    rw [firstRepeated, List.cons_append]
    split
    · rename_i hmem
      exact ⟨nofun, fun hnodup => absurd (List.mem_append_right more hmem) hnodup.notMem⟩
    · rename_i hnew
      rw [ih (hseen.cons hnew), List.nodup_middle]

theorem flowFault_eq_none_iff {ids : List String} {flow : Flow} :
    flowFault ids flow = none ↔ flow.source ∈ ids ∧ flow.target ∈ ids := by
  rw [flowFault]
  split
  · rename_i hsource
    exact ⟨nofun, fun h => absurd h.1 hsource⟩
  · rename_i hsource
    split
    · rename_i htarget
      exact ⟨nofun, fun h => absurd h.2 htarget⟩
    · rename_i htarget
      exact ⟨fun _ => ⟨not_not.mp hsource, not_not.mp htarget⟩, fun _ => rfl⟩

theorem firstRepeated_ids_eq_none_iff :
    firstRepeated [] definition.ids = none ↔ definition.ids.Nodup := by
  rw [firstRepeated_eq_none_iff List.nodup_nil, List.append_nil]

/-- Nothing is wrong with a definition exactly if it is well formed. -/
theorem fault?_eq_none_iff : definition.fault? = none ↔ definition.WellFormed := by
  rw [fault?, WellFormed, ← firstRepeated_ids_eq_none_iff]
  split
  · rename_i hrepeated
    exact ⟨nofun, fun h => absurd (hrepeated.symm.trans h.1) nofun⟩
  · rename_i hdistinct
    rw [List.findSome?_eq_none_iff]
    exact ⟨fun h => ⟨hdistinct, fun flow hflow => flowFault_eq_none_iff.mp (h flow hflow)⟩,
      fun h flow hflow => flowFault_eq_none_iff.mpr (h.2 flow hflow)⟩

/-- A definition that was accepted is well formed. -/
theorem wellFormed_of_validate (h : definition.validate = .ok ()) : definition.WellFormed := by
  rw [← fault?_eq_none_iff]
  rw [validate] at h
  split at h
  · cases h
  · assumption

/-- The ids of a definition that was accepted are distinct. -/
theorem nodup_ids_of_validate (h : definition.validate = .ok ()) : definition.ids.Nodup :=
  (wellFormed_of_validate h).1

/-- What validation returns is what it was given. -/
theorem eq_of_validated {other : Definition} (h : definition.validated = .ok other) :
    other = definition ∧ definition.validate = .ok () := by
  unfold validated at h
  rcases hvalidate : definition.validate with error | _
  · rw [hvalidate] at h
    cases h
  · rw [hvalidate] at h
    exact ⟨(Except.ok.inj h).symm, rfl⟩

/-- An element that is found has the id that was looked for. -/
theorem id_of_element? {id : String} {element : Element}
    (h : definition.element? id = some element) : element.id = id := by
  have := List.find?_some h
  rwa [beq_iff_eq] at this

/-- A run starts with the first element that starts the process. -/
theorem head?_starts {first : Element} (h : definition.start = .ok first) :
    definition.starts.head? = some first := by
  unfold start at h
  split at h
  · rename_i hstarts
    cases h
    rw [hstarts]
    rfl
  · cases h

theorem mem_ids_of_element? {id : String} {element : Element}
    (h : definition.element? id = some element) : id ∈ definition.ids := by
  rw [← id_of_element? h]
  exact List.mem_map_of_mem (List.mem_of_find?_eq_some h)

theorem mem_of_element? {id : String} {element : Element}
    (h : definition.element? id = some element) : element ∈ definition.elements :=
  List.mem_of_find?_eq_some h

/-- Under the id of an element, one is found. -/
theorem exists_element?_of_mem_ids {id : String} (h : id ∈ definition.ids) :
    ∃ element, definition.element? id = some element := by
  obtain ⟨element, helement, rfl⟩ := List.mem_map.mp h
  rcases hfound : definition.element? element.id with _ | found
  · exact absurd (beq_self_eq_true _) (List.find?_eq_none.mp hfound element helement)
  · exact ⟨found, rfl⟩

/-- The element under an id is the only one that has it. -/
theorem element?_eq_some_iff (hids : definition.ids.Nodup) {id : String} {element : Element} :
    definition.element? id = some element ↔ element ∈ definition.elements ∧ element.id = id := by
  refine ⟨fun h => ⟨mem_of_element? h, id_of_element? h⟩, ?_⟩
  rintro ⟨hmem, rfl⟩
  rcases hfound : definition.element? element.id with _ | other
  · exact absurd (beq_self_eq_true _) (List.find?_eq_none.mp hfound element hmem)
  · rw [List.inj_on_of_nodup_map hids (mem_of_element? hfound) hmem (id_of_element? hfound)]

end Definition

end Workflow
