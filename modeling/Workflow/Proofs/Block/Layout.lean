import Mathlib.Data.List.Perm.Basic
import Workflow.Proofs.Block.Basic

/-!
# Blocks in a process

A block of a process has all the flows out of its elements in itself, and but one flow comes into it
from elsewhere.  This is what lets a block be looked at alone, wherever it stands in a process.

* `Part` — elements of a process, with the flows out of them and the number of those into them.
* `Block.Sits`, `Branches.Sit` — a block and branches as parts of a process.
* `Block.Sits.first`, `Block.Sits.second`, `Block.Sits.exclusive`, `Block.Sits.parallel`,
  `Branches.Sit.block`, `Branches.Sit.more` — what is inside of a block that is part of a process is
  part of the process as well.
-/

namespace Workflow

/-- The ids of the elements of a block. -/
def Block.ids (block : Block) : List String :=
  block.elements.map Element.id

/-- The ids of the elements of branches. -/
def Branches.ids (branches : Branches) : List String :=
  branches.elements.map Element.id

section Ids

variable {opening closing : Gate} {label : Option String} {branches : Branches}

@[simp] theorem Block.ids_empty : Block.empty.ids = [] := rfl

@[simp] theorem Block.ids_task {id : String} {name : Option String} {kind : TaskKind}
    {spec : TaskSpec} : (Block.task id name kind spec label).ids = [id] := rfl

@[simp] theorem Block.ids_seq (first second : Block) :
    (Block.seq first second).ids = first.ids ++ second.ids := by
  rw [ids, elements, List.map_append]
  rfl

@[simp] theorem Block.ids_exclusive : (Block.exclusive opening closing branches).ids =
    opening.id :: (branches.ids ++ [closing.id]) := by
  rw [ids, elements, List.map_cons, List.map_append]
  rfl

@[simp] theorem Block.ids_parallel : (Block.parallel opening closing label branches).ids =
    opening.id :: (branches.ids ++ [closing.id]) := by
  rw [ids, elements, List.map_cons, List.map_append]
  rfl

@[simp] theorem Branches.ids_nil : Branches.nil.ids = [] := rfl

@[simp] theorem Branches.ids_cons {guard : Option String} {block : Block} {more : Branches} :
    (Branches.cons guard block more).ids = block.ids ++ more.ids := by
  rw [ids, elements, List.map_append]
  rfl

end Ids

/-! ## Where flows come from and lead to -/

theorem Block.entry_mem (block : Block) (next : String) :
    block.entry next = next ∨ block.entry next ∈ block.ids := by
  match block with
  | .empty => exact Or.inl rfl
  | .task .. => exact Or.inr (by simp [Block.entry])
  | .seq first second =>
    rw [Block.entry, Block.ids_seq]
    rcases first.entry_mem (second.entry next) with heq | hmem
    · rw [heq]
      rcases second.entry_mem next with heq | hmem
      · exact Or.inl heq
      · exact Or.inr (List.mem_append_right _ hmem)
    · exact Or.inr (List.mem_append_left _ hmem)
  | .exclusive .. => exact Or.inr (by simp [Block.entry])
  | .parallel .. => exact Or.inr (by simp [Block.entry])

section Between

/-! What holds of branches holds of them between two gateways as well. -/

variable {branches : Branches} {opening closing next : String} {label : Option String}

theorem source_mem_between {flow : Flow}
    (h : flow ∈ branches.flows opening closing ++ [⟨closing, next, label⟩])
    (hbranches : flow ∈ branches.flows opening closing →
      flow.source = opening ∨ flow.source ∈ branches.ids) :
    flow.source ∈ opening :: (branches.ids ++ [closing]) := by
  rcases List.mem_append.mp h with h | h
  · rcases hbranches h with heq | h
    · exact heq ▸ List.mem_cons_self
    · exact List.mem_cons_of_mem _ (List.mem_append_left _ h)
  · obtain rfl := List.mem_singleton.mp h
    exact List.mem_cons_of_mem _ (List.mem_append_right _ (List.mem_singleton_self _))

theorem count_into_between {id : String} (h : id ∉ opening :: (branches.ids ++ [closing]))
    (hbranches : id ∉ branches.ids → (branches.flows opening closing).countP (·.target == id) =
      if closing = id then branches.length else 0) :
    (branches.flows opening closing ++ [(⟨closing, next, label⟩ : Flow)]).countP
        (·.target == id) +
      (if opening = id then 1 else 0) = if next = id then 1 else 0 := by
  simp only [List.mem_cons, List.mem_append, List.not_mem_nil, or_false, not_or] at h
  obtain ⟨hopening, hids, hclosing⟩ := h
  rw [List.countP_append, hbranches hids, if_neg (Ne.symm hclosing), if_neg (Ne.symm hopening),
    List.countP_singleton]
  simp

end Between

mutual

/-- The flows of a block come from its elements. -/
theorem Block.source_mem (block : Block) {next : String} {flow : Flow}
    (h : flow ∈ block.flows next) : flow.source ∈ block.ids := by
  match block with
  | .empty => cases h
  | .task .. =>
    obtain rfl := List.mem_singleton.mp h
    exact List.mem_singleton_self _
  | .seq first second =>
    rw [Block.ids_seq]
    rcases List.mem_append.mp h with h | h
    · exact List.mem_append_left _ (first.source_mem h)
    · exact List.mem_append_right _ (second.source_mem h)
  | .exclusive opening closing branches =>
    rw [Block.ids_exclusive]
    exact source_mem_between h branches.source_mem
  | .parallel opening closing label branches =>
    rw [Block.ids_parallel]
    exact source_mem_between h branches.source_mem

/-- The flows of branches come from their elements or from the opening gateway. -/
theorem Branches.source_mem (branches : Branches) {source next : String} {flow : Flow}
    (h : flow ∈ branches.flows source next) :
    flow.source = source ∨ flow.source ∈ branches.ids := by
  match branches with
  | .nil => cases h
  | .cons guard block more =>
    rw [Branches.ids_cons]
    rcases List.mem_cons.mp h with rfl | h
    · exact Or.inl rfl
    · rcases List.mem_append.mp h with h | h
      · exact Or.inr (List.mem_append_left _ (block.source_mem h))
      · exact (more.source_mem h).imp_right (List.mem_append_right _)

end

mutual

/-- A flow into a block comes out of it once, and otherwise leads nowhere outside of it. -/
theorem Block.count_into (block : Block) (next : String) {id : String} (h : id ∉ block.ids) :
    (block.flows next).countP (·.target == id) + (if block.entry next = id then 1 else 0) =
      if next = id then 1 else 0 := by
  match block with
  | .empty => exact Nat.zero_add _
  | .task .. =>
    rw [Block.ids_task, List.mem_singleton] at h
    rw [Block.flows, Block.entry, if_neg (Ne.symm h), List.countP_singleton]
    simp
  | .seq first second =>
    rw [Block.ids_seq, List.mem_append, not_or] at h
    have hfirst := first.count_into (second.entry next) h.1
    have hsecond := second.count_into next h.2
    rw [Block.flows, Block.entry, List.countP_append]
    omega
  | .exclusive opening closing branches =>
    rw [Block.ids_exclusive] at h
    exact count_into_between h (branches.count_into opening.id closing.id)
  | .parallel opening closing label branches =>
    rw [Block.ids_parallel] at h
    exact count_into_between h (branches.count_into opening.id closing.id)

/-- Each branch has one flow into the closing gateway, and otherwise leads nowhere outside of it. -/
theorem Branches.count_into (branches : Branches) (source next : String) {id : String}
    (h : id ∉ branches.ids) : (branches.flows source next).countP (·.target == id) =
      if next = id then branches.length else 0 := by
  match branches with
  | .nil => simp [Branches.flows, Branches.length]
  | .cons guard block more =>
    rw [Branches.ids_cons, List.mem_append, not_or] at h
    have hblock := block.count_into next h.1
    have hmore := more.count_into source next h.2
    rw [Branches.flows, List.countP_cons, List.countP_append, Branches.length]
    simp only [beq_iff_eq]
    split at hmore <;> rename_i heq
    · rw [if_pos heq] at hblock ⊢
      omega
    · rw [if_neg heq] at hblock ⊢
      omega

end

/-! ## Parts of a process -/

/-- Elements of a process, with the flows out of them among the flows given; into each of them lead
as many flows as there are among these, and one more into the entry. -/
structure Part (definition : Definition) (elements : List Element) (flows : List Flow)
    (entry : Option String) : Prop where
  /-- each is found under its id -/
  found : ∀ element ∈ elements, definition.element? element.id = some element
  /-- the flows out of each of them -/
  outgoing : ∀ element ∈ elements,
    definition.outgoing element.id = flows.filter (·.source == element.id)
  /-- the number of flows into each of them -/
  incoming : ∀ element ∈ elements, (definition.incoming element.id).length =
    flows.countP (·.target == element.id) + if entry = some element.id then 1 else 0

theorem Part.restrict {definition : Definition} {elements elements' : List Element}
    {flows flows' : List Flow} {entry entry' : Option String}
    (h : Part definition elements flows entry) (hsub : ∀ element ∈ elements', element ∈ elements)
    (hout : ∀ element ∈ elements',
      flows.filter (·.source == element.id) = flows'.filter (·.source == element.id))
    (hin : ∀ element ∈ elements',
      flows.countP (·.target == element.id) + (if entry = some element.id then 1 else 0) =
        flows'.countP (·.target == element.id) + if entry' = some element.id then 1 else 0) :
    Part definition elements' flows' entry' where
  found element helement := h.found element (hsub element helement)
  outgoing element helement := (h.outgoing element (hsub element helement)).trans
    (hout element helement)
  incoming element helement := (h.incoming element (hsub element helement)).trans
    (hin element helement)

/-- A block is part of a process, in front of an element that is not in it. -/
structure Block.Sits (definition : Definition) (block : Block) (next : String) : Prop where
  /-- its elements and flows -/
  part : Part definition block.elements (block.flows next) (some (block.entry next))
  /-- its ids, and that of the element behind it -/
  nodup : (next :: block.ids).Nodup

/-- Branches are part of a process, between two gateways. -/
structure Branches.Sit (definition : Definition) (branches : Branches) (source next : String) :
    Prop where
  /-- their elements and flows -/
  part : Part definition branches.elements (branches.flows source next) none
  /-- their ids, and those of the gateways -/
  nodup : (source :: next :: branches.ids).Nodup

theorem filter_source_eq_nil {flows : List Flow} {id : String}
    (h : ∀ flow ∈ flows, flow.source ≠ id) : flows.filter (·.source == id) = [] :=
  List.filter_eq_nil_iff.mpr fun _ hflow heq => h _ hflow (beq_iff_eq.mp heq)

theorem Block.filter_source_eq_nil {block : Block} {next id : String} (h : id ∉ block.ids) :
    (block.flows next).filter (·.source == id) = [] :=
  Workflow.filter_source_eq_nil fun _ hflow heq => h (heq ▸ block.source_mem hflow)

theorem Branches.filter_source_eq_nil {branches : Branches} {source next id : String}
    (h : id ∉ branches.ids) (hsource : source ≠ id) :
    (branches.flows source next).filter (·.source == id) = [] := by
  refine Workflow.filter_source_eq_nil fun flow hflow heq => ?_
  rcases branches.source_mem hflow with hflow | hflow
  · exact hsource (hflow.symm.trans heq)
  · exact h (heq ▸ hflow)

/-- The flows out of the opening gateway lead to the branches, in their order. -/
theorem Branches.filter_openings {branches : Branches} {source next : String}
    (h : source ∉ branches.ids) :
    (branches.flows source next).filter (·.source == source) = branches.openings source next := by
  match branches with
  | .nil => rfl
  | .cons guard block more =>
    rw [Branches.ids_cons, List.mem_append, not_or] at h
    rw [Branches.flows, List.filter_cons, beq_self_eq_true, if_pos rfl, List.filter_append,
      Block.filter_source_eq_nil h.1, List.nil_append, Branches.filter_openings h.2,
      Branches.openings]

/-! ### One block after the other -/

namespace Block.Sits

variable {definition : Definition} {former latter : Block} {next : String}

theorem first (h : (Block.seq former latter).Sits definition next) :
    former.Sits definition (latter.entry next) := by
  have hnodup := h.nodup
  rw [ids_seq] at hnodup
  obtain ⟨hnext, hids⟩ := List.nodup_cons.mp hnodup
  obtain ⟨hfirst, hsecond, hdisjoint⟩ := List.nodup_append.mp hids
  have hout : ∀ element ∈ former.elements, element.id ∉ latter.ids ∧ next ≠ element.id := by
    intro element helement
    have hid : element.id ∈ former.ids := List.mem_map_of_mem helement
    refine ⟨fun hmem => hdisjoint _ hid _ hmem rfl, ?_⟩
    rintro rfl
    exact hnext (List.mem_append_left _ hid)
  refine ⟨h.part.restrict (fun element helement => List.mem_append_left _ helement) ?_ ?_, ?_⟩
  · intro element helement
    rw [flows, List.filter_append, filter_source_eq_nil (hout element helement).1, List.append_nil]
  · intro element helement
    have hcount := latter.count_into next (hout element helement).1
    rw [if_neg (hout element helement).2] at hcount
    rw [flows, entry, List.countP_append]
    omega
  · -- behind the former block is the latter one, or what follows both if that is empty
    refine List.nodup_cons.mpr ⟨fun hmem => ?_, hfirst⟩
    rcases latter.entry_mem next with heq | hentry
    · exact hnext (List.mem_append_left _ (heq ▸ hmem))
    · exact hdisjoint _ hmem _ hentry rfl

theorem second (h : (Block.seq former latter).Sits definition next) :
    latter.Sits definition next := by
  have hnodup := h.nodup
  rw [ids_seq] at hnodup
  obtain ⟨hnext, hids⟩ := List.nodup_cons.mp hnodup
  obtain ⟨hfirst, hsecond, hdisjoint⟩ := List.nodup_append.mp hids
  have hout : ∀ element ∈ latter.elements, element.id ∉ former.ids := by
    intro element helement hmem
    exact hdisjoint _ hmem _ (List.mem_map_of_mem helement) rfl
  refine ⟨h.part.restrict (fun element helement => List.mem_append_right _ helement) ?_ ?_, ?_⟩
  · intro element helement
    rw [flows, List.filter_append, filter_source_eq_nil (hout element helement), List.nil_append]
  · intro element helement
    have hcount := former.count_into (latter.entry next) (hout element helement)
    simp only [flows, entry, List.countP_append, Option.some_inj]
    omega
  · exact List.nodup_cons.mpr ⟨fun hmem => hnext (List.mem_append_right _ hmem), hsecond⟩

end Block.Sits

/-! ### Branches -/

namespace Branches.Sit

variable {definition : Definition} {guard : Option String} {first : Block} {others : Branches}
  {source next : String}

theorem block (h : (Branches.cons guard first others).Sit definition source next) :
    first.Sits definition next := by
  have hnodup := h.nodup
  simp only [ids_cons, List.nodup_cons, List.mem_cons, List.mem_append, not_or] at hnodup
  obtain ⟨⟨-, hsource, -⟩, ⟨hnext, hnext'⟩, hids⟩ := hnodup
  obtain ⟨hfirst, -, hdisjoint⟩ := List.nodup_append.mp hids
  have hout : ∀ element ∈ first.elements,
      element.id ∉ others.ids ∧ source ≠ element.id ∧ next ≠ element.id := by
    intro element helement
    have hid : element.id ∈ first.ids := List.mem_map_of_mem helement
    exact ⟨fun hmem => hdisjoint _ hid _ hmem rfl, fun heq => hsource (heq ▸ hid),
      fun heq => hnext (heq ▸ hid)⟩
  refine ⟨h.part.restrict (fun element helement => List.mem_append_left _ helement) ?_ ?_,
    List.nodup_cons.mpr ⟨hnext, hfirst⟩⟩
  · intro element helement
    obtain ⟨hothers, hne, -⟩ := hout element helement
    rw [flows, List.filter_cons, if_neg (fun heq => hne (beq_iff_eq.mp heq)), List.filter_append,
      filter_source_eq_nil hothers hne, List.append_nil]
  · intro element helement
    obtain ⟨hothers, -, hne⟩ := hout element helement
    have hcount := others.count_into source next hothers
    rw [if_neg hne] at hcount
    simp only [flows, List.countP_cons, List.countP_append, beq_iff_eq, Option.some_inj,
      reduceCtorEq, if_false]
    omega

theorem more (h : (Branches.cons guard first others).Sit definition source next) :
    others.Sit definition source next := by
  have hnodup := h.nodup
  simp only [ids_cons, List.nodup_cons, List.mem_cons, List.mem_append, not_or] at hnodup
  obtain ⟨⟨hne, hsource, hsource'⟩, ⟨hnext, hnext'⟩, hids⟩ := hnodup
  obtain ⟨-, hothers, hdisjoint⟩ := List.nodup_append.mp hids
  have hout : ∀ element ∈ others.elements, element.id ∉ first.ids ∧ source ≠ element.id ∧
      next ≠ element.id := by
    intro element helement
    have hid : element.id ∈ others.ids := List.mem_map_of_mem helement
    exact ⟨fun hmem => hdisjoint _ hmem _ hid rfl, fun heq => hsource' (heq ▸ hid),
      fun heq => hnext' (heq ▸ hid)⟩
  refine ⟨h.part.restrict (fun element helement => List.mem_append_right _ helement) ?_ ?_, ?_⟩
  · intro element helement
    obtain ⟨hfirst, hne, -⟩ := hout element helement
    rw [flows, List.filter_cons, if_neg (fun heq => hne (beq_iff_eq.mp heq)), List.filter_append,
      Block.filter_source_eq_nil hfirst, List.nil_append]
  · intro element helement
    obtain ⟨hfirst, -, hne⟩ := hout element helement
    have hcount := first.count_into next hfirst
    rw [if_neg hne] at hcount
    simp only [flows, List.countP_cons, List.countP_append, beq_iff_eq, reduceCtorEq, if_false]
    omega
  · simp only [List.nodup_cons, List.mem_cons, not_or]
    exact ⟨⟨hne, hsource'⟩, hnext', hothers⟩

end Branches.Sit

/-! ### Gateways and what is between them -/

/-- Branches between two gateways, in a process. -/
structure Between (definition : Definition) (opening closing : Element) (label : Option String)
    (next : String) (branches : Branches) : Prop where
  /-- the opening gateway is there -/
  foundOpening : definition.element? opening.id = some opening
  /-- the closing gateway is there -/
  foundClosing : definition.element? closing.id = some closing
  /-- the flows out of the opening gateway lead to the branches -/
  opens : definition.outgoing opening.id = branches.openings opening.id closing.id
  /-- one flow leads out of the closing gateway -/
  closes : definition.outgoing closing.id = [⟨closing.id, next, label⟩]
  /-- one flow leads to the opening gateway -/
  enters : (definition.incoming opening.id).length = 1
  /-- one flow leads out of each branch to the closing gateway -/
  converges : (definition.incoming closing.id).length = branches.length
  /-- the branches are between them -/
  sit : branches.Sit definition opening.id closing.id

theorem Part.between {definition : Definition} {opening closing : Element} {label : Option String}
    {next : String} {branches : Branches}
    (h : Part definition (opening :: (branches.elements ++ [closing]))
      (branches.flows opening.id closing.id ++ [⟨closing.id, next, label⟩]) (some opening.id))
    (hnodup : (next :: opening.id :: (branches.ids ++ [closing.id])).Nodup) :
    Between definition opening closing label next branches := by
  have hids := hnodup
  simp only [List.nodup_cons, List.mem_cons, List.mem_append, List.not_mem_nil, or_false, not_or,
    List.nodup_append, List.nodup_nil, not_false_eq_true, and_true, true_and] at hids
  obtain ⟨⟨hnext, hnext', hnext''⟩, ⟨hopening, hne⟩, hbranches, hdisjoint⟩ := hids
  have hclosing : closing.id ∉ branches.ids := fun hmem => hdisjoint _ hmem _ rfl rfl
  have hmem : opening ∈ opening :: (branches.elements ++ [closing]) := List.mem_cons_self
  have hmem' : closing ∈ opening :: (branches.elements ++ [closing]) := by simp
  -- the branches lead to the closing gateway only, once each
  have hintoOpening := branches.count_into opening.id closing.id hopening
  have hintoClosing := branches.count_into opening.id closing.id hclosing
  rw [if_neg (Ne.symm hne)] at hintoOpening
  rw [if_pos rfl] at hintoClosing
  refine ⟨h.found opening hmem, h.found closing hmem', ?_, ?_, ?_, ?_, ?_, ?_⟩
  · rw [h.outgoing opening hmem, List.filter_append, Branches.filter_openings hopening,
      List.filter_singleton, beq_eq_false_iff_ne.mpr (Ne.symm hne)]
    exact List.append_nil _
  · rw [h.outgoing closing hmem', List.filter_append, Branches.filter_source_eq_nil hclosing hne,
      List.nil_append, List.filter_singleton, beq_self_eq_true]
    rfl
  · rw [h.incoming opening hmem, List.countP_append, hintoOpening, List.countP_singleton]
    simp [hnext]
  · rw [h.incoming closing hmem', List.countP_append, hintoClosing, List.countP_singleton]
    simp [hnext'', hne]
  · have hout : ∀ element ∈ branches.elements, closing.id ≠ element.id ∧ next ≠ element.id ∧
        opening.id ≠ element.id := by
      intro element helement
      have hid : element.id ∈ branches.ids := List.mem_map_of_mem helement
      exact ⟨fun heq => hclosing (heq ▸ hid), fun heq => hnext' (heq ▸ hid),
        fun heq => hopening (heq ▸ hid)⟩
    refine h.restrict (fun element helement => by simp [helement]) ?_ ?_
    · intro element helement
      have hclosing := (hout element helement).1
      rw [List.filter_append, List.filter_singleton, beq_eq_false_iff_ne.mpr hclosing]
      exact List.append_nil _
    · intro element helement
      obtain ⟨-, hne, hne'⟩ := hout element helement
      rw [List.countP_append, List.countP_singleton]
      simp [hne, hne']
  · simp only [List.nodup_cons, List.mem_cons, not_or]
    exact ⟨⟨hne, hopening⟩, hclosing, hbranches⟩

theorem Block.Sits.exclusive {definition : Definition} {opening closing : Gate}
    {branches : Branches} {next : String}
    (h : (Block.exclusive opening closing branches).Sits definition next) :
    Between definition opening.exclusive closing.exclusive none next branches :=
  Part.between h.part (ids_exclusive ▸ h.nodup)

theorem Block.Sits.parallel {definition : Definition} {opening closing : Gate}
    {label : Option String} {branches : Branches} {next : String}
    (h : (Block.parallel opening closing label branches).Sits definition next) :
    Between definition opening.parallel closing.parallel label next branches :=
  Part.between h.part (ids_parallel ▸ h.nodup)

end Workflow
