import Workflow.Proofs.Allowance
import Workflow.Proofs.Block.Follow

/-!
# Runs of block-structured processes

A run of a block-structured process comes to what the structure of its blocks says
(`BlockProcess.run_eq_eval`): a traversal goes through its block, between the start event and the
end event.
-/

namespace Workflow

namespace Result

/-- A traversal that ends well behind a block completes just when the block succeeds. -/
theorem completion_thenEnds (result : Result) :
    (result.thenEnds .finished).outcome.completion = result.completion := by
  rw [thenEnds, followedBy, completion]
  rcases result.failure with _ | error <;> rfl

end Result

theorem mem_between {branches : Branches} {opening closing element : Element}
    (h : element ∈ opening :: (branches.elements ++ [closing])) :
    element = opening ∨ element = closing ∨ element ∈ branches.elements := by
  rcases List.mem_cons.mp h with heq | h
  · exact Or.inl heq
  · rcases List.mem_append.mp h with h | h
    · exact Or.inr (Or.inr h)
    · exact Or.inr (Or.inl (List.mem_singleton.mp h))

mutual

/-- No element of a block starts the process. -/
theorem Block.not_isStart (block : Block) :
    ∀ element ∈ block.elements, element.kind.isStart = false := by
  intro element helement
  match block with
  | .empty => cases helement
  | .task .. =>
    obtain rfl := List.mem_singleton.mp helement
    rfl
  | .seq first second =>
    rcases List.mem_append.mp helement with helement | helement
    · exact first.not_isStart element helement
    · exact second.not_isStart element helement
  | .exclusive opening closing branches =>
    rcases mem_between helement with rfl | rfl | helement
    · rfl
    · rfl
    · exact branches.not_isStart element helement
  | .parallel opening closing label branches =>
    rcases mem_between helement with rfl | rfl | helement
    · rfl
    · rfl
    · exact branches.not_isStart element helement

theorem Branches.not_isStart (branches : Branches) :
    ∀ element ∈ branches.elements, element.kind.isStart = false := by
  intro element helement
  match branches with
  | .nil => cases helement
  | .cons guard block more =>
    rcases List.mem_append.mp helement with helement | helement
    · exact block.not_isStart element helement
    · exact more.not_isStart element helement

end

namespace BlockProcess

variable {engine : Engine} {process : BlockProcess} {definition : Definition}

theorem start_mem (process : BlockProcess) : process.startElement ∈ process.elements :=
  List.mem_cons_self

theorem finish_mem (process : BlockProcess) : process.finishElement ∈ process.elements :=
  List.mem_cons_of_mem _ (List.mem_append_right _ (List.mem_singleton_self _))

namespace DeclaredBy

theorem nodup_ids (h : process.DeclaredBy definition) :
    (process.start.id :: (process.body.ids ++ [process.finish.id])).Nodup := by
  have hids := (h.elements.map Element.id).nodup_iff.mp h.nodup
  rw [BlockProcess.elements, List.map_cons, List.map_append] at hids
  exact hids

theorem found (h : process.DeclaredBy definition) {element : Element}
    (helement : element ∈ process.elements) : definition.element? element.id = some element :=
  (Definition.element?_eq_some_iff h.nodup).mpr ⟨h.elements.mem_iff.mpr helement, rfl⟩

theorem start_eq (h : process.DeclaredBy definition) :
    definition.start = .ok process.startElement := by
  have hstarts : definition.starts.Perm [process.startElement] := by
    refine (h.elements.filter _).trans ?_
    rw [BlockProcess.elements, List.filter_cons_of_pos rfl, List.filter_append,
      List.filter_eq_nil_iff.mpr fun element helement =>
        Bool.eq_false_iff.mp (process.body.not_isStart element helement)]
    exact List.Perm.refl _
  rw [Definition.start, List.perm_singleton.mp hstarts]

theorem sits (h : process.DeclaredBy definition) :
    process.body.Sits definition process.finish.id := by
  have hids := h.nodup_ids
  simp only [List.nodup_cons, List.mem_append, List.mem_singleton, not_or, List.nodup_append,
    List.nodup_nil, List.not_mem_nil, not_false_eq_true, and_true, true_and] at hids
  obtain ⟨⟨hstart, -⟩, hbody, hdisjoint⟩ := hids
  refine ⟨⟨?_, ?_, ?_⟩, List.nodup_cons.mpr ⟨fun hmem => hdisjoint _ hmem _ rfl rfl, hbody⟩⟩
  · intro element helement
    exact h.found (List.mem_cons_of_mem _ (List.mem_append_left _ helement))
  · intro element helement
    have hne : process.start.id ≠ element.id := fun heq =>
      hstart (heq ▸ List.mem_map_of_mem helement)
    rw [h.outgoing, BlockProcess.flows, List.filter_cons,
      if_neg fun heq => hne (beq_iff_eq.mp heq)]
  · intro element helement
    have hperm := Flow.perm_of_outgoing h.outgoing
    rw [Definition.incoming, (hperm.filter _).length_eq, ← List.countP_eq_length_filter,
      BlockProcess.flows, List.countP_cons]
    simp only [beq_iff_eq, Option.some_inj]

theorem outgoing_start (h : process.DeclaredBy definition) :
    definition.outgoing process.start.id =
      [⟨process.start.id, process.body.entry process.finish.id, process.label⟩] := by
  have hids := h.nodup_ids
  rw [List.nodup_cons, List.mem_append, not_or] at hids
  rw [h.outgoing, BlockProcess.flows, List.filter_cons, beq_self_eq_true, if_pos rfl,
    Block.filter_source_eq_nil hids.1.1]

end DeclaredBy

/-- From the start event on, a traversal comes to what the process comes to. -/
theorem DeclaredBy.walks (h : process.DeclaredBy definition) (hregular : process.body.Regular)
    (hsteps : definition.elements.length ≤ engine.maxSteps) (vars : Variables) :
    engine.Walks definition false (process.body.elements.countP definition.isFork) engine.maxSteps
      vars process.start.id ((process.eval engine vars).thenEnds .finished) := by
  have hlength := h.elements.length_eq
  rw [BlockProcess.elements, List.length_cons, List.length_append, List.length_singleton]
    at hlength
  obtain ⟨remaining, hremaining⟩ : ∃ n, engine.maxSteps = n + 1 := ⟨engine.maxSteps - 1, by omega⟩
  have hfinish : ∀ vars remaining, 1 ≤ remaining →
      engine.Walks definition false 0 remaining vars process.finish.id
        ((Result.visit process.finish.id vars).thenEnds .finished) := by
    intro vars remaining hremaining
    obtain ⟨remaining, rfl⟩ : ∃ n, remaining = n + 1 := ⟨remaining - 1, by omega⟩
    exact Engine.walks_stop (h.found (finish_mem process)) rfl rfl
  have hbodysteps : process.body.elements.length ≤ engine.maxSteps := by omega
  -- behind the block there is one visit more, to the end event
  have hbody := process.body.follows h.sits hregular hbodysteps false vars 1 0
    _ (fun _ => hfinish _) remaining (by omega)
  obtain ⟨arc, hdepart, htarget⟩ := Engine.exists_depart_eq_go process.startElement
    h.outgoing_start vars
  rw [← show arc.1.target = process.body.entry process.finish.id from htarget] at hbody
  rw [hremaining, eval, Result.thenEnds_andThen, Result.thenEnds_andThen]
  exact Engine.walks_go (h.found (start_mem process)) rfl hdepart hbody

/-- **Runs follow blocks.** A run of a block-structured process comes to what the process comes to
by its structure: it completes or fails on the same error, with the same variables, along the same
path. -/
theorem run_eq_eval (engine : Engine) (process : BlockProcess) (definition : Definition)
    (context : Context) (now : Nat)
    (hprocess : engine.process? context.processId = some definition)
    (hdeclared : process.DeclaredBy definition) (hregular : process.body.Regular)
    (hsteps : definition.elements.length ≤ engine.maxSteps) :
    (engine.run context now).value.1 = (process.eval engine context.vars).completion ∧
      (engine.run context now).value.2.vars = (process.eval engine context.vars).vars ∧
      (engine.run context now).value.2.path =
        context.path ++ (process.eval engine context.vars).path := by
  obtain ⟨trail, htraces, hcourse, -⟩ :=
    hdeclared.walks hregular hsteps context.vars none
  have hrun : engine.RunTraces definition context trail :=
    ⟨hprocess, process.startElement, hdeclared.start_eq, htraces⟩
  rw [hrun.value_run now, ← Result.completion_thenEnds, ← Result.vars_thenEnds .finished,
    ← Result.path_thenEnds .finished, ← hcourse]
  exact ⟨rfl, rfl, rfl⟩

end BlockProcess

/-! ## A choice beside nothing

After a task, two branches: one chooses between a task and nothing, the other one is empty. -/

namespace NestedChoice

/-- The task that gives a value to a variable. -/
def task (id output : String) : Block :=
  .task id none .service { TaskSpec.of "one" with output := some output } none

/-- A choice inside a parallel block, behind a task. -/
def process : BlockProcess where
  start := ⟨"start", none⟩
  label := none
  body := .seq (task "first" "a") (.parallel ⟨"fork", none⟩ ⟨"join", none⟩ none
    (.cons none (.exclusive ⟨"choose", none⟩ ⟨"chosen", none⟩
        (.cons (some "no") .empty (.cons (some "yes") (task "second" "b") .nil)))
      (.cons none .empty .nil)))
  finish := ⟨"end", none⟩

/-- An engine whose only agent gives the number one to every task. -/
def engine : Engine where
  maxSteps := 8
  evaluator := fun text _ => text == "yes"
  sink := .null
  agents := [("one", ⟨some (.constant (.int 1) 0), none, none, .null⟩)]
  processes := [("nested", process.definition "nested")]

/-- The beginning of the run. -/
def context : Context :=
  .start "nested" ⟨"i"⟩ []

theorem declared : process.DeclaredBy (process.definition "nested") :=
  BlockProcess.declaredBy_definition (by decide) "nested"

theorem regular : process.body.Regular :=
  ⟨trivial, by decide, ⟨by decide, ⟨rfl, rfl, trivial⟩, trivial, trivial, trivial⟩, trivial, trivial⟩

/-- The run goes through the blocks. -/
theorem run_through_blocks :
    engine.process? context.processId = some (process.definition "nested") ∧
      process.DeclaredBy (process.definition "nested") ∧ process.body.Regular ∧
      (process.definition "nested").elements.length ≤ engine.maxSteps ∧
      (engine.run context 0).value.1 = .completed ∧
      (engine.run context 0).value.2.vars = [("a", .int 1), ("b", .int 1)] ∧
      (engine.run context 0).value.2.path =
        ["start", "first", "fork", "choose", "second", "chosen", "join", "end"] := by
  obtain ⟨hcompletion, hvars, hpath⟩ := BlockProcess.run_eq_eval engine process
    (process.definition "nested") context 0 rfl declared regular (by decide)
  exact ⟨rfl, declared, regular, by decide, hcompletion, hvars, hpath⟩

end NestedChoice

end Workflow
