import Mathlib.Logic.Relation
import Workflow.Proofs.Trail.Rules

/-!
# Where traversals lead

A traversal goes along flows, so it comes only to elements that flows lead to from where it began.
This holds of a join at which it ends or resumes as well, since some branch came there.
-/

namespace Workflow

namespace Definition

/-- A flow leads from the element of one id to that of another. -/
def Leads (definition : Definition) (source target : String) : Prop :=
  ∃ flow ∈ definition.flows, flow.source = source ∧ flow.target = target

/-- Flows lead from the element of one id to that of another, or they are the same. -/
def Reaches (definition : Definition) : String → String → Prop :=
  Relation.ReflTransGen definition.Leads

/-- Flows lead from an element back to itself. -/
def Returns (definition : Definition) (id : String) : Prop :=
  Relation.TransGen definition.Leads id id

variable {definition : Definition}

theorem flow_mem_of_mem_arcs {arc : Arc} (h : arc ∈ definition.arcs) :
    arc.1 ∈ definition.flows := by
  rw [← map_fst_arcs]
  exact List.mem_map_of_mem h

theorem leads_of_mem_exits {id : String} {arc : Arc} (h : arc ∈ definition.exits id) :
    definition.Leads id arc.1.target := by
  obtain ⟨harc, hsource⟩ := mem_exits.mp h
  exact ⟨arc.1, flow_mem_of_mem_arcs harc, hsource, rfl⟩

theorem reaches_of_mem_exits {id target : String} {arc : Arc} (h : arc ∈ definition.exits id)
    (hreach : definition.Reaches arc.1.target target) : definition.Reaches id target :=
  Relation.ReflTransGen.head (leads_of_mem_exits h) hreach

theorem reaches_of_found {id : String} {element : Element}
    (found : definition.element? id = some element) : definition.Reaches id element.id := by
  rw [id_of_element? found]
  exact Relation.ReflTransGen.refl

/-- What is reached from behind a flow out of an element is reached from the id of the element. -/
theorem reaches_of_found_exits {id target : String} {element : Element}
    (found : definition.element? id = some element) {arc : Arc}
    (harc : arc ∈ definition.exits element.id)
    (hreach : definition.Reaches arc.1.target target) : definition.Reaches id target :=
  (reaches_of_found found).trans (reaches_of_mem_exits harc hreach)

/-- An element that is reached from behind a flow out of it is on a cycle. -/
theorem returns_of_mem_exits {id : String} {arc : Arc} (h : arc ∈ definition.exits id)
    (hreach : definition.Reaches arc.1.target id) : definition.Returns id :=
  Relation.TransGen.head' (leads_of_mem_exits h) hreach

/-- An element is on no cycle if flows never lead down in some rank, and those out of it lead up. -/
theorem not_returns_of_rank {id : String} (rank : String → Nat)
    (hflows : ∀ flow ∈ definition.flows, rank flow.source ≤ rank flow.target)
    (hexits : ∀ flow ∈ definition.flows, flow.source = id → rank id < rank flow.target) :
    ¬ definition.Returns id := by
  intro hreturns
  -- the first flow leads up, and no later one leads down again
  have hup : ∀ next, Relation.TransGen definition.Leads id next → rank id < rank next := by
    intro next h
    induction h with
    | single hleads =>
      obtain ⟨flow, hflow, hsource, rfl⟩ := hleads
      exact hexits flow hflow hsource
    | tail _ hleads ih =>
      obtain ⟨flow, hflow, rfl, rfl⟩ := hleads
      exact Nat.lt_of_lt_of_le ih (hflows flow hflow)
  exact Nat.lt_irrefl _ (hup id hreturns)

/-- There is no cycle if all flows lead up in some rank. -/
theorem acyclic_of_rank (rank : String → Nat)
    (hup : ∀ flow ∈ definition.flows, rank flow.source < rank flow.target) (id : String) :
    ¬ definition.Returns id := by
  refine not_returns_of_rank rank (fun flow hflow => Nat.le_of_lt (hup flow hflow)) ?_
  rintro flow hflow rfl
  exact hup flow hflow

end Definition

namespace Engine.Traces

variable {engine : Engine} {definition : Definition} {inBranch : Bool} {remaining : Nat}
  {resumed : Bool} {came : Option Arc} {vars : Variables} {id : String} {trail : Trail}

/-- The join on which branches converge is reached through one of the flows that they began with. -/
theorem reaches_of_convergence {element : Element} {arcs : List Arc} {branch : Arc → Trail}
    {join : String} {arrivals : Nat}
    (does : engine.step definition element vars = .split arcs)
    (hbranch : ∀ arc ∈ arcs, (branch arc).outcome.join? = some join →
      definition.Reaches arc.1.target join)
    (h : convergence ((arcs.map branch).map Trail.outcome) = some (join, arrivals)) :
    ∃ arc ∈ definition.exits element.id, definition.Reaches arc.1.target join := by
  obtain ⟨arc, harc, hjoin⟩ := exists_join?_of_convergence h
  have hexits := (step_eq_split does).2.1
  exact ⟨arc, hexits ▸ harc, hbranch arc harc hjoin⟩

/-- A traversal that ends at a join reached it. -/
theorem reaches_join
    (h : engine.Traces definition inBranch remaining resumed came vars id trail) {join : String}
    (hjoin : trail.outcome.join? = some join) : definition.Reaches id join := by
  induction h generalizing join with
  | missing => cases hjoin
  | join found =>
    cases hjoin
    exact Definition.reaches_of_found found
  | limit => cases hjoin
  | stop _ _ does => exact absurd hjoin (join?_of_step_eq_stop does join)
  | go found _ does _ ih =>
    exact Definition.reaches_of_found_exits found (step_eq_go does).1 (ih hjoin)
  | part found _ does each ends ihe =>
    obtain ⟨arc, harc, hreach⟩ := reaches_of_convergence does (fun arc harc => ihe arc harc)
      (convergence_of_sequel_eq_stop ends hjoin)
    exact Definition.reaches_of_found_exits found harc hreach
  | meet found _ does each meets _ ihe ih =>
    obtain ⟨-, -, arrivals, hconv, -⟩ := sequel_eq_resume meets
    obtain ⟨arc, harc, hreach⟩ := reaches_of_convergence does (fun arc harc => ihe arc harc) hconv
    exact Definition.reaches_of_found_exits found harc (hreach.trans (ih hjoin))

/-- A traversal resumes at a join to which a flow out of the fork leads. -/
theorem reaches_of_resume {element : Element} {arcs : List Arc} {branch : Arc → Trail}
    {join : String} {after : Variables}
    (does : engine.step definition element vars = .split arcs)
    (each : ∀ arc ∈ arcs, engine.Traces definition true engine.maxSteps false (some arc) vars
      arc.1.target (branch arc))
    (meets : sequel definition inBranch vars (arcs.map branch) = .resume join after) :
    ∃ arc ∈ definition.exits element.id, definition.Reaches arc.1.target join := by
  obtain ⟨-, -, arrivals, hconv, -⟩ := sequel_eq_resume meets
  exact reaches_of_convergence does (fun arc harc hjoin => (each arc harc).reaches_join hjoin) hconv

/-- A traversal reached every element that it visited. -/
theorem reaches_of_mem_own
    (h : engine.Traces definition inBranch remaining resumed came vars id trail) {next : String}
    (hnext : next ∈ trail.own) : definition.Reaches id next := by
  induction h with
  | missing => cases hnext
  | join => cases hnext
  | limit => cases hnext
  | stop found =>
    obtain rfl := List.mem_singleton.mp hnext
    exact Definition.reaches_of_found found
  | go found _ does _ ih =>
    rcases List.mem_cons.mp hnext with rfl | hnext
    · exact Definition.reaches_of_found found
    · exact Definition.reaches_of_found_exits found (step_eq_go does).1 (ih hnext)
  | part found =>
    obtain rfl := List.mem_singleton.mp hnext
    exact Definition.reaches_of_found found
  | meet found _ does each meets _ _ ih =>
    rcases List.mem_cons.mp hnext with rfl | hnext
    · exact Definition.reaches_of_found found
    · obtain ⟨arc, harc, hreach⟩ := reaches_of_resume does each meets
      exact Definition.reaches_of_found_exits found harc (hreach.trans (ih hnext))

/-- Where there is no cycle, a traversal visits no element twice, its branches aside. -/
theorem nodup_own (h : engine.Traces definition inBranch remaining resumed came vars id trail)
    (hacyclic : ∀ id, ¬ definition.Returns id) : trail.own.Nodup := by
  induction h with
  | missing => exact List.nodup_nil
  | join => exact List.nodup_nil
  | limit => exact List.nodup_nil
  | stop => exact List.nodup_singleton _
  | go _ _ does goes ih =>
    refine List.nodup_cons.mpr ⟨fun hmem => ?_, ih⟩
    have hreach := goes.reaches_of_mem_own hmem
    exact hacyclic _ (Definition.returns_of_mem_exits (step_eq_go does).1 hreach)
  | part => exact List.nodup_singleton _
  | meet _ _ does each meets goes _ ih =>
    refine List.nodup_cons.mpr ⟨fun hmem => ?_, ih⟩
    obtain ⟨arc, harc, hreach⟩ := reaches_of_resume does each meets
    have hback := hreach.trans (goes.reaches_of_mem_own hmem)
    exact hacyclic _ (Definition.returns_of_mem_exits harc hback)

end Engine.Traces

end Workflow
