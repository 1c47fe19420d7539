import Workflow.Proofs.Trail.Segments

/-!
# The visits in a trail

The path of a trail says in which order elements were visited.  A station says more about one of
these visits: in which branch it was, and with which variables.

* `Trail.stations` — the visits in a trail, in the order of its path.
* `Engine.Traces.element?_of_mem` — what is visited are elements of the process.
* `Engine.Traces.of_step_eq` — an engine that makes the same steps at these visits leaves the same
  trail.
-/

namespace Workflow

/-- A visit of a traversal or of a branch in it. -/
structure Station where
  /-- the branch that made the visit, by the places of the branches on the way down to it -/
  places : List Nat
  /-- the element that was visited -/
  element : Element
  /-- the variables before the visit -/
  vars : Variables

/-- A visit as seen from the fork around its branch. -/
def Station.under (index : Nat) (station : Station) : Station :=
  { station with places := index :: station.places }

/-- What does not depend on the places in a list. -/
theorem flatMap_fst_zipIdx {α β : Type} (f : α → List β) (l : List α) :
    l.zipIdx.flatMap (fun entry => f entry.1) = l.flatMap f := by
  rw [← List.flatMap_map (f := Prod.fst), List.zipIdx_map_fst]

namespace Trail

/-- The visits of a traversal and its branches, in the order of the path. -/
def stations : Trail → List Station
  | halt _ _ _ => []
  | visit _ element vars branches rest =>
    ⟨[], element, vars⟩ ::
      ((branches.map stations).zipIdx.flatMap (fun (visits, index) =>
        visits.map (Station.under index)) ++ rest.stations)

/-- The visits of the branches that were begun at one fork. -/
def inBranches (branches : List Trail) : List Station :=
  branches.zipIdx.flatMap fun (branch, index) => branch.stations.map (Station.under index)

@[simp] theorem stations_halt (came : Option Arc) (outcome : Outcome) (vars : Variables) :
    (halt came outcome vars).stations = [] := by
  rw [stations]

@[simp] theorem stations_visit (came : Option Arc) (element : Element) (vars : Variables)
    (branches : List Trail) (rest : Trail) :
    (visit came element vars branches rest).stations =
      ⟨[], element, vars⟩ :: (inBranches branches ++ rest.stations) := by
  rw [stations, inBranches, List.zipIdx_map, List.flatMap_map]
  rfl

@[simp] theorem inBranches_nil : inBranches [] = [] := rfl

theorem mem_inBranches {branches : List Trail} {station : Station} :
    station ∈ inBranches branches ↔ ∃ (branch : Trail) (index : Nat),
      branches[index]? = some branch ∧
        ∃ inner ∈ branch.stations, Station.under index inner = station := by
  simp [inBranches, List.mem_flatMap, List.mem_zipIdx_iff_getElem?]

/-- What holds of all visits, in whatever branch they are. -/
theorem forall_stations_visit {p : Element → Variables → Prop} {came : Option Arc}
    {element : Element} {vars : Variables} {branches : List Trail} {rest : Trail} :
    (∀ station ∈ (visit came element vars branches rest).stations,
        p station.element station.vars) ↔
      p element vars ∧
        (∀ branch ∈ branches, ∀ station ∈ branch.stations, p station.element station.vars) ∧
        ∀ station ∈ rest.stations, p station.element station.vars := by
  simp only [stations_visit, List.forall_mem_cons, List.forall_mem_append]
  refine and_congr_right fun _ => and_congr_left fun _ => ⟨fun h => ?_, fun h => ?_⟩
  · intro branch hbranch station hstation
    obtain ⟨index, hindex⟩ := List.getElem?_of_mem hbranch
    exact h (station.under index)
      (mem_inBranches.mpr ⟨branch, index, hindex, station, hstation, rfl⟩)
  · intro station hstation
    obtain ⟨branch, index, hindex, inner, hinner, rfl⟩ := mem_inBranches.mp hstation
    exact h branch (List.mem_of_getElem? hindex) inner hinner

theorem map_id_inBranches_of {branches : List Trail}
    (h : ∀ branch ∈ branches, branch.stations.map (·.element.id) = branch.path) :
    (inBranches branches).map (·.element.id) = branches.flatMap path := by
  rw [inBranches, List.map_flatMap, ← flatMap_fst_zipIdx path]
  refine List.flatMap_congr fun entry hentry => ?_
  rw [← h entry.1 (List.fst_mem_of_mem_zipIdx hentry), List.map_map]
  rfl

/-- The visits are those of the path. -/
theorem map_id_stations (trail : Trail) : trail.stations.map (·.element.id) = trail.path := by
  induction trail using Trail.induction with
  | halt => simp
  | visit came element vars branches rest ihb ih => simp [map_id_inBranches_of ihb, ih]

theorem mem_path_of_mem_stations {trail : Trail} {station : Station}
    (h : station ∈ trail.stations) : station.element.id ∈ trail.path := by
  rw [← map_id_stations]
  exact List.mem_map_of_mem h

theorem map_id_inBranches (branches : List Trail) :
    (inBranches branches).map (·.element.id) = branches.flatMap path :=
  map_id_inBranches_of fun branch _ => map_id_stations branch

end Trail

/-- What a traversal visits are elements of the process. -/
theorem Engine.Traces.element?_of_mem {engine : Engine} {definition : Definition} {inBranch : Bool}
    {remaining : Nat} {resumed : Bool} {came : Option Arc} {vars : Variables} {id : String}
    {trail : Trail} (h : engine.Traces definition inBranch remaining resumed came vars id trail) :
    ∀ station ∈ trail.stations, definition.element? station.element.id = some station.element := by
  have hfound : ∀ {id : String} {element : Element}, definition.element? id = some element →
      definition.element? element.id = some element := fun found => by
    rw [Definition.id_of_element? found, found]
  induction h with
  | missing => simp
  | join => simp
  | limit => simp
  | stop found => simp [hfound found]
  | go found _ _ _ ih => simpa [hfound found] using ih
  | part found _ _ _ _ ihe =>
    rw [Trail.forall_stations_visit
      (p := fun element _ => definition.element? element.id = some element)]
    exact ⟨hfound found, List.forall_mem_map.mpr ihe, by simp⟩
  | meet found _ _ _ _ _ ihe ih =>
    rw [Trail.forall_stations_visit
      (p := fun element _ => definition.element? element.id = some element)]
    exact ⟨hfound found, List.forall_mem_map.mpr ihe, ih⟩

/-! ## Engines that make the same steps -/

/-- At a visit another engine makes the same step. -/
def Engine.StepsAlike (engine other : Engine) (definition : Definition) (element : Element)
    (vars : Variables) : Prop :=
  other.step definition element vars = engine.step definition element vars

/-- An engine leaves a trail of another one that sets the same limit, if it makes the same steps at
all visits in it. -/
theorem Engine.Traces.of_step_eq {engine other : Engine} {definition : Definition}
    (hlimit : other.maxSteps = engine.maxSteps) {inBranch : Bool} {remaining : Nat}
    {resumed : Bool} {came : Option Arc} {vars : Variables} {id : String} {trail : Trail}
    (h : engine.Traces definition inBranch remaining resumed came vars id trail)
    (hsteps : ∀ station ∈ trail.stations,
      engine.StepsAlike other definition station.element station.vars) :
    other.Traces definition inBranch remaining resumed came vars id trail := by
  induction h with
  | missing absent => exact .missing absent
  | join found awaits => exact .join found awaits
  | limit found enters =>
    rw [← hlimit]
    exact .limit found enters
  | stop found enters does =>
    obtain ⟨hstep, -⟩ := Trail.forall_stations_visit.mp hsteps
    exact .stop found enters (hstep.trans does)
  | go found enters does _ ih =>
    obtain ⟨hstep, -, hrest⟩ := Trail.forall_stations_visit.mp hsteps
    exact .go found enters (hstep.trans does) (ih hrest)
  | part found enters does _ ends ih =>
    obtain ⟨hstep, hbranches, -⟩ := Trail.forall_stations_visit.mp hsteps
    rw [← hlimit] at ih
    refine .part found enters (hstep.trans does) (fun arc harc => ih arc harc ?_) ends
    exact hbranches _ (List.mem_map_of_mem harc)
  | meet found enters does _ meets _ ihe ih =>
    obtain ⟨hstep, hbranches, hrest⟩ := Trail.forall_stations_visit.mp hsteps
    rw [← hlimit] at ihe
    refine .meet found enters (hstep.trans does) (fun arc harc => ihe arc harc ?_) meets (ih hrest)
    exact hbranches _ (List.mem_map_of_mem harc)

end Workflow
