import Mathlib.Data.List.Permutation
import Workflow.Proofs.History.Tells

/-!
# Continuations

A branch that stops at a join leaves it to the forks around it to go on from there: the nearest of
them resumes at the join, or stops there in turn and leaves the join to the next one.  But a fork
knows of one join only.  What a branch left at another join is lost, and the fork says so in the
log.  Where no fork says that, nothing is lost: in a run that completed, every flow that was taken
leads to an element that was visited after that.

* `Engine.departures` — the flows by which an element is left.
* `Trail.Converges` — the branches of every fork that stopped at joins stopped at one.
* `Engine.Traces.follows` — every flow that was taken is followed, or leads to the join at which the
  traversal stopped.
* `Engine.departures_are_followed` — in a completed run, every flow that was taken is followed.
-/

namespace Workflow

/-! ## The flows that are taken -/

namespace Engine

variable {engine : Engine} {definition : Definition} {element : Element} {vars after : Variables}

/-- The flows by which an element is left with some variables. -/
def departures (engine : Engine) (definition : Definition) (element : Element)
    (vars : Variables) : List Arc :=
  match element.kind with
  | .endEvent => []
  | .startEvent => (definition.exits element.id).take 1
  | .task _ _ => (definition.exits element.id).take 1
  | .exclusiveGateway => (engine.select vars (definition.exits element.id)).toList
  | .parallelGateway => definition.exits element.id

theorem exits_of_depart_eq_go {arc : Arc} (h : depart definition element vars = .go arc after) :
    (definition.exits element.id).take 1 = [arc] := by
  unfold depart at h
  split at h
  · rename_i hexits
    cases h
    rw [hexits]
    rfl
  · cases h

theorem exits_of_depart_eq_stop {outcome : Outcome}
    (h : depart definition element vars = .stop outcome after) :
    definition.exits element.id = [] := by
  unfold depart at h
  split at h
  · cases h
  · assumption

/-- A visit that takes a flow takes no other. -/
theorem departures_of_go {arc : Arc} (h : engine.step definition element vars = .go arc after) :
    engine.departures definition element vars = [arc] := by
  unfold step at h
  split at h
  case h_1 => cases h
  case h_2 hkind =>
    rw [departures, hkind]
    exact exits_of_depart_eq_go h
  case h_3 hkind =>
    rw [departures, hkind]
    split at h
    · exact exits_of_depart_eq_go h
    · cases h
  case h_4 hkind =>
    rw [departures, hkind]
    split at h
    · rename_i hselect
      cases h
      dsimp only
      rw [hselect]
      rfl
    · cases h
  case h_5 hkind =>
    rw [departures, hkind]
    split at h
    · cases h
    · rename_i hfew
      -- one flow at most leads out of the gateway, so the first is the only one
      have hfirst := exits_of_depart_eq_go h
      rcases hexits : definition.exits element.id with _ | ⟨first, _ | ⟨second, more⟩⟩
      · simp [hexits] at hfirst
      · simpa [hexits] using hfirst
      · exact absurd hexits (hfew first second more)

/-- A visit that begins branches takes all flows along which they go. -/
theorem departures_of_split {arcs : List Arc}
    (h : engine.step definition element vars = .split arcs) :
    engine.departures definition element vars = arcs := by
  obtain ⟨hkind, rfl, -⟩ := step_eq_split h
  rw [departures, hkind]

/-- A visit that ends its traversal well takes no flow. -/
theorem departures_of_finished (h : engine.step definition element vars = .stop .finished after) :
    engine.departures definition element vars = [] := by
  unfold step at h
  split at h
  case h_1 hkind => rw [departures, hkind]
  case h_2 hkind =>
    rw [departures, hkind]
    simp [exits_of_depart_eq_stop h]
  case h_3 hkind =>
    rw [departures, hkind]
    split at h
    · simp [exits_of_depart_eq_stop h]
    · cases h
  case h_4 hkind => split at h <;> cases h
  case h_5 hkind =>
    rw [departures, hkind]
    split at h
    · cases h
    · simp [exits_of_depart_eq_stop h]

end Engine

/-! ## Forks that converge -/

/-- Whether it is said that a branch came to another join than the first that came to one. -/
def Occurrence.diverges : Occurrence → Bool
  | logged record => record.message == "Branch converged on a different join"
  | reported _ _ => false

/-- What is said of a branch that came to another join than expected. -/
def divergence (gateway : String) (index : Nat) (expected found : String) : Occurrence :=
  .logged ⟨.warn, "Branch converged on a different join",
    [("gateway", .string gateway), ("branch", .int index), ("expected", .string expected),
      ("found", .string found)]⟩

/-- The join of the first of several branches that stopped at one. -/
def gathering (branches : List Trail) : Option String :=
  (branches.map Trail.outcome).findSome? Outcome.join?

/-- All branches of a fork that stopped at joins stopped at one join, and so did those of every fork
in a branch or behind it. -/
inductive Trail.Converges : Trail → Prop where
  /-- no fork -/
  | halt {came : Option Arc} {outcome : Outcome} {vars : Variables} :
    Converges (.halt came outcome vars)
  /-- the forks at the first visit, in the branches begun there, and in the rest -/
  | visit {came : Option Arc} {element : Element} {vars : Variables} {branches : List Trail}
    {rest : Trail} (each : ∀ branch ∈ branches, Converges branch)
    (meets : ∀ branch ∈ branches, ∀ join, branch.outcome.join? = some join →
      gathering branches = some join)
    (goes : Converges rest) : Converges (.visit came element vars branches rest)

theorem mem_complaints {gateway : String} {outcomes : List Outcome} {index arrivals : Nat}
    {expected found : String} (houtcome : outcomes[index]? = some (.atJoin found arrivals))
    (hexpected : outcomes.findSome? Outcome.join? = some expected) (hne : found ≠ expected) :
    divergence gateway index expected found ∈ complaints gateway outcomes := by
  refine List.mem_filterMap.mpr ⟨(.atJoin found arrivals, index),
    List.mk_mem_zipIdx_iff_getElem?.mpr houtcome, ?_⟩
  dsimp only
  rw [hexpected]
  dsimp only
  rw [if_neg hne]
  rfl

/-- Of a branch that came to another join than the first, a fork says so. -/
theorem exists_mem_complaints (gateway : String) {outcomes : List Outcome} {outcome : Outcome}
    (houtcome : outcome ∈ outcomes) {join : String} (hjoin : outcome.join? = some join)
    (hother : outcomes.findSome? Outcome.join? ≠ some join) :
    ∃ occurrence ∈ complaints gateway outcomes, occurrence.diverges = true := by
  obtain ⟨index, hindex⟩ := List.getElem?_of_mem houtcome
  obtain ⟨arrivals, rfl⟩ : ∃ arrivals, outcome = .atJoin join arrivals := by
    cases outcome with
    | atJoin id arrivals =>
      cases hjoin
      exact ⟨arrivals, rfl⟩
    | _ => cases hjoin
  obtain ⟨expected, hexpected⟩ : ∃ expected, outcomes.findSome? Outcome.join? = some expected := by
    rw [← Option.isSome_iff_exists, List.findSome?_isSome_iff]
    exact ⟨_, houtcome, rfl⟩
  have hne : join ≠ expected := by
    rintro rfl
    exact hother hexpected
  exact ⟨_, mem_complaints hindex hexpected hne, rfl⟩

/-- Where no fork says that a branch came to another join, the branches converge. -/
theorem Engine.Tells.converges {engine : Engine} {processId : String} {id : InstanceId}
    {trail : Trail} {history : History} (h : engine.Tells processId id trail history)
    (hquiet : ∀ entry ∈ history, entry.2.diverges = false) : trail.Converges := by
  induction h with
  | halt => exact .halt
  | @visit id came element vars told rest before after further _ each _ _ complains _ ih ihgoes =>
    simp only [List.mem_append, History.mem_inTime] at hquiet
    refine .visit ?_ ?_ (ihgoes fun entry hentry => hquiet entry (by simp [hentry]))
    · intro branch hbranch
      obtain ⟨⟨trail, history⟩, hmem, rfl⟩ := List.mem_map.mp hbranch
      obtain ⟨index, hindex⟩ := List.getElem?_of_mem hmem
      refine ih ((trail, history), index) (List.mk_mem_zipIdx_iff_getElem?.mpr hindex) ?_
      intro entry hentry
      exact hquiet entry (Or.inr (Or.inl (List.mem_flatMap.mpr ⟨_, hmem, hentry⟩)))
    · intro branch hbranch join hjoin
      by_contra hother
      have houtcomes : told.map (·.1.outcome) = (told.map Prod.fst).map Trail.outcome := by
        rw [List.map_map]
        rfl
      obtain ⟨occurrence, hoccurrence, hdiverges⟩ := exists_mem_complaints element.id
        (List.mem_map_of_mem hbranch) hjoin hother
      rw [← houtcomes] at hoccurrence
      obtain ⟨entry, hentry, rfl⟩ := List.mem_map.mp (complains occurrence hoccurrence)
      rw [hquiet entry (by simp [hentry])] at hdiverges
      cases hdiverges

/-! ## Stations that are followed -/

namespace Engine

variable {engine : Engine} {definition : Definition}

/-- Every flow by which a station is left leads to a later one, or to the join that is left over. -/
def Follows (engine : Engine) (definition : Definition) (left : Option String) :
    List Station → Prop
  | [] => True
  | station :: more =>
    (∀ arc ∈ engine.departures definition station.element station.vars,
      arc.1.target ∈ more.map (·.element.id) ∨ left = some arc.1.target) ∧
    Follows engine definition left more

namespace Follows

variable {left later : Option String} {first second : List Station}

/-- What is left over may be resolved by the stations behind. -/
theorem append (hfirst : engine.Follows definition left first)
    (hsecond : engine.Follows definition later second)
    (hleft : ∀ join, left = some join → join ∈ second.map (·.element.id) ∨ later = some join) :
    engine.Follows definition later (first ++ second) := by
  induction first with
  | nil => exact hsecond
  | cons station more ih =>
    obtain ⟨hstation, hmore⟩ := hfirst
    rw [List.cons_append]
    refine ⟨fun arc harc => ?_, ih hmore⟩
    rw [List.map_append, List.mem_append]
    rcases hstation arc harc with htarget | htarget
    · exact Or.inl (Or.inl htarget)
    · rcases hleft _ htarget with htarget | htarget
      · exact Or.inl (Or.inr htarget)
      · exact Or.inr htarget

theorem mono (h : engine.Follows definition left first)
    (hleft : ∀ join, left = some join → later = some join) :
    engine.Follows definition later first := by
  have hnil : engine.Follows definition later [] := trivial
  have happend := h.append hnil fun join hjoin => Or.inr (hleft join hjoin)
  rwa [List.append_nil] at happend

theorem map_under (h : engine.Follows definition left first) (index : Nat) :
    engine.Follows definition left (first.map (Station.under index)) := by
  induction first with
  | nil => trivial
  | cons station more ih =>
    obtain ⟨hstation, hmore⟩ := h
    refine ⟨fun arc harc => ?_, ih hmore⟩
    rw [List.map_map]
    exact hstation arc harc

theorem flatMap {α : Type} {parts : List α} {stations : α → List Station}
    (h : ∀ part ∈ parts, engine.Follows definition left (stations part)) :
    engine.Follows definition left (parts.flatMap stations) := by
  induction parts with
  | nil => trivial
  | cons part more ih =>
    rw [List.flatMap_cons]
    exact (h part List.mem_cons_self).append
      (ih fun part hpart => h part (List.mem_cons_of_mem _ hpart)) fun _ => Or.inr

/-- Read by places. -/
theorem exists_later (h : engine.Follows definition left first) {index : Nat} {station : Station}
    (hstation : first[index]? = some station) {arc : Arc}
    (harc : arc ∈ engine.departures definition station.element station.vars) :
    (∃ place, index < place ∧ (first.map (·.element.id))[place]? = some arc.1.target) ∨
      left = some arc.1.target := by
  induction first generalizing index with
  | nil => cases hstation
  | cons head more ih =>
    obtain ⟨hhead, hmore⟩ := h
    cases index with
    | zero =>
      obtain rfl : head = station := by simpa using hstation
      rcases hhead arc harc with htarget | htarget
      · obtain ⟨place, hplace⟩ := List.getElem?_of_mem htarget
        exact Or.inl ⟨place + 1, Nat.succ_pos _, by simpa using hplace⟩
      · exact Or.inr htarget
    | succ index =>
      rcases ih hmore (by simpa using hstation) with ⟨place, hlt, hplace⟩ | htarget
      · exact Or.inl ⟨place + 1, Nat.succ_lt_succ hlt, by simpa using hplace⟩
      · exact Or.inr htarget

end Follows

/-! ## Traversals that end well -/

section Traces

variable {inBranch : Bool} {remaining : Nat} {resumed : Bool} {came : Option Arc}
  {vars : Variables} {id : String} {trail : Trail}

theorem mem_ids_visit {element : Element} {branches : List Trail} {rest : Trail}
    (found : definition.element? id = some element) :
    id ∈ (Trail.visit came element vars branches rest).stations.map (·.element.id) := by
  rw [Trail.map_id_stations, Trail.path_visit, Definition.id_of_element? found]
  exact List.mem_cons_self

/-- A traversal that ended well visited the element that it came to, or stopped in front of it. It
does not stop where it resumes. -/
theorem Traces.begins (h : engine.Traces definition inBranch remaining resumed came vars id trail)
    (hended : trail.outcome.succeeded = true) :
    id ∈ trail.stations.map (·.element.id) ∨
      resumed = false ∧ trail.outcome.join? = some id := by
  cases h with
  | missing => cases hended
  | join found awaits =>
    right
    rw [Definition.awaits, Bool.and_eq_true, Bool.and_eq_true, Bool.not_eq_true'] at awaits
    exact ⟨awaits.1.2, congrArg some (Definition.id_of_element? found)⟩
  | limit => cases hended
  | stop found => exact Or.inl (mem_ids_visit found)
  | go found => exact Or.inl (mem_ids_visit found)
  | part found => exact Or.inl (mem_ids_visit found)
  | meet found => exact Or.inl (mem_ids_visit found)

/-- Every flow along which a branch begins is followed in the branch, and so are those taken there,
up to the join on which the branches converge. -/
theorem follows_fork {element : Element} {arcs : List Arc} {branch : Arc → Trail}
    (does : engine.step definition element vars = .split arcs)
    (each : ∀ arc ∈ arcs, engine.Traces definition true engine.maxSteps false (some arc) vars
      arc.1.target (branch arc))
    (hended : ∀ trail ∈ arcs.map branch, trail.outcome.succeeded = true)
    (hmeets : ∀ trail ∈ arcs.map branch, ∀ join, trail.outcome.join? = some join →
      gathering (arcs.map branch) = some join)
    (hfollows : ∀ arc ∈ arcs, engine.Follows definition (branch arc).outcome.join?
      (branch arc).stations) :
    engine.Follows definition (gathering (arcs.map branch))
      (⟨[], element, vars⟩ :: Trail.inBranches (arcs.map branch)) := by
  constructor
  · intro arc harc
    rw [departures_of_split does] at harc
    have hmem := List.mem_map_of_mem (f := branch) harc
    rcases (each arc harc).begins (hended _ hmem) with htarget | ⟨-, hjoin⟩
    · left
      rw [Trail.map_id_stations] at htarget
      rw [Trail.map_id_inBranches]
      exact List.mem_flatMap.mpr ⟨_, hmem, htarget⟩
    · exact Or.inr (hmeets _ hmem _ hjoin)
  · refine .flatMap fun entry hentry => .map_under ?_ entry.2
    obtain ⟨arc, harc, heq⟩ := List.mem_map.mp (List.fst_mem_of_mem_zipIdx hentry)
    rw [← heq]
    exact (hfollows arc harc).mono (hmeets _ (List.mem_map_of_mem harc))

/-- A traversal that ended with its branches left over the join on which they converged, if they did
at all. -/
theorem join?_of_sequel_eq_stop {branches : List Trail} {outcome : Outcome} {after : Variables}
    (h : sequel definition inBranch vars branches = .stop outcome after)
    (hended : outcome.succeeded = true) {join : String} (hjoin : gathering branches = some join) :
    outcome.join? = some join := by
  rcases sequel_eq_stop h with
    ⟨-, hfailed, -⟩ | ⟨-, -, ⟨hconv, -⟩ | ⟨join', arrivals, hconv, -, -, rfl⟩⟩
  · rw [hfailed] at hended
    cases hended
  · rw [convergence, show (branches.map Trail.outcome).findSome? Outcome.join? = some join
      from hjoin] at hconv
    cases hconv
  · rw [Outcome.join?, ← hjoin]
    exact (convergence_eq_some hconv).1.symm

/-- Every flow that was taken is followed, if the forks converge: only the join at which a branch
stopped is left over. -/
theorem Traces.follows (h : engine.Traces definition inBranch remaining resumed came vars id trail)
    (hended : trail.outcome.succeeded = true) (hconverges : trail.Converges) :
    engine.Follows definition trail.outcome.join? trail.stations := by
  induction h with
  | missing => cases hended
  | join =>
    rw [Trail.stations_halt]
    trivial
  | limit => cases hended
  | @stop _ _ _ _ _ _ element outcome _ found enters does =>
    rw [Trail.stations_visit, Trail.stations_halt]
    refine ⟨fun arc harc => ?_, trivial⟩
    rcases step_eq_stop does with ⟨⟨error, rfl⟩, -⟩ | ⟨rfl, -⟩
    · cases hended
    · rw [departures_of_finished does] at harc
      cases harc
  | go found enters does goes ih =>
    cases hconverges with
    | visit _ _ hrest =>
      rw [Trail.stations_visit]
      refine ⟨fun arc harc => ?_, ih hended hrest⟩
      rw [departures_of_go does, List.mem_singleton] at harc
      subst harc
      exact (goes.begins hended).imp_right And.right
  | @part _ _ _ _ vars _ element arcs branch outcome _ found enters does each ends ihe =>
    cases hconverges with
    | visit heach hmeets _ =>
      have hbranches : ∀ trail ∈ arcs.map branch, trail.outcome.succeeded = true :=
        succeeded_of_sequel_eq_stop ends hended
      have hfork := follows_fork does each hbranches hmeets fun arc harc =>
        ihe arc harc (hbranches _ (List.mem_map_of_mem harc)) (heach _ (List.mem_map_of_mem harc))
      rw [Trail.stations_visit, Trail.stations_halt, List.append_nil]
      exact hfork.mono fun join hjoin => join?_of_sequel_eq_stop ends hended hjoin
  | @meet _ _ _ _ vars _ element arcs branch join _ rest found enters does each meets goes ihe ih =>
    cases hconverges with
    | visit heach hmeets hrest =>
      obtain ⟨hbranches, -, arrivals, hconv, -⟩ := sequel_eq_resume meets
      have hfork := follows_fork does each hbranches hmeets fun arc harc =>
        ihe arc harc (hbranches _ (List.mem_map_of_mem harc)) (heach _ (List.mem_map_of_mem harc))
      rw [Trail.stations_visit, ← List.cons_append]
      refine hfork.append (ih hended hrest) fun join' hjoin' => ?_
      -- the traversal resumes at the join on which the branches converged
      obtain rfl : join' = join :=
        Option.some.inj (hjoin'.symm.trans (convergence_eq_some hconv).1)
      rcases goes.begins hended with hvisited | ⟨hresumed, -⟩
      · exact Or.inl hvisited
      · cases hresumed

/-- Only branches stop at joins. -/
theorem Traces.join?_eq_none
    (h : engine.Traces definition inBranch remaining resumed came vars id trail)
    (hrun : inBranch = false) : trail.outcome.join? = none := by
  induction h with
  | missing => rfl
  | join _ awaits =>
    rw [Definition.awaits, hrun] at awaits
    cases awaits
  | limit => rfl
  | stop _ _ does => exact Option.eq_none_iff_forall_ne_some.mpr (join?_of_step_eq_stop does)
  | go _ _ _ _ ih => exact ih hrun
  | part _ _ _ _ ends =>
    rcases sequel_eq_stop ends with
      ⟨-, hfailed, -⟩ | ⟨-, -, ⟨-, rfl⟩ | ⟨_, _, -, hbranch, -, -⟩⟩
    · exact Option.eq_none_iff_forall_ne_some.mpr (Outcome.join?_of_not_succeeded hfailed)
    · rfl
    · rw [hrun] at hbranch
      cases hbranch
  | meet _ _ _ _ _ _ _ ih => exact ih hrun

end Traces

/-! ## Runs -/

/-- In a completed run every flow that was taken is followed, if the forks converge. -/
theorem Leaves.follows {context : Context} {trail : Trail}
    (h : engine.Leaves definition context trail)
    (hcompleted : trail.outcome.completion = .completed) (hconverges : trail.Converges) :
    engine.Follows definition none trail.stations := by
  cases h with
  | nothing => cases hcompleted
  | traces _ goes =>
    rw [← goes.join?_eq_none rfl]
    exact goes.follows (Outcome.succeeded_of_completion hcompleted) hconverges

/-- **No continuation is lost.** Let a run complete, and let no fork in it say that a branch
converged on a different join.  Then every flow that was taken is followed: for each visit on the
path of the run, and each flow by which the element was left, the element to which the flow leads
stands on the path behind that visit. -/
theorem departures_are_followed (engine : Engine) (definition : Definition) (levels : Nat)
    (context : Context) (now : Nat)
    (hcompleted : (engine.runThrough definition levels context now).value.1 = .completed)
    (hquiet : ∀ entry ∈ (engine.runThrough definition levels context now).history,
      entry.2.diverges = false) :
    ∃ trail, engine.Leaves definition context trail ∧
      (engine.runThrough definition levels context now).value.2.path =
        context.path ++ trail.stations.map (·.element.id) ∧
      ∀ (index : Nat) (station : Station), trail.stations[index]? = some station →
        ∀ arc ∈ engine.departures definition station.element station.vars,
          ∃ place, index < place ∧
            (trail.stations.map (·.element.id))[place]? = some arc.1.target := by
  obtain ⟨trail, hleaves, hdepth⟩ := exists_leaves (by rw [hcompleted]; nofun)
  have hvalue := hleaves.value_runThrough hdepth now
  refine ⟨trail, hleaves, ?_, fun index station hstation arc harc => ?_⟩
  · rw [hvalue, Trail.map_id_stations]
    rfl
  · have hconverges := (hleaves.tells hdepth now).converges hquiet
    rw [hvalue] at hcompleted
    have hfollows := hleaves.follows hcompleted hconverges
    rcases hfollows.exists_later hstation harc with hlater | hleft
    · exact hlater
    · cases hleft

end Engine

/-! ## A join that is left to the outer fork

The branches of the inner fork come to the join on two of the three flows into it, so the inner fork
stops there, and the outer one goes on. -/

namespace HandedUp

/-- A fork in a fork, both of which end at one join. -/
def process : Definition where
  id := "shared"
  name := none
  elements := [⟨"start", none, .startEvent⟩, ⟨"outer", none, .parallelGateway⟩,
    ⟨"inner", none, .parallelGateway⟩, ⟨"choice", none, .exclusiveGateway⟩,
    ⟨"join", none, .parallelGateway⟩, ⟨"end", none, .endEvent⟩]
  flows := [⟨"start", "outer", none⟩, ⟨"outer", "inner", none⟩, ⟨"outer", "join", none⟩,
    ⟨"inner", "choice", none⟩, ⟨"inner", "join", none⟩, ⟨"choice", "end", some "no"⟩,
    ⟨"choice", "join", some "yes"⟩, ⟨"join", "end", none⟩]

/-- An engine that takes the flows with one of the guards. -/
def engine : Engine where
  maxSteps := 10
  evaluator := fun condition _ => condition == "yes"
  sink := .null
  agents := []
  processes := [("shared", process)]

/-- The beginning of the run. -/
def context : Context :=
  .start "shared" ⟨"i"⟩ []

theorem completed : (engine.runThrough process 3 context 0).value.1 = .completed := by
  decide +kernel

theorem quiet : ∀ entry ∈ (engine.runThrough process 3 context 0).history,
    entry.2.diverges = false := by
  have hall : ((engine.runThrough process 3 context 0).history.all fun entry =>
      !entry.2.diverges) = true := by cbv
  intro entry hentry
  simpa using List.all_eq_true.mp hall entry hentry

/-- The run completes without such a message, and each of its flows is followed. -/
theorem join_is_resumed :
    (engine.runThrough process 3 context 0).value.1 = .completed ∧
      (∀ entry ∈ (engine.runThrough process 3 context 0).history, entry.2.diverges = false) ∧
      ∃ trail, engine.Leaves process context trail ∧
        (engine.runThrough process 3 context 0).value.2.path =
          context.path ++ trail.stations.map (·.element.id) := by
  obtain ⟨trail, hleaves, hpath, -⟩ :=
    Engine.departures_are_followed engine process 3 context 0 completed quiet
  exact ⟨completed, quiet, trail, hleaves, hpath⟩

example : (engine.runThrough process 3 context 0).value.2.path =
    ["start", "outer", "inner", "choice", "join", "end"] := by decide +kernel

end HandedUp

end Workflow
