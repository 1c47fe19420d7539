import Workflow.Proofs.History.Tells
import Workflow.Proofs.Spans
import Workflow.Proofs.Trail.Sites

/-!
# Joins as barriers

Branches run side by side, and which of them reports first is a matter of delays.  But a traversal
itself goes from visit to visit, and at a fork it waits for all its branches.  So its own tasks are
reported in the order of its visits, those before a fork before anything in the branches, and all
that is in the branches before the tasks behind the join, at whatever depth and with whatever
delays.

To tell which report is of which visit, the reports in a history are marked with the sites of the
visits that they are of.

* `Engine.Marks` — a history with such marks, in which no visit is reported before one that precedes
  it.
* `Engine.Marks.inTime` — histories of branches that are laid over one clock keep their marks.
* `Engine.Tells.exists_marks` — the history of a traversal can be marked.
* `Engine.joins_are_barriers` — in a run, every task is reported before those that it precedes.
-/

namespace Workflow

/-- An occurrence, and the visit that it reports if it is a report. -/
abbrev Mark : Type := (Nat × Occurrence) × Option Site

namespace Mark

/-- The second of two marks is not one that comes before the first one. -/
def InOrder (first second : Mark) : Prop :=
  ∀ site ∈ first.2, ∀ other ∈ second.2, ¬ other.Before site

/-- A mark in a branch as seen from the fork around it. -/
def under (fork place : Nat) (mark : Mark) : Mark :=
  (mark.1, mark.2.map (Site.under fork place))

/-- The place of the branch in which a visit is among those begun at the first fork on the way. -/
def place? (mark : Mark) : Option Nat :=
  mark.2.bind fun site => site.way.head?.map Prod.snd

end Mark

namespace Engine

/-- What a visit reports. -/
def reportAt (engine : Engine) (processId : String) (id : InstanceId) (site : Site) :
    Option Report :=
  engine.reportOf processId (id.descend (site.way.map Prod.snd)) site.element site.vars

/-- A history in which every report is marked by the visit that it is of. -/
structure Marks (engine : Engine) (processId : String) (id : InstanceId) (sites : List Site)
    (history : History) (marks : List Mark) : Prop where
  /-- without the marks it is the history -/
  erase : marks.map Prod.fst = history
  /-- what an occurrence reports is what its visit reports -/
  report : ∀ mark ∈ marks, mark.1.2.report? = mark.2.bind (engine.reportAt processId id)
  /-- each visit to a task marks one occurrence -/
  perm : (marks.filterMap Prod.snd).Perm (sites.filter (·.element.isTask))
  /-- no occurrence is of a visit before that of an earlier one -/
  inOrder : marks.Pairwise Mark.InOrder

variable {engine : Engine} {processId : String} {id : InstanceId}

/-- A visit reports something just if it is one to a task. -/
theorem isSome_reportAt (engine : Engine) (processId : String) (id : InstanceId) (site : Site) :
    (engine.reportAt processId id site).isSome = site.element.isTask := by
  rw [reportAt, reportOf, Option.isSome_map]
  rfl

theorem reportAt_under (fork place : Nat) (site : Site) :
    engine.reportAt processId id (site.under fork place) =
      engine.reportAt processId (id.branch place) site := rfl

namespace Marks

variable {sites further : List Site} {history later : History} {marks others : List Mark}

theorem mem_sites (h : engine.Marks processId id sites history marks) {mark : Mark}
    (hmark : mark ∈ marks) {site : Site} (hsite : site ∈ mark.2) : site ∈ sites :=
  List.mem_of_mem_filter (h.perm.mem_iff.mp (List.mem_filterMap.mpr ⟨mark, hmark, hsite⟩))

/-- A history in which nothing is reported. -/
theorem silent (h : history.reports = []) :
    engine.Marks processId id [] history (history.map fun entry => (entry, none)) where
  erase := by simp [Function.comp_def]
  report := by
    refine List.forall_mem_map.mpr fun entry hentry => ?_
    exact List.filterMap_eq_nil_iff.mp h entry hentry
  perm := by simp [List.filterMap_map]
  inOrder := List.pairwise_of_forall_mem_list
    (List.forall_mem_map.mpr fun _ _ => List.forall_mem_map.mpr fun _ _ => nofun)

/-- A history in which one visit is reported if it is one to a task. -/
theorem single {site : Site}
    (h : history.reports = (engine.reportAt processId id site).toList) :
    engine.Marks processId id [site] history
      (history.map fun entry => (entry, entry.2.report?.map fun _ => site)) where
  erase := by simp [Function.comp_def]
  report := by
    refine List.forall_mem_map.mpr fun entry hentry => ?_
    rcases hreport : entry.2.report? with _ | report
    · rfl
    · have hmem : report ∈ (engine.reportAt processId id site).toList :=
        h ▸ History.mem_reports.mpr ⟨entry, hentry, hreport⟩
      exact (Option.mem_toList.mp hmem).symm
  perm := by
    have hmarked : (history.map fun entry => (entry, entry.2.report?.map fun _ => site)).filterMap
        Prod.snd = history.reports.map fun _ => site := by
      rw [History.reports, List.filterMap_map, List.map_filterMap]
      rfl
    rw [hmarked, h, List.filter_singleton, ← isSome_reportAt engine processId id site]
    rcases engine.reportAt processId id site with _ | report <;> rfl
  inOrder := by
    refine List.pairwise_of_forall_mem_list (List.forall_mem_map.mpr fun entry _ =>
      List.forall_mem_map.mpr fun entry' _ => ?_)
    rintro first hfirst second hsecond
    obtain ⟨-, -, rfl⟩ := Option.map_eq_some_iff.mp hfirst
    obtain ⟨-, -, rfl⟩ := Option.map_eq_some_iff.mp hsecond
    exact Site.Before.irrefl _

/-- Histories one after the other. -/
theorem append (h : engine.Marks processId id sites history marks)
    (hlater : engine.Marks processId id further later others)
    (hsites : ∀ site ∈ sites, ∀ other ∈ further, ¬ other.Before site) :
    engine.Marks processId id (sites ++ further) (history ++ later) (marks ++ others) where
  erase := by rw [List.map_append, h.erase, hlater.erase]
  report := List.forall_mem_append.mpr ⟨h.report, hlater.report⟩
  perm := by
    rw [List.filterMap_append, List.filter_append]
    exact h.perm.append hlater.perm
  inOrder := List.pairwise_append.mpr ⟨h.inOrder, hlater.inOrder,
    fun mark hmark other hother site hsite site' hsite' =>
      hsites site (h.mem_sites hmark hsite) site' (hlater.mem_sites hother hsite')⟩

/-- The history of a branch as seen from the fork around it. -/
theorem under {place : Nat} (h : engine.Marks processId (id.branch place) sites history marks)
    (fork : Nat) :
    engine.Marks processId id (sites.map (Site.under fork place)) history
      (marks.map (Mark.under fork place)) where
  erase := by
    rw [List.map_map]
    exact h.erase
  report := by
    refine List.forall_mem_map.mpr fun mark hmark => (h.report mark hmark).trans ?_
    rw [Mark.under, Option.bind_map]
    exact congrArg mark.2.bind (funext fun site => (reportAt_under fork place site).symm)
  perm := by
    have hmarks : (marks.map (Mark.under fork place)).filterMap Prod.snd =
        (marks.filterMap Prod.snd).map (Site.under fork place) := by
      rw [List.filterMap_map, List.map_filterMap]
      rfl
    rw [hmarks, List.filter_map]
    exact h.perm.map _
  inOrder := by
    refine List.pairwise_map.mpr (h.inOrder.imp fun hmarks site hsite other hother hbefore => ?_)
    obtain ⟨first, hfirst, rfl⟩ := Option.map_eq_some_iff.mp hsite
    obtain ⟨second, hsecond, rfl⟩ := Option.map_eq_some_iff.mp hother
    exact hmarks first hfirst second hsecond hbefore.of_under.2

/-- Marks keep their order when they are sorted by time, if those in one branch are in the order of
time already and no two in different branches come one before the other. -/
theorem inTime (h : engine.Marks processId id sites history marks)
    (hplace : ∀ first ∈ marks, ∀ second ∈ marks, ¬ first.InOrder second →
      ∃ place, first.place? = some place ∧ second.place? = some place)
    (htime : ∀ place, (marks.filter (·.place? == some place)).Pairwise
      fun first second => first.1.1 ≤ second.1.1) :
    engine.Marks processId id sites history.inTime
      (marks.mergeSort fun first second => first.1.1 ≤ second.1.1) where
  erase := by
    rw [← h.erase]
    exact List.map_mergeSort fun _ _ _ _ => rfl
  report mark hmark := h.report mark (List.mem_mergeSort.mp hmark)
  perm := ((List.mergeSort_perm _ _).filterMap _).trans h.perm
  inOrder := pairwise_mergeSort_of_source Mark.place? h.inOrder hplace htime

end Marks

/-! ## Marks of branches -/

theorem place?_under (fork place : Nat) (mark : Mark) :
    (mark.under fork place).place? = mark.2.map fun _ => place := by
  obtain ⟨entry, _ | site⟩ := mark <;> rfl

/-- Marks in branches begun at one fork are of one branch if the second one should come first. -/
theorem place_eq_of_not_inOrder {fork place other : Nat} {first second : Mark}
    (h : ¬ (first.under fork place).InOrder (second.under fork other)) :
    place = other ∧ (first.under fork place).place? = some place ∧
      (second.under fork other).place? = some place := by
  rw [Mark.InOrder] at h
  push Not at h
  obtain ⟨site, hsite, site', hsite', hbefore⟩ := h
  obtain ⟨inner, hinner, rfl⟩ := Option.map_eq_some_iff.mp hsite
  obtain ⟨inner', hinner', rfl⟩ := Option.map_eq_some_iff.mp hsite'
  obtain rfl := hbefore.of_under.1
  rw [place?_under, place?_under, hinner, hinner']
  exact ⟨rfl, rfl, rfl⟩

section Branches

variable {told : List (Trail × History)} {fork : Nat}
  {marks : (Trail × History) × Nat → List Mark}

/-- The marks in the histories of branches, one history behind the other. -/
def marksWithin (fork : Nat) (told : List (Trail × History))
    (marks : (Trail × History) × Nat → List Mark) : List Mark :=
  told.zipIdx.flatMap fun entry => (marks entry).map (Mark.under fork entry.2)

theorem mem_marksWithin {mark : Mark} : mark ∈ marksWithin fork told marks ↔
    ∃ entry ∈ told.zipIdx, ∃ inner ∈ marks entry, inner.under fork entry.2 = mark := by
  simp [marksWithin, List.mem_flatMap]

/-- A relation between marks in branches that holds within each branch, and between different ones.
-/
theorem pairwise_marksWithin {relation : Mark → Mark → Prop}
    (hwithin : ∀ entry ∈ told.zipIdx, (marks entry).Pairwise fun first second =>
      relation (first.under fork entry.2) (second.under fork entry.2))
    (hbetween : ∀ (place other : Nat) (first second : Mark), place ≠ other →
      relation (first.under fork place) (second.under fork other)) :
    (marksWithin fork told marks).Pairwise relation := by
  have hplaces : (told.zipIdx.map Prod.snd).Nodup := by
    rw [List.zipIdx_map_snd]
    exact List.nodup_range'
  refine List.pairwise_flatMap.mpr ⟨fun entry hentry => ?_, ?_⟩
  · exact List.pairwise_map.mpr (hwithin entry hentry)
  · refine (List.pairwise_map.mp hplaces).imp fun hne first hfirst second hsecond => ?_
    obtain ⟨inner, -, rfl⟩ := List.mem_map.mp hfirst
    obtain ⟨inner', -, rfl⟩ := List.mem_map.mp hsecond
    exact hbetween _ _ inner inner' hne

variable (hmarks : ∀ entry ∈ told.zipIdx,
  engine.Marks processId (id.branch entry.2) (entry.1.1.sites 0) entry.1.2 (marks entry))

include hmarks in
theorem marks_marksWithin :
    engine.Marks processId id (Trail.sitesWithin fork (told.map Prod.fst))
      (told.flatMap Prod.snd) (marksWithin fork told marks) where
  erase := by
    rw [marksWithin, List.map_flatMap, ← flatMap_fst_zipIdx Prod.snd]
    exact List.flatMap_congr fun entry hentry => ((hmarks entry hentry).under fork).erase
  report mark hmark := by
    obtain ⟨entry, hentry, inner, hinner, rfl⟩ := mem_marksWithin.mp hmark
    exact ((hmarks entry hentry).under fork).report _ (List.mem_map_of_mem hinner)
  perm := by
    rw [marksWithin, Trail.sitesWithin, List.zipIdx_map, List.flatMap_map, List.filterMap_flatMap,
      List.filter_flatMap]
    exact List.Perm.flatMap_left _ fun entry hentry => ((hmarks entry hentry).under fork).perm
  inOrder := by
    refine pairwise_marksWithin (fun entry hentry => ?_) fun place other first second hne => ?_
    · exact List.pairwise_map.mp ((hmarks entry hentry).under fork).inOrder
    · by_contra hnot
      exact hne (place_eq_of_not_inOrder hnot).1

include hmarks in
/-- The histories of branches that are laid over one clock can be marked. -/
theorem marks_inTime (ordered : ∀ branch ∈ told, branch.2.Ordered) :
    engine.Marks processId id (Trail.sitesWithin fork (told.map Prod.fst))
      (History.inTime (told.flatMap Prod.snd))
      ((marksWithin fork told marks).mergeSort fun first second => first.1.1 ≤ second.1.1) := by
  refine (marks_marksWithin hmarks).inTime (fun first hfirst second hsecond hnot => ?_)
    fun place => List.pairwise_filter.mpr ?_
  · obtain ⟨_, -, inner, -, rfl⟩ := mem_marksWithin.mp hfirst
    obtain ⟨_, -, inner', -, rfl⟩ := mem_marksWithin.mp hsecond
    exact ⟨_, (place_eq_of_not_inOrder hnot).2⟩
  · refine pairwise_marksWithin (fun entry hentry => ?_) ?_
    · have htime := ordered entry.1 (List.fst_mem_of_mem_zipIdx hentry)
      rw [← (hmarks entry hentry).erase] at htime
      exact (List.pairwise_map.mp htime).imp fun hle _ _ => hle
    · -- marks in different branches are not both in the branch of one place
      intro first' second' first second hne hfirst hsecond
      rw [place?_under, beq_iff_eq, Option.map_eq_some_iff] at hfirst hsecond
      obtain ⟨-, -, rfl⟩ := hfirst
      obtain ⟨-, -, rfl⟩ := hsecond
      exact absurd rfl hne

end Branches

/-! ## Marks of traversals -/

/-- The history of a traversal can be marked by its visits. -/
theorem Tells.exists_marks {trail : Trail} {history : History}
    (h : engine.Tells processId id trail history) (number : Nat) :
    ∃ marks, engine.Marks processId id (trail.sites number) history marks := by
  induction h generalizing number with
  | halt silent =>
    rw [Trail.sites_halt]
    exact ⟨_, .silent silent⟩
  | @visit id came element vars told rest before after further reports each ordered silent _ goes
      ih ihgoes =>
    rw [Trail.sites_visit]
    choose! marks hmarks using fun entry hentry => ih entry hentry 0
    obtain ⟨others, hothers⟩ := ihgoes (number + 1)
    have hfirst : engine.Marks processId id [⟨[], number, element, vars⟩] before _ :=
      .single reports
    have hbranches : engine.Marks processId id (Trail.sitesWithin number (told.map Prod.fst)) _ _ :=
      marks_inTime hmarks ordered
    have hafter : engine.Marks processId id [] after _ := .silent silent
    -- nothing behind the join comes before the branches, and nothing in them before the fork
    have hrest := hafter.append hothers nofun
    have hbehind := hbranches.append hrest fun site hsite other hother hbefore => by
      have hsite := Trail.turn_of_mem_sitesWithin hsite
      have hother := Trail.le_turn_of_mem_sites other hother
      have hle := hbefore.turn_le
      omega
    refine ⟨_, hfirst.append hbehind fun site hsite other hother hbefore => ?_⟩
    obtain rfl := List.mem_singleton.mp hsite
    have hlt := hbefore.turn_lt rfl
    rcases List.mem_append.mp hother with hother | hother
    · exact Nat.lt_irrefl _ (Trail.turn_of_mem_sitesWithin hother ▸ hlt)
    · have hother := Trail.le_turn_of_mem_sites other hother
      dsimp only at hlt
      omega

/-! ## Runs -/

/-- Marks say of each report which visit it is of. -/
theorem Marks.map_reports {sites : List Site} {history : History} {marks : List Mark}
    (h : engine.Marks processId id sites history marks) :
    history.reports.map some =
      (marks.filterMap Prod.snd).map (engine.reportAt processId id) := by
  have htasks : ∀ mark ∈ marks, ∀ site ∈ mark.2, site.element.isTask = true := by
    intro mark hmark site hsite
    exact (List.mem_filter.mp (h.perm.mem_iff.mp
      (List.mem_filterMap.mpr ⟨mark, hmark, hsite⟩))).2
  rw [← h.erase, History.reports, List.filterMap_map, List.map_filterMap, List.map_filterMap]
  refine List.filterMap_congr fun mark hmark => ?_
  rw [Function.comp, h.report mark hmark]
  rcases hsite : mark.2 with _ | site
  · rfl
  · obtain ⟨report, hreport⟩ := Option.isSome_iff_exists.mp
      ((isSome_reportAt engine processId id site).trans (htasks mark hmark site hsite))
    simp [hreport]

/-- What comes before another visit is reported at an earlier place. -/
theorem Marks.lt_of_before {sites : List Site} {history : History} {marks : List Mark}
    (h : engine.Marks processId id sites history marks) {earlier later : Nat} {first second : Site}
    (hfirst : (marks.filterMap Prod.snd)[earlier]? = some first)
    (hsecond : (marks.filterMap Prod.snd)[later]? = some second) (hbefore : first.Before second) :
    earlier < later := by
  have horder : (marks.filterMap Prod.snd).Pairwise fun site other => ¬ other.Before site :=
    List.pairwise_filterMap.mpr (h.inOrder.imp fun hmarks site hsite other hother =>
      hmarks site hsite other hother)
  obtain ⟨hearlier, rfl⟩ := List.getElem?_eq_some_iff.mp hfirst
  obtain ⟨hlater, rfl⟩ := List.getElem?_eq_some_iff.mp hsecond
  rcases Nat.lt_trichotomy earlier later with hlt | rfl | hlt
  · exact hlt
  · exact absurd hbefore (Site.Before.irrefl _)
  · exact absurd hbefore (List.pairwise_iff_getElem.mp horder later earlier hlater hearlier hlt)

/-- **Joins are barriers.** Let a run not be cut off for its nesting.  Then its reports are those of
the visits to tasks, each of them once, in an order in which every visit stands behind those that
come before it in some traversal, the run's own or that of a branch at whatever depth: behind the
visits that the traversal has made itself, behind those before the fork if it is in a branch, and
behind all visits in the branches if it is behind their fork.  This is the order of time.  How long
executors take does not matter to it. -/
theorem joins_are_barriers (engine : Engine) (definition : Definition) (levels : Nat)
    (context : Context) (now : Nat)
    (hbounded : (engine.runThrough definition levels context now).value.1 ≠ .unbounded) :
    let run := engine.runThrough definition levels context now
    ∃ trail, engine.Leaves definition context trail ∧
      run.value.2.path = context.path ++ (trail.sites 0).map (·.element.id) ∧
      run.history.Ordered ∧
      ∃ order : List Site, order.Perm ((trail.sites 0).filter (·.element.isTask)) ∧
        run.history.reports.map some =
          order.map (engine.reportAt context.processId context.instanceId) ∧
        ∀ (earlier later : Nat) (first second : Site), order[earlier]? = some first →
          order[later]? = some second → first.Precedes second → earlier < later := by
  intro run
  obtain ⟨trail, hleaves, hdepth⟩ := exists_leaves hbounded
  have hvalue : run.value = _ := hleaves.value_runThrough hdepth now
  have hordered : run.Obeys History.Within now :=
    obeys_runThrough History.law_within engine.within_runTask levels context now
  obtain ⟨marks, hmarks⟩ := (hleaves.tells hdepth now).exists_marks 0
  refine ⟨trail, hleaves, ?_, hordered.ordered, marks.filterMap Prod.snd, hmarks.perm,
    hmarks.map_reports, ?_⟩
  · have hids : (trail.sites 0).map (·.element.id) = trail.path := by
      rw [← trail.map_id_stations, ← trail.map_station_sites 0, List.map_map]
      rfl
    rw [hvalue, hids]
    rfl
  · intro earlier later first second hfirst hsecond hprecedes
    exact hmarks.lt_of_before hfirst hsecond hprecedes.before

end Engine

/-! ## Two forks and three tasks around them

A task, a fork with another one in it, and a task behind the join.  The delays decide in which order
the three branches report, but no branch reports before the first task or after the last one. -/

namespace Surrounded

/-- A fork into a task and into a fork of two tasks, with a task before it and one behind it. -/
def process : Definition where
  id := "surrounded"
  name := none
  elements := [⟨"start", none, .startEvent⟩, ⟨"first", none, .task .service (TaskSpec.of "one")⟩,
    ⟨"outer", none, .parallelGateway⟩, ⟨"alone", none, .task .service (TaskSpec.of "one")⟩,
    ⟨"inner", none, .parallelGateway⟩, ⟨"left", none, .task .user (TaskSpec.of "other")⟩,
    ⟨"right", none, .task .service (TaskSpec.of "one")⟩, ⟨"join", none, .parallelGateway⟩,
    ⟨"last", none, .task .service (TaskSpec.of "one")⟩, ⟨"end", none, .endEvent⟩]
  flows := [⟨"start", "first", none⟩, ⟨"first", "outer", none⟩, ⟨"outer", "alone", none⟩,
    ⟨"outer", "inner", none⟩, ⟨"inner", "left", none⟩, ⟨"inner", "right", none⟩,
    ⟨"left", "join", none⟩, ⟨"right", "join", none⟩, ⟨"alone", "join", none⟩,
    ⟨"join", "last", none⟩, ⟨"last", "end", none⟩]

/-- An engine with two agents, each of which takes some time. -/
def engine (one other : Nat) : Engine where
  maxSteps := 10
  evaluator := fun _ _ => true
  sink := .null
  agents := [("one", ⟨some (.constant (.int 1) one), none, none, .recording "spans"⟩),
    ("other", ⟨some (.constant (.int 2) other), none, none, .null⟩)]
  processes := [("surrounded", process)]

/-- The beginning of the run. -/
def context : Context :=
  .start "surrounded" ⟨"i"⟩ []

theorem bounded : ((engine 1 6).runThrough process 3 context 0).value.1 ≠ .unbounded := by
  decide +kernel

/-- The reports of the run keep the order of its visits around the forks. -/
theorem order_of_reports :
    ((engine 1 6).runThrough process 3 context 0).value.1 ≠ .unbounded ∧
      ∃ trail, (engine 1 6).Leaves process context trail ∧
        ∃ order : List Site, order.Perm ((trail.sites 0).filter (·.element.isTask)) ∧
          ((engine 1 6).runThrough process 3 context 0).history.reports.map some =
            order.map ((engine 1 6).reportAt "surrounded" ⟨"i"⟩) ∧
          ∀ (earlier later : Nat) (first second : Site), order[earlier]? = some first →
            order[later]? = some second → first.Precedes second → earlier < later := by
  obtain ⟨trail, hleaves, -, -, order, horder⟩ :=
    Engine.joins_are_barriers (engine 1 6) process 3 context 0 bounded
  exact ⟨bounded, trail, hleaves, order, horder⟩

example : ((engine 1 6).runThrough process 3 context 0).history.reports.map Report.taskId =
    ["first", "alone", "right", "left", "last"] := by cbv

example : ((engine 6 1).runThrough process 3 context 0).history.reports.map Report.taskId =
    ["first", "left", "alone", "right", "last"] := by cbv

end Surrounded

end Workflow
