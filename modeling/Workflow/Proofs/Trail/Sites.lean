import Workflow.Proofs.Trail.Stations

/-!
# Where in a trail visits are

A station tells in which branch a visit was, but not at which fork the branch was begun, nor which
of several visits came first.  So let every traversal count its own visits.  The site of a visit
tells its number, and on the way down to its branch, at each fork, the number of the fork among the
visits of its traversal and the place of the branch.

* `Trail.sites` — the visits in a trail with their sites, in the order of the path.
* `Site.Precedes` — one visit comes before another one: both are visits of one traversal, or of
  branches that it begins, and it comes to the one, or to the fork, before it comes to the other.
-/

namespace Workflow

/-- A visit of a traversal or of a branch in it, and where it is. -/
structure Site where
  /-- the way down to the branch that made the visit: at each fork, its number among the visits of
  the traversal that began the branch, and the place of the branch -/
  way : List (Nat × Nat)
  /-- the number of the visit among those of its branch -/
  number : Nat
  /-- the element that was visited -/
  element : Element
  /-- the variables before the visit -/
  vars : Variables

namespace Site

/-- The visit without numbers. -/
def station (site : Site) : Station :=
  ⟨site.way.map Prod.snd, site.element, site.vars⟩

/-- A visit as seen from the fork around its branch. -/
def under (fork place : Nat) (site : Site) : Site :=
  { site with way := (fork, place) :: site.way }

variable {first second : Site} {fork place number : Nat}

/-! ## Which visits come first -/

/-- One visit comes before another one in some traversal. -/
inductive Precedes (first second : Site) : Prop where
  /-- the traversal makes both itself -/
  | visits (way : first.way = second.way) (before : first.number < second.number)
  /-- it makes the first one, and the second one is in a branch begun at a later visit -/
  | enters {fork place : Nat} {inner : List (Nat × Nat)}
    (way : second.way = first.way ++ (fork, place) :: inner) (before : first.number < fork)
  /-- it makes the second one, and the first one is in a branch begun at an earlier visit -/
  | leaves {fork place : Nat} {inner : List (Nat × Nat)}
    (way : first.way = second.way ++ (fork, place) :: inner) (before : fork < second.number)
  /-- they are in branches begun at an earlier and at a later visit -/
  | passes {shared : List (Nat × Nat)} {fork place later other : Nat}
    {inner further : List (Nat × Nat)} (way : first.way = shared ++ (fork, place) :: inner)
    (way' : second.way = shared ++ (later, other) :: further) (before : fork < later)

/-- At which of its visits a traversal makes a visit that is further down, or begins the branch in
which it is. -/
def turn : List (Nat × Nat) → Nat → Nat
  | [], number => number
  | (fork, _) :: _, _ => fork

/-- Two visits further down from one traversal, the first of them at an earlier visit of it. -/
def Before (first second : Site) : Prop :=
  ∃ shared way way' : List (Nat × Nat), first.way = shared ++ way ∧ second.way = shared ++ way' ∧
    turn way first.number < turn way' second.number

theorem Precedes.before (h : first.Precedes second) : first.Before second := by
  cases h with
  | visits way before => exact ⟨first.way, [], [], by simp, by simp [way], before⟩
  | enters way before => exact ⟨first.way, [], _, by simp, way, before⟩
  | leaves way before => exact ⟨second.way, _, [], way, by simp, before⟩
  | passes way way' before => exact ⟨_, _, _, way, way', before⟩

theorem Before.irrefl (site : Site) : ¬ site.Before site := by
  rintro ⟨shared, way, way', hway, hway', hlt⟩
  obtain rfl := List.append_cancel_left (hway.symm.trans hway')
  exact Nat.lt_irrefl _ hlt

/-- What comes first does not begin at a later visit. -/
theorem Before.turn_le (h : first.Before second) :
    turn first.way first.number ≤ turn second.way second.number := by
  obtain ⟨shared, way, way', hway, hway', hlt⟩ := h
  rw [hway, hway']
  rcases shared with _ | ⟨step, shared⟩
  · exact Nat.le_of_lt hlt
  · exact Nat.le_refl _

/-- What comes before a visit of the traversal itself begins at an earlier one. -/
theorem Before.turn_lt (h : first.Before second) (hway : second.way = []) :
    turn first.way first.number < second.number := by
  obtain ⟨shared, way, way', hfirst, hsecond, hlt⟩ := h
  rw [hway] at hsecond
  obtain ⟨rfl, rfl⟩ := List.append_eq_nil_iff.mp hsecond.symm
  rw [hfirst]
  exact hlt

/-- Visits in branches begun at one fork are compared in one branch. -/
theorem Before.of_under {other : Nat}
    (h : (first.under fork place).Before (second.under fork other)) :
    place = other ∧ first.Before second := by
  obtain ⟨shared, way, way', hfirst, hsecond, hlt⟩ := h
  rcases shared with _ | ⟨step, shared⟩
  · -- both begin at the fork
    obtain rfl : (fork, place) :: first.way = way := hfirst
    obtain rfl : (fork, other) :: second.way = way' := hsecond
    exact absurd hlt (Nat.lt_irrefl fork)
  · obtain ⟨hstep, hfirst⟩ := List.cons.inj hfirst
    obtain ⟨hstep', hsecond⟩ := List.cons.inj hsecond
    exact ⟨congrArg Prod.snd (hstep.trans hstep'.symm), shared, way, way', hfirst, hsecond, hlt⟩

end Site

namespace Trail

/-! ## The sites of a trail -/

/-- The visits of a traversal, which has made so many visits before, and of its branches, in the
order of the path. -/
def sites (number : Nat) : Trail → List Site
  | halt _ _ _ => []
  | visit _ element vars branches rest =>
    ⟨[], number, element, vars⟩ ::
      ((branches.map (sites 0)).zipIdx.flatMap (fun (visits, place) =>
        visits.map (Site.under number place)) ++ rest.sites (number + 1))

/-- The visits of the branches that were begun at one visit. -/
def sitesWithin (fork : Nat) (branches : List Trail) : List Site :=
  branches.zipIdx.flatMap fun (branch, place) => (branch.sites 0).map (Site.under fork place)

variable {number : Nat} {came : Option Arc} {element : Element} {vars : Variables}
  {branches : List Trail} {rest : Trail} {outcome : Outcome}

@[simp] theorem sites_halt : (halt came outcome vars).sites number = [] := by
  rw [sites]

@[simp] theorem sites_visit : (visit came element vars branches rest).sites number =
    ⟨[], number, element, vars⟩ ::
      (sitesWithin number branches ++ rest.sites (number + 1)) := by
  rw [sites, sitesWithin, List.zipIdx_map, List.flatMap_map]
  rfl

theorem mem_sitesWithin {fork : Nat} {site : Site} :
    site ∈ sitesWithin fork branches ↔ ∃ (branch : Trail) (place : Nat),
      branches[place]? = some branch ∧
        ∃ inner ∈ branch.sites 0, inner.under fork place = site := by
  simp [sitesWithin, List.mem_flatMap, List.mem_zipIdx_iff_getElem?]

/-- Visits in branches begin at the fork. -/
theorem turn_of_mem_sitesWithin {fork : Nat} {site : Site} (h : site ∈ sitesWithin fork branches) :
    Site.turn site.way site.number = fork := by
  obtain ⟨_, _, -, _, -, rfl⟩ := mem_sitesWithin.mp h
  rfl

/-- No visit begins before those that the traversal has made before. -/
theorem le_turn_of_mem_sites {trail : Trail} :
    ∀ site ∈ trail.sites number, number ≤ Site.turn site.way site.number := by
  induction trail using Trail.induction generalizing number with
  | halt => simp
  | visit came element vars branches rest _ ih =>
    rw [sites_visit, List.forall_mem_cons, List.forall_mem_append]
    exact ⟨Nat.le_refl _, fun site hsite => Nat.le_of_eq (turn_of_mem_sitesWithin hsite).symm,
      fun site hsite => Nat.le_of_succ_le (ih site hsite)⟩

/-- Without numbers, these are the visits in the trail. -/
theorem map_station_sites (trail : Trail) (number : Nat) :
    (trail.sites number).map Site.station = trail.stations := by
  induction trail using Trail.induction generalizing number with
  | halt => simp
  | visit came element vars branches rest ihb ih =>
    have hbranches : (sitesWithin number branches).map Site.station = inBranches branches := by
      rw [sitesWithin, inBranches, List.map_flatMap]
      refine List.flatMap_congr fun entry hentry => ?_
      dsimp only
      rw [← ihb entry.1 (List.fst_mem_of_mem_zipIdx hentry) 0, List.map_map, List.map_map]
      rfl
    rw [sites_visit, stations_visit, List.map_cons, List.map_append, hbranches, ih]
    rfl

end Trail

end Workflow
