import Mathlib.Data.List.Basic
import Workflow.Engine.Run

/-!
# Time and order

Histories of branches side by side are laid over one clock.  Sorting by time is stable, so whatever
is in order in the one history after the other keeps its order in the history of both
(`History.filter_inTime`).  And every history is in order, since in no part of a traversal time goes
back.

* `Timed.Law` — a property that a computation has if its parts do.
* `Engine.obeys_traverse` — a traversal obeys every such law that its tasks obey.
* `History.Within` — nothing happens before a computation begins or after it is finished, and what
  happens is in order.
-/

namespace Workflow

/-! ## Sorting by a number -/

section Sorting

variable {α : Type} {key : α → Nat} {l : List α}

theorem le_trans_key (a b c : α) (hab : decide (key a ≤ key b) = true)
    (hbc : decide (key b ≤ key c) = true) : decide (key a ≤ key c) = true := by
  rw [decide_eq_true_eq] at *
  exact Nat.le_trans hab hbc

theorem le_total_key (a b : α) : (decide (key a ≤ key b) || decide (key b ≤ key a)) = true := by
  rw [Bool.or_eq_true, decide_eq_true_eq, decide_eq_true_eq]
  exact Nat.le_total _ _

/-- What is in order among the members of a list keeps its order. -/
theorem filter_mergeSort (p : α → Bool) (h : (l.filter p).Pairwise fun a b => key a ≤ key b) :
    (l.mergeSort fun a b => key a ≤ key b).filter p = l.filter p := by
  have hsublist : (l.filter p).Sublist (l.mergeSort fun a b => key a ≤ key b) :=
    List.sublist_mergeSort le_trans_key le_total_key (h.imp decide_eq_true) List.filter_sublist
  have hfiltered : (l.filter p).Sublist ((l.mergeSort fun a b => key a ≤ key b).filter p) := by
    simpa using hsublist.filter p
  have hperm := (List.mergeSort_perm l fun a b => key a ≤ key b).filter p
  exact (hfiltered.eq_of_length hperm.symm.length_eq).symm

/-- Let the members of a list come from several sources, those of each source in order.  A relation
between the members in their places that can only fail within one source still holds when they are
sorted. -/
theorem pairwise_mergeSort_of_source {β : Type} [BEq β] [LawfulBEq β] {relation : α → α → Prop}
    (source : α → Option β) (h : l.Pairwise relation)
    (hsource : ∀ a ∈ l, ∀ b ∈ l, ¬ relation a b → ∃ s, source a = some s ∧ source b = some s)
    (hkey : ∀ s, (l.filter (source · == some s)).Pairwise fun a b => key a ≤ key b) :
    (l.mergeSort fun a b => key a ≤ key b).Pairwise relation := by
  rw [List.pairwise_iff_forall_sublist]
  intro a b hpair
  by_contra hrelation
  have ha : a ∈ l := List.mem_mergeSort.mp (hpair.subset (by simp))
  have hb : b ∈ l := List.mem_mergeSort.mp (hpair.subset (by simp))
  obtain ⟨s, hsa, hsb⟩ := hsource a ha b hb hrelation
  -- both come from one source, so they stood in this order before
  have hfilter := hpair.filter (source · == some s)
  rw [filter_mergeSort _ (hkey s), List.filter_cons_of_pos (by simp [hsa]),
    List.filter_cons_of_pos (by simp [hsb]), List.filter_nil] at hfilter
  exact hrelation (List.pairwise_iff_forall_sublist.mp h (hfilter.trans List.filter_sublist))

end Sorting

/-! ## Histories in order -/

namespace History

variable {history : History}

/-- Time does not go back. -/
def Ordered (history : History) : Prop :=
  history.Pairwise fun a b => a.1 ≤ b.1

theorem perm_inTime (history : History) : history.inTime.Perm history :=
  List.mergeSort_perm _ _

theorem ordered_inTime (history : History) : history.inTime.Ordered :=
  (List.pairwise_mergeSort le_trans_key le_total_key history).imp of_decide_eq_true

theorem inTime_of_ordered (h : history.Ordered) : history.inTime = history :=
  List.mergeSort_of_pairwise (h.imp decide_eq_true)

theorem mem_inTime {entry : Nat × Occurrence} : entry ∈ history.inTime ↔ entry ∈ history :=
  history.perm_inTime.mem_iff

/-- What is in order among the occurrences of a history keeps its order. -/
theorem filter_inTime (p : Nat × Occurrence → Bool) (h : Ordered (history.filter p)) :
    history.inTime.filter p = history.filter p :=
  filter_mergeSort p h

end History

/-! ## Laws of time -/

namespace Timed

/-- A property of when a computation begins, when it is finished and what happens in it, which a
computation has if its parts have it. -/
structure Law (law : Nat → Nat → History → Prop) : Prop where
  /-- a computation that is finished at once -/
  done (now : Nat) (occurrences : List Occurrence) :
    law now now (occurrences.map fun occurrence => (now, occurrence))
  /-- one computation after the other -/
  andThen {start middle finish : Nat} {first second : History} (hfirst : law start middle first)
    (hsecond : law middle finish second) : law start finish (first ++ second)
  /-- computations side by side -/
  all {now : Nat} {parts : List (Nat × History)} (hparts : ∀ part ∈ parts, law now part.1 part.2) :
    law now (parts.foldl (fun latest part => max latest part.1) now)
      (History.inTime (parts.flatMap Prod.snd))

/-- A computation that begins at a time has a property. -/
def Obeys {α : Type} (law : Nat → Nat → History → Prop) (now : Nat) (t : Timed α) : Prop :=
  law now t.finish t.history

namespace Law

variable {α β : Type} {law : Nat → Nat → History → Prop} {now : Nat}

theorem obeys_done (h : Law law) (now : Nat) (value : α) (history : List Occurrence) :
    (Timed.done now value history).Obeys law now :=
  h.done now history

theorem obeys_andThen (h : Law law) {first : Timed α} {next : α → Nat → Timed β}
    (hfirst : first.Obeys law now) (hnext : ∀ value now, (next value now).Obeys law now) :
    (first.andThen next).Obeys law now :=
  h.andThen hfirst (hnext first.value first.finish)

theorem obeys_all (h : Law law) {branches : List (Timed α)}
    (hbranches : ∀ branch ∈ branches, branch.Obeys law now) :
    (Timed.all now branches).Obeys law now := by
  have hparts : ∀ part ∈ branches.map fun branch => (branch.finish, branch.history),
      law now part.1 part.2 := by
    rintro part hpart
    obtain ⟨branch, hbranch, rfl⟩ := List.mem_map.mp hpart
    exact hbranches branch hbranch
  have hall := h.all hparts
  rw [List.foldl_map, List.flatMap_map] at hall
  exact hall

end Law

end Timed

namespace Engine

variable {engine : Engine} {definition : Definition} {law : Nat → Nat → History → Prop}

theorem obeys_leave (hlaw : Timed.Law law) (element : Element) (vars : Variables) (now : Nat) :
    (leave definition element vars now).Obeys law now := by
  unfold leave
  split <;> exact hlaw.obeys_done _ _ _

theorem obeys_choose (hlaw : Timed.Law law) (gateway : Element) (vars : Variables) (now : Nat) :
    (engine.choose definition gateway vars now).Obeys law now := by
  unfold choose
  split
  · exact hlaw.obeys_done _ _ _
  · split <;> exact hlaw.obeys_done _ _ _

theorem obeys_reunion (hlaw : Timed.Law law) (inBranch : Bool) (gateway : Element)
    (vars : Variables) (branches : List Traversal) (now : Nat) :
    (reunion definition inBranch gateway vars branches now).Obeys law now := by
  unfold reunion
  split <;> exact hlaw.obeys_done _ _ _

section Branches

variable {branch : BranchTraversal} (hlaw : Timed.Law law)
  (htask : ∀ element spec context now, (engine.runTask element spec context now).Obeys law now)
  (hbranch : ∀ context id now, (branch context id now).Obeys law now)

include hlaw hbranch in
theorem obeys_fork (inBranch : Bool) (gateway : Element) (flows : List Flow) (context : Context)
    (now : Nat) :
    (fork definition inBranch branch gateway flows context now).Obeys law now := by
  refine hlaw.obeys_andThen (hlaw.obeys_done _ _ _) fun _ now => ?_
  refine hlaw.obeys_andThen (hlaw.obeys_all ?_) fun branches now =>
    obeys_reunion hlaw inBranch gateway context.vars branches now
  intro traversal htraversal
  obtain ⟨⟨flow, index⟩, -, rfl⟩ := List.mem_map.mp htraversal
  exact hbranch _ _ _

include hlaw htask hbranch in
theorem obeys_visit (inBranch : Bool) (element : Element) (context : Context) (now : Nat) :
    (engine.visit definition inBranch branch element context now).Obeys law now := by
  unfold visit
  split
  · exact hlaw.obeys_done _ _ _
  · exact obeys_leave hlaw _ _ _
  · refine hlaw.obeys_andThen (htask _ _ _ _) fun outcome now => ?_
    split
    · exact obeys_leave hlaw _ _ _
    · exact hlaw.obeys_done _ _ _
  · exact obeys_choose hlaw _ _ _
  · split
    · exact obeys_fork hlaw hbranch _ _ _ _ _
    · exact obeys_leave hlaw _ _ _

include hlaw htask hbranch in
theorem obeys_walk (inBranch : Bool) (remaining : Nat) (resumed : Bool) (context : Context)
    (id : String) (now : Nat) :
    (engine.walk definition inBranch branch remaining resumed context id now).Obeys law now := by
  induction remaining generalizing resumed context id now with
  | zero =>
    unfold walk
    split
    · exact hlaw.obeys_done _ _ _
    · split <;> exact hlaw.obeys_done _ _ _
  | succ remaining ih =>
    unfold walk
    split
    · exact hlaw.obeys_done _ _ _
    · split
      · exact hlaw.obeys_done _ _ _
      · refine hlaw.obeys_andThen (hlaw.obeys_done _ _ _) fun _ now => ?_
        refine hlaw.obeys_andThen (obeys_visit hlaw htask hbranch _ _ _ _) fun visit now => ?_
        dsimp only
        split
        · exact hlaw.obeys_done _ _ _
        · exact ih _ _ _ _

end Branches

/-- A traversal obeys every law of time that its tasks obey. -/
theorem obeys_traverse (hlaw : Timed.Law law)
    (htask : ∀ element spec context now, (engine.runTask element spec context now).Obeys law now)
    (levels : Nat) (inBranch : Bool) (context : Context) (id : String) (now : Nat) :
    (engine.traverse definition levels inBranch context id now).Obeys law now := by
  induction levels generalizing inBranch context id now with
  | zero => exact obeys_walk hlaw htask (fun _ _ _ => hlaw.obeys_done _ _ _) _ _ _ _ _ _
  | succ levels ih => exact obeys_walk hlaw htask (fun _ _ _ => ih true _ _ _) _ _ _ _ _ _

/-- So does a run. -/
theorem obeys_runThrough (hlaw : Timed.Law law)
    (htask : ∀ element spec context now, (engine.runTask element spec context now).Obeys law now)
    (levels : Nat) (context : Context) (now : Nat) :
    (engine.runThrough definition levels context now).Obeys law now := by
  unfold runThrough
  split
  · exact hlaw.obeys_done _ _ _
  · refine hlaw.obeys_andThen (hlaw.obeys_done _ _ _) fun _ now => ?_
    refine hlaw.obeys_andThen (obeys_traverse hlaw htask _ _ _ _ _) fun traversal finish => ?_
    exact hlaw.obeys_done _ _ _

end Engine

/-! ## Time does not go back -/

/-- What happens is in order, and nothing happens outside a span of time. -/
structure History.Within (start finish : Nat) (history : History) : Prop where
  /-- the end is not before the beginning -/
  le : start ≤ finish
  /-- time does not go back -/
  ordered : history.Ordered
  /-- nothing happens before the beginning, and nothing after the end -/
  bounds : ∀ entry ∈ history, start ≤ entry.1 ∧ entry.1 ≤ finish

theorem le_foldl_max {α : Type} (f : α → Nat) (now : Nat) (parts : List α) :
    now ≤ parts.foldl (fun latest part => max latest (f part)) now ∧
      ∀ part ∈ parts, f part ≤ parts.foldl (fun latest part => max latest (f part)) now := by
  induction parts generalizing now with
  | nil => exact ⟨Nat.le_refl _, nofun⟩
  | cons first more ih =>
    obtain ⟨hnow, hmore⟩ := ih (max now (f first))
    refine ⟨Nat.le_trans (Nat.le_max_left _ _) hnow, fun part hpart => ?_⟩
    rcases List.mem_cons.mp hpart with rfl | hpart
    · exact Nat.le_trans (Nat.le_max_right _ _) hnow
    · exact hmore part hpart

theorem History.law_within : Timed.Law History.Within where
  done now occurrences := by
    refine ⟨Nat.le_refl now, ?_, ?_⟩
    · exact List.pairwise_map.mpr (List.pairwise_of_forall fun _ _ => Nat.le_refl now)
    · rintro entry hentry
      obtain ⟨_, -, rfl⟩ := List.mem_map.mp hentry
      exact ⟨Nat.le_refl now, Nat.le_refl now⟩
  andThen hfirst hsecond := by
    refine ⟨Nat.le_trans hfirst.le hsecond.le, ?_, ?_⟩
    · refine List.pairwise_append.mpr ⟨hfirst.ordered, hsecond.ordered, fun a ha b hb => ?_⟩
      exact Nat.le_trans (hfirst.bounds a ha).2 (hsecond.bounds b hb).1
    · intro entry hentry
      rcases List.mem_append.mp hentry with hentry | hentry
      · obtain ⟨hstart, hmiddle⟩ := hfirst.bounds entry hentry
        exact ⟨hstart, Nat.le_trans hmiddle hsecond.le⟩
      · obtain ⟨hmiddle, hfinish⟩ := hsecond.bounds entry hentry
        exact ⟨Nat.le_trans hfirst.le hmiddle, hfinish⟩
  all {now parts} hparts := by
    obtain ⟨hnow, hlast⟩ := le_foldl_max Prod.fst now parts
    refine ⟨hnow, History.ordered_inTime _, fun entry hentry => ?_⟩
    obtain ⟨part, hpart, hmem⟩ := List.mem_flatMap.mp (History.mem_inTime.mp hentry)
    obtain ⟨hstart, hfinish⟩ := (hparts part hpart).bounds entry hmem
    exact ⟨hstart, Nat.le_trans hfinish (hlast part hpart)⟩

namespace Engine

variable (engine : Engine) (definition : Definition)

theorem within_runTask (element : Element) (spec : TaskSpec) (context : Context) (now : Nat) :
    (engine.runTask element spec context now).Obeys History.Within now := by
  unfold runTask
  split
  · refine History.law_within.obeys_andThen ?_ fun _ _ => History.law_within.obeys_done _ _ _
    unfold Agent.invoke
    split
    · exact History.law_within.obeys_done _ _ _
    · -- the executor is called at once, and the time that it takes passes afterwards
      exact ⟨Nat.le_add_right _ _, List.pairwise_singleton _ _, by simp⟩
  · exact History.law_within.obeys_done _ _ _

/-- In a traversal time does not go back. -/
theorem within_traverse (levels : Nat) (inBranch : Bool) (context : Context) (id : String)
    (now : Nat) :
    (engine.traverse definition levels inBranch context id now).Obeys History.Within now :=
  obeys_traverse History.law_within engine.within_runTask levels inBranch context id now

end Engine

end Workflow
