import Mathlib.Tactic.ByContra
import Mathlib.Tactic.SplitIfs
import Workflow.Files

/-!
# Files and what is written to them

A path that leads to a place goes on leading there whatever is written and however many directories
are made, since a directory stays a directory.

* `Files.read_of_openLog` — where nothing was, opening a log leaves an empty file.
* `Files.openLog_of_read` — opening a log whose file is there changes nothing.
* `Files.read_append` — writing puts text behind what is in the file.
-/

namespace Workflow.Files

open Workflow.Path

variable {files files' : Files} {path : String} {place other found pieces : List String}

/-! ## Places -/

/-- A place that is no directory is looked up by its name, in these files and in any others. -/
theorem at?_eq_get? (h : files.at? place ≠ some .directory) (others : Files) :
    others.at? place = others.entries.get? (String.intercalate "/" place) := by
  unfold at? at h ⊢
  rcases hlast : place.getLast? with _ | last
  · simp [hlast] at h
  · simp only [hlast] at h ⊢
    split_ifs at h ⊢ with hspecial
    · exact absurd rfl h
    · rfl

theorem at?_put_self (h : files.at? place ≠ some .directory) (entry : FileEntry) :
    (files.put place entry).at? place = some entry := by
  rw [at?_eq_get? h, put, Table.get?_set_self]

/-- What is put at a place leaves every other place as it is. -/
theorem at?_put (files : Files) (place other : List String) (entry : FileEntry) :
    (files.put place entry).at? other = some entry ∨
      (files.put place entry).at? other = files.at? other := by
  unfold at?
  rcases other.getLast? with _ | last
  · exact .inr rfl
  · dsimp only
    split_ifs
    · exact .inr rfl
    · rw [put, Table.get?_set]
      split_ifs
      · exact .inl rfl
      · exact .inr rfl

/-! ## Directories stay -/

/-- Whatever is a directory in some files is one in others. -/
def DirectoriesStay (files files' : Files) : Prop :=
  ∀ place, files.at? place = some .directory → files'.at? place = some .directory

/-- Where no directory is, something can be put without a directory being lost. -/
theorem directoriesStay_put (h : files.at? place ≠ some .directory) (entry : FileEntry) :
    DirectoriesStay files (files.put place entry) := by
  intro other hother
  by_contra hlost
  have hget := at?_eq_get? hlost
  by_cases hname : String.intercalate "/" place = String.intercalate "/" other
  · -- a lost directory has the name of the place, so the place was one before
    rw [hget, ← hname, ← at?_eq_get? h] at hother
    exact h hother
  · apply hlost
    rw [hget, put, Table.get?_set_ne _ _ hname, ← hget, hother]

/-- Directories that stay lead where they led. -/
theorem walk_of_directoriesStay (h : DirectoriesStay files files')
    (hwalk : files.walk place pieces = .ok found) : files'.walk place pieces = .ok found := by
  induction pieces generalizing place with
  | nil => exact hwalk
  | cons piece more ih =>
    rw [walk] at hwalk ⊢
    split_ifs at hwalk ⊢ with hleads hback hlong
    · exact ih hwalk
    · exact ih hwalk
    · rcases hat : files.at? (place ++ [piece]) with _ | _ | content
      · simp [hat] at hwalk
      · rw [h _ hat]
        rw [hat] at hwalk
        exact ih hwalk
      · simp [hat] at hwalk

/-- The way through directories ends at the place that the pieces lead to. -/
theorem eq_follow_of_walk (hwalk : files.walk place pieces = .ok found) :
    found = follow place pieces := by
  induction pieces generalizing place with
  | nil =>
    cases hwalk
    rfl
  | cons piece more ih =>
    rw [walk] at hwalk
    split_ifs at hwalk with hleads hback hlong
    · rw [ih hwalk, follow, follow, List.filter_cons_of_neg (by simpa using hleads)]
    · rw [ih hwalk, follow, follow, List.filter_cons_of_pos (by simpa using hleads),
        List.foldl_cons, if_pos hback]
    · rcases hat : files.at? (place ++ [piece]) with _ | _ | content
      · simp [hat] at hwalk
      · rw [hat] at hwalk
        rw [ih hwalk, follow, follow, List.filter_cons_of_pos (by simpa using hleads),
          List.foldl_cons, if_neg hback]
      · simp [hat] at hwalk

/-! ## Making directories -/

/-- There is nothing to make where a way leads already. -/
theorem makeDirectories_of_walk (hwalk : files.walk place pieces = .ok found) :
    files.makeDirectories place (pieces.filter leads) = (files, .ok ()) := by
  induction pieces generalizing place with
  | nil => rfl
  | cons piece more ih =>
    rw [walk] at hwalk
    split_ifs at hwalk with hleads hback hlong
    · rw [List.filter_cons_of_neg (by simpa using hleads)]
      exact ih hwalk
    · rw [List.filter_cons_of_pos (by simpa using hleads), makeDirectories, if_pos hback]
      exact ih hwalk
    · rw [List.filter_cons_of_pos (by simpa using hleads), makeDirectories, if_neg hback,
        if_neg hlong]
      rcases hat : files.at? (place ++ [piece]) with _ | _ | content
      · simp [hat] at hwalk
      · rw [hat] at hwalk
        simpa only [hat] using ih hwalk
      · simp [hat] at hwalk

/-- Making directories makes no file. -/
theorem file_of_makeDirectories {content : Content}
    (h : (files.makeDirectories place pieces).1.at? other = some (.file content)) :
    files.at? other = some (.file content) := by
  induction pieces generalizing files place with
  | nil => exact h
  | cons piece more ih =>
    rw [makeDirectories] at h
    by_cases hback : piece = ".."
    · rw [if_pos hback] at h
      exact ih h
    by_cases hlong : tooLong piece
    · rw [if_neg hback, if_pos hlong] at h
      exact h
    rw [if_neg hback, if_neg hlong] at h
    rcases hat : files.at? (place ++ [piece]) with _ | _ | old
    · simp only [hat] at h
      rcases at?_put files (place ++ [piece]) other .directory with hput | hput
      · exact nomatch (ih h).symm.trans hput
      · rw [← hput]
        exact ih h
    · simp only [hat] at h
      exact ih h
    · simp only [hat] at h
      exact h

/-! ## The place of a path -/

/-- The path of a file: directories lead to all but its last piece, which is a name. -/
structure LeadsTo (files : Files) (path : String) (directory : List String) (name : String) :
    Prop where
  nonempty : path ≠ ""
  faultless : fault? path = none
  last : (Path.pieces path).getLast? = some name
  leads : Path.leads name = true
  forward : name ≠ ".."
  fits : tooLong name = false
  walk : files.walk (origin path) (Path.pieces path).dropLast = .ok directory

variable {directory : List String} {name : String}

theorem LeadsTo.place? (h : files.LeadsTo path directory name) :
    files.place? path = .ok (some (directory ++ [name])) := by
  have hname : (Path.leads name && decide (name ≠ "..")) = true := by
    rw [h.leads, decide_eq_true h.forward]
    rfl
  simp only [Files.place?, h.faultless, h.last, if_neg h.nonempty, if_pos hname, h.walk, h.fits,
    Bool.false_eq_true, if_false, bind, Except.bind, pure, Except.pure]

theorem leadsTo_of_place? (h : files.place? path = .ok (some place)) :
    ∃ directory name, place = directory ++ [name] ∧ files.LeadsTo path directory name := by
  rw [Files.place?] at h
  cases hfault : fault? path with
  | some fault => simp [hfault] at h
  | none =>
    cases hlast : (Path.pieces path).getLast? with
    | none => simp [hfault, hlast] at h
    | some last =>
      simp only [hfault, hlast] at h
      by_cases hempty : path = ""
      · simp [hempty] at h
      rw [if_neg hempty] at h
      by_cases hname : (Path.leads last && decide (last ≠ "..")) = true
      · rw [if_pos hname] at h
        rw [Bool.and_eq_true, decide_eq_true_eq] at hname
        rcases hwalk : files.walk (origin path) (Path.pieces path).dropLast with fault | directory
        · simp [hwalk, bind, Except.bind] at h
        rcases hlong : tooLong last with _ | _
        · simp only [hwalk, hlong, bind, Except.bind, pure, Except.pure, Except.ok.injEq,
            Option.some.injEq, Bool.false_eq_true, if_false] at h
          exact ⟨directory, last, h.symm, hempty, hfault, hlast, hname.1, hname.2, hlong, hwalk⟩
        · simp [hwalk, hlong, bind, Except.bind] at h
      · rw [if_neg hname] at h
        rcases hwalk : files.walk (origin path) (Path.pieces path) with fault | found <;>
          simp [hwalk, bind, Except.bind, pure, Except.pure] at h

theorem LeadsTo.read (h : files.LeadsTo path directory name) {text : String}
    (hat : files.at? (directory ++ [name]) = some (.file (.text text))) :
    files.read path = .ok text := by
  simp [Files.read, find, h.place?, hat, bind, Except.bind, pure, Except.pure]

/-- A path from which a text is read leads to a file with that text. -/
theorem leadsTo_of_read {text : String} (h : files.read path = .ok text) :
    ∃ directory name, files.LeadsTo path directory name ∧
      files.at? (directory ++ [name]) = some (.file (.text text)) := by
  rcases hplace : files.place? path with fault | _ | place
  · simp [Files.read, find, hplace, bind, Except.bind] at h
  · simp [Files.read, find, hplace, bind, Except.bind, pure, Except.pure] at h
  · obtain ⟨directory, name, rfl, hleads⟩ := leadsTo_of_place? hplace
    refine ⟨directory, name, hleads, ?_⟩
    rcases hat : files.at? (directory ++ [name]) with _ | _ | content | _ <;>
      simp_all [Files.read, find, bind, Except.bind, pure, Except.pure]

/-! ## Opening and writing -/

/-- There is nothing to do about a file that is there. -/
theorem LeadsTo.openFile (h : files.LeadsTo path directory name) {content : Content}
    (hat : files.at? (directory ++ [name]) = some (.file content)) :
    files.openFile path = (files, .ok ()) := by
  simp [Files.openFile, h.nonempty, h.faultless, h.last, h.leads, h.forward, h.walk, h.fits, hat]

/-- Only the path of a file can be opened, and the file is made if it is not there. -/
theorem leadsTo_of_openFile (h : files.openFile path = (files', .ok ())) :
    ∃ directory name, files.LeadsTo path directory name ∧
      ((∃ content, files.at? (directory ++ [name]) = some (.file content)) ∨
        files.at? (directory ++ [name]) = none ∧
          files' = files.put (directory ++ [name]) (.file (.text ""))) := by
  rw [Files.openFile] at h
  by_cases hempty : path = ""
  · simp [hempty] at h
  cases hfault : fault? path with
  | some fault => simp [hempty, hfault] at h
  | none =>
    simp only [hempty, hfault, if_false] at h
    split at h
    · rename_i hname
      rw [Bool.and_eq_true, decide_eq_true_eq] at hname
      cases hlast : (Path.pieces path).getLast? with
      | none => simp [hlast, Path.leads] at hname
      | some last =>
        simp only [hlast, Option.getD_some] at h hname
        rcases hwalk : files.walk (origin path) (Path.pieces path).dropLast with fault | directory
        · simp [hwalk] at h
        rcases hlong : tooLong last with _ | _
        · have hleads : files.LeadsTo path directory last :=
            ⟨hempty, hfault, hlast, hname.1, hname.2, hlong, hwalk⟩
          refine ⟨directory, last, hleads, ?_⟩
          simp only [hwalk, hlong, Bool.false_eq_true, if_false] at h
          rcases hat : files.at? (directory ++ [last]) with _ | _ | content
          · simp only [hat, Prod.mk.injEq] at h
            exact .inr ⟨rfl, h.1.symm⟩
          · simp [hat] at h
          · exact .inl ⟨content, rfl⟩
        · simp [hwalk, hlong] at h
    · split at h <;> simp at h

theorem LeadsTo.of_directoriesStay (h : files.LeadsTo path directory name)
    (hstay : DirectoriesStay files files') : files'.LeadsTo path directory name :=
  { h with walk := walk_of_directoriesStay hstay h.walk }

/-- What is in front of the name is all that leads to the file. -/
theorem LeadsTo.parents_eq (h : files.LeadsTo path directory name) :
    parents path = (Path.pieces path).dropLast.filter Path.leads := by
  obtain ⟨front, hfront⟩ := List.getLast?_eq_some_iff.mp h.last
  rw [parents, hfront, List.filter_append, List.filter_cons_of_pos h.leads, List.filter_nil,
    List.dropLast_concat, List.dropLast_concat]

theorem LeadsTo.eq_follow (h : files.LeadsTo path directory name) :
    directory ++ [name] = follow (origin path) (Path.pieces path) := by
  have hdirectory := eq_follow_of_walk h.walk
  obtain ⟨front, hfront⟩ := List.getLast?_eq_some_iff.mp h.last
  rw [hfront, List.dropLast_concat] at hdirectory
  rw [hfront, follow, List.filter_append, List.filter_cons_of_pos h.leads, List.filter_nil,
    List.foldl_append, ← follow, ← hdirectory, List.foldl_cons, if_neg h.forward, List.foldl_nil]

/-- Opening a log whose file is there changes nothing. -/
theorem openLog_of_read {text : String} (h : files.read path = .ok text)
    (hparents : fault? (String.intercalate "/" (parents path)) = none) :
    files.openLog path = (files, .ok ()) := by
  obtain ⟨directory, name, hleads, hat⟩ := leadsTo_of_read h
  have hmade := makeDirectories_of_walk hleads.walk
  rw [← hleads.parents_eq] at hmade
  simp only [openLog, hparents, hmade, hleads.openFile hat]

theorem fault?_of_openLog (h : files.openLog path = (files', .ok ())) :
    fault? (String.intercalate "/" (parents path)) = none := by
  rcases hfault : fault? (String.intercalate "/" (parents path)) with _ | fault
  · rfl
  · simp [openLog, hfault] at h

/-- Where nothing was, opening a log leaves an empty file. -/
theorem read_of_openLog (h : files.openLog path = (files', .ok ()))
    (hnew : files.at? (follow (origin path) (Path.pieces path)) = none) :
    files'.read path = .ok "" := by
  simp only [openLog, fault?_of_openLog h] at h
  rcases hmade : files.makeDirectories (origin path) (parents path) with ⟨made, fault | _⟩
  · simp [hmade] at h
  simp only [hmade] at h
  obtain ⟨directory, name, hleads, ⟨content, hat⟩ | ⟨hat, rfl⟩⟩ := leadsTo_of_openFile h
  · -- a file that is there was there before the directories were made
    rw [← show (files.makeDirectories (origin path) (parents path)).1 = made by rw [hmade]] at hat
    have hold := file_of_makeDirectories hat
    rw [hleads.eq_follow, hnew] at hold
    exact nomatch hold
  · have hfile : made.at? (directory ++ [name]) ≠ some .directory := by
      rw [hat]
      exact nofun
    exact (hleads.of_directoriesStay (directoriesStay_put hfile _)).read (at?_put_self hfile _)

/-- Writing puts text behind what is in the file. -/
theorem read_append {text : String} (h : files.read path = .ok text) (more : String) :
    (files.append path more).read path = .ok (text ++ more) := by
  obtain ⟨directory, name, hleads, hat⟩ := leadsTo_of_read h
  have hfile : files.at? (directory ++ [name]) ≠ some .directory := by
    rw [hat]
    exact nofun
  simp only [Files.append, hleads.place?, hat]
  exact (hleads.of_directoriesStay (directoriesStay_put hfile _)).read (at?_put_self hfile _)

end Workflow.Files
