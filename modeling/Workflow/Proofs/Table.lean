import Mathlib.Data.String.Basic
import Workflow.Table

/-!
# Tables in order

Every operation on tables keeps the keys in order, and no operation takes a key away.  In a table in
order a key stands only once, so what is read after one table was written over another is told by
the two tables alone (`get?_merge`).
-/

namespace Workflow.Table

variable {α : Type} {table overlay : Table α}

/-! ## The order of the keys -/

theorem mem_set {key : String} {value : α} {entry : String × α}
    (h : entry ∈ table.set key value) : entry = (key, value) ∨ entry ∈ table := by
  induction table with
  | nil =>
    rw [set, List.mem_singleton] at h
    exact Or.inl h
  | cons first rest ih =>
    obtain ⟨k, old⟩ := first
    rw [set] at h
    split at h
    · exact List.mem_cons.mp h
    · split at h
      · rcases List.mem_cons.mp h with h | h
        · exact Or.inl h
        · exact Or.inr (List.mem_cons_of_mem _ h)
      · rcases List.mem_cons.mp h with rfl | h
        · exact Or.inr List.mem_cons_self
        · rcases ih h with h | h
          · exact Or.inl h
          · exact Or.inr (List.mem_cons_of_mem _ h)

theorem Sorted.set (h : table.Sorted) (key : String) (value : α) :
    (table.set key value).Sorted := by
  induction table with
  | nil => exact List.pairwise_singleton _ _
  | cons first rest ih =>
    obtain ⟨k, old⟩ := first
    obtain ⟨hfirst, hrest⟩ := List.pairwise_cons.mp h
    rw [Table.set]
    split
    · rename_i hlt
      refine List.pairwise_cons.mpr ⟨fun entry hentry => ?_, h⟩
      rcases List.mem_cons.mp hentry with rfl | hentry
      · exact hlt
      · exact lt_trans hlt (hfirst entry hentry)
    · rename_i hlt
      split
      · rename_i heq
        subst heq
        exact List.pairwise_cons.mpr ⟨hfirst, hrest⟩
      · rename_i hne
        refine List.pairwise_cons.mpr ⟨fun entry hentry => ?_, ih hrest⟩
        rcases mem_set hentry with rfl | hentry
        · exact lt_of_le_of_ne (not_lt.mp hlt) (Ne.symm hne)
        · exact hfirst entry hentry

theorem Sorted.merge (h : table.Sorted) (overlay : Table α) : (table.merge overlay).Sorted := by
  induction overlay generalizing table with
  | nil => exact h
  | cons entry rest ih => exact ih (h.set entry.1 entry.2)

theorem sorted_ofList (entries : List (String × α)) : (ofList entries).Sorted :=
  Sorted.merge List.Pairwise.nil entries

/-! ## Reading -/

theorem get?_eq_none {key : String} (h : ∀ entry ∈ table, entry.1 ≠ key) :
    table.get? key = none := by
  induction table with
  | nil => rfl
  | cons entry rest ih =>
    obtain ⟨k, value⟩ := entry
    rw [get?, if_neg (h _ List.mem_cons_self)]
    exact ih fun entry hentry => h entry (List.mem_cons_of_mem _ hentry)

/-- Reading after a table was written over another: what the former has counts. -/
theorem get?_merge (table : Table α) (h : overlay.Sorted) (key : String) :
    (table.merge overlay).get? key = (overlay.get? key).or (table.get? key) := by
  induction overlay generalizing table with
  | nil => rfl
  | cons entry rest ih =>
    obtain ⟨k, value⟩ := entry
    obtain ⟨hfirst, hrest⟩ := List.pairwise_cons.mp h
    rw [show table.merge ((k, value) :: rest) = (table.set k value).merge rest from rfl,
      ih (table.set k value) hrest, get?_set, get?]
    split
    · rename_i heq
      subst heq
      rw [get?_eq_none fun entry hentry => (hfirst entry hentry).ne']
      rfl
    · rfl

theorem isSome_get?_set {key : String} (h : (table.get? key).isSome) (other : String) (value : α) :
    ((table.set other value).get? key).isSome := by
  rw [get?_set]
  split
  · rfl
  · exact h

theorem isSome_get?_merge {key : String} (h : (table.get? key).isSome) (overlay : Table α) :
    ((table.merge overlay).get? key).isSome := by
  induction overlay generalizing table with
  | nil => exact h
  | cons entry rest ih => exact ih (isSome_get?_set h entry.1 entry.2)

theorem mem_of_get? {key : String} {value : α} (h : table.get? key = some value) :
    (key, value) ∈ table := by
  induction table with
  | nil => cases h
  | cons entry rest ih =>
    obtain ⟨k, first⟩ := entry
    rw [get?] at h
    split at h
    · rename_i heq
      cases h
      rw [heq]
      exact List.mem_cons_self
    · exact List.mem_cons_of_mem _ (ih h)

theorem get?_map {β : Type} (table : Table α) (f : α → β) (key : String) :
    get? (table.map fun (k, value) => (k, f value)) key = (table.get? key).map f := by
  induction table with
  | nil => rfl
  | cons entry rest ih =>
    by_cases hkey : entry.1 = key <;> simp [get?, hkey, ih]

/-- Reading after a key was taken out. -/
theorem get?_filter_ne (table : Table α) (key other : String) :
    get? (table.filter (·.1 != key)) other = if key = other then none else table.get? other := by
  induction table with
  | nil => simp
  | cons entry rest ih =>
    obtain ⟨k, value⟩ := entry
    by_cases hkey : k = key
    · subst hkey
      rw [List.filter_cons_of_neg (by simp), ih, get?]
      split <;> simp [*]
    · rw [List.filter_cons_of_pos (by simpa using hkey), get?, get?, ih]
      by_cases hother : k = other
      · simp [hother, Ne.symm (hother ▸ hkey)]
      · simp [hother]

end Workflow.Table
