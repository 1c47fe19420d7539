/-!
# Tables

A table maps text keys to values.  It is kept as a list of entries in increasing order of keys, so
that equal tables are equal lists and every listing of a table is in the order of its keys.  The
order of texts is that of their characters' code points, which is also the order of their UTF-8
bytes.  Reading an entry back after `set` needs no assumption on the list; only the order of
listing rests on `Sorted`, which every operation keeps.
-/

namespace Workflow

/-- Entries by text key, the keys in increasing order. -/
abbrev Table (α : Type) : Type := List (String × α)

namespace Table

variable {α β : Type}

/-- The value under a key. -/
def get? (table : Table α) (key : String) : Option α :=
  match table with
  | [] => none
  | (k, value) :: rest => if k = key then some value else get? rest key

/-- The table with `value` under `key`, in place of any value there before. -/
def set (table : Table α) (key : String) (value : α) : Table α :=
  match table with
  | [] => [(key, value)]
  | (k, old) :: rest =>
    if key < k then (key, value) :: (k, old) :: rest
    else if key = k then (key, value) :: rest
    else (k, old) :: set rest key value

/-- The table of a list of entries; a later entry replaces an earlier one of the same key. -/
def ofList (entries : List (String × α)) : Table α :=
  entries.foldl (fun table (key, value) => table.set key value) []

/-- All entries of `overlay` written over `table`. -/
def merge (table overlay : Table α) : Table α :=
  overlay.foldl (fun table (key, value) => table.set key value) table

/-- The keys, in order. -/
def keys (table : Table α) : List String :=
  table.map Prod.fst

/-- Whether a key has a value. -/
def contains (table : Table α) (key : String) : Bool :=
  (table.get? key).isSome

/-- The keys stand in strictly increasing order. -/
def Sorted (table : Table α) : Prop :=
  table.Pairwise fun a b => a.1 < b.1

@[simp] theorem get?_nil (key : String) : get? ([] : Table α) key = none := rfl

theorem get?_set_self (table : Table α) (key : String) (value : α) :
    (table.set key value).get? key = some value := by
  induction table with
  | nil => simp [set, get?]
  | cons entry rest ih =>
    obtain ⟨k, old⟩ := entry
    rw [set]
    split
    · simp [get?]
    · split
      · simp [get?]
      · rename_i hne
        simp [get?, Ne.symm hne, ih]

theorem get?_set_ne (table : Table α) {key other : String} (value : α) (h : key ≠ other) :
    (table.set key value).get? other = table.get? other := by
  induction table with
  | nil => simp [set, get?, h]
  | cons entry rest ih =>
    obtain ⟨k, old⟩ := entry
    rw [set]
    split
    · simp [get?, h]
    · split
      · rename_i heq
        subst heq
        simp [get?, h]
      · by_cases hk : k = other <;> simp [get?, hk, ih]

/-- Reading after writing: the new value under its key, the old ones elsewhere. -/
theorem get?_set (table : Table α) (key other : String) (value : α) :
    (table.set key value).get? other = if key = other then some value else table.get? other := by
  split
  · rename_i h
    subst h
    exact get?_set_self table key value
  · rename_i h
    exact get?_set_ne table value h

end Table

end Workflow
