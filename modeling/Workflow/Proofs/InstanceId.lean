import Mathlib.Data.List.TakeWhile
import Workflow.InstanceId

/-!
# Ids of branches

The id of a branch begins with the id of the context that it branched from, and so do the ids of the
branches within it.  Behind that comes a point and the number of the branch, and behind the number
either nothing or the next point.  So the number can be read off again, and the ids within one
branch of a context differ from all ids within another one (`place_eq_of_covers`).  Number by number
the whole way down to a branch can be read off (`descend_injective`).
-/

namespace Workflow.InstanceId

/-- The id of a branch at whatever depth, by the places of the branches on the way down. -/
def descend (id : InstanceId) (places : List Nat) : InstanceId :=
  places.foldl branch id

/-- Whether a text is an id or that of a branch within it. -/
def covers (id : InstanceId) (text : String) : Bool :=
  text.toList == id.text.toList || (id.text.toList ++ ['.']).isPrefixOf text.toList

variable {id : InstanceId} {text : String}

@[simp] theorem descend_nil (id : InstanceId) : id.descend [] = id := rfl

@[simp] theorem descend_cons (id : InstanceId) (place : Nat) (places : List Nat) :
    id.descend (place :: places) = (id.branch place).descend places := rfl

@[simp] theorem toList_text_branch (id : InstanceId) (place : Nat) :
    (id.branch place).text.toList = id.text.toList ++ '.' :: Nat.toDigits 10 place := by
  simp [branch]

/-- What stands behind an id in a text: nothing, or a point and more. -/
theorem covers_iff : id.covers text = true ↔
    ∃ rest, text.toList = id.text.toList ++ rest ∧ (rest = [] ∨ ∃ more, rest = '.' :: more) := by
  rw [covers, Bool.or_eq_true, beq_iff_eq, List.isPrefixOf_iff_prefix]
  constructor
  · rintro (h | ⟨more, h⟩)
    · exact ⟨[], by simp [h], Or.inl rfl⟩
    · exact ⟨'.' :: more, by simp [← h], Or.inr ⟨more, rfl⟩⟩
  · rintro ⟨rest, h, rfl | ⟨more, rfl⟩⟩
    · exact Or.inl (by simpa using h)
    · exact Or.inr ⟨more, by simp [h]⟩

@[simp] theorem covers_self (id : InstanceId) : id.covers id.text = true := by
  simp [covers]

/-- An id covers what a branch of it covers. -/
theorem covers_of_branch {place : Nat} (h : (id.branch place).covers text = true) :
    id.covers text = true := by
  obtain ⟨rest, htext, -⟩ := covers_iff.mp h
  rw [toList_text_branch] at htext
  exact covers_iff.mpr ⟨'.' :: (Nat.toDigits 10 place ++ rest), by simp [htext], Or.inr ⟨_, rfl⟩⟩

theorem covers_descend (id : InstanceId) (places : List Nat) :
    id.covers (id.descend places).text = true := by
  induction places generalizing id with
  | nil => exact covers_self id
  | cons place places ih => exact covers_of_branch (ih (id.branch place))

/-- The digits in front of a point, or of the end, are those of the number that was written there.
-/
theorem takeWhile_isDigit (place : Nat) {rest : List Char}
    (h : rest = [] ∨ ∃ more, rest = '.' :: more) :
    (Nat.toDigits 10 place ++ rest).takeWhile Char.isDigit = Nat.toDigits 10 place := by
  have hdigits : ∀ c ∈ Nat.toDigits 10 place, c.isDigit = true := fun c hc =>
    Nat.isDigit_of_mem_toDigits (by decide) (by decide) hc
  rw [List.takeWhile_append_of_pos hdigits]
  rcases h with rfl | ⟨more, rfl⟩ <;> simp

/-- No text is covered by two branches of one context. -/
theorem place_eq_of_covers {place other : Nat} (h : (id.branch place).covers text = true)
    (hother : (id.branch other).covers text = true) : place = other := by
  obtain ⟨rest, htext, hrest⟩ := covers_iff.mp h
  obtain ⟨rest', htext', hrest'⟩ := covers_iff.mp hother
  have hbehind : Nat.toDigits 10 place ++ rest = Nat.toDigits 10 other ++ rest' := by
    rw [htext] at htext'
    simpa using htext'
  have hdigits : Nat.toDigits 10 place = Nat.toDigits 10 other := by
    rw [← takeWhile_isDigit place hrest, hbehind, takeWhile_isDigit other hrest']
  calc
    place = Nat.ofDigitChars 10 (Nat.toDigits 10 place) 0 := Nat.ofDigitChars_ten_toDigits.symm
    _ = Nat.ofDigitChars 10 (Nat.toDigits 10 other) 0 := by rw [hdigits]
    _ = other := Nat.ofDigitChars_ten_toDigits

/-- A branch has a longer id than the context that it branched from. -/
theorem not_covers_branch (id : InstanceId) (place : Nat) :
    (id.branch place).covers id.text ≠ true := by
  intro h
  obtain ⟨rest, htext, -⟩ := covers_iff.mp h
  have hlength := congrArg List.length htext
  rw [toList_text_branch] at hlength
  simp at hlength

theorem descend_append (id : InstanceId) (places more : List Nat) :
    id.descend (places ++ more) = (id.descend places).descend more :=
  List.foldl_append

/-- The id of a branch tells the way down to it. -/
theorem descend_injective (id : InstanceId) : Function.Injective id.descend := by
  intro places others h
  induction places generalizing id others with
  | nil =>
    rcases others with _ | ⟨other, others⟩
    · rfl
    · -- the id would be that of a branch within itself
      rw [descend_nil, descend_cons] at h
      have hcovers := covers_descend (id.branch other) others
      rw [← h] at hcovers
      exact absurd hcovers (not_covers_branch id other)
  | cons place places ih =>
    rcases others with _ | ⟨other, others⟩
    · rw [descend_nil, descend_cons] at h
      have hcovers := covers_descend (id.branch place) places
      rw [h] at hcovers
      exact absurd hcovers (not_covers_branch id place)
    · rw [descend_cons, descend_cons] at h
      have hcovers := covers_descend (id.branch place) places
      rw [h] at hcovers
      obtain rfl := place_eq_of_covers hcovers (covers_descend (id.branch other) others)
      rw [ih (id.branch place) h]

end Workflow.InstanceId
