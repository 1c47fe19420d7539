/-!
# Cutting text at a mark

The first occurrence of a mark splits a text into what stands before and after it, and the split
loses nothing (`cut_eq_some`).  Lines are the pieces between line feeds.
-/

namespace Workflow.Text

/-- What stands behind a mark that a text starts with. -/
def behind? : List Char → List Char → Option (List Char)
  | [], text => some text
  | _ :: _, [] => none
  | m :: mark, c :: text => if m = c then behind? mark text else none

/-- What stands before and after the first occurrence of `mark`, or `none` without one. -/
def cut (mark : List Char) : List Char → Option (List Char × List Char)
  | [] => if mark.isEmpty then some ([], []) else none
  | c :: rest =>
    match behind? mark (c :: rest) with
    | some after => some ([], after)
    | none => (cut mark rest).map fun (before, after) => (c :: before, after)

/-- Whether `part` occurs in a text. -/
def contains (part text : List Char) : Bool :=
  (cut part text).isSome

theorem behind?_eq_some {mark text after : List Char} (h : behind? mark text = some after) :
    text = mark ++ after := by
  induction mark generalizing text with
  | nil => simpa [behind?] using h
  | cons m mark ih =>
    cases text with
    | nil => simp [behind?] at h
    | cons c text =>
      by_cases hc : m = c
      · subst hc
        have tail : text = mark ++ after := ih (by simpa [behind?] using h)
        rw [tail, List.cons_append]
      · simp [behind?, hc] at h

/-- The two sides of a cut and the mark between them are the whole text. -/
theorem cut_eq_some {mark text before after : List Char}
    (h : cut mark text = some (before, after)) : text = before ++ mark ++ after := by
  induction text generalizing before with
  | nil =>
    by_cases hm : mark.isEmpty
    · simp [cut, hm] at h
      simp_all
    · simp [cut, hm] at h
  | cons c rest ih =>
    rw [cut] at h
    split at h
    · rename_i hp
      simp only [Option.some.injEq, Prod.mk.injEq] at h
      obtain ⟨rfl, rfl⟩ := h
      simpa using behind?_eq_some hp
    · obtain ⟨⟨before', after'⟩, hcut, heq⟩ := Option.map_eq_some_iff.1 h
      simp only [Prod.mk.injEq] at heq
      obtain ⟨rfl, rfl⟩ := heq
      rw [ih hcut]
      simp

/-- What stands after a cut at a mark is shorter than the text. -/
theorem length_after_cut_lt {mark text before after : List Char} (hm : mark ≠ [])
    (h : cut mark text = some (before, after)) : after.length < text.length := by
  have hlen := congrArg List.length (cut_eq_some h)
  have : 0 < mark.length := List.length_pos_iff.2 hm
  simp at hlen
  omega

/-- A text split at every line feed; there is always one more piece than line feeds. -/
def splitFeeds : List Char → List (List Char)
  | [] => [[]]
  | c :: rest =>
    if c = '\n' then [] :: splitFeeds rest
    else
      match splitFeeds rest with
      | [] => [[c]]
      | line :: more => (c :: line) :: more

theorem splitFeeds_ne_nil (text : List Char) : splitFeeds text ≠ [] := by
  cases text with
  | nil => simp [splitFeeds]
  | cons c rest =>
    rw [splitFeeds]
    split
    · simp
    · split <;> simp

end Workflow.Text
