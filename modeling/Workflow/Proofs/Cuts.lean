import Mathlib.Data.List.Infix
import Workflow.Proofs.Conditions.Reading

/-!
# Where texts are cut

A text is cut at the first occurrence of a mark.  This is the one before whose last character no
other occurrence is complete, and by this it is known without searching.  What it comes to depends
on how a mark may overlap with itself: two equal characters are complete early if there is one more
of them in front, two different ones never are.

* `Text.cut_eq_none_iff`, `Text.cut_eq_some_iff` — where a text is cut.
* `Text.infix_pair_concat_iff` — when two characters are complete early.
* `Text.cut_single_iff`, `Text.cut_pair_iff`, `Text.cut_double_iff` — where it is cut at one
  character, at two different ones and at two equal ones.
-/

namespace Workflow.Text

variable {mark text before after : List Char}

theorem cut_eq_none_iff : cut mark text = none ↔ ¬mark <:+: text := by
  rw [← contains_iff, contains, Bool.not_eq_true, Option.isSome_eq_false_iff,
    Option.isNone_iff_eq_none]

theorem behind?_eq_none_iff : behind? mark text = none ↔ ¬mark <+: text := by
  rw [Option.eq_none_iff_forall_ne_some]
  constructor
  · rintro hnone ⟨after, rfl⟩
    exact hnone after (behind?_append mark after)
  · intro hnot after hsome
    exact hnot ⟨after, (behind?_eq_some hsome).symm⟩

/-- A mark is not complete before its last character. -/
theorem not_infix_dropLast (hmark : mark ≠ []) : ¬mark <:+: mark.dropLast := by
  intro h
  have hle := h.length_le
  have hpos := List.length_pos_iff.mpr hmark
  rw [List.length_dropLast] at hle
  omega

theorem dropLast_prefix_append (before mark after : List Char) :
    before ++ mark.dropLast <+: before ++ mark ++ after := by
  rw [List.append_assoc, List.prefix_append_right_inj]
  exact (List.dropLast_prefix mark).trans (List.prefix_append mark after)

/-- A text is cut at a mark before whose last character no other is complete. -/
theorem cut_first (hmark : mark ≠ []) (hfirst : ¬mark <:+: before ++ mark.dropLast)
    (after : List Char) : cut mark (before ++ mark ++ after) = some (before, after) := by
  induction before with
  | nil =>
    obtain ⟨m, more, rfl⟩ := List.exists_cons_of_ne_nil hmark
    exact cut_self m more after
  | cons c before ih =>
    rw [List.cons_append, List.infix_cons_iff, not_or] at hfirst
    obtain ⟨hhere, hlater⟩ := hfirst
    have hnone : behind? mark (c :: (before ++ mark ++ after)) = none := by
      rw [behind?_eq_none_iff]
      intro hprefix
      have hlong : c :: (before ++ mark.dropLast) <+: c :: (before ++ mark ++ after) :=
        (List.prefix_cons_inj c).mpr (dropLast_prefix_append before mark after)
      refine hhere (List.prefix_of_prefix_length_le hprefix hlong ?_)
      simp only [List.length_cons, List.length_append, List.length_dropLast]
      omega
    rw [List.cons_append, List.cons_append, cut, hnone, ih hlater]
    rfl

/-- A text is cut at the first mark. -/
theorem cut_eq_some_iff (hmark : mark ≠ []) :
    cut mark text = some (before, after) ↔
      text = before ++ mark ++ after ∧ ¬mark <:+: before ++ mark.dropLast := by
  constructor
  · intro h
    refine ⟨cut_eq_some h, ?_⟩
    induction text generalizing before with
    | nil =>
      rw [cut, if_neg (by simpa using hmark)] at h
      cases h
    | cons c rest ih =>
      rw [cut] at h
      split at h
      · cases h
        exact not_infix_dropLast hmark
      · rename_i hnone
        obtain ⟨⟨front, back⟩, hcut, hparts⟩ := Option.map_eq_some_iff.mp h
        cases hparts
        rw [List.cons_append, List.infix_cons_iff]
        -- a mark that is complete earlier begins here, where there is none, or behind
        rintro (hhere | hlater)
        · rw [behind?_eq_none_iff, cut_eq_some hcut] at hnone
          exact hnone (hhere.trans
            ((List.prefix_cons_inj c).mpr (dropLast_prefix_append front mark after)))
        · exact ih hcut hlater
  · rintro ⟨rfl, hfirst⟩
    exact cut_first hmark hfirst after

/-! ## Short marks -/

/-- One character is complete where it is. -/
theorem cut_single_iff {c : Char} :
    cut [c] text = some (before, after) ↔ text = before ++ [c] ++ after ∧ c ∉ before := by
  rw [cut_eq_some_iff (List.cons_ne_nil c []), List.dropLast_singleton, List.append_nil,
    List.singleton_infix_iff]

/-- Two characters are complete early only if they are equal and one more of them is in front. -/
theorem infix_pair_concat_iff {m c : Char} :
    [m, c] <:+: text ++ [m] ↔ [m, c] <:+: text ∨ c = m ∧ text.getLast? = some m := by
  have hsuffix : [m] ++ [c] <:+ text ++ [m] ↔ [m] <:+ text ∧ [c] = [m] :=
    List.suffix_append_inj_of_length_eq rfl
  rw [List.singleton_append, List.singleton_suffix_iff_getLast?_eq_some, List.singleton_inj]
    at hsuffix
  rw [List.infix_concat_iff, hsuffix, or_comm, and_comm]

theorem cut_pair_iff {m c : Char} (hne : c ≠ m) :
    cut [m, c] text = some (before, after) ↔
      text = before ++ [m, c] ++ after ∧ ¬[m, c] <:+: before := by
  rw [cut_eq_some_iff (List.cons_ne_nil m [c]), List.dropLast_cons_cons, List.dropLast_singleton,
    infix_pair_concat_iff, or_iff_left fun h => hne h.1]

theorem cut_double_iff {c : Char} :
    cut [c, c] text = some (before, after) ↔
      text = before ++ [c, c] ++ after ∧ ¬[c, c] <:+: before ∧ before.getLast? ≠ some c := by
  rw [cut_eq_some_iff (List.cons_ne_nil c [c]), List.dropLast_cons_cons, List.dropLast_singleton,
    infix_pair_concat_iff, not_or, and_iff_right rfl]

end Workflow.Text
