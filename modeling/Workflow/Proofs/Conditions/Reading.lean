import Mathlib.Data.List.DropRight
import Workflow.Condition
import Workflow.Proofs.Executors

/-!
# How conditions are read

The marks of relations are looked for anywhere in a text, one after the other, and an operand may
hold any of them.  But a mark counts only if a key stands before its first occurrence, and no mark
begins with a character of a key.  So what stands in front decides: a text is read by the key with
which it begins, the blanks behind that, and the mark which comes next.

* `Text.trim_trimEnd`, `Text.trimEnd_append` — trims of texts that are put together.
* `Text.cut_append`, `Text.contains_iff` — where a text is cut, and when it can be.
* `Condition.Spells` — the texts of conditions.
* `Condition.spells_readTrimmed`, `Condition.Spells.readTrimmed_ne` — what is read as a condition
  spells it, and only what spells none is malformed.
* `Condition.readTrimmed_related`, `Condition.readTrimmed_containing`, `Condition.readTrimmed_key`,
  `Condition.readTrimmed_negated` — what is read from a relation, a key, and a key behind an
  exclamation mark.
-/

namespace Workflow

/-! ## Trims -/

namespace Text

/-- The end of two texts put together is that of the second, unless there are only blanks in it. -/
theorem trimEnd_append (front back : List Char) :
    trimEnd (front ++ back) =
      if trimEnd back = [] then trimEnd front else front ++ trimEnd back := by
  rw [trimEnd, List.reverse_append, List.dropWhile_append]
  by_cases h : trimEnd back = []
  · have hback : back.reverse.dropWhile isBlank = [] := by
      simpa [trimEnd] using h
    simp [hback, trimEnd]
  · have hback : back.reverse.dropWhile isBlank ≠ [] := by
      simpa [trimEnd] using h
    simp [hback, trimEnd]

theorem trimEnd_append_of_ne {back : List Char} (front : List Char) (h : trimEnd back ≠ []) :
    trimEnd (front ++ back) = front ++ trimEnd back := by
  rw [trimEnd_append, if_neg h]

theorem trimEnd_append_of_eq {front : List Char} (back : List Char) (h : trimEnd front = front) :
    trimEnd (front ++ back) = front ++ trimEnd back := by
  rw [trimEnd_append, h]
  by_cases hback : trimEnd back = [] <;> simp [hback]

theorem trimEnd_cons_of_not {c : Char} (rest : List Char) (h : isBlank c = false) :
    trimEnd (c :: rest) = c :: trimEnd rest := by
  have hsingle : trimEnd ([] ++ [c]) = [] ++ [c] := trimEnd_concat_of_not h
  rw [List.nil_append] at hsingle
  rw [← List.singleton_append, trimEnd_append, hsingle]
  by_cases hrest : trimEnd rest = [] <;> simp [hrest]

theorem trimEnd_trimEnd (text : List Char) : trimEnd (trimEnd text) = trimEnd text := by
  rw [trimEnd, trimEnd, List.reverse_reverse, List.dropWhile_idempotent]

/-- It does not matter which end is trimmed first. -/
theorem trimStart_trimEnd (text : List Char) :
    trimStart (trimEnd text) = trimEnd (trimStart text) := by
  induction text with
  | nil => rfl
  | cons c rest ih =>
    by_cases h : isBlank c = true
    · have hstart : ∀ text, trimStart (c :: text) = trimStart text := fun text => by
        simp [trimStart, h]
      have hsingle : trimEnd [c] = [] := by simp [trimEnd, h]
      rw [hstart, ← ih, ← List.singleton_append, trimEnd_append, hsingle]
      by_cases hrest : trimEnd rest = []
      · simp [hrest]
      · simp [hrest, hstart]
    · have hnot : isBlank c = false := by simpa using h
      rw [trimEnd_cons_of_not rest hnot, trimStart_cons_of_not hnot, trimStart_cons_of_not hnot,
        trimEnd_cons_of_not rest hnot]

theorem trim_trimEnd (text : List Char) : trim (trimEnd text) = trim text := by
  rw [trim, trimStart_trimEnd, trimEnd_trimEnd, trim]

theorem trim_cons_of_isBlank {c : Char} (text : List Char) (h : isBlank c = true) :
    trim (c :: text) = trim text := by
  simp [trim, trimStart, h]

theorem trim_cons_of_not {c : Char} (text : List Char) (h : isBlank c = false) :
    trim (c :: text) = c :: trimEnd text := by
  rw [trim, trimStart_cons_of_not h, trimEnd_cons_of_not text h]

/-! ## Marks in texts -/

theorem behind?_append (mark after : List Char) : behind? mark (mark ++ after) = some after := by
  induction mark with
  | nil => rfl
  | cons m mark ih => simpa [behind?] using ih

theorem behind?_eq_some_iff {mark text after : List Char} :
    behind? mark text = some after ↔ text = mark ++ after := by
  constructor
  · exact behind?_eq_some
  · rintro rfl
    exact behind?_append mark after

/-- A text that begins with a mark is cut there. -/
theorem cut_self (m : Char) (mark after : List Char) :
    cut (m :: mark) (m :: mark ++ after) = some ([], after) := by
  have hbehind := behind?_append (m :: mark) after
  rw [List.cons_append] at hbehind ⊢
  simp [cut, hbehind]

/-- A text is cut behind a part of it in which the mark cannot begin. -/
theorem cut_append {m : Char} {front : List Char} (mark rest : List Char) (h : m ∉ front) :
    cut (m :: mark) (front ++ rest) =
      (cut (m :: mark) rest).map fun (before, after) => (front ++ before, after) := by
  induction front with
  | nil => simp
  | cons c front ih =>
    obtain ⟨hc, hfront⟩ := not_or.mp (List.mem_cons.not.mp h)
    rw [List.cons_append, cut, behind?, if_neg hc, ih hfront, Option.map_map]
    rfl

/-- A text can be cut at every part of it. -/
theorem contains_iff {part text : List Char} : contains part text = true ↔ part <:+: text := by
  rw [contains]
  constructor
  · intro h
    obtain ⟨⟨before, after⟩, hcut⟩ := Option.isSome_iff_exists.mp h
    exact ⟨before, after, (cut_eq_some hcut).symm⟩
  · rintro ⟨before, after, rfl⟩
    induction before with
    | nil =>
      rw [List.nil_append]
      have hbehind := behind?_append part after
      rcases htext : part ++ after with _ | ⟨c, rest⟩
      · obtain rfl := (List.append_eq_nil_iff.mp htext).1
        rfl
      · rw [htext] at hbehind
        simp [cut, hbehind]
    | cons c before ih =>
      rw [List.cons_append, List.cons_append, cut]
      split
      · rfl
      · rw [Option.isSome_map]
        exact ih

end Text

open Text

/-! ## Keys -/

/-- Letters and digits lie in one range of characters. -/
theorem toNat_of_isAlphanum {c : Char} (h : c.isAlphanum = true) :
    0x30 ≤ c.toNat ∧ c.toNat ≤ 0x7A := by
  have hkind : (c.isUpper = true ∨ c.isLower = true) ∨ c.isDigit = true :=
    ((Bool.or_eq_true _ _).mp h).imp_left (Bool.or_eq_true _ _).mp
  rcases hkind with (h | h) | h
  · have hval : 'A'.val ≤ c.val ∧ c.val ≤ 'Z'.val := of_decide_eq_true h
    have hlow : 0x41 ≤ c.toNat := UInt32.le_iff_toNat_le.mp hval.1
    have hhigh : c.toNat ≤ 0x5A := UInt32.le_iff_toNat_le.mp hval.2
    omega
  · have hval := (Bool.and_eq_true _ _).mp h
    have hlow : 0x61 ≤ c.toNat := UInt32.le_iff_toNat_le.mp (of_decide_eq_true hval.1)
    have hhigh : c.toNat ≤ 0x7A := UInt32.le_iff_toNat_le.mp (of_decide_eq_true hval.2)
    omega
  · have hval := (Bool.and_eq_true _ _).mp h
    have hlow : 0x30 ≤ c.toNat := UInt32.le_iff_toNat_le.mp (of_decide_eq_true hval.1)
    have hhigh : c.toNat ≤ 0x39 := UInt32.le_iff_toNat_le.mp (of_decide_eq_true hval.2)
    omega

theorem not_isBlank_of_isKeyChar {c : Char} (h : isKeyChar c = true) : isBlank c = false := by
  have hrange : c.toNat = 0x2D ∨ c.toNat = 0x2E ∨ (0x30 ≤ c.toNat ∧ c.toNat ≤ 0x7A) := by
    simp only [isKeyChar, Bool.or_eq_true, decide_eq_true_eq] at h
    rcases h with ((h | rfl) | rfl) | rfl
    · exact Or.inr (Or.inr (toNat_of_isAlphanum h))
    all_goals decide
  simp only [isBlank, Bool.or_eq_false_iff, Bool.and_eq_false_iff, decide_eq_false_iff_not,
    beq_eq_false_iff_ne]
  omega

theorem isKey_iff {text : List Char} :
    isKey text = true ↔ text ≠ [] ∧ ∀ c ∈ text, isKeyChar c = true := by
  simp [isKey]

theorem not_isKeyChar_of_isBlank {c : Char} (h : isBlank c = true) : isKeyChar c = false := by
  by_contra hc
  rw [not_isBlank_of_isKeyChar (Bool.not_eq_false _ ▸ hc)] at h
  cases h

theorem trim_of_isKey {key : List Char} (h : isKey key = true) : trim key = key :=
  trim_eq_self fun c hc => not_isBlank_of_isKeyChar ((isKey_iff.mp h).2 c hc)

theorem trimEnd_of_isKey {key : List Char} (h : isKey key = true) : trimEnd key = key := by
  obtain ⟨c, rest, rfl⟩ := List.exists_cons_of_ne_nil (isKey_iff.mp h).1
  have hc := not_isBlank_of_isKeyChar ((isKey_iff.mp h).2 c List.mem_cons_self)
  rw [trimEnd_cons_of_not rest hc, ← trim_cons_of_not rest hc, trim_of_isKey h]

/-- A text that begins with a key is trimmed behind it. -/
theorem trim_append_of_isKey {key : List Char} (h : isKey key = true) (back : List Char) :
    trim (key ++ back) = key ++ trimEnd back := by
  have hkey := trimEnd_of_isKey h
  obtain ⟨c, rest, rfl⟩ := List.exists_cons_of_ne_nil (isKey_iff.mp h).1
  have hc := not_isBlank_of_isKeyChar ((isKey_iff.mp h).2 c List.mem_cons_self)
  rw [List.cons_append, trim_cons_of_not _ hc, ← trimEnd_cons_of_not _ hc, ← List.cons_append,
    trimEnd_append_of_eq back hkey]

/-- How much of a text fits at its beginning is told by the text. -/
theorem span_unique {p : Char → Bool} {front front' back back' : List Char}
    (hfront : ∀ c ∈ front, p c = true) (hfront' : ∀ c ∈ front', p c = true)
    (hback : ∀ c ∈ back.head?, p c = false) (hback' : ∀ c ∈ back'.head?, p c = false)
    (h : front ++ back = front' ++ back') : front = front' ∧ back = back' := by
  have hspan : ∀ {front back : List Char}, (∀ c ∈ front, p c = true) →
      (∀ c ∈ back.head?, p c = false) → (front ++ back).takeWhile p = front := by
    intro front back hfront hback
    rw [List.takeWhile_append_of_pos hfront]
    rcases back with _ | ⟨c, back⟩
    · simp
    · simp [hback c rfl]
  have heq : front = front' := by
    rw [← hspan hfront hback, h, hspan hfront' hback']
  subst heq
  exact ⟨rfl, List.append_cancel_left h⟩

/-- A key with blanks behind it, as it is trimmed. -/
theorem exists_blanks_of_trim {text : List Char} (hhead : ∀ c ∈ text.head?, isBlank c = false) :
    ∃ blanks, text = trim text ++ blanks ∧ ∀ c ∈ blanks, isBlank c = true := by
  have hstart : trimStart text = text := by
    rcases text with _ | ⟨c, text⟩
    · rfl
    · exact trimStart_cons_of_not (hhead c rfl)
  refine ⟨(text.reverse.takeWhile isBlank).reverse, ?_, fun c hc => ?_⟩
  · rw [trim, hstart, trimEnd, ← List.reverse_append, List.takeWhile_append_dropWhile,
      List.reverse_reverse]
  · exact List.mem_takeWhile_imp (List.mem_reverse.mp hc)

/-! ## Marks -/

namespace Relation

/-- No mark begins with a character of a key. -/
theorem exists_toList_mark (r : Relation) :
    ∃ m more, r.mark.toList = m :: more ∧ isKeyChar m = false := by
  rcases r with _ | _ | _ | cmp
  case compares => cases cmp <;> exact ⟨_, _, rfl, by decide⟩
  all_goals exact ⟨_, _, rfl, by decide⟩

/-- No mark but one begins with a blank either. -/
theorem isBlank_of_mark {r : Relation} (h : r ≠ contains) {m : Char} {more : List Char}
    (hmark : r.mark.toList = m :: more) : isBlank m = false := by
  rcases r with _ | _ | _ | cmp
  case contains => exact absurd rfl h
  case compares =>
    cases cmp
    all_goals
      obtain rfl := (List.cons.inj hmark).1
      decide
  all_goals
    obtain rfl := (List.cons.inj hmark).1
    decide

theorem head?_mark {r : Relation} (h : r ≠ contains) (rest : List Char) :
    ∀ c ∈ (r.mark.toList ++ rest).head?, isBlank c = false := by
  obtain ⟨m, mark, hmark, -⟩ := r.exists_toList_mark
  simpa [hmark] using isBlank_of_mark h hmark

/-- What stands between a key and what is behind a mark begins with no character of a key. -/
theorem head?_blanks_mark (r : Relation) {blanks : List Char}
    (hblanks : ∀ c ∈ blanks, isBlank c = true) (after : List Char) :
    ∀ c ∈ (blanks ++ (r.mark.toList ++ after)).head?, isKeyChar c = false := by
  rcases blanks with _ | ⟨b, blanks⟩
  · obtain ⟨m, mark, hmark, hm⟩ := r.exists_toList_mark
    simpa [hmark] using hm
  · simpa using not_isKeyChar_of_isBlank (hblanks b List.mem_cons_self)

theorem toList_mark_contains : contains.mark.toList = ' ' :: 'c' :: "ontains ".toList := rfl

/-- In the word of a containment there is no blank behind the first. -/
theorem behind?_contains_blanks {c : Char} {blanks after : List Char}
    (hblanks : ∀ c ∈ blanks, isBlank c = true) :
    behind? contains.mark.toList (c :: (blanks ++ (contains.mark.toList ++ after))) = none := by
  rw [toList_mark_contains, behind?]
  split
  · rcases blanks with _ | ⟨b, blanks⟩
    · rfl
    · have hb : 'c' ≠ b := by
        rintro rfl
        exact absurd (hblanks 'c' List.mem_cons_self) (by decide)
      rw [List.cons_append, behind?, if_neg hb]
  · rfl

/-- Blanks in front of a mark are no part of it. -/
theorem cut_blanks (r : Relation) {blanks : List Char} (hblanks : ∀ c ∈ blanks, isBlank c = true)
    (after : List Char) :
    cut r.mark.toList (blanks ++ (r.mark.toList ++ after)) = some (blanks, after) := by
  by_cases hr : r = contains
  · subst hr
    -- this mark begins with a blank itself, so it has to be looked for blank by blank
    induction blanks with
    | nil => exact cut_self ' ' _ after
    | cons b blanks ih =>
      obtain ⟨-, hrest⟩ := List.forall_mem_cons.mp hblanks
      rw [List.cons_append, cut, behind?_contains_blanks hrest, ih hrest]
      rfl
  · obtain ⟨m, mark, hmark, hm⟩ := r.exists_toList_mark
    have hnot : m ∉ blanks := fun hmem => by
      have hblank := hblanks m hmem
      rw [isBlank_of_mark hr hmark] at hblank
      cases hblank
    rw [hmark, cut_append _ _ hnot, cut_self]
    simp

theorem mem_inOrder (r : Relation) : r ∈ inOrder := by
  rcases r with _ | _ | _ | cmp
  case compares => cases cmp <;> decide
  all_goals decide

/-- Containments are looked for before everything else. -/
theorem inOrder_eq : inOrder = contains :: inOrder.tail := rfl

/-- A mark that another one begins with comes behind it in the search, so it is found only where
the longer one does not stand. -/
theorem findSome?_marks {α : Type} {r : Relation} (hr : r ≠ contains) {tail : List Char}
    (htail : tail.head? ≠ some '=') (f : Relation → List Char → α) :
    inOrder.tail.findSome? (fun r' => (behind? r'.mark.toList (r.mark.toList ++ tail)).map (f r')) =
      some (f r tail) := by
  rcases r with _ | _ | _ | cmp
  case contains => exact absurd rfl hr
  case compares =>
    cases cmp
    all_goals
      rcases tail with _ | ⟨c, tail⟩
      · simp [inOrder, mark, behind?]
      · have hc : '=' ≠ c := fun h => htail (by rw [h]; rfl)
        simp [inOrder, mark, behind?, hc]
  all_goals simp [inOrder, mark, behind?]

end Relation

/-! ## Relations in texts -/

namespace Condition

/-- Where a relation is read, a key stands in front of its mark. -/
theorem exists_of_relation? {text : List Char} {r : Relation} {condition : Condition}
    (h : relation? text r = some condition) :
    ∃ before after, text = before ++ r.mark.toList ++ after ∧ isKey (trim before) = true ∧
      condition = .relation r (String.ofList (trim before)) (trim after) := by
  rw [relation?] at h
  rcases hcut : cut r.mark.toList text with _ | ⟨before, after⟩
  · rw [hcut] at h
    cases h
  · simp only [hcut] at h
    split at h
    · rename_i hkey
      exact ⟨before, after, cut_eq_some hcut, hkey, (Option.some.inj h).symm⟩
    · cases h

/-- A relation is read from a text that begins with no blank if its mark stands behind a key, with
any blanks between them, and only then. -/
theorem relation?_eq_some_iff {text : List Char} (hhead : ∀ c ∈ text.head?, isBlank c = false)
    {r : Relation} {condition : Condition} :
    relation? text r = some condition ↔ ∃ key blanks after, isKey key = true ∧
      (∀ c ∈ blanks, isBlank c = true) ∧ text = key ++ (blanks ++ (r.mark.toList ++ after)) ∧
      condition = .relation r (String.ofList key) (trim after) := by
  constructor
  · intro h
    obtain ⟨before, after, rfl, hkey, rfl⟩ := exists_of_relation? h
    have hbefore : ∀ c ∈ before.head?, isBlank c = false := by
      rcases before with _ | ⟨c, before⟩
      · simp
      · simpa using hhead
    obtain ⟨blanks, hblanks, hall⟩ := exists_blanks_of_trim hbefore
    refine ⟨trim before, blanks, after, hkey, hall, ?_, rfl⟩
    rw [← List.append_assoc, ← hblanks, List.append_assoc]
  · rintro ⟨key, blanks, after, hkey, hblanks, rfl, rfl⟩
    obtain ⟨m, mark, hmark, hm⟩ := r.exists_toList_mark
    have hnot : m ∉ key := fun hmem => by
      rw [(isKey_iff.mp hkey).2 m hmem] at hm
      cases hm
    have hcut : cut r.mark.toList (key ++ (blanks ++ (r.mark.toList ++ after))) =
        some (key ++ blanks, after) := by
      have hrest := r.cut_blanks hblanks after
      rw [hmark] at hrest ⊢
      rw [cut_append _ _ hnot, hrest, Option.map_some]
    have htrim : trim (key ++ blanks) = key := by
      rw [trim_append_of_isKey hkey, trimEnd_eq_nil_iff.mpr hblanks, List.append_nil]
    simp only [relation?, hcut, htrim, hkey, if_true]

/-- No relation is read from a key. -/
theorem relation?_of_isKey {key : List Char} (hkey : isKey key = true) (r : Relation) :
    relation? key r = none := by
  rcases h : relation? key r with _ | condition
  · rfl
  · obtain ⟨before, after, rfl, -⟩ := exists_of_relation? h
    obtain ⟨m, more, hmark, hm⟩ := r.exists_toList_mark
    have hmem : m ∈ before ++ r.mark.toList ++ after := by simp [hmark]
    rw [(isKey_iff.mp hkey).2 m hmem] at hm
    cases hm

/-- No relation is read from a text that begins with an exclamation mark. -/
theorem relation?_negated (text : List Char) (r : Relation) : relation? ('!' :: text) r = none := by
  rcases h : relation? ('!' :: text) r with _ | condition
  · rfl
  have hhead : ∀ c ∈ ('!' :: text).head?, isBlank c = false := by
    have hmark : isBlank '!' = false := by decide
    simpa using hmark
  obtain ⟨key, blanks, after, hkey, -, htext, -⟩ := (relation?_eq_some_iff hhead).mp h
  obtain ⟨hne, hchars⟩ := isKey_iff.mp hkey
  obtain ⟨c, rest, rfl⟩ := List.exists_cons_of_ne_nil hne
  obtain rfl : '!' = c := (List.cons.inj htext).1
  exact absurd (hchars _ List.mem_cons_self) (by decide)

theorem head?_of_isKey {key : List Char} (hkey : isKey key = true) (rest : List Char) :
    ∀ c ∈ (key ++ rest).head?, isBlank c = false := by
  obtain ⟨hne, hchars⟩ := isKey_iff.mp hkey
  obtain ⟨c, key, rfl⟩ := List.exists_cons_of_ne_nil hne
  simpa using not_isBlank_of_isKeyChar (hchars c List.mem_cons_self)

/-- The key of a relation is the one with which the text begins. -/
theorem relation?_append_eq_some_iff {key rest : List Char} (hkey : isKey key = true)
    (hrest : ∀ c ∈ rest.head?, isKeyChar c = false) {r : Relation} {condition : Condition} :
    relation? (key ++ rest) r = some condition ↔ ∃ blanks after,
      (∀ c ∈ blanks, isBlank c = true) ∧ rest = blanks ++ (r.mark.toList ++ after) ∧
      condition = .relation r (String.ofList key) (trim after) := by
  rw [relation?_eq_some_iff (head?_of_isKey hkey rest)]
  constructor
  · rintro ⟨key', blanks, after, hkey', hblanks, htext, rfl⟩
    obtain ⟨rfl, hrest⟩ := span_unique (isKey_iff.mp hkey).2 (isKey_iff.mp hkey').2 hrest
      (r.head?_blanks_mark hblanks after) htext
    exact ⟨blanks, after, hblanks, hrest, rfl⟩
  · rintro ⟨blanks, after, hblanks, rfl, rfl⟩
    exact ⟨key, blanks, after, hkey, hblanks, rfl, rfl⟩

/-- A blank ends a key. -/
theorem head?_space (rest : List Char) : ∀ c ∈ (' ' :: rest).head?, isKeyChar c = false := by
  have hspace : isKeyChar ' ' = false := by decide
  simpa using hspace

section Related

variable {key tail : List Char} {r : Relation} (hkey : isKey key = true) (hr : r ≠ .contains)
include hkey hr

/-- Of the other relations the one is read whose mark stands behind the key and the blank. -/
theorem relation?_related {r' : Relation} (hr' : r' ≠ .contains) :
    relation? (key ++ ' ' :: (r.mark.toList ++ tail)) r' =
      (behind? r'.mark.toList (r.mark.toList ++ tail)).map fun after =>
        .relation r' (String.ofList key) (trim after) := by
  have hblank : ∀ c ∈ [' '], isBlank c = true := List.forall_mem_singleton.mpr (by decide)
  ext condition
  rw [relation?_append_eq_some_iff hkey (head?_space _)]
  constructor
  · rintro ⟨blanks, after, hblanks, htext, rfl⟩
    obtain ⟨-, hfound⟩ := span_unique hblank hblanks (Relation.head?_mark hr tail)
      (Relation.head?_mark hr' after) htext
    rw [behind?_eq_some_iff.mpr hfound]
    rfl
  · intro h
    obtain ⟨after, hafter, rfl⟩ := Option.map_eq_some_iff.mp h
    exact ⟨[' '], after, hblank, by rw [behind?_eq_some hafter]; rfl, rfl⟩

/-- Where another mark stands behind a key and a blank, no containment is read. -/
theorem relation?_contains_related :
    relation? (key ++ ' ' :: (r.mark.toList ++ tail)) .contains = none := by
  rcases h : relation? (key ++ ' ' :: (r.mark.toList ++ tail)) .contains with _ | condition
  · rfl
  exfalso
  obtain ⟨blanks, after, hblanks, htext, -⟩ :=
    (relation?_append_eq_some_iff hkey (head?_space _)).mp h
  obtain ⟨m, mark, hmark, hm⟩ := r.exists_toList_mark
  have hnot := Relation.isBlank_of_mark hr hmark
  rw [hmark, Relation.toList_mark_contains] at htext
  -- the other mark would be the word, or a blank in front of it
  rcases blanks with _ | ⟨a, _ | ⟨b, blanks⟩⟩
  · obtain rfl : m = 'c' := (List.cons.inj (List.cons.inj htext).2).1
    exact absurd hm (by decide)
  · obtain rfl : m = ' ' := (List.cons.inj (List.cons.inj htext).2).1
    exact absurd hnot (by decide)
  · obtain rfl : m = b := (List.cons.inj (List.cons.inj htext).2).1
    rw [hblanks m (by simp)] at hnot
    cases hnot

end Related

/-! ## Texts of conditions -/

/-- The texts of conditions, without the blanks around them. Between a key and a mark there may be
any blanks or none, and so there may around the operand. -/
inductive Spells : List Char → Condition → Prop where
  | true : Spells "true".toList (.literal true)
  | false : Spells "false".toList (.literal false)
  | relation {key blanks : List Char} (isKey : isKey key = true)
    (isBlank : ∀ c ∈ blanks, isBlank c = true) (r : Relation) (after : List Char) :
    Spells (key ++ (blanks ++ (r.mark.toList ++ after)))
      (.relation r (String.ofList key) (trim after))
  | truthy {key : List Char} (isKey : isKey key = true) : Spells key (.truthy (String.ofList key))
  | falsy {key : List Char} (isKey : isKey key = true) :
    Spells ('!' :: key) (.falsy (String.ofList key))

theorem readTruth_of_isKey {key : List Char} (hkey : isKey key = true) :
    readTruth key = .truthy (String.ofList key) := by
  rw [readTruth, if_pos hkey]
  rintro rest rfl
  exact absurd ((isKey_iff.mp hkey).2 _ List.mem_cons_self) (by decide)

theorem readTruth_negated {key : List Char} (hkey : isKey key = true) :
    readTruth ('!' :: key) = .falsy (String.ofList key) := by
  rw [readTruth, if_pos hkey]

/-- A text that is read as a truth spells it. -/
theorem spells_readTruth {text : List Char} (h : readTruth text ≠ .malformed) :
    Spells text (readTruth text) := by
  revert h
  fun_cases readTruth text
  case case1 key hkey => exact fun _ => .falsy hkey
  case case3 hmark hkey => exact fun _ => .truthy hkey
  all_goals exact fun h => absurd rfl h

theorem readTrimmed_eq {text : List Char} (htrue : text ≠ "true".toList)
    (hfalse : text ≠ "false".toList) (hnil : text ≠ []) :
    readTrimmed text = (Relation.inOrder.findSome? (relation? text)).getD (readTruth text) := by
  rw [readTrimmed, if_neg htrue, if_neg]
  rw [Bool.or_eq_true, decide_eq_true_eq, List.isEmpty_iff]
  exact not_or.mpr ⟨hfalse, hnil⟩

/-- What is read is a literal or what is found behind the literals. -/
theorem readTrimmed_literal_or (text : List Char) :
    (∃ b, readTrimmed text = .literal b) ∨
      readTrimmed text = (Relation.inOrder.findSome? (relation? text)).getD (readTruth text) := by
  rw [readTrimmed]
  split
  · exact Or.inl ⟨true, rfl⟩
  · split
    · exact Or.inl ⟨false, rfl⟩
    · exact Or.inr rfl

/-- In a literal there is neither a blank nor a mark. -/
theorem readTrimmed_eq_of_mem {text : List Char} {c : Char} (hmem : c ∈ text)
    (hc : c ∉ "truefalse".toList) :
    readTrimmed text = (Relation.inOrder.findSome? (relation? text)).getD (readTruth text) := by
  refine readTrimmed_eq ?_ ?_ (List.ne_nil_of_mem hmem)
  · rintro rfl
    exact hc (List.mem_append_left "false".toList hmem)
  · rintro rfl
    exact hc (List.mem_append_right "true".toList hmem)

/-- A text that is read as a condition spells it, unless there is nothing to read. -/
theorem spells_readTrimmed {text : List Char} (hhead : ∀ c ∈ text.head?, isBlank c = false)
    (hnil : text ≠ []) (h : readTrimmed text ≠ .malformed) : Spells text (readTrimmed text) := by
  by_cases htrue : text = "true".toList
  · subst htrue
    exact .true
  by_cases hfalse : text = "false".toList
  · subst hfalse
    exact .false
  rw [readTrimmed_eq htrue hfalse hnil] at h ⊢
  rcases hrelation : Relation.inOrder.findSome? (relation? text) with _ | condition
  · rw [hrelation] at h
    exact spells_readTruth h
  · obtain ⟨r, -, hr⟩ := List.exists_of_findSome?_eq_some hrelation
    obtain ⟨key, blanks, after, hkey, hblanks, rfl, rfl⟩ := (relation?_eq_some_iff hhead).mp hr
    exact .relation hkey hblanks r after

/-! ## What is read from them -/

section Reads

variable {key tail : List Char} (hkey : isKey key = true)
include hkey

theorem findSome?_relation?_of_isKey : Relation.inOrder.findSome? (relation? key) = none :=
  List.findSome?_eq_none_iff.mpr fun r _ => relation?_of_isKey hkey r

/-- A key is read as such, unless it is a literal. -/
theorem readTrimmed_key (htrue : key ≠ "true".toList) (hfalse : key ≠ "false".toList) :
    readTrimmed key = .truthy (String.ofList key) := by
  rw [readTrimmed_eq htrue hfalse (isKey_iff.mp hkey).1, findSome?_relation?_of_isKey hkey,
    Option.getD_none, readTruth_of_isKey hkey]

/-- Every key can be negated, a literal too. -/
theorem readTrimmed_negated : readTrimmed ('!' :: key) = .falsy (String.ofList key) := by
  have hnone : Relation.inOrder.findSome? (relation? ('!' :: key)) = none :=
    List.findSome?_eq_none_iff.mpr fun r _ => relation?_negated key r
  rw [readTrimmed_eq_of_mem List.mem_cons_self (by decide), hnone, Option.getD_none,
    readTruth_negated hkey]

/-- A mark behind a key and a blank is read as that of its relation, whatever follows. -/
theorem readTrimmed_related {r : Relation} (hr : r ≠ .contains) (htail : tail.head? ≠ some '=') :
    readTrimmed (key ++ ' ' :: (r.mark.toList ++ tail)) =
      .relation r (String.ofList key) (trim tail) := by
  have hothers : ∀ r' ∈ Relation.inOrder.tail,
      relation? (key ++ ' ' :: (r.mark.toList ++ tail)) r' =
        (behind? r'.mark.toList (r.mark.toList ++ tail)).map fun after =>
          .relation r' (String.ofList key) (trim after) := by
    intro r' hr'
    refine relation?_related hkey hr ?_
    rintro rfl
    exact absurd hr' (by decide)
  have hfound : Relation.inOrder.findSome? (relation? (key ++ ' ' :: (r.mark.toList ++ tail))) =
      some (.relation r (String.ofList key) (trim tail)) := by
    rw [Relation.inOrder_eq, List.findSome?_cons, relation?_contains_related hkey hr,
      ← List.head?_filterMap, List.filterMap_congr hothers, List.head?_filterMap]
    exact Relation.findSome?_marks hr htail _
  have hblank : ' ' ∈ key ++ ' ' :: (r.mark.toList ++ tail) := by simp
  rw [readTrimmed_eq_of_mem hblank (by decide), hfound, Option.getD_some]

/-- A containment behind a key is read as such, whatever follows. -/
theorem readTrimmed_containing (tail : List Char) :
    readTrimmed (key ++ (Relation.contains.mark.toList ++ tail)) =
      .relation .contains (String.ofList key) (trim tail) := by
  have hfound : relation? (key ++ (Relation.contains.mark.toList ++ tail)) .contains =
      some (.relation .contains (String.ofList key) (trim tail)) := by
    have hnone : ∀ c ∈ ([] : List Char), isBlank c = true := List.forall_mem_nil _
    exact (relation?_append_eq_some_iff hkey (Relation.contains.head?_blanks_mark hnone tail)).mpr
      ⟨[], tail, hnone, rfl, rfl⟩
  have hblank : ' ' ∈ key ++ (Relation.contains.mark.toList ++ tail) := by
    simp [Relation.toList_mark_contains]
  rw [readTrimmed_eq_of_mem hblank (by decide), Relation.inOrder_eq, List.findSome?_cons, hfound,
    Option.getD_some]

end Reads

/-- Where a relation can be read, something is. -/
theorem readTrimmed_ne_of_relation? {text : List Char} {r : Relation} {condition : Condition}
    (h : relation? text r = some condition) : readTrimmed text ≠ .malformed := by
  obtain ⟨b, hread⟩ | hread := readTrimmed_literal_or text
  · simp [hread]
  have hsome : (Relation.inOrder.findSome? (relation? text)).isSome = true :=
    List.findSome?_isSome_iff.mpr ⟨r, r.mem_inOrder, Option.isSome_of_eq_some h⟩
  obtain ⟨found, hfound⟩ := Option.isSome_iff_exists.mp hsome
  obtain ⟨r', -, hr'⟩ := List.exists_of_findSome?_eq_some hfound
  obtain ⟨before, after, -, -, rfl⟩ := exists_of_relation? hr'
  simp [hread, hfound]

/-- Every text of a condition is read as some condition. -/
theorem Spells.readTrimmed_ne {text : List Char} {condition : Condition}
    (h : Spells text condition) : readTrimmed text ≠ .malformed := by
  cases h with
  | true => decide
  | false => decide
  | relation hkey hblanks r after =>
    exact readTrimmed_ne_of_relation? ((relation?_append_eq_some_iff hkey
      (r.head?_blanks_mark hblanks after)).mpr ⟨_, after, hblanks, rfl, rfl⟩)
  | truthy hkey =>
    obtain ⟨b, hread⟩ | hread := readTrimmed_literal_or text
    · simp [hread]
    · simp [hread, findSome?_relation?_of_isKey hkey, readTruth_of_isKey hkey]
  | falsy hkey =>
    simp [readTrimmed_negated hkey]

end Condition

end Workflow
