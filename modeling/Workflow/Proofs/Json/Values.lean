import Workflow.Json.Typed
import Workflow.Proofs.Json.Texts

/-!
# Values that are written and read back

A value without numbers is read back from its compact form, whatever texts are in it, and what is
read is the document of the value with nothing behind it.  The compact form is one line.

Numbers are left out because doubles do not always survive: their digits are read the quick way,
which may end next to the double that was written.

* `Value.IsNumberless` — the values that are meant here.
* `readValue_write` — such a value is read to its end, and to nothing behind it.
* `read_render` — the document of the text of a value.
* `feed_not_mem_write` — the text is one line.
-/

namespace Workflow

/-! ## Values without numbers -/

mutual

/-- There is no number in a value. -/
def Value.IsNumberless : Value → Prop
  | .int _ | .double _ => False
  | .null | .bool _ | .string _ => True
  | .array items => Value.AllNumberless items
  | .object fields => Value.FieldsNumberless fields

/-- There is no number in any of several values. -/
def Value.AllNumberless : List Value → Prop
  | [] => True
  | item :: more => item.IsNumberless ∧ Value.AllNumberless more

/-- There is no number in any of several fields. -/
def Value.FieldsNumberless : List (String × Value) → Prop
  | [] => True
  | (_, value) :: more => value.IsNumberless ∧ Value.FieldsNumberless more

end

theorem Value.allNumberless_iff {items : List Value} :
    Value.AllNumberless items ↔ ∀ item ∈ items, item.IsNumberless := by
  induction items with
  | nil => simp [AllNumberless]
  | cons item more ih => simp [AllNumberless, ih]

theorem Value.fieldsNumberless_iff {fields : List (String × Value)} :
    Value.FieldsNumberless fields ↔ ∀ field ∈ fields, field.2.IsNumberless := by
  induction fields with
  | nil => simp [FieldsNumberless]
  | cons field more ih => simp [FieldsNumberless, ih]

namespace Json

/-! ## Separated parts -/

/-- Parts between commas, as the first part and the rest behind their commas. -/
theorem separated_comma (part : List Char) (more : List (List Char)) :
    separated [','] (part :: more) = part ++ more.flatMap (',' :: ·) := by
  induction more generalizing part with
  | nil => simp [separated]
  | cons next more ih => simp [separated, ih]

/-- Nothing that stands between values is blank. -/
theorem skipBlanks_cons {c : Char} (h : isBlank c = false) (rest : List Char) :
    skipBlanks (c :: rest) = c :: rest := by
  simp [skipBlanks, h]

/-- A text that begins as the text of a value without numbers does. -/
def BeginsValue (text : List Char) : Prop :=
  ∃ c rest, text = c :: rest ∧ c ∈ ['n', 't', 'f', '"', '[', '{']

theorem beginsValue_write {value : Value} (h : value.IsNumberless) (rest : List Char) :
    BeginsValue (write value ++ rest) := by
  rcases value with _ | (_ | _) | i | d | s | items | fields
  case int => exact h.elim
  case double => exact h.elim
  case null => exact ⟨'n', _, rfl, by decide⟩
  case bool.false => exact ⟨'f', _, rfl, by decide⟩
  case bool.true => exact ⟨'t', _, rfl, by decide⟩
  case string => exact ⟨'"', _, by rw [write, quote, List.cons_append], by decide⟩
  case array => exact ⟨'[', _, by rw [write, List.cons_append], by decide⟩
  case object => exact ⟨'{', _, by rw [write, List.cons_append], by decide⟩

theorem BeginsValue.skipBlanks_eq {text : List Char} (h : BeginsValue text) :
    skipBlanks text = text := by
  obtain ⟨c, rest, rfl, hc⟩ := h
  have hblank : ['n', 't', 'f', '"', '[', '{'].any isBlank = false := by decide
  exact skipBlanks_cons (Bool.eq_false_iff.mpr (List.any_eq_false.mp hblank c hc)) rest

/-- Behind an item or a field stands a comma or a bracket, and no blank. -/
theorem skipBlanks_flatMap_comma (parts : List (List Char)) {closing : Char}
    (h : isBlank closing = false) (rest : List Char) :
    skipBlanks (parts.flatMap (',' :: ·) ++ closing :: rest) =
      parts.flatMap (',' :: ·) ++ closing :: rest := by
  cases parts with
  | nil => exact skipBlanks_cons h rest
  | cons part more => exact skipBlanks_cons (by decide) _

/-! ## Reading one part -/

theorem toDocument_done (s : Scalar) (rest : List Char) :
    (Scan.done s rest).toDocument = (.scalar s, .ok rest) := rfl

theorem scanScalar_quote (s : String) (rest : List Char) :
    scanScalar (quote s ++ rest) = .done (.string s) rest := by
  have hread := scanText_quote s rest
  rw [quote, List.cons_append, List.append_assoc, List.singleton_append, scanScalar, if_pos rfl]
  dsimp only
  rw [hread]
  rfl

/-- A first item, and the items behind it. -/
theorem readItems_first {fuel : Nat} {text rest : List Char} {document : Document}
    (hread : readValue fuel text = (document, .ok rest)) (hbegins : BeginsValue text) :
    readItems (fuel + 1) true text =
      (document :: (readItems fuel false (skipBlanks rest)).1,
        (readItems fuel false (skipBlanks rest)).2) := by
  obtain ⟨c, more, rfl, hc⟩ := hbegins
  have hclosing : c ≠ ']' := by rintro rfl; revert hc; decide
  have hcomma : c ≠ ',' := by rintro rfl; revert hc; decide
  rw [readItems.eq_5 _ _ _ (by simp) (by simp [hclosing]) (by simp [hcomma]), if_pos rfl]
  dsimp only
  rw [hread]

/-- A further item, and the items behind it. -/
theorem readItems_comma {fuel : Nat} {text rest : List Char} {document : Document}
    (hread : readValue fuel text = (document, .ok rest)) (hbegins : BeginsValue text) :
    readItems (fuel + 1) false (',' :: text) =
      (document :: (readItems fuel false (skipBlanks rest)).1,
        (readItems fuel false (skipBlanks rest)).2) := by
  rw [readItems, hbegins.skipBlanks_eq]
  obtain ⟨c, more, rfl, hc⟩ := hbegins
  have hclosing : c ≠ ']' := by rintro rfl; revert hc; decide
  simp [hclosing, hread]

/-- A first field, and the fields behind it. -/
theorem readFields_first {fuel : Nat} {text rest : List Char} {document : Document} (name : String)
    (hread : readValue fuel text = (document, .ok rest)) (hbegins : BeginsValue text) :
    readFields (fuel + 1) true (quote name ++ ':' :: text) =
      ((.ok name, document) :: (readFields fuel false (skipBlanks rest)).1,
        (readFields fuel false (skipBlanks rest)).2) := by
  have hname := scanText_quote name (':' :: text)
  rw [quote, List.cons_append, List.append_assoc, List.singleton_append, readFields, if_pos rfl]
  dsimp only
  rw [hname]
  simp [Scan.done, skipBlanks_cons, isBlank, hbegins.skipBlanks_eq, hread]

/-- A further field, and the fields behind it. -/
theorem readFields_comma {fuel : Nat} {text rest : List Char} {document : Document} (name : String)
    (hread : readValue fuel text = (document, .ok rest)) (hbegins : BeginsValue text) :
    readFields (fuel + 1) false (',' :: (quote name ++ ':' :: text)) =
      ((.ok name, document) :: (readFields fuel false (skipBlanks rest)).1,
        (readFields fuel false (skipBlanks rest)).2) := by
  have hname := scanText_quote name (':' :: text)
  rw [quote, List.cons_append, List.append_assoc, List.singleton_append, readFields,
    if_neg (by decide), skipBlanks_cons (by decide)]
  simp [hname, Scan.done, skipBlanks_cons, isBlank, hbegins.skipBlanks_eq, hread]

/-! ## Reading back -/

mutual

/-- A value without numbers is read to its end. -/
theorem readValue_write : ∀ (value : Value) (fuel : Nat) (rest : List Char), value.IsNumberless →
    2 * (write value).length ≤ fuel →
    readValue fuel (write value ++ rest) = (.ofValue value, .ok rest)
  | .null, fuel + 1, rest, _, _ => rfl
  | .bool true, fuel + 1, rest, _, _ => rfl
  | .bool false, fuel + 1, rest, _, _ => rfl
  | .string s, fuel + 1, rest, _, _ => by
    have hread := scanScalar_quote s rest
    rw [write]
    rw [quote, List.cons_append] at hread ⊢
    rw [readValue.eq_4 _ _ (by simp) (by simp), hread, toDocument_done, Document.ofValue]
  | .array [], fuel + 2, rest, _, _ => rfl
  | .array (item :: items), fuel + 2, rest, h, hfuel => by
    simp only [write, writeItems, separated_comma, List.cons_append, List.append_assoc,
      List.length_cons, List.length_append, List.nil_append] at hfuel ⊢
    have hbegins := beginsValue_write h.1 ((writeItems items).flatMap (',' :: ·) ++ ']' :: rest)
    have hitem := readValue_write item fuel
      ((writeItems items).flatMap (',' :: ·) ++ ']' :: rest) h.1 (by omega)
    have hitems := readItems_write items fuel rest h.2 (by omega)
    rw [readValue, hbegins.skipBlanks_eq, readItems_first hitem hbegins,
      skipBlanks_flatMap_comma _ (by decide), hitems, Document.ofValue, Document.ofItems]
  | .object [], fuel + 2, rest, _, _ => rfl
  | .object ((name, value) :: fields), fuel + 2, rest, h, hfuel => by
    simp only [write, writeFields, separated_comma, List.cons_append, List.append_assoc,
      List.length_cons, List.length_append, List.nil_append] at hfuel ⊢
    have hbegins := beginsValue_write h.1 ((writeFields fields).flatMap (',' :: ·) ++ '}' :: rest)
    have hvalue := readValue_write value fuel
      ((writeFields fields).flatMap (',' :: ·) ++ '}' :: rest) h.1 (by omega)
    have hfields := readFields_write fields fuel rest h.2 (by omega)
    rw [readValue, quote, List.cons_append, skipBlanks_cons (by decide), ← List.cons_append,
      ← quote, readFields_first name hvalue hbegins, skipBlanks_flatMap_comma _ (by decide),
      hfields, Document.ofValue, Document.ofFields]

/-- Further items without numbers are read up to the closing bracket. -/
theorem readItems_write : ∀ (items : List Value) (fuel : Nat) (rest : List Char),
    Value.AllNumberless items →
    2 * ((writeItems items).flatMap (',' :: ·)).length + 1 ≤ fuel →
    readItems fuel false ((writeItems items).flatMap (',' :: ·) ++ ']' :: rest) =
      (Document.ofItems items, .closed, .ok rest)
  | [], fuel + 1, rest, _, _ => rfl
  | item :: items, fuel + 1, rest, h, hfuel => by
    simp only [writeItems, List.flatMap_cons, List.cons_append, List.append_assoc,
      List.length_cons, List.length_append] at hfuel ⊢
    have hitem := readValue_write item fuel
      ((writeItems items).flatMap (',' :: ·) ++ ']' :: rest) h.1 (by omega)
    have hitems := readItems_write items fuel rest h.2 (by omega)
    rw [readItems_comma hitem (beginsValue_write h.1 _), skipBlanks_flatMap_comma _ (by decide),
      hitems, Document.ofItems]

/-- Further fields without numbers are read up to the closing brace. -/
theorem readFields_write : ∀ (fields : List (String × Value)) (fuel : Nat) (rest : List Char),
    Value.FieldsNumberless fields →
    2 * ((writeFields fields).flatMap (',' :: ·)).length + 1 ≤ fuel →
    readFields fuel false ((writeFields fields).flatMap (',' :: ·) ++ '}' :: rest) =
      (Document.ofFields fields, none, .ok rest)
  | [], fuel + 1, rest, _, _ => rfl
  | (name, value) :: fields, fuel + 1, rest, h, hfuel => by
    simp only [writeFields, List.flatMap_cons, List.cons_append, List.append_assoc,
      List.length_cons, List.length_append] at hfuel ⊢
    have hvalue := readValue_write value fuel
      ((writeFields fields).flatMap (',' :: ·) ++ '}' :: rest) h.1 (by omega)
    have hfields := readFields_write fields fuel rest h.2 (by omega)
    rw [readFields_comma name hvalue (beginsValue_write h.1 _),
      skipBlanks_flatMap_comma _ (by decide), hfields, Document.ofFields]

end

/-- The document of the text of a value without numbers. -/
theorem read_render {value : Value} (h : value.IsNumberless) :
    read (render value) = (.ofValue value, none) := by
  have hread := readValue_write value (2 * (write value).length + 2) [] h (by omega)
  have hbegins := (beginsValue_write h []).skipBlanks_eq
  rw [List.append_nil] at hread hbegins
  rw [read, render]
  simp only [String.toList_ofList, hbegins, hread]
  rfl

/-! ## One line -/

theorem mem_separated {separator : List Char} {parts : List (List Char)} {c : Char}
    (h : c ∈ separated separator parts) : c ∈ separator ∨ ∃ part ∈ parts, c ∈ part := by
  fun_induction separated with
  | case1 => cases h
  | case2 part => exact .inr ⟨part, List.mem_singleton_self part, h⟩
  | case3 part more _ ih =>
    rcases List.mem_append.mp h with h | h
    · rcases List.mem_append.mp h with h | h
      · exact .inr ⟨part, List.mem_cons_self, h⟩
      · exact .inl h
    · rcases ih h with h | ⟨other, hother, h⟩
      · exact .inl h
      · exact .inr ⟨other, List.mem_cons_of_mem _ hother, h⟩

/-- A character between brackets is a comma or one of the parts. -/
theorem mem_bracketed {opening closing : Char} {parts : List (List Char)} {c : Char}
    (h : c ∈ opening :: (separated [','] parts ++ [closing])) :
    c ∈ [opening, ',', closing] ∨ ∃ part ∈ parts, c ∈ part := by
  rcases List.mem_cons.mp h with rfl | h
  · exact .inl List.mem_cons_self
  · rcases List.mem_append.mp h with h | h
    · rcases mem_separated h with h | h
      · exact .inl (by simp_all)
      · exact .inr h
    · exact .inl (by simp_all)

mutual

/-- There is no control character in the text of a value without numbers. -/
theorem not_control_of_mem_write : ∀ (value : Value) (c : Char), value.IsNumberless →
    c ∈ write value → 0x20 ≤ c.toNat
  | .null, c, _, hc => not_control_of_all (by decide) c hc
  | .bool true, c, _, hc => not_control_of_all (by decide) c hc
  | .bool false, c, _, hc => not_control_of_all (by decide) c hc
  | .string s, c, _, hc => by
    rw [write] at hc
    exact not_control_of_mem_quote hc
  | .array items, c, h, hc => by
    rw [write] at hc
    rcases mem_bracketed hc with hc | ⟨part, hpart, hc⟩
    · exact not_control_of_all (by decide) c hc
    · exact not_control_of_mem_writeItems items part c h hpart hc
  | .object fields, c, h, hc => by
    rw [write] at hc
    rcases mem_bracketed hc with hc | ⟨part, hpart, hc⟩
    · exact not_control_of_all (by decide) c hc
    · exact not_control_of_mem_writeFields fields part c h hpart hc

theorem not_control_of_mem_writeItems : ∀ (items : List Value) (part : List Char) (c : Char),
    Value.AllNumberless items → part ∈ writeItems items → c ∈ part → 0x20 ≤ c.toNat
  | item :: items, part, c, h, hpart, hc => by
    rw [writeItems] at hpart
    rcases List.mem_cons.mp hpart with rfl | hpart
    · exact not_control_of_mem_write item c h.1 hc
    · exact not_control_of_mem_writeItems items part c h.2 hpart hc

theorem not_control_of_mem_writeFields :
    ∀ (fields : List (String × Value)) (part : List Char) (c : Char),
    Value.FieldsNumberless fields → part ∈ writeFields fields → c ∈ part → 0x20 ≤ c.toNat
  | (name, value) :: fields, part, c, h, hpart, hc => by
    rw [writeFields] at hpart
    rcases List.mem_cons.mp hpart with rfl | hpart
    · rcases List.mem_append.mp hc with hc | hc
      · exact not_control_of_mem_quote hc
      · rcases List.mem_cons.mp hc with rfl | hc
        · decide
        · exact not_control_of_mem_write value c h.1 hc
    · exact not_control_of_mem_writeFields fields part c h.2 hpart hc

end

/-- The text of a value without numbers is one line. -/
theorem feed_not_mem_write {value : Value} (h : value.IsNumberless) : '\n' ∉ write value :=
  fun hc => absurd (not_control_of_mem_write value '\n' h hc) (by decide)

end Json

end Workflow
