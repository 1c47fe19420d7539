import Workflow.Proofs.Cuts
import Workflow.Text.References

/-!
# What texts with references come to

Where every reference ends, the references to variables with a value are replaced, once and from
left to right, and all else in the text stays as it is.  It is different with a reference that does
not end: what stands behind its beginning is taken for a name, so that it is replaced if there is
such a variable, and otherwise gets the end that it did not have.

* `Text.Expands` — the rules by which a text comes to another if nothing else is to change.
* `Text.LeftOpen` — a reference in a text does not end.
* `Text.induction_on_references` — how a text may go on, and what holds of all texts by it.
* `Text.exists_expands`, `Text.Expands.unique` — the rules settle what a text comes to.
* `Text.Expands.eq_expand`, `Text.expand_append_unclosed` — what replacing references gives where
  every reference ends, and where the last one does not.
* `Text.expansion_up_to_open_reference` — where replacing references keeps to the rules, and what it
  does elsewhere.
-/

namespace Workflow

namespace Text

/-! ## The rules -/

/-- What a text comes to if references to variables with a value are replaced and nothing else is
changed.  A reference ends at the first mark for it. -/
inductive Expands (lookup : String → Option String) : List Char → List Char → Prop where
  /-- without a reference a text stays as it is -/
  | plain {text : List Char} (plain : ¬referenceStart <:+: text) : Expands lookup text text
  /-- so does one whose reference does not end -/
  | unclosed {front rest : List Char} (plain : ¬referenceStart <:+: front) (unclosed : '}' ∉ rest) :
    Expands lookup (front ++ referenceStart ++ rest) (front ++ referenceStart ++ rest)
  /-- a reference to a variable with a value is replaced, and it goes on behind it -/
  | set {front name rest expanded : List Char} {value : String} (plain : ¬referenceStart <:+: front)
    (first : '}' ∉ name) (set : lookup (String.ofList name) = some value)
    (more : Expands lookup rest expanded) :
    Expands lookup (front ++ referenceStart ++ (name ++ referenceEnd ++ rest))
      (front ++ value.toList ++ expanded)
  /-- a reference to a variable without a value stays, and it goes on behind it -/
  | unset {front name rest expanded : List Char} (plain : ¬referenceStart <:+: front)
    (first : '}' ∉ name) (unset : lookup (String.ofList name) = none)
    (more : Expands lookup rest expanded) :
    Expands lookup (front ++ referenceStart ++ (name ++ referenceEnd ++ rest))
      (front ++ (referenceStart ++ name ++ referenceEnd) ++ expanded)

/-- A reference begins in a text and does not end. -/
def LeftOpen (text : List Char) : Prop :=
  ∃ rest, referenceStart ++ rest <:+ text ∧ '}' ∉ rest

/-! ## How a text goes on -/

section Cuts

variable {front name rest : List Char}

/-- A text is cut where its first reference begins. -/
theorem cut_start_iff {text : List Char} :
    cut referenceStart text = some (front, rest) ↔
      text = front ++ referenceStart ++ rest ∧ ¬referenceStart <:+: front :=
  cut_pair_iff (by decide)

/-- A name is cut off where the first reference ends. -/
theorem cut_end_iff {text : List Char} :
    cut referenceEnd text = some (name, rest) ↔
      text = name ++ referenceEnd ++ rest ∧ '}' ∉ name :=
  cut_single_iff

theorem cut_end_eq_none_iff : cut referenceEnd rest = none ↔ '}' ∉ rest := by
  rw [cut_eq_none_iff]
  exact (List.singleton_infix_iff _ _).not

end Cuts

section Segments

variable {text front name rest : List Char}

theorem segments_plain (hplain : ¬referenceStart <:+: text) : segments text = [.plain text] := by
  rw [segments]
  split
  · rfl
  · rename_i hcut
    rw [cut_eq_none_iff.mpr hplain] at hcut
    cases hcut

theorem segments_unclosed (hplain : ¬referenceStart <:+: front) (hunclosed : '}' ∉ rest) :
    segments (front ++ referenceStart ++ rest) = [.plain front, .reference rest] := by
  have hstart : cut referenceStart (front ++ referenceStart ++ rest) = some (front, rest) :=
    cut_start_iff.mpr ⟨rfl, hplain⟩
  have hend : cut referenceEnd rest = none := cut_end_eq_none_iff.mpr hunclosed
  rw [segments]
  split <;> rename_i hcut <;> cases hstart.symm.trans hcut
  split <;> rename_i hclose <;> cases hend.symm.trans hclose
  rfl

theorem segments_closed (hplain : ¬referenceStart <:+: front) (hfirst : '}' ∉ name) :
    segments (front ++ referenceStart ++ (name ++ referenceEnd ++ rest)) =
      .plain front :: .reference name :: segments rest := by
  have hstart : cut referenceStart (front ++ referenceStart ++ (name ++ referenceEnd ++ rest)) =
      some (front, name ++ referenceEnd ++ rest) := cut_start_iff.mpr ⟨rfl, hplain⟩
  have hend : cut referenceEnd (name ++ referenceEnd ++ rest) = some (name, rest) :=
    cut_end_iff.mpr ⟨rfl, hfirst⟩
  rw [segments]
  split <;> rename_i hcut <;> cases hstart.symm.trans hcut
  split <;> rename_i hclose <;> cases hend.symm.trans hclose
  rfl

/-- What holds of all texts: a text has no reference, or its first one does not end, or this one
ends and it goes on behind. -/
theorem induction_on_references {motive : List Char → Prop}
    (plain : ∀ text, ¬referenceStart <:+: text → motive text)
    (unclosed : ∀ front rest, ¬referenceStart <:+: front → '}' ∉ rest →
      motive (front ++ referenceStart ++ rest))
    (closed : ∀ front name rest, ¬referenceStart <:+: front → '}' ∉ name → motive rest →
      motive (front ++ referenceStart ++ (name ++ referenceEnd ++ rest)))
    (text : List Char) : motive text := by
  induction text using segments.induct with
  | case1 text hstart => exact plain text (cut_eq_none_iff.mp hstart)
  | case2 text front after hstart hend =>
    obtain ⟨rfl, hplain⟩ := cut_start_iff.mp hstart
    exact unclosed front after hplain (cut_end_eq_none_iff.mp hend)
  | case3 text front after hstart name rest hend _ _ ih =>
    obtain ⟨rfl, hplain⟩ := cut_start_iff.mp hstart
    obtain ⟨rfl, hfirst⟩ := cut_end_iff.mp hend
    exact closed front name rest hplain hfirst ih

end Segments

section Expand

variable {lookup : String → Option String} {text front name rest expanded : List Char}

/-! ### What they are replaced by -/

theorem expand_plain (hplain : ¬referenceStart <:+: text) : expand lookup text = text := by
  rw [expand, segments_plain hplain, List.flatMap_singleton, Segment.expand]

theorem expand_unclosed (hplain : ¬referenceStart <:+: front) (hunclosed : '}' ∉ rest) :
    expand lookup (front ++ referenceStart ++ rest) =
      front ++ (Segment.reference rest).expand lookup := by
  rw [expand, segments_unclosed hplain hunclosed, List.flatMap_cons, List.flatMap_singleton,
    Segment.expand]

theorem expand_closed (hplain : ¬referenceStart <:+: front) (hfirst : '}' ∉ name) :
    expand lookup (front ++ referenceStart ++ (name ++ referenceEnd ++ rest)) =
      front ++ (Segment.reference name).expand lookup ++ expand lookup rest := by
  rw [expand, segments_closed hplain hfirst, List.flatMap_cons, List.flatMap_cons, Segment.expand,
    List.append_assoc, expand]

theorem expand_reference_of_none (hnone : lookup (String.ofList name) = none) :
    (Segment.reference name).expand lookup = referenceStart ++ name ++ referenceEnd := by
  rw [Segment.expand, hnone]

theorem expand_reference_of_some {value : String}
    (hsome : lookup (String.ofList name) = some value) :
    (Segment.reference name).expand lookup = value.toList := by
  rw [Segment.expand, hsome]

/-! ### Which variables they name -/

theorem references_unclosed (hplain : ¬referenceStart <:+: front) (hunclosed : '}' ∉ rest) :
    references (front ++ referenceStart ++ rest) = [String.ofList rest] := by
  rw [references, segments_unclosed hplain hunclosed]
  rfl

theorem references_closed (hplain : ¬referenceStart <:+: front) (hfirst : '}' ∉ name) :
    references (front ++ referenceStart ++ (name ++ referenceEnd ++ rest)) =
      String.ofList name :: references rest := by
  rw [references, segments_closed hplain hfirst]
  rfl

/-! ### Whether one is left open -/

theorem not_leftOpen_plain (hplain : ¬referenceStart <:+: text) : ¬LeftOpen text := by
  rintro ⟨rest, hsuffix, -⟩
  exact hplain ((List.prefix_append referenceStart rest).isInfix.trans hsuffix.isInfix)

theorem leftOpen_unclosed (hunclosed : '}' ∉ rest) :
    LeftOpen (front ++ referenceStart ++ rest) := by
  refine ⟨rest, ?_, hunclosed⟩
  rw [List.append_assoc]
  exact List.suffix_append front _

/-- Only behind a reference that ends can there be one that does not. -/
theorem leftOpen_closed :
    LeftOpen (front ++ referenceStart ++ (name ++ referenceEnd ++ rest)) ↔ LeftOpen rest := by
  have hbehind : '}' :: rest <:+ front ++ referenceStart ++ (name ++ referenceEnd ++ rest) := by
    refine ⟨front ++ referenceStart ++ name, ?_⟩
    simp [referenceEnd]
  constructor
  · rintro ⟨last, hsuffix, hlast⟩
    refine ⟨last, ?_, hlast⟩
    have hend : '}' ∉ referenceStart ++ last := by simp [referenceStart, hlast]
    -- of two ends of a text one is an end of the other, and the one with the mark is the longer
    obtain hlater | hearlier := List.suffix_or_suffix_of_suffix hsuffix hbehind
    · obtain hhere | hrest := List.suffix_cons_iff.mp hlater
      · exact absurd (hhere ▸ List.mem_cons_self) hend
      · exact hrest
    · exact absurd (hearlier.subset List.mem_cons_self) hend
  · rintro ⟨last, hsuffix, hlast⟩
    exact ⟨last, hsuffix.trans ((List.suffix_cons '}' rest).trans hbehind), hlast⟩

end Expand

/-! ## What the rules settle -/

section Expands

variable {lookup : String → Option String} {text front name rest expanded : List Char}

/-- Every text comes to something. -/
theorem exists_expands (lookup : String → Option String) (text : List Char) :
    ∃ expanded, Expands lookup text expanded := by
  induction text using induction_on_references with
  | plain text hplain => exact ⟨text, .plain hplain⟩
  | unclosed front rest hplain hunclosed => exact ⟨_, .unclosed hplain hunclosed⟩
  | closed front name rest hplain hfirst ih =>
    obtain ⟨expanded, hmore⟩ := ih
    rcases hlookup : lookup (String.ofList name) with _ | value
    · exact ⟨_, .unset hplain hfirst hlookup hmore⟩
    · exact ⟨_, .set hplain hfirst hlookup hmore⟩

/-- What a text without a reference comes to. -/
theorem Expands.eq_of_plain (h : Expands lookup text expanded)
    (hplain : ¬referenceStart <:+: text) : expanded = text := by
  cases h with
  | plain | unclosed => rfl
  | set | unset => exact absurd (List.infix_append _ _ _) hplain

theorem start_unique {front' rest' : List Char}
    (heq : front ++ referenceStart ++ rest = front' ++ referenceStart ++ rest')
    (hplain : ¬referenceStart <:+: front) (hplain' : ¬referenceStart <:+: front') :
    front = front' ∧ rest = rest' := by
  have hcut := cut_start_iff.mpr ⟨heq, hplain'⟩
  rw [cut_start_iff.mpr ⟨rfl, hplain⟩, Option.some.injEq, Prod.mk.injEq] at hcut
  exact hcut

theorem end_unique {name' rest' : List Char}
    (heq : name ++ referenceEnd ++ rest = name' ++ referenceEnd ++ rest')
    (hfirst : '}' ∉ name) (hfirst' : '}' ∉ name') : name = name' ∧ rest = rest' := by
  have hcut := cut_end_iff.mpr ⟨heq, hfirst'⟩
  rw [cut_end_iff.mpr ⟨rfl, hfirst⟩, Option.some.injEq, Prod.mk.injEq] at hcut
  exact hcut

/-- What a text whose first reference does not end comes to. -/
theorem Expands.eq_of_unclosed
    (h : Expands lookup (front ++ referenceStart ++ rest) expanded)
    (hplain : ¬referenceStart <:+: front) (hunclosed : '}' ∉ rest) :
    expanded = front ++ referenceStart ++ rest := by
  generalize heq : front ++ referenceStart ++ rest = text at h
  cases h with
  | plain | unclosed => rfl
  | set hplain' | unset hplain' =>
    obtain ⟨-, rfl⟩ := start_unique heq hplain hplain'
    exact absurd (by simp [referenceEnd]) hunclosed

/-- What a text whose first reference ends comes to. -/
theorem Expands.exists_of_closed
    (h : Expands lookup (front ++ referenceStart ++ (name ++ referenceEnd ++ rest)) expanded)
    (hplain : ¬referenceStart <:+: front) (hfirst : '}' ∉ name) :
    ∃ more, Expands lookup rest more ∧
      expanded = front ++ (Segment.reference name).expand lookup ++ more := by
  generalize heq : front ++ referenceStart ++ (name ++ referenceEnd ++ rest) = text at h
  cases h with
  | plain hnone =>
    rw [← heq] at hnone
    exact absurd (List.infix_append _ _ _) hnone
  | unclosed hplain' hunclosed =>
    obtain ⟨-, rfl⟩ := start_unique heq hplain hplain'
    exact absurd (by simp [referenceEnd]) hunclosed
  | set hplain' hfirst' hset hmore =>
    -- the rule was used for the same reference, as there is only one that is the first
    obtain ⟨rfl, hbehind⟩ := start_unique heq hplain hplain'
    obtain ⟨rfl, rfl⟩ := end_unique hbehind hfirst hfirst'
    exact ⟨_, hmore, by rw [expand_reference_of_some hset]⟩
  | unset hplain' hfirst' hunset hmore =>
    obtain ⟨rfl, hbehind⟩ := start_unique heq hplain hplain'
    obtain ⟨rfl, rfl⟩ := end_unique hbehind hfirst hfirst'
    exact ⟨_, hmore, by rw [expand_reference_of_none hunset]⟩

/-- A text comes to one thing only. -/
theorem Expands.unique {other : List Char} (h : Expands lookup text expanded)
    (h' : Expands lookup text other) : other = expanded := by
  induction h generalizing other with
  | plain hplain => exact h'.eq_of_plain hplain
  | unclosed hplain hunclosed => exact h'.eq_of_unclosed hplain hunclosed
  | set hplain hfirst hset _ ih =>
    obtain ⟨more, hmore, rfl⟩ := h'.exists_of_closed hplain hfirst
    rw [expand_reference_of_some hset, ih hmore]
  | unset hplain hfirst hunset _ ih =>
    obtain ⟨more, hmore, rfl⟩ := h'.exists_of_closed hplain hfirst
    rw [expand_reference_of_none hunset, ih hmore]

/-- Where every reference ends, replacing them keeps to the rules. -/
theorem Expands.eq_expand (h : Expands lookup text expanded) (hended : ¬LeftOpen text) :
    expanded = expand lookup text := by
  induction h with
  | plain hplain => exact (expand_plain hplain).symm
  | unclosed _ hunclosed => exact absurd (leftOpen_unclosed hunclosed) hended
  | set hplain hfirst hset _ ih =>
    rw [leftOpen_closed] at hended
    rw [expand_closed hplain hfirst, expand_reference_of_some hset, ih hended]
  | unset hplain hfirst hunset _ ih =>
    rw [leftOpen_closed] at hended
    rw [expand_closed hplain hfirst, expand_reference_of_none hunset, ih hended]

/-- By the rules a reference that does not end stays, whatever stands before it. -/
theorem Expands.append_unclosed (h : Expands lookup front expanded) (hended : ¬LeftOpen front)
    (hunclosed : '}' ∉ rest) :
    Expands lookup (front ++ referenceStart ++ rest) (expanded ++ referenceStart ++ rest) := by
  induction h with
  | plain hplain => exact .unclosed hplain hunclosed
  | unclosed _ hunclosed => exact absurd (leftOpen_unclosed hunclosed) hended
  | set hplain hfirst hset _ ih =>
    rw [leftOpen_closed] at hended
    simpa only [List.append_assoc] using Expands.set hplain hfirst hset (ih hended)
  | unset hplain hfirst hunset _ ih =>
    rw [leftOpen_closed] at hended
    simpa only [List.append_assoc] using Expands.unset hplain hfirst hunset (ih hended)

end Expands

/-! ## References that do not end -/

section LeftOpen

variable {lookup : String → Option String} {text front rest : List Char}

/-- Of the references in a text, the one that does not end is the last. -/
theorem LeftOpen.exists_eq_append (h : LeftOpen text) : ∃ front rest,
    text = front ++ referenceStart ++ rest ∧ ¬LeftOpen front ∧ '}' ∉ rest := by
  induction text using induction_on_references with
  | plain text hplain => exact absurd h (not_leftOpen_plain hplain)
  | unclosed front rest hplain hunclosed =>
    exact ⟨front, rest, rfl, not_leftOpen_plain hplain, hunclosed⟩
  | closed front name rest hplain hfirst ih =>
    obtain ⟨between, last, rfl, hended, hunclosed⟩ := ih (leftOpen_closed.mp h)
    refine ⟨front ++ referenceStart ++ (name ++ referenceEnd ++ between), last, ?_, ?_, hunclosed⟩
    · simp only [List.append_assoc]
    · rwa [leftOpen_closed]

/-- What a reference that does not end is replaced by. -/
theorem expand_append_unclosed (hended : ¬LeftOpen front) (hunclosed : '}' ∉ rest) :
    expand lookup (front ++ referenceStart ++ rest) =
      expand lookup front ++ (Segment.reference rest).expand lookup := by
  induction front using induction_on_references with
  | plain front hplain => rw [expand_unclosed hplain hunclosed, expand_plain hplain]
  | unclosed front last hplain hlast => exact absurd (leftOpen_unclosed hlast) hended
  | closed front name between hplain hfirst ih =>
    rw [leftOpen_closed] at hended
    have hassoc : front ++ referenceStart ++ (name ++ referenceEnd ++ between) ++
        referenceStart ++ rest = front ++ referenceStart ++
          (name ++ referenceEnd ++ (between ++ referenceStart ++ rest)) := by
      simp only [List.append_assoc]
    rw [hassoc, expand_closed hplain hfirst, expand_closed hplain hfirst, ih hended,
      List.append_assoc, List.append_assoc, List.append_assoc]

/-- Without values for the variables in it, a text stays as it is by the rules. -/
theorem Expands.refl_of_unset (hunset : ∀ name ∈ references text, lookup name = none) :
    Expands lookup text text := by
  induction text using induction_on_references with
  | plain text hplain => exact .plain hplain
  | unclosed front rest hplain hunclosed => exact .unclosed hplain hunclosed
  | closed front name rest hplain hfirst ih =>
    rw [references_closed hplain hfirst, List.forall_mem_cons] at hunset
    simpa only [List.append_assoc] using Expands.unset hplain hfirst hunset.1 (ih hunset.2)

/-- Without values for the variables in it, the reference that does not end gets an end. -/
theorem expand_of_unset (hunset : ∀ name ∈ references text, lookup name = none)
    (hopen : LeftOpen text) : expand lookup text = text ++ referenceEnd := by
  induction text using induction_on_references with
  | plain text hplain => exact absurd hopen (not_leftOpen_plain hplain)
  | unclosed front rest hplain hunclosed =>
    rw [references_unclosed hplain hunclosed, List.forall_mem_singleton] at hunset
    rw [expand_unclosed hplain hunclosed, expand_reference_of_none hunset]
    simp only [List.append_assoc]
  | closed front name rest hplain hfirst ih =>
    rw [references_closed hplain hfirst, List.forall_mem_cons] at hunset
    rw [expand_closed hplain hfirst, expand_reference_of_none hunset.1,
      ih hunset.2 (leftOpen_closed.mp hopen)]
    simp only [List.append_assoc]

end LeftOpen

/-- **Replacing references, up to one that does not end.** Whatever text this is and whichever
variables have a value, there is one thing that the text comes to by the rules.  Where every
reference ends, this is what replacing the references gives.  Elsewhere the last of the references
does not end.  By the rules it would stay, behind what the text before it comes to.  Instead, all
that stands behind its beginning is taken for a name: it is replaced if there is such a variable,
and gets an end otherwise.  In particular, a text without a value for any of its variables comes to
itself by the rules, and replacing its references leaves it as it is, too, but for the end that a
reference gets which has none. -/
theorem expansion_up_to_open_reference (lookup : String → Option String) (text : List Char) :
    (∃! expanded, Expands lookup text expanded) ∧
      (¬LeftOpen text → Expands lookup text (expand lookup text)) ∧
      (LeftOpen text → ∃ front rest,
        text = front ++ referenceStart ++ rest ∧ ¬LeftOpen front ∧ '}' ∉ rest ∧
        Expands lookup text (expand lookup front ++ referenceStart ++ rest) ∧
        (∀ value, lookup (String.ofList rest) = some value →
          expand lookup text = expand lookup front ++ value.toList) ∧
        (lookup (String.ofList rest) = none →
          expand lookup text = expand lookup front ++ referenceStart ++ rest ++ referenceEnd)) ∧
      ((∀ name ∈ references text, lookup name = none) →
        Expands lookup text text ∧ (¬LeftOpen text → expand lookup text = text) ∧
          (LeftOpen text → expand lookup text = text ++ referenceEnd)) := by
  have hended : ∀ text, ¬LeftOpen text → Expands lookup text (expand lookup text) := by
    intro text hended
    obtain ⟨expanded, hexpands⟩ := exists_expands lookup text
    exact hexpands.eq_expand hended ▸ hexpands
  refine ⟨?_, hended text, ?_, ?_⟩
  · obtain ⟨expanded, hexpands⟩ := exists_expands lookup text
    exact ⟨expanded, hexpands, fun _ hother => hexpands.unique hother⟩
  · intro hopen
    obtain ⟨front, rest, rfl, hfront, hunclosed⟩ := hopen.exists_eq_append
    refine ⟨front, rest, rfl, hfront, hunclosed, (hended front hfront).append_unclosed hfront
      hunclosed, fun value hsome => ?_, fun hnone => ?_⟩
    · rw [expand_append_unclosed hfront hunclosed, expand_reference_of_some hsome]
    · rw [expand_append_unclosed hfront hunclosed, expand_reference_of_none hnone]
      simp only [List.append_assoc]
  · intro hunset
    have hstays := Expands.refl_of_unset hunset
    exact ⟨hstays, fun hended => (hstays.eq_expand hended).symm, expand_of_unset hunset⟩

theorem leftOpen_iff {text : List Char} :
    LeftOpen text ↔ ∃ last ∈ text.tails, referenceStart <+: last ∧ '}' ∉ last := by
  constructor
  · rintro ⟨rest, hsuffix, hunclosed⟩
    refine ⟨referenceStart ++ rest, (List.mem_tails _ _).mpr hsuffix, List.prefix_append _ _, ?_⟩
    simp [referenceStart, hunclosed]
  · rintro ⟨_, hsuffix, ⟨rest, rfl⟩, hunclosed⟩
    exact ⟨rest, (List.mem_tails _ _).mp hsuffix,
      fun h => hunclosed (List.mem_append_right referenceStart h)⟩

instance : DecidablePred LeftOpen := fun _ =>
  decidable_of_iff _ leftOpen_iff.symm

end Text

/-! ## Odd references

References inside of others and beside loose marks, with a variable whose value looks like a
reference. -/

namespace OddReferences

/-- How a name is referred to. -/
def written (name : List Char) : List Char :=
  Text.referenceStart ++ name ++ Text.referenceEnd

/-- The only variable with a value, which is `${B}`. -/
def lookup (name : String) : Option String :=
  if name = "A" then some (String.ofList (written ['B'])) else none

/-- The text `$${A} ${ ${A}}`, in which every reference ends. -/
def text : List Char :=
  ['$'] ++ written ['A'] ++ [' '] ++ written [' ', '$', '{', 'A'] ++ ['}']

/-- It comes to `$${B} ${ ${A}}`. -/
theorem text_expands :
    ¬Text.LeftOpen text ∧ Text.Expands lookup text (['$'] ++ written ['B'] ++ [' '] ++
      written [' ', '$', '{', 'A'] ++ ['}']) := by
  have hended : ¬Text.LeftOpen text := by decide +kernel
  have hexpand : Text.expand lookup text = ['$'] ++ written ['B'] ++ [' '] ++
      written [' ', '$', '{', 'A'] ++ ['}'] := by
    decide +kernel
  refine ⟨hended, ?_⟩
  rw [← hexpand]
  exact (Text.expansion_up_to_open_reference lookup text).2.1 hended

/-- A configuration in which one does not. -/
def openText : List Char :=
  "[log]\nfilter = \"".toList ++ Text.referenceStart ++ "A\"\n".toList

/-- No variable has a value. -/
def unset (_ : String) : Option String :=
  none

/-- By the rules the configuration stays as it is, and it does not stay so. -/
theorem open_text_is_changed :
    (∀ name ∈ Text.references openText, unset name = none) ∧
      Text.Expands unset openText openText ∧
      ¬Text.Expands unset openText (Text.expand unset openText) := by
  have hunset : ∀ name ∈ Text.references openText, unset name = none := fun _ _ => rfl
  have hstays := Text.Expands.refl_of_unset hunset
  refine ⟨hunset, hstays, fun hexpands => ?_⟩
  have hchanged : Text.expand unset openText ≠ openText := by decide +kernel
  exact hchanged (hstays.unique hexpands)

end OddReferences

end Workflow
