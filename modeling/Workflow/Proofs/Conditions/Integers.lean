import Workflow.Proofs.Conditions.Operands
import Workflow.Proofs.Digits
import Workflow.Proofs.Rounding

/-!
# Whole numbers in conditions

Variables keep whole numbers of 64 bits exactly, but a condition compares numbers as doubles, both
the variable and the operand.  A whole number in decimal is read as the double nearest to it, and so
is a variable.  So a condition holds just if the relation does between the two numbers that these
were rounded to: numbers of up to 53 bits are told apart from all others, larger ones only if they
are not rounded to the same.

* `Number.literal?_decimal` — the double of a whole number in decimal.
* `Evaluator.integers_compare_as_doubles` — what conditions on whole numbers mean.
* `Precision.neighbours_are_equal` — two numbers that are not told apart.
-/

namespace Workflow

open Text Number

/-! ## Whole numbers in decimal -/

/-- The whole numbers that a variable can hold. -/
def Value.InRange (i : Int) : Prop :=
  -9223372036854775808 ≤ i ∧ i ≤ 18446744073709551615

theorem Value.InRange.natAbs_lt {i : Int} (h : Value.InRange i) :
    i.natAbs < 18446744073709551616 := by
  obtain ⟨hlow, hhigh⟩ := h
  omega

namespace Number

/-- A whole number in decimal: its digits, behind a minus if it is negative. -/
theorem toList_toString (i : Int) : (toString i).toList =
    (if i < 0 then ['-'] else []) ++ Nat.toDigits 10 i.natAbs := by
  rcases i with n | n
  · rw [if_neg (by simp)]
    exact String.toList_ofList
  · rw [if_pos (Int.negSucc_lt_zero n), Int.toString_eq_repr]
    simp [Int.repr, Nat.repr]

theorem exists_toDigits_eq (n : Nat) :
    ∃ c rest, Nat.toDigits 10 n = c :: rest ∧ c.isDigit = true := by
  obtain ⟨c, rest, hdigits⟩ := List.exists_cons_of_ne_nil (Nat.toDigits_ne_nil (n := n) (b := 10))
  refine ⟨c, rest, hdigits, isDigit_of_mem_toDigits (n := n) ?_⟩
  rw [hdigits]
  exact List.mem_cons_self

theorem spanSign_toDigits (n : Nat) :
    spanSign (Nat.toDigits 10 n) = (false, Nat.toDigits 10 n) := by
  obtain ⟨c, rest, hdigits, hc⟩ := exists_toDigits_eq n
  rw [hdigits]
  have hminus : c ≠ '-' := by
    rintro rfl
    cases hc
  have hplus : c ≠ '+' := by
    rintro rfl
    cases hc
  rw [spanSign]
  · rintro _ heq
    exact hminus (List.head_eq_of_cons_eq heq)
  · rintro _ heq
    exact hplus (List.head_eq_of_cons_eq heq)

theorem ofDecimal_eq_ofInt {i : Int} (h : i.natAbs < 18446744073709551616) :
    Double.ofDecimal (decide (i < 0)) i.natAbs 0 = Double.ofInt i := by
  have hdigits : Double.digitCount i.natAbs ≤ 20 := by
    rw [Double.digitCount, Nat.length_toDigits_le_iff (by decide) (by decide)]
    omega
  unfold Double.ofDecimal
  rw [if_neg (by omega : ¬ (400 : Int) < 0 + Double.digitCount i.natAbs),
    if_neg (by omega : ¬ (0 : Int) + Double.digitCount i.natAbs < -400), if_pos (Int.le_refl 0)]
  split
  · rename_i hzero
    obtain rfl := Int.natAbs_eq_zero.mp hzero
    decide +kernel
  · rw [Double.ofInt, Int.toNat_zero, Nat.pow_eq, Nat.pow_zero, Nat.mul_one]

/-- A whole number in decimal is read as the double nearest to it. -/
theorem literal?_decimal {i : Int} (h : i.natAbs < 18446744073709551616) :
    literal? (toString i).toList = some (Double.ofInt i) := by
  rw [toList_toString, literal?, ← ofDecimal_eq_ofInt h]
  by_cases hneg : i < 0
  · simp [hneg, spanSign, unsignedLiteral?_toDigits]
  · simp [hneg, spanSign_toDigits, unsignedLiteral?_toDigits]

/-- What a whole number in decimal begins with. -/
theorem exists_decimal_eq (i : Int) :
    ∃ c rest, (toString i).toList = c :: rest ∧ (c = '-' ∨ c.isDigit = true) := by
  rw [toList_toString]
  by_cases hneg : i < 0
  · exact ⟨'-', Nat.toDigits 10 i.natAbs, by simp [hneg], Or.inl rfl⟩
  · obtain ⟨c, rest, hdigits, hc⟩ := exists_toDigits_eq i.natAbs
    exact ⟨c, rest, by simp [hneg, hdigits], Or.inr hc⟩

/-- No blanks stand in a whole number in decimal. -/
theorem trim_decimal (i : Int) : trim (toString i).toList = (toString i).toList := by
  apply trim_eq_self
  have hdigit : ∀ c : Char, c.isDigit = true → isBlank c = false := by
    intro c hc
    have := toNat_of_isDigit hc
    simp [isBlank]
    omega
  intro c hc
  rw [toList_toString] at hc
  rcases List.mem_append.mp hc with hc | hc
  · split at hc
    · obtain rfl := List.mem_singleton.mp hc
      decide
    · cases hc
  · exact hdigit c (isDigit_of_mem_toDigits hc)

end Number

/-! ## Conditions on them -/

/-- A whole number in decimal stands for the double nearest to it. -/
theorem Operand.read_decimal {i : Int} (h : i.natAbs < 18446744073709551616) :
    Operand.read (toString i).toList = .number (Double.ofInt i) := by
  obtain ⟨c, rest, htext, hc⟩ := exists_decimal_eq i
  have hfirst : ∀ d : Char, d ≠ '-' → d.isDigit = false → c ≠ d := by
    rintro d hd hnot rfl
    rcases hc with rfl | hc
    · exact hd rfl
    · rw [hc] at hnot
      cases hnot
  have hword : ∀ (d : Char) (word : List Char), d ≠ '-' → d.isDigit = false →
      (toString i).toList ≠ d :: word := by
    intro d word hd hnot heq
    rw [htext] at heq
    exact hfirst d hd hnot (List.head_eq_of_cons_eq heq)
  have hquote : (toString i).toList.head? ≠ some '"' := by
    rw [htext]
    intro heq
    exact hfirst '"' (by decide) (by decide) (Option.some.inj heq)
  have htrue : (toString i).toList ≠ "true".toList := hword 't' _ (by decide) (by decide)
  have hfalse : (toString i).toList ≠ "false".toList := hword 'f' _ (by decide) (by decide)
  have hnull : (toString i).toList ≠ "null".toList := hword 'n' _ (by decide) (by decide)
  rw [Operand.read, if_neg hquote, if_neg htrue, if_neg hfalse, if_neg hnull, literal?_decimal h]

namespace Relation

variable {m n : Int}

theorem equals_decimal (hm : m.natAbs < 18446744073709551616)
    (hn : n.natAbs < 18446744073709551616) :
    equals.holds (.int m) (toString n).toList = true ↔ Double.nearest m = Double.nearest n := by
  rw [holds, Operand.read_decimal hn, Value.matchesOperand]
  dsimp only [Value.asNumber?]
  exact Double.equal_ofInt hm hn

theorem compares_decimal (hm : m.natAbs < 18446744073709551616)
    (hn : n.natAbs < 18446744073709551616) (cmp : Double.Comparison) :
    (compares cmp).holds (.int m) (toString n).toList =
      cmp.holds (Double.nearest m) (Double.nearest n) := by
  rw [holds, literal?_decimal hn]
  dsimp only [Value.asNumber?]
  exact Double.compares_ofInt hm hn cmp

end Relation

namespace Evaluator

variable {key : String} {vars : Variables} {m : Int}

/-- A relation between a whole number and one in decimal. -/
theorem conditions_decimal {r : Relation} (hkey : isKey key.toList = true)
    (hvar : vars.get? key = some (.int m)) (hr : r ≠ .contains) (n : Int) :
    conditions (key ++ " " ++ r.word ++ " " ++ toString n) vars =
      r.holds (.int m) (toString n).toList := by
  rw [conditions_related hkey fun h => absurd h hr, hvar, trim_decimal]
  rfl

/-- **Whole numbers compare as doubles.** Let a variable be a whole number of 64 bits, and let
another one be written in decimal behind the mark of a relation.  Then the condition that they are
equal, different or in order holds just if that is so of the two numbers of 53 significant bits
which are nearest to them.  So it tells the truth about the two numbers themselves as soon as one of
them lies between `-2 ^ 53` and `2 ^ 53`.  Of any two numbers, equal ones are found equal, numbers
that are found in order are so, and numbers that are found equal lie no further apart than numbers
of 53 significant bits do around them. -/
theorem integers_compare_as_doubles (key : String) (hkey : isKey key.toList = true)
    (vars : Variables) (m n : Int) (hm : Value.InRange m) (hn : Value.InRange n)
    (hvar : vars.get? key = some (.int m)) :
    ((conditions (key ++ " == " ++ toString n) vars = true ↔
        Double.nearest m = Double.nearest n) ∧
      (conditions (key ++ " != " ++ toString n) vars = true ↔
        Double.nearest m ≠ Double.nearest n) ∧
      (conditions (key ++ " < " ++ toString n) vars = true ↔
        Double.nearest m < Double.nearest n)) ∧
    (m.natAbs < 9007199254740992 ∨ n.natAbs < 9007199254740992 →
      (conditions (key ++ " == " ++ toString n) vars = true ↔ m = n) ∧
      (conditions (key ++ " != " ++ toString n) vars = true ↔ m ≠ n) ∧
      (conditions (key ++ " < " ++ toString n) vars = true ↔ m < n)) ∧
    (m = n → conditions (key ++ " == " ++ toString n) vars = true) ∧
    (conditions (key ++ " < " ++ toString n) vars = true → m < n) ∧
    (conditions (key ++ " == " ++ toString n) vars = true →
      2 * (m - n).natAbs ≤ spacing m.natAbs + spacing n.natAbs) := by
  have hdiffers : conditions (key ++ " != " ++ toString n) vars =
      !conditions (key ++ " == " ++ toString n) vars :=
    conditions_differs hkey _ (by rw [hvar]; rfl)
  have hequals : conditions (key ++ " == " ++ toString n) vars = true ↔
      Double.nearest m = Double.nearest n := by
    have htext : key ++ " == " ++ toString n =
        key ++ " " ++ Relation.equals.word ++ " " ++ toString n :=
      String.toList_inj.mp (by simp [Relation.word, Relation.mark])
    rw [htext, conditions_decimal hkey hvar (by simp),
      Relation.equals_decimal hm.natAbs_lt hn.natAbs_lt]
  have hbelow : conditions (key ++ " < " ++ toString n) vars = true ↔
      Double.nearest m < Double.nearest n := by
    have htext : key ++ " < " ++ toString n =
        key ++ " " ++ (Relation.compares .below).word ++ " " ++ toString n :=
      String.toList_inj.mp (by simp [Relation.word, Relation.mark])
    rw [htext, conditions_decimal hkey hvar (by simp),
      Relation.compares_decimal hm.natAbs_lt hn.natAbs_lt]
    exact decide_eq_true_iff
  rw [hdiffers, Bool.not_eq_true', ← Bool.not_eq_true, hequals, hbelow]
  refine ⟨⟨Iff.rfl, Iff.rfl, Iff.rfl⟩, ?_, ?_, ?_, ?_⟩
  · intro hsmall
    exact ⟨Double.nearest_eq_iff_of_lt hsmall, not_congr (Double.nearest_eq_iff_of_lt hsmall),
      Double.nearest_lt_iff_of_lt hsmall⟩
  · exact congrArg Double.nearest
  · intro hlt
    by_contra hle
    have := Double.nearest_mono (Int.not_lt.mp hle)
    omega
  · intro heq
    have hm := Double.nearest_near m
    have hn := Double.nearest_near n
    omega

end Evaluator

/-! ## Neighbours that are rounded to the same -/

namespace Precision

/-- The first whole number that has more than 53 significant bits. -/
def vars : Variables :=
  [("total", .int 9007199254740993)]

/-- A number three further on is told apart from it. -/
theorem numbers_in_order :
    isKey "total".toList = true ∧ Value.InRange 9007199254740993 ∧
      Value.InRange 9007199254740996 ∧ vars.get? "total" = some (.int 9007199254740993) ∧
      Evaluator.conditions ("total" ++ " < " ++ toString (9007199254740996 : Int)) vars = true := by
  have hkey : isKey "total".toList = true := by decide
  have hm : Value.InRange 9007199254740993 := by unfold Value.InRange; omega
  have hn : Value.InRange 9007199254740996 := by unfold Value.InRange; omega
  obtain ⟨⟨-, -, hbelow⟩, -⟩ :=
    Evaluator.integers_compare_as_doubles "total" hkey vars _ _ hm hn rfl
  exact ⟨hkey, hm, hn, rfl, hbelow.mpr (by decide)⟩

/-- Its neighbour is not: the two count as equal, as not different, and as not in order. -/
theorem neighbours_are_equal :
    isKey "total".toList = true ∧ Value.InRange 9007199254740993 ∧
      Value.InRange 9007199254740992 ∧ vars.get? "total" = some (.int 9007199254740993) ∧
      Evaluator.conditions ("total" ++ " == " ++ toString (9007199254740992 : Int)) vars = true ∧
      (9007199254740993 : Int) ≠ 9007199254740992 := by
  refine ⟨by decide, ?_, ?_, rfl, by decide +kernel, by decide⟩
  · unfold Value.InRange
    omega
  · unfold Value.InRange
    omega

end Precision

end Workflow
