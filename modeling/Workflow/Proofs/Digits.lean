import Mathlib.Data.List.TakeWhile
import Workflow.Number.Literal

/-!
# Digits

The decimal digits of a number are read back as this number, and reading them stops in front of
anything else.  They spell none of the words for numbers.
-/

namespace Workflow.Number

theorem isDigit_of_mem_toDigits {n : Nat} {c : Char} (h : c ∈ Nat.toDigits 10 n) :
    c.isDigit = true :=
  Nat.isDigit_of_mem_toDigits (by decide) (by decide) h

theorem digitsValue_toDigits (n : Nat) : digitsValue (Nat.toDigits 10 n) 0 = n :=
  Nat.ofDigitChars_ten_toDigits

theorem spanDigits_append {digits rest : List Char} (hdigits : ∀ c ∈ digits, c.isDigit = true)
    (hrest : ∀ c ∈ rest.head?, c.isDigit = false) :
    spanDigits (digits ++ rest) = (digits, rest) := by
  have hback : rest.takeWhile Char.isDigit = [] ∧ rest.dropWhile Char.isDigit = rest := by
    rcases rest with _ | ⟨c, rest⟩
    · exact ⟨rfl, rfl⟩
    · have hc : c.isDigit = false := hrest c rfl
      simp [hc]
  rw [spanDigits, List.takeWhile_append_of_pos hdigits, List.dropWhile_append_of_pos hdigits,
    hback.1, hback.2, List.append_nil]

theorem toNat_of_isDigit {c : Char} (h : c.isDigit = true) : 48 ≤ c.toNat ∧ c.toNat ≤ 57 := by
  simpa [Char.isDigit, UInt32.le_iff_toNat_le] using h

theorem toLower_of_isDigit {c : Char} (h : c.isDigit = true) : c.toLower = c := by
  have hdigit := toNat_of_isDigit h
  unfold Char.toLower
  rw [dif_neg]
  rintro ⟨hlow, -⟩
  rw [ge_iff_le, UInt32.le_iff_toNat_le] at hlow
  have hupper : 65 ≤ c.toNat := hlow
  omega

/-- No word of letters is spelled by digits. -/
theorem isWord_of_digits {word : String} {digits : List Char}
    (hword : word.toList.any Char.isDigit = false) (hdigits : ∀ c ∈ digits, c.isDigit = true)
    (hnil : digits ≠ []) : isWord word digits = false := by
  rw [isWord, beq_eq_false_iff_ne]
  obtain ⟨c, rest, rfl⟩ := List.exists_cons_of_ne_nil hnil
  intro heq
  have hc := hdigits c List.mem_cons_self
  rw [List.map_cons, toLower_of_isDigit hc] at heq
  have hmem : c ∈ word.toList := by
    rw [← heq]
    exact List.mem_cons_self
  exact List.any_eq_false.mp hword c hmem hc

theorem unsignedLiteral?_toDigits (negative : Bool) (n : Nat) :
    unsignedLiteral? negative (Nat.toDigits 10 n) = some (.ofDecimal negative n 0) := by
  have hdigits : ∀ c ∈ Nat.toDigits 10 n, c.isDigit = true := fun _ => isDigit_of_mem_toDigits
  have hnil : Nat.toDigits 10 n ≠ [] := Nat.toDigits_ne_nil
  have hspan : spanDigits (Nat.toDigits 10 n) = (Nat.toDigits 10 n, []) := by
    have happend : spanDigits (Nat.toDigits 10 n ++ []) = (Nat.toDigits 10 n, []) :=
      spanDigits_append hdigits nofun
    rwa [List.append_nil] at happend
  have hempty : (Nat.toDigits 10 n).isEmpty = false := by
    rw [List.isEmpty_eq_false_iff]
    exact hnil
  have hvalue : digitsValue [] (digitsValue (Nat.toDigits 10 n) 0) = n := digitsValue_toDigits n
  unfold unsignedLiteral?
  rw [isWord_of_digits (by decide) hdigits hnil, isWord_of_digits (by decide) hdigits hnil,
    isWord_of_digits (by decide) hdigits hnil, hspan]
  simp [spanFraction, exponent?, hempty, hvalue]

end Workflow.Number
