import Mathlib.Tactic.SplitIfs
import Workflow.Json.Printer
import Workflow.Json.Reader

/-!
# Texts in quotes

Every text can be written in quotes and read back, whatever characters it holds.  What is written
holds no line feed, nor any other control character.

* `scanText_quote` — a text in quotes is read to its end, and to nothing behind it.
* `not_control_of_mem_quote` — the characters in it.
-/

namespace Workflow.Json

open Number

/-! ## Hexadecimal digits -/

theorem hexDigit?_hexDigit : ∀ n < 16, hexDigit? (hexDigit n) = some n := by
  decide

/-- The number of a control character is read back from its escape. -/
theorem hexValue4?_control {n : Nat} (h : n < 0x20) :
    hexValue4? '0' '0' (hexDigit (n / 16)) (hexDigit (n % 16)) = some n := by
  have hzero : hexDigit? '0' = some 0 := by decide
  have hhigh := hexDigit?_hexDigit (n / 16) (by omega)
  have hlow := hexDigit?_hexDigit (n % 16) (by omega)
  simp only [hexValue4?, hzero, hhigh, hlow, Option.bind_eq_bind, Option.bind_some, pure,
    Option.some.injEq]
  omega

/-! ## Reading back -/

/-- Behind no half of a surrogate pair, nothing is unpaired. -/
theorem TextState.unpaired_of_high {s : TextState} (h : s.high = none) (text : List Char) :
    s.unpaired text = s := by
  rw [unpaired, h]

theorem TextState.unit_of_lt {s : TextState} (h : s.high = none) {n : Nat} (hn : n < 0x20)
    (rest : List Char) : s.unit n rest = s.push (Char.ofNat n) := by
  have hlow : isLowSurrogate n = false := by
    simp [isLowSurrogate]
    omega
  have hhigh : isHighSurrogate n = false := by
    simp [isHighSurrogate]
    omega
  simp [unit, h, hlow, hhigh]

theorem scanText_of_escaped {s : TextState} (h : s.high = none) {c e : Char}
    (hescaped : escaped? c = some e) (hc : c ≠ 'u') (rest : List Char) :
    scanText s ('\\' :: c :: rest) = scanText (s.push e) rest := by
  rw [scanText.eq_4 _ _ _ (by simp [hc]) (by simp [hc]), TextState.unpaired_of_high h, hescaped]

/-- A character that is written as itself is read as itself. -/
theorem scanText_of_plain {s : TextState} (h : s.high = none) {c : Char} (hquote : c ≠ '"')
    (hslash : c ≠ '\\') (hcontrol : ¬ c.toNat < 0x20) (rest : List Char) :
    scanText s (c :: rest) = scanText (s.push c) rest := by
  rw [scanText.eq_5 _ _ _ (by simp [hslash]) (by simp [hslash]) (by simp [hslash]), if_neg hslash,
    TextState.unpaired_of_high h]
  dsimp only
  rw [if_neg hquote, if_neg hcontrol]

theorem scanText_of_control {s : TextState} (h : s.high = none) {c : Char}
    (hcontrol : c.toNat < 0x20) (rest : List Char) :
    scanText s ('\\' :: 'u' :: '0' :: '0' :: hexDigit (c.toNat / 16) :: hexDigit (c.toNat % 16) ::
      rest) = scanText (s.push c) rest := by
  rw [scanText, hexValue4?_control hcontrol]
  dsimp only
  rw [TextState.unit_of_lt h hcontrol, Char.ofNat_toNat]

/-- However a character is written, it is read back. -/
theorem scanText_escape {s : TextState} (h : s.high = none) (c : Char) (rest : List Char) :
    scanText s (escape c ++ rest) = scanText (s.push c) rest := by
  unfold escape
  split_ifs with hquote hslash hfeed hreturn htab hback hform hcontrol
  · subst hquote
    exact scanText_of_escaped h rfl (by decide) rest
  · subst hslash
    exact scanText_of_escaped h rfl (by decide) rest
  · subst hfeed
    exact scanText_of_escaped h rfl (by decide) rest
  · subst hreturn
    exact scanText_of_escaped h rfl (by decide) rest
  · subst htab
    exact scanText_of_escaped h rfl (by decide) rest
  · obtain rfl : c = Char.ofNat 0x08 := by rw [← hback, Char.ofNat_toNat]
    exact scanText_of_escaped h rfl (by decide) rest
  · obtain rfl : c = Char.ofNat 0x0C := by rw [← hform, Char.ofNat_toNat]
    exact scanText_of_escaped h rfl (by decide) rest
  · exact scanText_of_control h hcontrol rest
  · exact scanText_of_plain h hquote hslash hcontrol rest

theorem scanText_flatMap_escape {s : TextState} (h : s.high = none) (text rest : List Char) :
    scanText s (text.flatMap escape ++ rest) =
      scanText { s with chars := text.reverse ++ s.chars } rest := by
  induction text generalizing s with
  | nil => rfl
  | cons c text ih =>
    rw [List.flatMap_cons, List.append_assoc, scanText_escape h]
    rw [ih (s := s.push c) h]
    simp [TextState.push]

/-- A text in quotes is read to its end. -/
theorem scanText_quote (text : String) (rest : List Char) :
    scanText .start (text.toList.flatMap escape ++ '"' :: rest) = .done text rest := by
  rw [scanText_flatMap_escape rfl, scanText.eq_5 _ _ _ (by simp) (by simp) (by simp),
    if_neg (by decide), TextState.unpaired_of_high rfl]
  simp [TextState.close, TextState.start]

/-! ## The characters in quotes -/

theorem not_control_hexDigit {n : Nat} (h : n < 16) : 0x20 ≤ (hexDigit n).toNat := by
  revert n
  decide

/-- Characters that can be checked one by one. -/
theorem not_control_of_all {text : List Char} (h : text.all (0x20 ≤ ·.toNat) = true) :
    ∀ c ∈ text, 0x20 ≤ c.toNat :=
  fun c hc => of_decide_eq_true (List.all_eq_true.mp h c hc)

theorem not_control_of_mem_escape (c : Char) : ∀ d ∈ escape c, 0x20 ≤ d.toNat := by
  unfold escape
  split_ifs with _ _ _ _ _ _ _ hcontrol
  iterate 7 exact not_control_of_all (by decide)
  · have hhigh := not_control_hexDigit (n := c.toNat / 16) (by omega)
    have hlow := not_control_hexDigit (n := c.toNat % 16) (by omega)
    simp only [List.forall_mem_cons, List.not_mem_nil, false_imp_iff, implies_true, and_true]
    exact ⟨by decide, by decide, by decide, by decide, hhigh, hlow⟩
  · intro d hd
    obtain rfl := List.mem_singleton.mp hd
    exact Nat.not_lt.mp hcontrol

/-- No control character is written in quotes, hence no line feed. -/
theorem not_control_of_mem_quote {text : String} {c : Char} (h : c ∈ quote text) :
    0x20 ≤ c.toNat := by
  rcases List.mem_cons.mp h with rfl | h
  · decide
  · rcases List.mem_append.mp h with h | h
    · obtain ⟨d, -, hd⟩ := List.mem_flatMap.mp h
      exact not_control_of_mem_escape d c hd
    · obtain rfl := List.mem_singleton.mp h
      decide

end Workflow.Json
