import Mathlib.Algebra.Order.Group.Int
import Mathlib.Tactic.Ring
import Workflow.Number.Double

/-!
# Whole numbers as doubles

A double has 53 significant bits.  So a whole number becomes the nearest one that has no more, a
half going to the even neighbour (`significant`).  That one is the same however small the unit is in
which it is counted (`significant_mul_two_pow`), so it is found among whole numbers, without the
units of `2 ^ -1074`.

* `divRound_mono`, `divRound_near` — rounding keeps the order, and goes less than one step away.
* `significant_of_le`, `significant_mono` — numbers of up to 53 bits stay as they are, and no two
  numbers change places.
* `Double.nearest` — the same with a sign, and `Double.place_ofInt`, where the double of a whole
  number stands.
-/

namespace Workflow.Number

/-! ## Rounding a quotient -/

theorem divRound_mono {a b : Nat} (den : Nat) (h : a ≤ b) : divRound a den ≤ divRound b den := by
  have hquotients : a / den ≤ b / den := Nat.div_le_div_right h
  have ha := Nat.div_add_mod a den
  have hb := Nat.div_add_mod b den
  rcases Nat.lt_or_ge (a / den) (b / den) with hlt | hge
  · -- the first one is rounded to its next neighbour at most
    have hup : divRound a den ≤ a / den + 1 := by
      unfold divRound
      dsimp only
      split_ifs <;> omega
    have hdown : b / den ≤ divRound b den := by
      unfold divRound
      dsimp only
      split_ifs <;> omega
    omega
  · -- between the same neighbours the remainders decide
    have heq : b / den = a / den := Nat.le_antisymm hge hquotients
    rw [heq] at hb
    unfold divRound
    dsimp only
    rw [heq]
    split_ifs <;> omega

/-- A quotient is rounded by half a step at most. -/
theorem divRound_near {a den : Nat} (hden : 0 < den) :
    2 * a ≤ 2 * (divRound a den * den) + den ∧ 2 * (divRound a den * den) ≤ 2 * a + den := by
  have ha := Nat.div_add_mod a den
  have hrem := Nat.mod_lt a hden
  have hcomm : den * (a / den) = a / den * den := Nat.mul_comm _ _
  have hsucc : (a / den + 1) * den = a / den * den + den := Nat.succ_mul _ _
  unfold divRound
  dsimp only
  split_ifs
  all_goals omega

theorem divRound_mul_mul (a den : Nat) {c : Nat} (hc : 0 < c) :
    divRound (a * c) (den * c) = divRound a den := by
  have hless : ∀ x y : Nat, 2 * (x * c) < y * c ↔ 2 * x < y := fun x y => by
    rw [← Nat.mul_assoc, Nat.mul_lt_mul_right hc]
  have hless' : ∀ x y : Nat, y * c < 2 * (x * c) ↔ y < 2 * x := fun x y => by
    rw [← Nat.mul_assoc, Nat.mul_lt_mul_right hc]
  unfold divRound
  simp only [Nat.mul_div_mul_right a den hc, Nat.mul_mod_mul_right c a den, hless, hless']

/-! ## Significant bits -/

/-- How far the whole numbers of 53 significant bits lie apart around a number. -/
def spacing (n : Nat) : Nat :=
  Nat.pow 2 (n.log2 - 52)

/-- The nearest whole number of at most 53 significant bits, a half to the even neighbour. -/
def significant (n : Nat) : Nat :=
  divRound n (spacing n) * spacing n

theorem spacing_pos (n : Nat) : 0 < spacing n :=
  Nat.two_pow_pos _

theorem significant_of_dvd {n : Nat} (h : spacing n ∣ n) : significant n = n := by
  obtain ⟨quotient, hquotient⟩ := h
  rw [Nat.mul_comm] at hquotient
  rw [significant]
  nth_rewrite 1 [hquotient]
  rw [divRound_mul _ _ (spacing_pos n), ← hquotient]

/-- Numbers of up to 53 bits stay as they are, and so does the first one behind them. -/
theorem significant_of_le {n : Nat} (h : n ≤ 9007199254740992) : significant n = n := by
  apply significant_of_dvd
  rcases Nat.lt_or_eq_of_le h with hlt | rfl
  · have hlog : n.log2 - 52 = 0 := by
      rcases Nat.eq_zero_or_pos n with rfl | hpos
      · rfl
      · have := (Nat.log2_lt (k := 53) hpos.ne').mpr hlt
        omega
    rw [spacing, hlog]
    exact Nat.one_dvd n
  · decide

/-- Rounding to significant bits stays between the same powers of two. -/
theorem significant_bounds {n : Nat} (hn : n ≠ 0) :
    2 ^ n.log2 ≤ significant n ∧ significant n ≤ 2 ^ (n.log2 + 1) := by
  have hspacing : ∀ k, n.log2 ≤ k → ∃ q, 2 ^ k = q * spacing n := fun k hk => by
    refine ⟨2 ^ (k - (n.log2 - 52)), ?_⟩
    rw [spacing, Nat.pow_eq, ← Nat.pow_add, Nat.sub_add_cancel (by omega)]
  have hbetween : ∀ {a b : Nat}, a ≤ b → divRound a (spacing n) * spacing n ≤
      divRound b (spacing n) * spacing n := fun h =>
    Nat.mul_le_mul_right _ (divRound_mono _ h)
  obtain ⟨low, hlow⟩ := hspacing n.log2 (Nat.le_refl _)
  obtain ⟨high, hhigh⟩ := hspacing (n.log2 + 1) (Nat.le_succ _)
  constructor
  · calc
      2 ^ n.log2 = divRound (2 ^ n.log2) (spacing n) * spacing n := by
        rw [hlow, divRound_mul _ _ (spacing_pos n)]
      _ ≤ significant n := hbetween (Nat.log2_self_le hn)
  · calc
      significant n ≤ divRound (2 ^ (n.log2 + 1)) (spacing n) * spacing n :=
        hbetween (Nat.le_of_lt Nat.lt_log2_self)
      _ = 2 ^ (n.log2 + 1) := by rw [hhigh, divRound_mul _ _ (spacing_pos n)]

theorem significant_mono {m n : Nat} (h : m ≤ n) : significant m ≤ significant n := by
  rcases Nat.eq_zero_or_pos m with rfl | hm
  · exact Nat.zero_le _
  have hn : n ≠ 0 := by omega
  have hlogs : m.log2 ≤ n.log2 :=
    (Nat.le_log2 hn).mpr (Nat.le_trans (Nat.log2_self_le hm.ne') h)
  rcases Nat.lt_or_eq_of_le hlogs with hlt | heq
  · -- a power of two lies between them
    calc
      significant m ≤ 2 ^ (m.log2 + 1) := (significant_bounds hm.ne').2
      _ ≤ 2 ^ n.log2 := Nat.pow_le_pow_right (by decide) hlt
      _ ≤ significant n := (significant_bounds hn).1
  · rw [significant, significant, spacing, heq, ← spacing]
    exact Nat.mul_le_mul_right _ (divRound_mono _ h)

theorem log2_mul_two_pow {n : Nat} (hn : n ≠ 0) (k : Nat) : (n * 2 ^ k).log2 = n.log2 + k := by
  have hpos : n * 2 ^ k ≠ 0 := Nat.mul_ne_zero hn (Nat.two_pow_pos k).ne'
  rw [Nat.log2_eq_iff hpos]
  constructor
  · rw [Nat.pow_add]
    exact Nat.mul_le_mul_right _ (Nat.log2_self_le hn)
  · rw [show n.log2 + k + 1 = n.log2 + 1 + k by omega, Nat.pow_add]
    exact Nat.mul_lt_mul_of_pos_right Nat.lt_log2_self (Nat.two_pow_pos k)

/-- The unit in which a number is counted makes no difference to its significant bits. -/
theorem significant_mul_two_pow (n k : Nat) : significant (n * 2 ^ k) = significant n * 2 ^ k := by
  rcases Nat.eq_zero_or_pos n with rfl | hn
  · simp [significant, divRound]
  have hlog := log2_mul_two_pow hn.ne' k
  rcases Nat.lt_or_ge n.log2 52 with hsmall | hlarge
  · -- neither number is rounded
    have hle : n ≤ 9007199254740992 := by
      have := (Nat.log2_lt (k := 53) hn.ne').mp (by omega)
      omega
    rw [significant_of_le hle]
    apply significant_of_dvd
    apply Nat.dvd_trans _ (Nat.dvd_mul_left (2 ^ k) n)
    rw [spacing, hlog]
    exact Nat.pow_dvd_pow 2 (by omega)
  · have hspacing : spacing (n * 2 ^ k) = spacing n * 2 ^ k := by
      rw [spacing, spacing, hlog, Nat.pow_eq, Nat.pow_eq, ← Nat.pow_add]
      congr 1
      omega
    rw [significant, hspacing, divRound_mul_mul _ _ (Nat.two_pow_pos k), significant,
      Nat.mul_assoc]

/-! ## Doubles of whole numbers -/

namespace Double

theorem exists_unitsPerOne_eq : ∃ k, unitsPerOne = Nat.pow 2 k := by
  unfold unitsPerOne
  generalize 1074 = k
  exact ⟨k, rfl⟩

theorem unitsPerOne_pos : 0 < unitsPerOne := by
  obtain ⟨k, hk⟩ := exists_unitsPerOne_eq
  rw [hk]
  exact Nat.two_pow_pos k

/-- The nearest whole number of at most 53 significant bits, of either sign. -/
def nearest (i : Int) : Int :=
  if i < 0 then -(significant i.natAbs : Int) else significant i.natAbs

theorem nearest_of_le {i : Int} (h : i.natAbs ≤ 9007199254740992) : nearest i = i := by
  rw [nearest, significant_of_le h]
  split <;> omega

theorem nearest_mono {i j : Int} (h : i ≤ j) : nearest i ≤ nearest j := by
  unfold nearest
  split
  · split
    · have hsizes := significant_mono (show j.natAbs ≤ i.natAbs by omega)
      omega
    · omega
  · split
    · omega
    · have hsizes := significant_mono (show i.natAbs ≤ j.natAbs by omega)
      omega

/-- Up to 53 bits a number keeps its place among all others. -/
theorem nearest_lt_iff_of_lt {i j : Int}
    (h : i.natAbs < 9007199254740992 ∨ j.natAbs < 9007199254740992) :
    nearest i < nearest j ↔ i < j := by
  constructor
  · intro hlt
    by_contra hle
    have := nearest_mono (Int.not_lt.mp hle)
    omega
  · intro hlt
    rcases h with hi | hj
    · have hnext := nearest_mono (Int.add_one_le_of_lt hlt)
      rw [nearest_of_le (i := i + 1) (by omega)] at hnext
      rw [nearest_of_le (Nat.le_of_lt hi)]
      omega
    · have hlast := nearest_mono (Int.le_sub_one_of_lt hlt)
      rw [nearest_of_le (i := j - 1) (by omega)] at hlast
      rw [nearest_of_le (Nat.le_of_lt hj)]
      omega

theorem nearest_eq_iff_of_lt {i j : Int}
    (h : i.natAbs < 9007199254740992 ∨ j.natAbs < 9007199254740992) :
    nearest i = nearest j ↔ i = j := by
  have hbelow := nearest_lt_iff_of_lt h
  have habove := nearest_lt_iff_of_lt h.symm
  omega

/-- A number is rounded by half the distance of its neighbours at most. -/
theorem nearest_near (i : Int) : 2 * (nearest i - i).natAbs ≤ spacing i.natAbs := by
  have hnear := divRound_near (a := i.natAbs) (spacing_pos i.natAbs)
  rw [← significant] at hnear
  unfold nearest
  split <;> omega

theorem ofRatio_one (negative : Bool) {n : Nat} (h : n < 18446744073709551616) :
    ofRatio negative n 1 = .finite negative (significant n * unitsPerOne) := by
  have hunits : divRound (n * unitsPerOne) (1 * Nat.pow 2 ((n * unitsPerOne / 1).log2 - 52)) *
      Nat.pow 2 ((n * unitsPerOne / 1).log2 - 52) = significant n * unitsPerOne := by
    obtain ⟨k, hk⟩ := exists_unitsPerOne_eq
    rw [Nat.div_one, Nat.one_mul, hk]
    exact significant_mul_two_pow n k
  have hbound : significant n ≤ 18446744073709551616 := by
    rw [← show significant 18446744073709551616 = 18446744073709551616 by decide]
    exact significant_mono (Nat.le_of_lt h)
  have hfinite : significant n * unitsPerOne < overflowUnits :=
    calc
      significant n * unitsPerOne ≤ 18446744073709551616 * unitsPerOne :=
        Nat.mul_le_mul_right _ hbound
      _ < overflowUnits := by decide +kernel
  unfold ofRatio
  dsimp only
  rw [hunits, if_pos hfinite]

/-- The double of a whole number of 64 bits stands where the nearest number of 53 bits does. -/
theorem place_ofInt {i : Int} (h : i.natAbs < 18446744073709551616) :
    (ofInt i).place = some (nearest i * unitsPerOne) := by
  rw [ofInt, ofRatio_one _ h, place, nearest, Int.natCast_mul]
  simp only [decide_eq_true_eq]
  split
  · rw [Int.neg_mul]
  · rfl

/-- Doubles of whole numbers compare as the nearest numbers of 53 bits do. -/
theorem compares_ofInt {i j : Int} (hi : i.natAbs < 18446744073709551616)
    (hj : j.natAbs < 18446744073709551616) (cmp : Comparison) :
    compares cmp (ofInt i) (ofInt j) = cmp.holds (nearest i) (nearest j) := by
  have hunits : (0 : Int) < unitsPerOne := Int.natCast_pos.mpr unitsPerOne_pos
  rw [compares, place_ofInt hi, place_ofInt hj]
  cases cmp with
  | atLeast => exact decide_eq_decide.mpr (Int.mul_le_mul_right hunits)
  | atMost => exact decide_eq_decide.mpr (Int.mul_le_mul_right hunits)
  | above => exact decide_eq_decide.mpr (Int.mul_lt_mul_right hunits)
  | below => exact decide_eq_decide.mpr (Int.mul_lt_mul_right hunits)

theorem equal_ofInt {i j : Int} (hi : i.natAbs < 18446744073709551616)
    (hj : j.natAbs < 18446744073709551616) :
    equal (ofInt i) (ofInt j) = true ↔ nearest i = nearest j := by
  have hunits : (unitsPerOne : Int) ≠ 0 := Int.natCast_ne_zero.mpr unitsPerOne_pos.ne'
  rw [equal, place_ofInt hi, place_ofInt hj]
  exact beq_iff_eq.trans (mul_left_inj' hunits)

end Double

end Workflow.Number
