/-!
# Binary doubles, exactly

A finite double is a whole number of units of `2 ^ -1074`, the smallest positive double, with a sign
of its own so that the two zeros differ.  Every finite double is such a number, so comparisons are
comparisons of integers, and rounding is one function, `Double.ofRatio`: the nearest double with at
most 53 significant bits, a half going to the even neighbour.  Nothing here depends on the machine's
floating point.
-/

namespace Workflow.Number

/-- `num / den` to the nearest whole number, a half to the even neighbour. -/
def divRound (num den : Nat) : Nat :=
  let quotient := num / den
  let remainder := num % den
  if 2 * remainder < den then quotient
  else if den < 2 * remainder then quotient + 1
  else if quotient % 2 = 0 then quotient
  else quotient + 1

/-- A division without remainder is not rounded. -/
theorem divRound_mul (q d : Nat) (hd : 0 < d) : divRound (q * d) d = q := by
  simp [divRound, hd]

/-- A double: finite, infinite, or not a number. -/
inductive Double where
  /-- the number of units of `2 ^ -1074`, with a sign -/
  | finite (negative : Bool) (units : Nat)
  /-- beyond the finite doubles on either side -/
  | infinite (negative : Bool)
  /-- not a number; it compares with nothing -/
  | nan
deriving DecidableEq, Inhabited, Repr

namespace Double

/-- The number of units in one. -/
def unitsPerOne : Nat := Nat.pow 2 1074

/-- The first number of units that is too large for a finite double: `2 ^ 1024` ones. -/
def overflowUnits : Nat := Nat.pow 2 2098

/-- Zero, with a sign. -/
def zero (negative : Bool) : Double := .finite negative 0

/-- The double nearest to `num / den`, or an infinity from the overflow bound on. -/
def ofRatio (negative : Bool) (num den : Nat) : Double :=
  let scaled := num * unitsPerOne
  let step := Nat.pow 2 ((scaled / den).log2 - 52)
  let units := divRound scaled (den * step) * step
  if units < overflowUnits then .finite negative units else .infinite negative

/-- The double nearest to a natural number. -/
def ofNat (n : Nat) : Double := ofRatio false n 1

/-- The double nearest to an integer; zero is positive. -/
def ofInt (i : Int) : Double := ofRatio (decide (i < 0)) i.natAbs 1

/-- The double with the other sign. -/
def negate : Double → Double
  | finite negative units => finite (!negative) units
  | infinite negative => infinite (!negative)
  | nan => nan

/-- Give a double the sign `negative` flips to. -/
def withSign (negative : Bool) (x : Double) : Double :=
  if negative then x.negate else x

/-- Whether a double is zero of either sign. -/
def isZero : Double → Bool
  | finite _ units => units == 0
  | _ => false

/-- Whether a double is an infinity. -/
def isInfinite : Double → Bool
  | infinite _ => true
  | _ => false

/-- The product of two finite doubles, rounded; `nan` for anything else. -/
def times : Double → Double → Double
  | finite n a, finite m b => ofRatio (n != m) (a * b) (unitsPerOne * unitsPerOne)
  | _, _ => nan

/-- The quotient of two finite doubles, rounded, the second not zero; `nan` for anything else. -/
def dividedBy : Double → Double → Double
  | finite n a, finite m b => if b = 0 then nan else ofRatio (n != m) a b
  | _, _ => nan

/-! ## Comparison -/

/-- The place of a double on the number line, in units, the infinities one step outside the finite
doubles; `none` for not a number. -/
def place : Double → Option Int
  | finite negative units => some (if negative then -(units : Int) else units)
  | infinite negative => some (if negative then -(overflowUnits : Int) else overflowUnits)
  | nan => none

/-- The ways in which guards compare numbers. -/
inductive Comparison where
  | atLeast | atMost | above | below
deriving DecidableEq, Repr

/-- Whether two places on the number line stand in the comparison. -/
def Comparison.holds : Comparison → Int → Int → Bool
  | .atLeast, a, b => decide (b ≤ a)
  | .atMost, a, b => decide (a ≤ b)
  | .above, a, b => decide (b < a)
  | .below, a, b => decide (a < b)

/-- Whether two doubles stand in the comparison; never with a `nan`. -/
def compares (cmp : Comparison) (x y : Double) : Bool :=
  match x.place, y.place with
  | some a, some b => cmp.holds a b
  | _, _ => false

/-- Whether two doubles are equal as numbers: the zeros are, `nan` equals nothing. -/
def equal (x y : Double) : Bool :=
  match x.place, y.place with
  | some a, some b => a == b
  | _, _ => false

/-! ## Decimals -/

/-- The number of decimal digits of a natural number. -/
def digitCount (n : Nat) : Nat := (Nat.toDigits 10 n).length

/-- The double nearest to `digits * 10 ^ exponent`. Far outside the range of doubles, where the
power of ten would be needlessly large, the answer is known without it. -/
def ofDecimal (negative : Bool) (digits : Nat) (exponent : Int) : Double :=
  if digits = 0 then zero negative
  else if 400 < exponent + digitCount digits then infinite negative
  else if exponent + digitCount digits < -400 then zero negative
  else if 0 ≤ exponent then ofRatio negative (digits * Nat.pow 10 exponent.toNat) 1
  else ofRatio negative digits (Nat.pow 10 (-exponent).toNat)

end Double

end Workflow.Number
