import Workflow.Number.Double

/-!
# The shortest decimal that reads back

The decimal digits of a positive double: as few as possible such that the decimal rounds to the
double again, and of those the nearest.  For each number of digits only the two neighbours of the
double on that decimal grid can read back, so these are tried, for one digit first.
-/

namespace Workflow.Number

/-- A positive decimal `0.d₁d₂… * 10 ^ magnitude`, given by its digits as a whole number. -/
structure Decimal where
  /-- the significant digits, as a whole number -/
  digits : Nat
  /-- how many digits the whole number stands for -/
  count : Nat
  /-- the power of ten above the first digit -/
  magnitude : Int
deriving DecidableEq, Repr

/-- A decimal whose digits fit their count: rounding up to the next power of ten moves the
point. -/
def Decimal.normal (d : Decimal) : Decimal :=
  if d.digits = Nat.pow 10 d.count then ⟨1, 1, d.magnitude + 1⟩ else d

namespace Double

/-- The power of ten just above `num / den`: the magnitude `m` with
`10 ^ (m - 1) ≤ num / den < 10 ^ m`. -/
def magnitude (num den : Nat) : Int :=
  if den ≤ num then digitCount (num / den)
  else
    let inverse := digitCount (den / num)
    if num * Nat.pow 10 (inverse - 1) = den then 2 - inverse else 1 - inverse

/-- `num / den` in steps of `10 ^ exponent`, as a fraction. -/
def inSteps (num den : Nat) (exponent : Int) : Nat × Nat :=
  if 0 ≤ exponent then (num, den * Nat.pow 10 exponent.toNat)
  else (num * Nat.pow 10 (-exponent).toNat, den)

/-- The decimal of `count` digits that reads back as the double of `units`, the nearer of the two
neighbours if both do. -/
def decimalOf (units : Nat) (magnitude : Int) (count : Nat) : Option Nat :=
  let exponent := magnitude - count
  let (num, den) := inSteps units unitsPerOne exponent
  let lower := num / den
  let readsBack (d : Nat) : Bool := ofDecimal false d exponent == finite false units
  let nearest := divRound num den
  let other := if nearest = lower then lower + 1 else lower
  if readsBack nearest then some nearest
  else if readsBack other then some other
  else none

/-- The shortest decimal that reads back, looked for from `count` digits on. -/
def shortestFrom (units : Nat) (magnitude : Int) : Nat → Nat → Decimal
  | 0, count => ⟨(decimalOf units magnitude count).getD 0, count, magnitude⟩
  | tries + 1, count =>
    match decimalOf units magnitude count with
    | some digits => ⟨digits, count, magnitude⟩
    | none => shortestFrom units magnitude tries (count + 1)

/-- The shortest decimal that reads back as the positive double of `units`; 17 digits always do. -/
def shortest (units : Nat) : Decimal :=
  (shortestFrom units (magnitude units unitsPerOne) 16 1).normal

end Double

/-! ## Writing a double -/

/-- Where positional notation ends: the exponents of the first digit that are written without an
exponent. -/
structure Layout where
  /-- the smallest exponent written positionally -/
  lowest : Int
  /-- the largest exponent written positionally -/
  highest : Int

/-- Positional notation: the digits with a point at its place, and at least one digit on each side
of it. -/
def positional (digits : List Char) (magnitude : Int) : List Char :=
  if magnitude ≤ 0 then
    '0' :: '.' :: (List.replicate (-magnitude).toNat '0' ++ digits)
  else
    let whole := magnitude.toNat
    if digits.length ≤ whole then
      digits ++ List.replicate (whole - digits.length) '0' ++ ['.', '0']
    else digits.take whole ++ '.' :: digits.drop whole

/-- Notation with an exponent: one digit, the others after a point, and the exponent with its
sign. -/
def scientific (digits : List Char) (exponent : Int) : List Char :=
  let mantissa :=
    match digits with
    | [] => []
    | [d] => [d]
    | d :: more => d :: '.' :: more
  let sign := if exponent < 0 then '-' else '+'
  mantissa ++ 'e' :: sign :: Nat.toDigits 10 exponent.natAbs

/-- A finite double in the fewest digits, positional inside the layout's range. The infinities and
`nan` have no decimal and are written as words. -/
def Double.write (layout : Layout) : Double → List Char
  | .finite negative units =>
    let body :=
      if units = 0 then ['0', '.', '0']
      else
        let decimal := shortest units
        let digits := Nat.toDigits 10 decimal.digits
        let exponent := decimal.magnitude - 1
        if layout.lowest ≤ exponent && exponent ≤ layout.highest then
          positional digits decimal.magnitude
        else scientific digits exponent
    if negative then '-' :: body else body
  | .infinite negative => (if negative then "-inf" else "inf").toList
  | .nan => "NaN".toList

end Workflow.Number
