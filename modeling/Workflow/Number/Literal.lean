import Workflow.Number.Double

/-!
# Numbers written as text

The number literals of guards: an optional sign, then digits with an optional point among or beside
them and an optional exponent, or one of the words `inf`, `infinity` and `nan` in any case.  At
least one digit is needed, and nothing may stand around the literal.
-/

namespace Workflow.Number

/-- The value of a decimal digit. -/
def digit? (c : Char) : Option Nat :=
  if c.isDigit then some (c.toNat - '0'.toNat) else none

/-- The value of a hexadecimal digit of either case. -/
def hexDigit? (c : Char) : Option Nat :=
  if c.isDigit then some (c.toNat - '0'.toNat)
  else if 'a' ≤ c && c ≤ 'f' then some (c.toNat - 'a'.toNat + 10)
  else if 'A' ≤ c && c ≤ 'F' then some (c.toNat - 'A'.toNat + 10)
  else none

/-- The longest run of digits at the start of a text, and the rest. -/
def spanDigits (text : List Char) : List Char × List Char :=
  (text.takeWhile Char.isDigit, text.dropWhile Char.isDigit)

/-- The number that a run of digits writes, after the digits read before. -/
def digitsValue (text : List Char) (before : Nat) : Nat :=
  text.foldl (fun n c => 10 * n + (c.toNat - '0'.toNat)) before

/-- Whether a text is the given lower-case word, whatever its case. -/
def isWord (word : String) (text : List Char) : Bool :=
  text.map Char.toLower == word.toList

/-- A sign at the start of a text (`true` for minus), and the rest. -/
def spanSign : List Char → Bool × List Char
  | '-' :: rest => (true, rest)
  | '+' :: rest => (false, rest)
  | text => (false, text)

/-- The exponent part at the end of a literal: nothing, or `e` with a sign and digits. -/
def exponent? : List Char → Option Int
  | [] => some 0
  | c :: rest =>
    if c = 'e' || c = 'E' then
      let (negative, text) := spanSign rest
      let (digits, more) := spanDigits text
      if digits.isEmpty || !more.isEmpty then none
      else
        let value : Int := digitsValue digits 0
        some (if negative then -value else value)
    else none

/-- The digits after a decimal point, if there is a point, and the rest. -/
def spanFraction : List Char → List Char × List Char
  | '.' :: rest => spanDigits rest
  | text => ([], text)

/-- The double that an unsigned literal writes. -/
def unsignedLiteral? (negative : Bool) (text : List Char) : Option Double :=
  if isWord "inf" text || isWord "infinity" text then some (.infinite negative)
  else if isWord "nan" text then some .nan
  else
    let (whole, afterWhole) := spanDigits text
    let (fraction, afterFraction) := spanFraction afterWhole
    if whole.isEmpty && fraction.isEmpty then none
    else
      (exponent? afterFraction).map fun exponent =>
        Double.ofDecimal negative (digitsValue fraction (digitsValue whole 0))
          (exponent - fraction.length)

/-- The double that a literal writes, or `none` when the text is no literal. -/
def literal? (text : List Char) : Option Double :=
  let (negative, rest) := spanSign text
  unsignedLiteral? negative rest

end Workflow.Number
