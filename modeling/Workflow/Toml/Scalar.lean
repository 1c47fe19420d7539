import Workflow.Document.Basic
import Workflow.Instant
import Workflow.Toml.Text

/-!
# Values without parts in TOML

Truth values, numbers, dates and times.  Whole numbers have 64 bits with a sign.  A point or an
exponent makes a number a double, which must not be too large.  Between two digits of a number one
underscore may stand.

A date or a time is a record with one field that nobody asks for.
-/

namespace Workflow.Toml

open Number

/-! ## Numbers -/

/-- More digits of a number, and what stands behind them. -/
def readMoreDigits (isDigit : Char → Bool) : List Char → Option (List Char × List Char)
  | [] => some ([], [])
  | ['_'] => none
  | '_' :: c :: rest => if isDigit c then put c (readMoreDigits isDigit rest) else none
  | c :: rest =>
    if isDigit c then put c (readMoreDigits isDigit rest) else some ([], c :: rest)

/-- The digits of a number, one at least. -/
def readDigits (isDigit : Char → Bool) : List Char → Option (List Char × List Char)
  | [] => none
  | c :: rest => if isDigit c then put c (readMoreDigits isDigit rest) else none

/-- The digits of a whole number: a zero stands alone. -/
def readWhole : List Char → Option (List Char × List Char)
  | '0' :: rest => some (['0'], rest)
  | text => readDigits Char.isDigit text

/-- The whole number of a value, if 64 bits are enough. -/
def wholeNumber (value : Int) : Option Document :=
  if -0x8000000000000000 ≤ value && value < 0x8000000000000000 then some (.scalar (.int value))
  else none

/-- A number in another base, behind the letter for the base. -/
def readBased (base : Nat) (text : List Char) : Option (Document × List Char) := do
  let isDigit (c : Char) := (hexDigit? c).any (· < base)
  let (digits, rest) ← readDigits isDigit text
  let value := digits.foldl (fun n c => base * n + (hexDigit? c).getD 0) 0
  let document ← wholeNumber value
  return (document, rest)

/-- The digits behind a point, if there is one. -/
def readFraction : List Char → Option (Option (List Char) × List Char)
  | '.' :: rest => (readDigits Char.isDigit rest).map fun (digits, more) => (some digits, more)
  | text => some (none, text)

/-- The exponent, if there is one. -/
def readExponent : List Char → Option (Option Int × List Char)
  | [] => some (none, [])
  | c :: rest =>
    if c = 'e' || c = 'E' then
      let (negative, text) := spanSign rest
      (readDigits Char.isDigit text).map fun (digits, more) =>
        let value : Int := digitsValue digits 0
        (some (if negative then -value else value), more)
    else some (none, c :: rest)

/-- A decimal number behind its sign. -/
def readDecimal (negative : Bool) (text : List Char) : Option (Document × List Char) := do
  let (whole, rest) ← readWhole text
  let (fraction, rest) ← readFraction rest
  let (exponent, rest) ← readExponent rest
  if fraction.isNone && exponent.isNone then
    let value : Int := digitsValue whole 0
    let document ← wholeNumber (if negative then -value else value)
    return (document, rest)
  else
    let places := fraction.getD []
    let double := Double.ofDecimal negative (digitsValue places (digitsValue whole 0))
      (exponent.getD 0 - places.length)
    if double = .infinite false then none else some (.scalar (.double double), rest)

/-- A word at the start of a text, and what stands behind it. -/
def readWord {α : Type} (word : String) (value : α) (text : List Char) : Option (α × List Char) :=
  (List.isPrefixOf? word.toList text).map fun rest => (value, rest)

/-- A number. -/
def readNumber (text : List Char) : Option (Document × List Char) :=
  match text with
  | '0' :: 'x' :: rest => readBased 16 rest
  | '0' :: 'o' :: rest => readBased 8 rest
  | '0' :: 'b' :: rest => readBased 2 rest
  | _ =>
    let (negative, rest) := spanSign text
    readWord "inf" (.scalar (.double (.infinite negative))) rest <|>
      readWord "nan" (.scalar (.double .nan)) rest <|> readDecimal negative rest

/-! ## Dates and times -/

/-- What stands behind a character. -/
def readMark (mark : Char) : List Char → Option (List Char)
  | c :: rest => if c = mark then some rest else none
  | [] => none

/-- Two digits that write a number within bounds. -/
def readPair (low high : Nat) : List Char → Option (Nat × List Char)
  | a :: b :: rest => do
    let n := 10 * (← digit? a) + (← digit? b)
    if low ≤ n && n ≤ high then some (n, rest) else none
  | _ => none

/-- What stands behind a day of the calendar. -/
def readDay (text : List Char) : Option (List Char) := do
  let (century, rest) ← readPair 0 99 text
  let (year, rest) ← readPair 0 99 rest
  let (month, rest) ← readPair 1 12 (← readMark '-' rest)
  let days := Instant.daysInMonth (100 * century + year : Nat) month
  let (_, rest) ← readPair 1 days (← readMark '-' rest)
  return rest

/-- What stands behind the fraction of a second. -/
def skipSecondFraction : List Char → List Char
  | '.' :: c :: rest => if c.isDigit then rest.dropWhile Char.isDigit else '.' :: c :: rest
  | text => text

/-- What stands behind a time of the day. -/
def readTime (text : List Char) : Option (List Char) := do
  let (_, rest) ← readPair 0 23 text
  let (_, rest) ← readPair 0 59 (← readMark ':' rest)
  let (_, rest) ← readPair 0 60 (← readMark ':' rest)
  return skipSecondFraction rest

/-- What stands behind an offset from universal time. -/
def readOffset : List Char → Option (List Char)
  | [] => none
  | c :: rest =>
    if c = 'Z' || c = 'z' then some rest
    else if c = '+' || c = '-' then do
      let (_, rest) ← readPair 0 23 rest
      let (_, rest) ← readPair 0 59 (← readMark ':' rest)
      return rest
    else none

/-- What stands behind a time of the day that follows a day, with an offset or without. -/
def readTimeOfDay : List Char → Option (List Char)
  | [] => none
  | c :: rest =>
    if c = 'T' || c = 't' || c = ' ' then do
      let rest ← readTime rest
      return (readOffset rest).getD rest
    else none

/-- What stands behind a day, a time, or both. -/
def readMoment (text : List Char) : Option (List Char) :=
  match readDay text with
  | some rest => some ((readTimeOfDay rest).getD rest)
  | none => readTime text

/-- A day, a time, or both. -/
def readDate (text : List Char) : Option (Document × List Char) :=
  (readMoment text).map fun rest =>
    let written := String.ofList (text.take (text.length - rest.length))
    (.record [(.ok "datetime", .scalar (.string written))] none, rest)

/-! ## All of them -/

/-- A value without parts. -/
def readScalar (text : List Char) : Option (Document × List Char) :=
  readWord "true" (.scalar (.bool true)) text <|> readWord "false" (.scalar (.bool false)) text <|>
    ((readText text).map fun (s, rest) => (.scalar (.string (String.ofList s)), rest)) <|>
    readDate text <|> readNumber text

end Workflow.Toml
