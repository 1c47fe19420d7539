import Workflow.Number.Literal
import Workflow.Text.Blank

/-!
# Instants

Points in time to the nanosecond, on the proleptic calendar and without time zone.  A second may be
a leap second: it is the last of its minute, with a billion nanoseconds and more.

Instants are written and read in the Internet date-time format.  Reading is lenient about blanks
between the parts, about digits beyond the ninth and about leading zeros, and takes an offset from
universal time; writing always gives universal time.
-/

namespace Workflow

open Number Text

/-- A point in time. -/
structure Instant where
  /-- days since 1 January 1970 -/
  day : Int
  /-- the second of the day -/
  second : Nat
  /-- nanoseconds, a billion or more within a leap second -/
  nanos : Nat
deriving DecidableEq, Repr, Inhabited

namespace Instant

/-- Nanoseconds in a second. -/
def nanosPerSecond : Nat := 1000000000

/-- Seconds in a day. -/
def secondsPerDay : Nat := 86400

/-- The instant some milliseconds after the start of 1 January 1970. -/
def ofMillis (millis : Nat) : Instant :=
  let seconds := millis / 1000
  ⟨(seconds / secondsPerDay : Nat), seconds % secondsPerDay, millis % 1000 * 1000000⟩

/-! ## Calendar -/

/-- Whether a year has a 29 February. -/
def isLeapYear (year : Int) : Bool :=
  year % 4 = 0 && (year % 100 ≠ 0 || year % 400 = 0)

/-- The number of days in a month. -/
def daysInMonth (year : Int) (month : Nat) : Nat :=
  if month = 2 then (if isLeapYear year then 29 else 28)
  else if month = 4 || month = 6 || month = 9 || month = 11 then 30
  else 31

/-- Days from 1 January 1970 to a date. Years are counted from March, so that the leap day is the
last of its year, and in eras of 400 years, which all have the same length. -/
def dayOfDate (year : Int) (month day : Nat) : Int :=
  let y := if month ≤ 2 then year - 1 else year
  let era := y.fdiv 400
  let yearOfEra := y - era * 400
  let monthFromMarch : Int := if month ≤ 2 then month + 9 else (month : Int) - 3
  let dayOfYear := (153 * monthFromMarch + 2).fdiv 5 + day - 1
  let dayOfEra := yearOfEra * 365 + yearOfEra.fdiv 4 - yearOfEra.fdiv 100 + dayOfYear
  era * 146097 + dayOfEra - 719468

/-- The year, month and day of a number of days from 1 January 1970. -/
def dateOfDay (day : Int) : Int × Nat × Nat :=
  let z := day + 719468
  let era := z.fdiv 146097
  let dayOfEra := z - era * 146097
  let yearOfEra :=
    (dayOfEra - dayOfEra.fdiv 1460 + dayOfEra.fdiv 36524 - dayOfEra.fdiv 146096).fdiv 365
  let dayOfYear := dayOfEra - (365 * yearOfEra + yearOfEra.fdiv 4 - yearOfEra.fdiv 100)
  let monthFromMarch := (5 * dayOfYear + 2).fdiv 153
  let dayOfMonth := dayOfYear - (153 * monthFromMarch + 2).fdiv 5 + 1
  let month := if monthFromMarch < 10 then monthFromMarch + 3 else monthFromMarch - 9
  let year := yearOfEra + era * 400
  (if month ≤ 2 then year + 1 else year, month.toNat, dayOfMonth.toNat)

/-- The first and the last year of instants. -/
def firstYear : Int := -262143

/-- The last year of instants. -/
def lastYear : Int := 262142

/-- Whether a day lies in the years of instants. -/
def dayInRange (day : Int) : Bool :=
  dayOfDate firstYear 1 1 ≤ day && day ≤ dayOfDate lastYear 12 31

/-! ## Durations -/

/-- Nanoseconds from `start` to `finish`. A leap second that began before the later instant's second
counts as a second of its own. -/
def nanosBetween (start finish : Instant) : Int :=
  let seconds : Int := (finish.second : Int) - start.second
  let leap : Int :=
    if start.second < finish.second && nanosPerSecond ≤ start.nanos then 1
    else if finish.second < start.second && nanosPerSecond ≤ finish.nanos then -1
    else 0
  ((finish.day - start.day) * secondsPerDay + seconds + leap) * nanosPerSecond +
    ((finish.nanos : Int) - start.nanos)

/-- Whole milliseconds from `start` to `finish`, the fraction dropped. -/
def millisBetween (start finish : Instant) : Int :=
  Int.tdiv (nanosBetween start finish) 1000000

/-! ## Writing -/

/-- A number with leading zeros up to a width. -/
def padded (width n : Nat) : List Char :=
  let digits := Nat.toDigits 10 n
  List.replicate (width - digits.length) '0' ++ digits

/-- The fraction of a second in groups of three digits, as few as lose nothing. -/
def writeFraction (nanos : Nat) : List Char :=
  if nanos = 0 then []
  else if nanos % 1000000 = 0 then '.' :: padded 3 (nanos / 1000000)
  else if nanos % 1000 = 0 then '.' :: padded 6 (nanos / 1000)
  else '.' :: padded 9 nanos

/-- A year in four digits, or with a sign outside the years of four digits. -/
def writeYear (year : Int) : List Char :=
  if 0 ≤ year && year ≤ 9999 then padded 4 year.toNat
  else (if year < 0 then '-' else '+') :: padded 4 year.natAbs

/-- An instant in universal time. -/
def write (instant : Instant) : List Char :=
  let (year, month, day) := dateOfDay instant.day
  let leap := if nanosPerSecond ≤ instant.nanos then 1 else 0
  let second := instant.second % 60 + leap
  writeYear year ++ '-' :: padded 2 month ++ '-' :: padded 2 day ++
    'T' :: padded 2 (instant.second / 3600) ++ ':' :: padded 2 (instant.second / 60 % 60) ++
    ':' :: padded 2 second ++ writeFraction (instant.nanos - leap * nanosPerSecond) ++ ['Z']

/-! ## Reading -/

/-- A number of one to `width` digits, and the text behind it. -/
def readNumber (width : Nat) (text : List Char) : Option (Nat × List Char) :=
  let digits := (text.take width).takeWhile Char.isDigit
  if digits.isEmpty then none
  else some (digitsValue digits 0, text.drop digits.length)

/-- A number of at most two digits within bounds, and the text behind it. -/
def readPart (low high : Nat) (text : List Char) : Option (Nat × List Char) := do
  let (n, rest) ← readNumber 2 (trimStart text)
  if low ≤ n && n ≤ high then some (n, rest) else none

/-- The text behind a mark, in front of which blanks may stand. -/
def readMark (mark : Char) (text : List Char) : Option (List Char) :=
  match trimStart text with
  | c :: rest => if c = mark then some rest else none
  | [] => none

/-- A year of at most four digits, or of any length behind a sign. -/
def readYear (text : List Char) : Option (Int × List Char) :=
  match trimStart text with
  | '-' :: rest => (readNumber rest.length rest).map fun (n, more) => (-(n : Int), more)
  | '+' :: rest => (readNumber rest.length rest).map fun (n, more) => ((n : Int), more)
  | rest => (readNumber 4 rest).map fun (n, more) => ((n : Int), more)

/-- The nanoseconds of a fraction of a second, if one is there; digits beyond the ninth are
dropped. -/
def readFraction : List Char → Option (Nat × List Char)
  | '.' :: rest =>
    let (digits, more) := spanDigits rest
    if digits.isEmpty then none
    else
      let kept := digits.take 9
      some (digitsValue kept 0 * Nat.pow 10 (9 - kept.length), more)
  | text => some (0, text)

/-- The seconds of an offset behind its sign: hours, a colon or blanks or nothing, and minutes. -/
def readOffsetTime (text : List Char) : Option (Nat × List Char) :=
  match text with
  | a :: b :: rest => do
    let hours := (← digit? a) * 10 + (← digit? b)
    match rest.dropWhile fun c => c = ':' || isBlank c with
    | c :: d :: more =>
      let minutes := (← digit? c) * 10 + (← digit? d)
      if minutes < 60 then some (hours * 3600 + minutes * 60, more) else none
    | _ => none
  | _ => none

/-- The offset from universal time in seconds, and the text behind it. -/
def readOffset (text : List Char) : Option (Int × List Char) :=
  if isWord "utc" (text.take 3) then some (0, text.drop 3)
  else
    match text with
    | 'Z' :: rest => some (0, rest)
    | 'z' :: rest => some (0, rest)
    | '+' :: rest => (readOffsetTime rest).map fun (n, more) => ((n : Int), more)
    | '-' :: rest => (readOffsetTime rest).map fun (n, more) => (-(n : Int), more)
    | c :: rest =>
      if c.toNat = 0x2212 then (readOffsetTime rest).map fun (n, more) => (-(n : Int), more)
      else none
    | [] => none

/-- The instant that lies `offset` seconds before a local time. -/
def ofLocal (year : Int) (month day second nanos : Nat) (offset : Int) : Option Instant :=
  let moved := (second : Int) - offset
  let instant : Instant :=
    ⟨dayOfDate year month day + moved.fdiv secondsPerDay, (moved.fmod secondsPerDay).toNat, nanos⟩
  if dayInRange instant.day then some instant else none

/-- The instant that a text writes. -/
def read (text : String) : Option Instant := do
  let (year, rest) ← readYear text.toList
  let (month, rest) ← readPart 1 12 (← readMark '-' rest)
  let (day, rest) ← readPart 1 31 (← readMark '-' rest)
  let rest ←
    match rest with
    | c :: rest => if c = 't' || c = 'T' || c = ' ' then some rest else none
    | [] => none
  let (hour, rest) ← readPart 0 23 rest
  let (minute, rest) ← readPart 0 59 (← readMark ':' rest)
  let (second, rest) ← readPart 0 60 (← readMark ':' rest)
  let (nanos, rest) ← readFraction rest
  let (offset, rest) ← readOffset (trimStart rest)
  let leap := second = 60
  if !(trimStart rest).isEmpty || day > daysInMonth year month || year < firstYear ||
      lastYear < year || (secondsPerDay : Int) ≤ offset.natAbs then none
  else
    ofLocal year month day (hour * 3600 + minute * 60 + (if leap then 59 else second))
      (if leap then nanosPerSecond + nanos else nanos) offset

end Instant

end Workflow
