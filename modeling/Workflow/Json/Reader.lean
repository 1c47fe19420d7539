import Workflow.Document.Basic
import Workflow.Number.Literal

/-!
# Reading JSON text

A text is read into a `Document`.  Reading never fails as a whole: a mistake becomes a stop inside
the document, at the place where it was met, and nothing behind it is read.

A number is read the quick way.  Its digits are taken into a whole number while they fit into 64
bits, that number is rounded to a double, and the double is multiplied or divided by a rounded power
of ten; each step rounds, so a number of many digits may come out next to the nearest double.  Whole
numbers that fit into 64 bits are kept exactly.
-/

namespace Workflow.Json

open Number

/-- The blanks of JSON. -/
def isBlank (c : Char) : Bool :=
  c = ' ' || c = '\n' || c = '\t' || c = '\r'

/-- A text without the blanks at its start. -/
def skipBlanks (text : List Char) : List Char :=
  text.dropWhile isBlank

/-- How many bytes a text has in UTF-8. -/
def byteCount (text : List Char) : Nat :=
  text.foldl (fun n c => n + c.utf8Size) 0

/-- A stop in front of a text. -/
def stopAt (mistake : Mistake) (text : List Char) : Stop :=
  ⟨mistake, byteCount text⟩

/-- A stop behind the first byte of a text, or at its end if it has none. -/
def stopPast (mistake : Mistake) (text : List Char) : Stop :=
  ⟨mistake, byteCount text - 1⟩

/-- The outcome of reading something without parts: its value, and the text behind it. Either may
be a stop; passing over a value can succeed where wanting it fails. -/
structure Scan (α : Type) where
  /-- the value for a reader who wants it -/
  wanted : Except Stop α
  /-- the text behind, for a reader who passes over -/
  rest : Except Stop (List Char)

/-- A scan that stops for every reader. -/
def Scan.stopped {α : Type} (stop : Stop) : Scan α :=
  ⟨.error stop, .error stop⟩

/-- A scan that succeeds. -/
def Scan.done {α : Type} (value : α) (rest : List Char) : Scan α :=
  ⟨.ok value, .ok rest⟩

/-! ## Texts -/

/-- The number that four hexadecimal digits write. -/
def hexValue4? (a b c d : Char) : Option Nat := do
  let a ← hexDigit? a
  let b ← hexDigit? b
  let c ← hexDigit? c
  let d ← hexDigit? d
  return ((a * 16 + b) * 16 + c) * 16 + d

/-- The character of an escape of one letter. -/
def escaped? : Char → Option Char
  | '"' => some '"'
  | '\\' => some '\\'
  | '/' => some '/'
  | 'b' => some (Char.ofNat 0x08)
  | 'f' => some (Char.ofNat 0x0C)
  | 'n' => some '\n'
  | 'r' => some '\r'
  | 't' => some '\t'
  | _ => none

/-- Whether a code unit is the first of a surrogate pair. -/
def isHighSurrogate (n : Nat) : Bool := 0xD800 ≤ n && n ≤ 0xDBFF

/-- Whether a code unit is the second of a surrogate pair. -/
def isLowSurrogate (n : Nat) : Bool := 0xDC00 ≤ n && n ≤ 0xDFFF

/-- The character of a surrogate pair. -/
def pairedChar (high low : Nat) : Char :=
  Char.ofNat (0x10000 + (high - 0xD800) * 0x400 + (low - 0xDC00))

/-- The stop of a hexadecimal escape with fewer than four digits, given what stands behind its
letter: the text ends, or something else stands there. -/
def badHex (text : List Char) : Stop :=
  if byteCount text < 4 then ⟨.endInText, 0⟩ else ⟨.badEscape, byteCount text - 4⟩

/-- How far the reading of a quoted text has come. -/
structure TextState where
  /-- the first stop for a reader who wants the text -/
  fault : Option Stop
  /-- the first half of a surrogate pair, read just before -/
  high : Option Nat
  /-- the characters so far, last first -/
  chars : List Char

namespace TextState

/-- Nothing is read yet. -/
def start : TextState := ⟨none, none, []⟩

/-- Note a stop for a reader who wants the text, unless there is one already. -/
def note (s : TextState) (stop : Stop) : TextState :=
  { s with fault := s.fault <|> some stop, high := none }

/-- Something other than an escaped code unit comes next, in front of `text`, which is a fault
behind the first half of a surrogate pair. -/
def unpaired (s : TextState) (text : List Char) : TextState :=
  match s.high with
  | none => s
  | some _ => s.note (stopPast .unfinishedEscape text)

/-- A character is read. -/
def push (s : TextState) (c : Char) : TextState :=
  { s with chars := c :: s.chars }

/-- An escaped code unit is read, with `rest` behind it. -/
def unit (s : TextState) (n : Nat) (rest : List Char) : TextState :=
  match s.high with
  | some high =>
    if isLowSurrogate n then { s.push (pairedChar high n) with high := none }
    else s.note (stopAt .loneSurrogate rest)
  | none =>
    if isLowSurrogate n then s.note (stopAt .loneSurrogate rest)
    else if isHighSurrogate n then { s with high := some n }
    else s.push (Char.ofNat n)

/-- Reading stops for every reader. -/
def stop (s : TextState) (stop : Stop) : Scan String :=
  ⟨.error (s.fault.getD stop), .error stop⟩

/-- The closing quote is read. -/
def close (s : TextState) (rest : List Char) : Scan String :=
  match s.fault with
  | none => .done (String.ofList s.chars.reverse) rest
  | some stop => ⟨.error stop, .ok rest⟩

end TextState

/-- The rest of a quoted text, behind its first quote. A surrogate without its other half is a fault
only for a reader who wants the text; a reader who passes over reads on. -/
def scanText (s : TextState) : List Char → Scan String
  | [] => s.stop ⟨.endInText, 0⟩
  | '\\' :: 'u' :: a :: b :: c :: d :: rest =>
    match hexValue4? a b c d with
    | some n => scanText (s.unit n rest) rest
    | none => s.stop (badHex (a :: b :: c :: d :: rest))
  | '\\' :: 'u' :: rest => s.stop (badHex rest)
  | '\\' :: c :: rest =>
    let s := s.unpaired (c :: rest)
    match escaped? c with
    | some e => scanText (s.push e) rest
    | none => s.stop (stopPast .badEscape (c :: rest))
  | c :: rest =>
    if c = '\\' then s.stop ⟨.endInText, 0⟩
    else
      let s := s.unpaired (c :: rest)
      if c = '"' then s.close rest
      else if c.toNat < 0x20 then s.stop (stopAt .controlCharacter rest)
      else scanText (s.push c) rest

/-! ## Numbers -/

/-- The bound of the whole numbers that fit into 64 bits without a sign. -/
def wordBound : Nat := 0x10000000000000000

/-- The largest exponent of ten that a double is scaled by at once. -/
def scaleLimit : Nat := 308

/-- A double scaled by a power of ten, in steps that each round; `none` if it leaves the finite
doubles. Dividing twice by the largest power leaves nothing of any significand, so that few steps
suffice. -/
def scaled? : Nat → Double → Int → Option Double
  | 0, x, _ => some x
  | steps + 1, x, exponent =>
    if exponent.natAbs ≤ scaleLimit then
      let power := Double.ofNat (Nat.pow 10 exponent.natAbs)
      let result := if 0 ≤ exponent then x.times power else x.dividedBy power
      if result.isInfinite then none else some result
    else if x.isZero then some x
    else if 0 ≤ exponent then none
    else scaled? steps (x.dividedBy (Double.ofNat (Nat.pow 10 scaleLimit))) (exponent + scaleLimit)

/-- Take digits into a significand while it fits into 64 bits; the digits that no longer do are
returned. -/
def absorb (significand : Nat) : List Char → Nat × List Char
  | [] => (significand, [])
  | c :: rest =>
    let next := significand * 10 + (c.toNat - '0'.toNat)
    if next < wordBound then absorb next rest else (significand, c :: rest)

/-- The parts of a number as written. -/
structure Numeral where
  /-- a minus stands in front -/
  negative : Bool
  /-- the digits before the point -/
  whole : List Char
  /-- the digits after the point, if there is one -/
  fraction : Option (List Char)
  /-- the sign and digits of the exponent, if there is one -/
  exponent : Option (Bool × List Char)

/-- The significand and the exponent of ten that come from the digits before and after the point. -/
def Numeral.scale (n : Numeral) : Nat × Int :=
  let (whole, dropped) := absorb 0 n.whole
  let fraction := n.fraction.getD []
  let (significand, unread) := absorb whole fraction
  (significand, (dropped.length : Int) - ((fraction.length - unread.length : Nat) : Int))

/-- The bound from which on a written exponent is not read any further. -/
def exponentBound : Nat := 0x80000000

/-- The digits of a written exponent that are not read because those in front of them reach the
bound; `value` is what the digits before them write. -/
def unreadExponent (value : Nat) : List Char → List Char
  | [] => []
  | c :: rest =>
    let next := value * 10 + (c.toNat - '0'.toNat)
    if exponentBound ≤ next then rest else unreadExponent next rest

/-- The digits of a numeral that are not read when it is too large for a double. -/
def Numeral.unread (n : Numeral) : List Char :=
  match n.exponent with
  | none => []
  | some (_, digits) => unreadExponent 0 digits

/-- The double that a numeral with a point, an exponent or too many digits writes. -/
def Numeral.double? (n : Numeral) : Option Double :=
  let (significand, exponent) := n.scale
  let unsigned :=
    match n.exponent with
    | none => scaled? 4 (Double.ofNat significand) exponent
    | some (negative, digits) =>
      let written := digitsValue digits 0
      if exponentBound ≤ written then
        if significand = 0 || negative then some (Double.zero false) else none
      else
        let shift : Int := if negative then -(written : Int) else written
        scaled? 4 (Double.ofNat significand) (exponent + shift)
  unsigned.map (Double.withSign n.negative)

/-- The number that a numeral writes: a whole number if it fits into 64 bits, a double otherwise;
`none` if it is too large for a double. A minus zero is a double. -/
def Numeral.scalar? (n : Numeral) : Option Scalar :=
  if n.fraction.isNone && n.exponent.isNone then
    let value := digitsValue n.whole 0
    if n.negative then
      if 0 < value && value ≤ 0x8000000000000000 then some (.int (-(value : Int)))
      else n.double?.map Scalar.double
    else if value < wordBound then some (.int value)
    else n.double?.map Scalar.double
  else n.double?.map Scalar.double

/-- A number behind its digits before the point and after: the exponent and the end. -/
def scanExponent (n : Numeral) (text : List Char) : Scan Scalar :=
  let finish (n : Numeral) (rest : List Char) : Scan Scalar :=
    match n.scalar? with
    | some s => .done s rest
    | none => ⟨.error (stopAt .numberOutOfRange (n.unread ++ rest)), .ok rest⟩
  match text with
  | [] => finish n []
  | e :: behind =>
    if e = 'e' || e = 'E' then
      let (negative, signed) := spanSign behind
      let (digits, rest) := spanDigits signed
      if digits.isEmpty then
        match rest with
        | [] => ⟨.error ⟨.endInValue, 0⟩, .error ⟨.badNumber, 0⟩⟩
        | _ => .stopped (stopPast .badNumber rest)
      else finish { n with exponent := some (negative, digits) } rest
    else finish n text

/-- A number behind its minus. -/
def scanNumber (negative : Bool) (text : List Char) : Scan Scalar :=
  match text with
  | [] => ⟨.error ⟨.endInValue, 0⟩, .error ⟨.badNumber, 0⟩⟩
  | first :: behind =>
    if !first.isDigit then .stopped (stopPast .badNumber text)
    else
      let (digits, rest) := spanDigits text
      if first = '0' && 1 < digits.length then .stopped (stopPast .badNumber behind)
      else
        let n : Numeral := ⟨negative, digits, none, none⟩
        match rest with
        | '.' :: afterPoint =>
          let (fraction, more) := spanDigits afterPoint
          if fraction.isEmpty then
            let stop := stopPast .badNumber more
            ⟨.error (if more.isEmpty then ⟨.endInValue, 0⟩ else stop), .error stop⟩
          else scanExponent { n with fraction := some fraction } more
        | _ => scanExponent n rest

/-! ## Values -/

/-- The rest of a word behind its first letter. -/
def scanWord (value : Scalar) : List Char → List Char → Scan Scalar
  | [], rest => .done value rest
  | _ :: _, [] => .stopped ⟨.endInValue, 0⟩
  | w :: word, c :: rest =>
    if w = c then scanWord value word rest else .stopped (stopPast .noWord (c :: rest))

/-- A value without parts. -/
def scanScalar : List Char → Scan Scalar
  | [] => .stopped ⟨.endInValue, 0⟩
  | c :: rest =>
    if c = '"' then
      let text := scanText .start rest
      ⟨text.wanted.map Scalar.string, text.rest⟩
    else if c = '-' then scanNumber true rest
    else if c.isDigit then scanNumber false (c :: rest)
    else if c = 'n' then scanWord .null "ull".toList rest
    else if c = 't' then scanWord (.bool true) "rue".toList rest
    else if c = 'f' then scanWord (.bool false) "alse".toList rest
    else .stopped (stopPast .noValue (c :: rest))

/-- The document of a scan, and the text behind it unless reading stopped. -/
def Scan.toDocument (scan : Scan Scalar) : Document × Except Stop (List Char) :=
  match scan.wanted, scan.rest with
  | .ok s, rest => (.scalar s, rest)
  | .error stop, .ok rest => (.unreadable stop none, .ok rest)
  | .error stop, .error passed => (.unreadable stop (some passed), .error passed)

mutual

/-- One value, in front of which no blanks stand, and the text behind it unless reading stopped
inside. `fuel` bounds the number of nested calls; the length of the text is enough. -/
def readValue (fuel : Nat) (text : List Char) : Document × Except Stop (List Char) :=
  match fuel with
  | 0 => (.unreadable (stopPast .noValue text) (some (stopPast .noValue text)),
      .error (stopPast .noValue text))
  | fuel + 1 =>
    match text with
    | '[' :: rest =>
      let (items, ending, rest) := readItems fuel true (skipBlanks rest)
      (.list items ending, rest)
    | '{' :: rest =>
      let (fields, ending, rest) := readFields fuel true (skipBlanks rest)
      (.record fields ending, rest)
    | _ => (scanScalar text).toDocument

/-- The items of a list, behind the bracket (`first`) or behind an item. -/
def readItems (fuel : Nat) (first : Bool) (text : List Char) :
    List Document × ListEnd × Except Stop (List Char) :=
  match fuel with
  | 0 => ([], .stopped false (stopPast .noListEnd text), .error (stopPast .noListEnd text))
  | fuel + 1 =>
    let item (text : List Char) : List Document × ListEnd × Except Stop (List Char) :=
      match readValue fuel text with
      | (document, .error stop) => ([document], .stopped false stop, .error stop)
      | (document, .ok rest) =>
        let (items, ending, rest) := readItems fuel false (skipBlanks rest)
        (document :: items, ending, rest)
    let halt (afterComma : Bool) (stop : Stop) :
        List Document × ListEnd × Except Stop (List Char) :=
      ([], .stopped afterComma stop, .error stop)
    match text with
    | [] => halt false ⟨.endInList, 0⟩
    | ']' :: rest => ([], .closed, .ok rest)
    | ',' :: rest =>
      if first then item text
      else
        match skipBlanks rest with
        | [] => halt true ⟨.endInValue, 0⟩
        | ']' :: more => halt true (stopAt .trailingComma more)
        | next => item next
    | _ => if first then item text else halt false (stopPast .noListEnd text)

/-- The fields of a record, behind the brace (`first`) or behind a field. -/
def readFields (fuel : Nat) (first : Bool) (text : List Char) :
    List (Except Stop String × Document) × Option Stop × Except Stop (List Char) :=
  match fuel with
  | 0 => ([], some (stopPast .noObjectEnd text), .error (stopPast .noObjectEnd text))
  | fuel + 1 =>
    let halt (stop : Stop) :
        List (Except Stop String × Document) × Option Stop × Except Stop (List Char) :=
      ([], some stop, .error stop)
    let field (text : List Char) :
        List (Except Stop String × Document) × Option Stop × Except Stop (List Char) :=
      let name := scanText .start text
      let broken (stop : Stop) :
          List (Except Stop String × Document) × Option Stop × Except Stop (List Char) :=
        ([(name.wanted, .unreadable stop (some stop))], some stop, .error stop)
      match name.rest with
      | .error stop => broken stop
      | .ok rest =>
        match skipBlanks rest with
        | [] => broken ⟨.endInObject, 0⟩
        | ':' :: more =>
          match readValue fuel (skipBlanks more) with
          | (document, .error stop) => ([(name.wanted, document)], some stop, .error stop)
          | (document, .ok rest) =>
            let (fields, ending, rest) := readFields fuel false (skipBlanks rest)
            ((name.wanted, document) :: fields, ending, rest)
        | other => broken (stopPast .noColon other)
    match text with
    | [] => halt ⟨.endInObject, 0⟩
    | '}' :: rest => ([], none, .ok rest)
    | '"' :: rest => if first then field rest else halt (stopPast .noObjectEnd text)
    | ',' :: rest =>
      if first then halt (stopPast .keyNotText text)
      else
        match skipBlanks rest with
        | [] => halt ⟨.endInValue, 0⟩
        | '"' :: more => field more
        | '}' :: more => halt (stopAt .trailingComma more)
        | other => halt (stopPast .keyNotText other)
    | _ =>
      halt (stopPast (if first then .keyNotText else .noObjectEnd) text)

end

/-- The document of a text, and the stop behind it: a value has to be alone in its text. -/
def read (text : String) : Document × Option Stop :=
  let chars := text.toList
  match readValue (2 * chars.length + 2) (skipBlanks chars) with
  | (document, .error stop) => (document, some stop)
  | (document, .ok rest) =>
    match skipBlanks rest with
    | [] => (document, none)
    | other => (document, some (stopPast .trailingCharacters other))

end Workflow.Json
