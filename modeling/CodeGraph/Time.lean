import CodeGraph.Text.Blank
import CodeGraph.Toml.Scalar

/-! Moments in time and how they are written. -/
namespace CodeGraph

/-- A moment: the seconds since the start of 1970 and the nanoseconds after them. A leap second
counts as more than a second's worth of nanoseconds. -/
structure Time where
  seconds : Int
  nanos : Nat
  deriving DecidableEq, Inhabited, Repr

namespace Time

def daysFromDate (year : Int) (month day : Nat) : Int :=
  let year := if month ≤ 2 then year - 1 else year
  let era := year.fdiv 400
  let yearOfEra := year - era * 400
  let dayOfYear : Int := (153 * ((month + 9) % 12) + 2) / 5 + day - 1
  let dayOfEra := yearOfEra * 365 + yearOfEra / 4 - yearOfEra / 100 + dayOfYear
  era * 146097 + dayOfEra - 719468

def dateOfDays (days : Int) : Int × Nat × Nat :=
  let days := days + 719468
  let era := days.fdiv 146097
  let dayOfEra := days - era * 146097
  let yearOfEra := (dayOfEra - dayOfEra / 1460 + dayOfEra / 36524 - dayOfEra / 146096) / 365
  let dayOfYear := dayOfEra - (365 * yearOfEra + yearOfEra / 4 - yearOfEra / 100)
  let shifted := (5 * dayOfYear + 2) / 153
  let day := dayOfYear - (153 * shifted + 2) / 5 + 1
  let month := if shifted < 10 then shifted + 3 else shifted - 9
  let year := yearOfEra + era * 400
  (if month ≤ 2 then year + 1 else year, month.toNat, day.toNat)

def firstYear : Int := -262143

def lastYear : Int := 262142

/-- The digits of a number, with zeros before them up to a width. -/
def padded (width n : Nat) : String :=
  let digits := (toString n).toList
  String.ofList (List.replicate (width - digits.length) '0' ++ digits)

/-- The year of a date. One that has not four digits has a sign. -/
def yearText (year : Int) : String :=
  if 0 ≤ year ∧ year ≤ 9999 then padded 4 year.toNat
  else (if year < 0 then "-" else "+") ++ padded 4 year.natAbs

/-- The fraction of a second, in 3, 6 or 9 digits. -/
def fractionText (nanos : Nat) : String :=
  if nanos = 0 then ""
  else if nanos % 1000000 = 0 then "." ++ padded 3 (nanos / 1000000)
  else if nanos % 1000 = 0 then "." ++ padded 6 (nanos / 1000)
  else "." ++ padded 9 nanos

def toText (time : Time) : String :=
  let days := time.seconds.fdiv 86400
  let rest := (time.seconds - days * 86400).toNat
  let (year, month, day) := dateOfDays days
  let leap := time.nanos / 1000000000
  yearText year ++ "-" ++ padded 2 month ++ "-" ++ padded 2 day ++ "T" ++
    padded 2 (rest / 3600) ++ ":" ++ padded 2 (rest / 60 % 60) ++ ":" ++
    padded 2 (rest % 60 + leap) ++ fractionText (time.nanos % 1000000000) ++ "Z"

namespace Read

/-- A number of at most some digits, and at least one. -/
def number (width : Nat) (input : List Char) : Option (Nat × List Char) :=
  let digits := (input.take width).takeWhile Char.isDigit
  if digits.isEmpty then none
  else some (Toml.Read.ofDigits 10 digits, input.drop digits.length)

/-- A number between bounds, with blanks before it. -/
def field (least greatest : Nat) (input : List Char) : Option (Nat × List Char) := do
  let (n, rest) ← number 2 (Text.dropBlanks input)
  if least ≤ n ∧ n ≤ greatest then some (n, rest) else none

/-- A year. With a sign it has any number of digits. -/
def year (input : List Char) : Option (Int × List Char) :=
  match Text.dropBlanks input with
  | '-' :: rest => (number rest.length rest).map fun (n, rest) => (-n, rest)
  | '+' :: rest => (number rest.length rest).map fun (n, rest) => (n, rest)
  | input => (number 4 input).map fun (n, rest) => (n, rest)

def mark (c : Char) (input : List Char) : Option (List Char) :=
  Toml.Read.expect c (Text.dropBlanks input)

/-- The nanoseconds after a point, if there is one. What follows nine digits does not count. -/
def fraction : List Char → Option (Nat × List Char)
  | '.' :: rest => do
    let (n, after) ← number 9 rest
    let used := rest.length - after.length
    some (n * Nat.pow 10 (9 - used), after.dropWhile Char.isDigit)
  | input => some (0, input)

/-- The seconds that a time of day is ahead. -/
def offset (input : List Char) : Option (Int × List Char) := do
  match input with
  | c :: rest =>
    if c = 'Z' ∨ c = 'z' then some (0, rest)
    else if c = '+' ∨ c = '-' ∨ c = '\u2212' then
      let (hours, rest) ← Toml.Read.field 2 0 99 rest
      let rest := rest.dropWhile fun c => c = ':' || Text.isBlank c
      let (minutes, rest) ← Toml.Read.field 2 0 59 rest
      let size : Int := hours * 3600 + minutes * 60
      some (if c = '+' then size else -size, rest)
    else none
  | [] => none

/-- The zone of a time of day: an offset, or the word for the zone without one. -/
def zone (input : List Char) : Option (Int × List Char) :=
  match input with
  | a :: b :: c :: rest =>
    if a.toUpper = 'U' ∧ b.toUpper = 'T' ∧ c.toUpper = 'C' then some (0, rest) else offset input
  | _ => offset input

def moment (input : List Char) : Option (Time × List Char) := do
  let (year, rest) ← year input
  let (month, rest) ← field 1 12 (← mark '-' rest)
  let (day, rest) ← field 1 31 (← mark '-' rest)
  let rest ← match rest with
    | c :: rest => if c = 't' ∨ c = 'T' ∨ c = ' ' then some rest else none
    | [] => none
  let (hour, rest) ← field 0 23 rest
  let (minute, rest) ← field 0 59 (← mark ':' rest)
  let (second, rest) ← field 0 60 (← mark ':' rest)
  let (nanos, rest) ← fraction rest
  let (ahead, rest) ← zone (Text.dropBlanks rest)
  if year < firstYear ∨ lastYear < year then none
  if (Toml.Read.daysOf (year % 400).toNat month) < day then none
  if ahead ≤ -86400 ∨ 86400 ≤ ahead then none
  let leap := second / 60
  let seconds := daysFromDate year month day * 86400 + hour * 3600 + minute * 60 +
    (second - leap) - ahead
  if seconds < daysFromDate firstYear 1 1 * 86400 then none
  if daysFromDate (lastYear + 1) 1 1 * 86400 ≤ seconds then none
  some (⟨seconds, nanos + leap * 1000000000⟩, rest)

end Read

/-- Reads a moment. Blanks may stand between its parts. -/
def ofText? (text : String) : Option Time := do
  let (time, rest) ← Read.moment text.toList
  if (Text.dropBlanks rest).isEmpty then some time else none

end Time

end CodeGraph
