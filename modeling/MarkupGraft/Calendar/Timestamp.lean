/-!
Points in time as they are written with a date, a time of day and an offset. The sixtieth second
stands for a leap second.
-/

namespace MarkupGraft

/-- Local date and time, and by how much it is ahead of universal time. -/
structure Timestamp where
  year : Nat
  month : Nat
  day : Nat
  hour : Nat
  minute : Nat
  second : Nat
  nanosecond : Nat
  /-- In seconds. -/
  offset : Int
  deriving DecidableEq, Repr

namespace Calendar

def isLeapYear (year : Int) : Bool := year % 4 = 0 && (year % 100 ≠ 0 || year % 400 = 0)

def daysInMonth (year : Int) (month : Nat) : Nat :=
  match month with
  | 2 => if isLeapYear year then 29 else 28
  | 4 | 6 | 9 | 11 => 30
  | _ => 31

def daysInYear (year : Int) : Nat := if isLeapYear year then 366 else 365

/-- The number of a day in its year, from one. -/
def dayOfYear (year : Int) (month day : Nat) : Nat :=
  (List.range (month - 1)).foldl (fun days m => days + daysInMonth year (m + 1)) day

/-- The days from the first day of the year one to the first day of a year. -/
def daysBeforeYear (year : Int) : Int :=
  let y := year - 1
  365 * y + y / 4 - y / 100 + y / 400

/-- Days since Monday; the year one begins with a Monday. -/
def weekdayFromMonday (year : Int) (dayOfYear : Nat) : Nat :=
  ((daysBeforeYear year + dayOfYear - 1) % 7).toNat

/-- The year and number of the week that a day belongs to, where a week belongs to the year that
holds its Thursday. -/
def isoWeek (year : Int) (dayOfYear : Nat) : Int × Nat :=
  let thursday : Int := dayOfYear - weekdayFromMonday year dayOfYear + 3
  let (weekYear, thursday) :=
    if thursday < 1 then (year - 1, thursday + daysInYear (year - 1))
    else if daysInYear year < thursday then (year + 1, thursday - daysInYear year)
    else (year, thursday)
  (weekYear, ((thursday - 1) / 7 + 1).toNat)

end Calendar

namespace Timestamp
open Calendar

def dayOfYear (t : Timestamp) : Nat := Calendar.dayOfYear t.year t.month t.day

def weekdayFromMonday (t : Timestamp) : Nat := Calendar.weekdayFromMonday t.year t.dayOfYear

def weekdayFromSunday (t : Timestamp) : Nat := (t.weekdayFromMonday + 1) % 7

/-- Seconds since the beginning of 1970 in universal time; a leap second counts as the one
before. -/
def unixSeconds (t : Timestamp) : Int :=
  let days := daysBeforeYear t.year + t.dayOfYear - 1 - daysBeforeYear 1970
  days * 86400 + t.hour * 3600 + t.minute * 60 + (min t.second 59 : Nat) - t.offset

/-! Reading -/

private def number? (digits : List Char) : Option Nat :=
  if digits.all Char.isDigit then some (digits.foldl (fun n c => 10 * n + (c.toNat - 48)) 0)
  else none

/-- A number of exactly so many digits, and the rest. -/
private def digits? (count : Nat) (text : List Char) : Option (Nat × List Char) :=
  if text.length < count then none
  else (number? (text.take count)).map fun n => (n, text.drop count)

private def mark? (c : Char) : List Char → Option (List Char)
  | d :: rest => if d = c then some rest else none
  | [] => none

/-- An optional fraction of a second, of which nine digits count. -/
private def fraction? (text : List Char) : Option (Nat × List Char) :=
  match text with
  | '.' :: rest =>
    let digits := rest.takeWhile Char.isDigit
    if digits.isEmpty then none
    else
      let counted := digits.take 9
      (number? (counted ++ List.replicate (9 - counted.length) '0')).map fun n =>
        (n, rest.drop digits.length)
  | _ => some (0, text)

/-- An offset of less than a day; a minus sign may be written instead of a hyphen. -/
private def offset? (text : List Char) : Option Int :=
  match text with
  | ['Z'] | ['z'] => some 0
  | sign :: rest => do
    let (hours, rest) ← digits? 2 rest
    let rest ← mark? ':' rest
    let (minutes, rest) ← digits? 2 rest
    let seconds : Int := hours * 3600 + minutes * 60
    if rest ≠ [] ∨ 60 ≤ minutes ∨ 24 ≤ hours then none
    else if sign = '+' then some seconds
    else if sign = '-' ∨ sign = '\u2212' then some (-seconds)
    else none
  | [] => none

/-- Reads a date and time in the format of RFC 3339. -/
def parse? (text : String) : Option Timestamp := do
  let (year, rest) ← digits? 4 text.toList
  let (month, rest) ← digits? 2 (← mark? '-' rest)
  let (day, rest) ← digits? 2 (← mark? '-' rest)
  let rest ← (mark? 'T' rest).or ((mark? 't' rest).or (mark? ' ' rest))
  let (hour, rest) ← digits? 2 rest
  let (minute, rest) ← digits? 2 (← mark? ':' rest)
  let (second, rest) ← digits? 2 (← mark? ':' rest)
  let (nanosecond, rest) ← fraction? rest
  let offset ← offset? rest
  if 1 ≤ month ∧ month ≤ 12 ∧ 1 ≤ day ∧ day ≤ daysInMonth year month ∧ hour < 24 ∧ minute < 60 ∧
      second ≤ 60 then
    some ⟨year, month, day, hour, minute, second, nanosecond, offset⟩
  else none

end Timestamp
end MarkupGraft
