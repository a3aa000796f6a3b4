import MarkupGraft.Calendar.Timestamp

/-!
Patterns for writing points in time. A percent sign and a letter stand for a part of the date or
time, written in a fixed way; other characters stand for themselves.
-/

namespace MarkupGraft.Calendar

/-- What a number is filled up with. -/
inductive Padding where
  | none
  | space
  | zero
  deriving DecidableEq, Repr

/-- The numbers of a date and time. -/
inductive NumericField where
  | year
  | century
  | yearOfCentury
  | isoYear
  | isoYearOfCentury
  | quarter
  | month
  | day
  | dayOfYear
  | hour
  | hourOfHalfDay
  | minute
  | second
  | weekdayFromMonday
  | weekdayFromSunday
  | weekFromSunday
  | weekFromMonday
  | isoWeek
  | nanosecond
  | unixSeconds
  deriving DecidableEq, Repr

inductive PatternItem where
  | literal (c : Char)
  | numeric (field : NumericField) (padding : Padding)
  | monthName (short : Bool)
  | weekdayName (short : Bool)
  | halfDay (upper : Bool)
  /-- So many digits of the fraction of the second, with a point before them or without. -/
  | fraction (point : Bool) (digits : Nat)
  /-- Nothing, or a point and as many groups of three digits as are needed. -/
  | shortFraction
  /-- The offset in hours, in minutes, or in seconds too, with or without colons. -/
  | offset (colon : Bool) (parts : Nat)
  deriving DecidableEq, Repr

def zero (f : NumericField) : PatternItem := .numeric f .zero
def spaced (f : NumericField) : PatternItem := .numeric f .space

private def joined (mark : Char) (items : List PatternItem) : List PatternItem :=
  items.intersperse (.literal mark)

def monthDayYear : List PatternItem := joined '/' [zero .month, zero .day, zero .yearOfCentury]
def yearMonthDay : List PatternItem := joined '-' [zero .year, zero .month, zero .day]
def hourMinute : List PatternItem := joined ':' [zero .hour, zero .minute]
def hourMinuteSecond : List PatternItem := joined ':' [zero .hour, zero .minute, zero .second]

/-- What a letter after a percent sign stands for. -/
def itemsOfLetter? (letter : Char) : Option (List PatternItem) :=
  match letter with
  | 'Y' => some [zero .year]
  | 'C' => some [zero .century]
  | 'y' => some [zero .yearOfCentury]
  | 'G' => some [zero .isoYear]
  | 'g' => some [zero .isoYearOfCentury]
  | 'q' => some [.numeric .quarter .none]
  | 'm' => some [zero .month]
  | 'd' => some [zero .day]
  | 'e' => some [spaced .day]
  | 'j' => some [zero .dayOfYear]
  | 'H' => some [zero .hour]
  | 'I' => some [zero .hourOfHalfDay]
  | 'k' => some [spaced .hour]
  | 'l' => some [spaced .hourOfHalfDay]
  | 'M' => some [zero .minute]
  | 'S' => some [zero .second]
  | 'u' => some [.numeric .weekdayFromMonday .none]
  | 'w' => some [.numeric .weekdayFromSunday .none]
  | 'U' => some [zero .weekFromSunday]
  | 'W' => some [zero .weekFromMonday]
  | 'V' => some [zero .isoWeek]
  | 'f' => some [zero .nanosecond]
  | 's' => some [.numeric .unixSeconds .none]
  | 'b' | 'h' => some [.monthName true]
  | 'B' => some [.monthName false]
  | 'a' => some [.weekdayName true]
  | 'A' => some [.weekdayName false]
  | 'p' => some [.halfDay true]
  | 'P' => some [.halfDay false]
  | 'D' | 'x' => some monthDayYear
  | 'F' => some yearMonthDay
  | 'v' => some (joined '-' [spaced .day, .monthName true, zero .year])
  | 'R' => some hourMinute
  | 'T' | 'X' => some hourMinuteSecond
  | 'r' =>
    some (joined ':' [zero .hourOfHalfDay, zero .minute, zero .second] ++
      [.literal ' ', .halfDay true])
  | 'c' =>
    some (joined ' ' [.weekdayName true, .monthName true, spaced .day] ++ [.literal ' '] ++
      hourMinuteSecond ++ [.literal ' ', zero .year])
  | 'Z' => some [.offset true 2]
  | 'z' => some [.offset false 2]
  | '+' =>
    some (yearMonthDay ++ [.literal 'T'] ++ hourMinuteSecond ++ [.shortFraction, .offset true 2])
  | 't' => some [.literal '\t']
  | 'n' => some [.literal '\n']
  | '%' => some [.literal '%']
  | _ => none

def paddingOfMark? (mark : Char) : Option Padding :=
  match mark with
  | '-' => some .none
  | '_' => some .space
  | '0' => some .zero
  | _ => none

/-- What follows a percent sign stands for, and the rest of the pattern. -/
def readItem? (pattern : List Char) : Option (List PatternItem × List Char) :=
  match pattern with
  | ':' :: 'z' :: rest => some ([.offset true 2], rest)
  | ':' :: ':' :: 'z' :: rest => some ([.offset true 3], rest)
  | ':' :: ':' :: ':' :: 'z' :: rest => some ([.offset true 1], rest)
  | '.' :: 'f' :: rest => some ([.shortFraction], rest)
  | '.' :: '3' :: 'f' :: rest => some ([.fraction true 3], rest)
  | '.' :: '6' :: 'f' :: rest => some ([.fraction true 6], rest)
  | '.' :: '9' :: 'f' :: rest => some ([.fraction true 9], rest)
  | '3' :: 'f' :: rest => some ([.fraction false 3], rest)
  | '6' :: 'f' :: rest => some ([.fraction false 6], rest)
  | '9' :: 'f' :: rest => some ([.fraction false 9], rest)
  | c :: rest =>
    match paddingOfMark? c, rest with
    | some padding, letter :: rest =>
      match itemsOfLetter? letter with
      | some [.numeric field _] => some ([.numeric field padding], rest)
      | _ => none
    | some _, [] => none
    | none, _ => (itemsOfLetter? c).map fun items => (items, rest)
  | [] => none

theorem length_of_readItem? {pattern rest : List Char} {items : List PatternItem}
    (h : readItem? pattern = some (items, rest)) : rest.length < pattern.length := by
  unfold readItem? at h
  split at h
  all_goals try (cases h; simp only [List.length_cons]; omega)
  · split at h
    · split at h
      · cases h
        simp only [List.length_cons]
        omega
      · cases h
    · cases h
    · obtain ⟨_, _, h⟩ := Option.map_eq_some_iff.mp h
      cases h
      simp
  · cases h

/-- The items of a pattern, if it is a valid one. -/
def items? (pattern : List Char) : Option (List PatternItem) :=
  match pattern with
  | [] => some []
  | '%' :: pattern =>
    match _h : readItem? pattern with
    | some (items, rest) => (items? rest).map (items ++ ·)
    | none => none
  | c :: pattern => (items? pattern).map (.literal c :: ·)
termination_by pattern.length
decreasing_by
  · have := length_of_readItem? _h
    simp only [List.length_cons]
    omega
  · simp

/-! Writing -/

def monthNames : List String :=
  ["January", "February", "March", "April", "May", "June", "July", "August", "September", "October",
    "November", "December"]

def weekdayNames : List String :=
  ["Monday", "Tuesday", "Wednesday", "Thursday", "Friday", "Saturday", "Sunday"]

private def shortened (short : Bool) (name : String) : String :=
  if short then String.ofList (name.toList.take 3) else name

/-- A number, with its sign if asked for, filled up to a width. Zeros stand behind a sign, spaces
before it. -/
def pad (padding : Padding) (width : Nat) (signed : Bool) (n : Int) : List Char :=
  let sign := if n < 0 then ['-'] else if signed then ['+'] else []
  let digits := Nat.toDigits 10 n.natAbs
  let filling := width - sign.length - digits.length
  match padding with
  | .none => sign ++ digits
  | .space => List.replicate filling ' ' ++ sign ++ digits
  | .zero => sign ++ List.replicate filling '0' ++ digits

/-- A year has four digits; outside of four digits it has a sign as well. -/
def padYear (padding : Padding) (year : Int) : List Char :=
  if 0 ≤ year ∧ year < 10000 then pad padding 4 false year else pad padding 5 true year

/-- Weeks begin with a certain day, of which the date is so many days ahead. The days before the
first of them are in week zero. -/
def weekOfYear (dayOfYear daysAhead : Nat) : Nat := (dayOfYear + 6 - daysAhead) / 7

def writeNumber (t : Timestamp) (padding : Padding) (field : NumericField) : List Char :=
  let two (n : Nat) : List Char := pad padding 2 false n
  let iso := isoWeek t.year t.dayOfYear
  match field with
  | .year => padYear padding t.year
  | .century => two (t.year / 100)
  | .yearOfCentury => two (t.year % 100)
  | .isoYear => padYear padding iso.1
  | .isoYearOfCentury => two (iso.1 % 100).toNat
  | .quarter => pad .none 1 false ((t.month + 2) / 3 : Nat)
  | .month => two t.month
  | .day => two t.day
  | .dayOfYear => pad padding 3 false t.dayOfYear
  | .hour => two t.hour
  | .hourOfHalfDay => two (if t.hour % 12 = 0 then 12 else t.hour % 12)
  | .minute => two t.minute
  | .second => two t.second
  | .weekdayFromMonday => pad .none 1 false (t.weekdayFromMonday + 1 : Nat)
  | .weekdayFromSunday => pad .none 1 false t.weekdayFromSunday
  | .weekFromSunday => two (weekOfYear t.dayOfYear t.weekdayFromSunday)
  | .weekFromMonday => two (weekOfYear t.dayOfYear t.weekdayFromMonday)
  | .isoWeek => two iso.2
  | .nanosecond => pad padding 9 false t.nanosecond
  | .unixSeconds => pad padding 9 false t.unixSeconds

private def fractionDigits (t : Timestamp) (digits : Nat) : List Char :=
  (pad .zero 9 false t.nanosecond).take digits

private def writeOffset (offset : Int) (colon : Bool) (parts : Nat) : List Char :=
  let seconds := offset.natAbs
  let numbers := [seconds / 3600, seconds / 60 % 60, seconds % 60].take parts
  let texts := numbers.map fun n : Nat => pad .zero 2 false n
  (if offset < 0 then '-' else '+') :: (if colon then [':'] else []).intercalate texts

def writeItem (t : Timestamp) (item : PatternItem) : List Char :=
  match item with
  | .literal c => [c]
  | .numeric field padding => writeNumber t padding field
  | .monthName short => (shortened short (monthNames.getD (t.month - 1) "")).toList
  | .weekdayName short => (shortened short (weekdayNames.getD t.weekdayFromMonday "")).toList
  | .halfDay upper =>
    match decide (t.hour < 12), upper with
    | true, true => ['A', 'M']
    | true, false => ['a', 'm']
    | false, true => ['P', 'M']
    | false, false => ['p', 'm']
  | .fraction point digits => (if point then ['.'] else []) ++ fractionDigits t digits
  | .shortFraction =>
    if t.nanosecond = 0 then []
    else if t.nanosecond % 1000000 = 0 then '.' :: fractionDigits t 3
    else if t.nanosecond % 1000 = 0 then '.' :: fractionDigits t 6
    else '.' :: fractionDigits t 9
  | .offset colon parts => writeOffset t.offset colon parts

/-- Writes a point in time, if the pattern is valid. -/
def format? (t : Timestamp) (pattern : String) : Option String :=
  (items? pattern.toList).map fun items =>
    String.ofList (items.flatMap fun item => writeItem t item)

end MarkupGraft.Calendar
