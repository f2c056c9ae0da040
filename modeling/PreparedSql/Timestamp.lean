import PreparedSql.Number.Reading
import PreparedSql.Text.Basic

/-!
# Timestamps

A date of the proleptic Gregorian calendar and a time of day to the nanosecond, without a zone. A
leap second is the second before it with a nanosecond count of `10 ^ 9` or more.

* `Timestamp.text` is the canonical text, to the microsecond: `2024-03-09 07:05:01.000042`.
* `Timestamp.read?` reads such text back, the fraction being optional.
* `Timestamp.ofZoned?` takes a local time to the time without a zone.
-/

namespace PreparedSql

/-- The fields of a date and a time of day, not yet checked. -/
structure CalendarTime where
  year   : Int
  month  : Nat
  day    : Nat
  hour   : Nat
  minute : Nat
  second : Nat
  nano   : Nat
deriving DecidableEq, Repr

def isLeapYear (year : Int) : Bool := year % 4 = 0 && (year % 100 ≠ 0 || year % 400 = 0)

def daysInMonth (year : Int) (month : Nat) : Nat :=
  match month with
  | 2 => if isLeapYear year then 29 else 28
  | 4 | 6 | 9 | 11 => 30
  | _ => 31

namespace CalendarTime

/-- The first and the last year that a timestamp can have. -/
def firstYear : Int := -262143
def lastYear : Int := 262142

/-- The fields name a day of the calendar and a time of that day. -/
structure Valid (t : CalendarTime) : Prop where
  year   : firstYear ≤ t.year ∧ t.year ≤ lastYear
  month  : 1 ≤ t.month ∧ t.month ≤ 12
  day    : 1 ≤ t.day ∧ t.day ≤ daysInMonth t.year t.month
  hour   : t.hour < 24
  minute : t.minute < 60
  second : t.second < 60
  nano   : t.nano < 2 * 10 ^ 9

theorem valid_iff (t : CalendarTime) :
    t.Valid ↔ (firstYear ≤ t.year ∧ t.year ≤ lastYear) ∧ (1 ≤ t.month ∧ t.month ≤ 12) ∧
      (1 ≤ t.day ∧ t.day ≤ daysInMonth t.year t.month) ∧ t.hour < 24 ∧ t.minute < 60 ∧
      t.second < 60 ∧ t.nano < 2 * 10 ^ 9 :=
  ⟨fun h => ⟨h.year, h.month, h.day, h.hour, h.minute, h.second, h.nano⟩,
   fun ⟨a, b, c, d, e, f, g⟩ => ⟨a, b, c, d, e, f, g⟩⟩

instance (t : CalendarTime) : Decidable t.Valid := decidable_of_iff' _ t.valid_iff

def nextDay (t : CalendarTime) : CalendarTime :=
  if t.day < daysInMonth t.year t.month then { t with day := t.day + 1 }
  else if t.month < 12 then { t with month := t.month + 1, day := 1 }
  else { t with year := t.year + 1, month := 1, day := 1 }

def previousDay (t : CalendarTime) : CalendarTime :=
  if 1 < t.day then { t with day := t.day - 1 }
  else if 1 < t.month then
    { t with month := t.month - 1, day := daysInMonth t.year (t.month - 1) }
  else { t with year := t.year - 1, month := 12, day := 31 }

/-- The same time of day, so many days later, or earlier where the number is negative. -/
def shiftDays (days : Int) (t : CalendarTime) : CalendarTime :=
  if 0 ≤ days then Nat.repeat nextDay days.toNat t else Nat.repeat previousDay days.natAbs t

/-- So many whole seconds earlier; the nanoseconds stay as they are. -/
def minusSeconds (seconds : Int) (t : CalendarTime) : CalendarTime :=
  let total : Int := (t.hour * 3600 + t.minute * 60 + t.second : Nat) - seconds
  let inDay := (total % 86400).toNat
  { t.shiftDays (total / 86400) with
    hour := inDay / 3600, minute := inDay / 60 % 60, second := inDay % 60 }

end CalendarTime

/-- A day of the calendar and a time of that day. -/
structure Timestamp extends CalendarTime where
  valid : toCalendarTime.Valid
deriving DecidableEq

namespace Timestamp

def ofFields? (t : CalendarTime) : Option Timestamp := if h : t.Valid then some ⟨t, h⟩ else none

/-- A leap second stands only after second 59. -/
def LeapAligned (t : Timestamp) : Prop := 10 ^ 9 ≤ t.nano → t.second = 59

/-- The first moment of 1970. -/
def epoch : Timestamp := ⟨⟨1970, 1, 1, 0, 0, 0, 0⟩, by decide⟩

/-- The time without a zone of a local time, `offset` seconds east. -/
def ofZoned? (t : CalendarTime) (offset : Int) : Option Timestamp := ofFields? (t.minusSeconds offset)

/-! ### Canonical text -/

/-- At least `width` digits, with zeros in front. -/
def padded (width n : Nat) : List Char :=
  let ds := Nat.toDigits 10 n
  List.replicate (width - ds.length) '0' ++ ds

/-- Four digits; a year before 0 or after 9999 has a sign. -/
def yearText (year : Int) : List Char :=
  if 0 ≤ year ∧ year ≤ 9999 then padded 4 year.toNat
  else (if year < 0 then '-' else '+') :: padded 4 year.natAbs

/-- Year to microsecond; the digits below the microsecond are dropped, and a leap second is shown
as the second after. -/
def chars (t : Timestamp) : List Char :=
  yearText t.year ++ '-' :: padded 2 t.month ++ '-' :: padded 2 t.day ++ ' ' ::
    padded 2 t.hour ++ ':' :: padded 2 t.minute ++ ':' :: padded 2 (t.second + t.nano / 10 ^ 9) ++
    '.' :: padded 6 (t.nano % 10 ^ 9 / 1000)

def text (t : Timestamp) : String := String.ofList t.chars

/-! ### Reading -/

/-- One or more digits, at most `limit` of them, and what follows; blanks in front are skipped. -/
def number? (limit : Nat) (cs : List Char) : Option (Nat × List Char) :=
  let cs := trimStart cs
  let ds := (cs.take limit).takeWhile Char.isDigit
  if ds.isEmpty then none else some (digitsValue ds, cs.drop ds.length)

/-- A year: one to four digits, or a sign and any number of digits. -/
def year? (cs : List Char) : Option (Int × List Char) :=
  let signed (rest : List Char) (sign : Int) : Option (Int × List Char) :=
    if (rest.head?.map Char.isDigit).getD false then
      (number? rest.length rest).map fun p => (sign * p.1, p.2)
    else none
  match trimStart cs with
  | '-' :: rest => signed rest (-1)
  | '+' :: rest => signed rest 1
  | rest => (number? 4 rest).map fun p => (p.1, p.2)

/-- The fraction in nanoseconds: a point and exactly six digits, or nothing. -/
def fraction? : List Char → Option (Nat × List Char)
  | '.' :: rest =>
    let ds := rest.take 6
    if ds.length = 6 ∧ ds.all Char.isDigit then some (digitsValue ds * 1000, rest.drop 6) else none
  | rest => some (0, rest)

/-- No fraction. -/
def noFraction? (rest : List Char) : Option (Nat × List Char) := some (0, rest)

/-- The fields that the text names, in the format with such a fraction. Blanks may stand before each
number, and between the date and the time there may be any blanks or none; second 60 is the leap
second after second 59. -/
def fields? (fraction : List Char → Option (Nat × List Char)) (cs : List Char) :
    Option CalendarTime := do
  let (year, cs) ← year? cs
  let (month, cs) ← number? 2 (← after? '-' cs)
  let (day, cs) ← number? 2 (← after? '-' cs)
  let (hour, cs) ← number? 2 cs
  let (minute, cs) ← number? 2 (← after? ':' cs)
  let (second, cs) ← number? 2 (← after? ':' cs)
  let (nano, cs) ← fraction cs
  if cs.isEmpty then
    pure (if second = 60 then ⟨year, month, day, hour, minute, 59, 10 ^ 9 + nano⟩
      else ⟨year, month, day, hour, minute, second, nano⟩)
  else none
where
  after? (c : Char) : List Char → Option (List Char)
    | x :: rest => if x = c then some rest else none
    | [] => none

def readAs? (fraction : List Char → Option (Nat × List Char)) (s : String) : Option Timestamp :=
  (fields? fraction s.toList).bind ofFields?

/-- The time that the text names: in the format to the microsecond, or else in the one without a
fraction. -/
def read? (s : String) : Option Timestamp := (readAs? fraction? s).or (readAs? noFraction? s)

end Timestamp

end PreparedSql
