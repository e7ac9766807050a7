/-!
# Dates and times as text

A moment of the Gregorian calendar, in Coordinated Universal Time, and its text by a format: a
percent sign and a letter stand for a part of the moment. Before the letter of a number may stand
how it is filled up: `-` not at all, `_` with spaces, `0` with zeros. Unknown specifiers make the
whole format invalid.
-/

namespace Ember.Library

structure Moment where
  year : Nat
  month : Nat
  day : Nat
  /-- Days since the first of January. -/
  yearDay : Nat
  /-- Days since Sunday. -/
  weekDay : Nat
  hour : Nat
  minute : Nat
  second : Nat
  nanosecond : Nat
  /-- Seconds since the first of January 1970. -/
  timestamp : Nat

namespace Moment

def isLeap (year : Nat) : Bool := year % 4 = 0 && (year % 100 ≠ 0 || year % 400 = 0)

/-- Days in the calendar before a year. -/
def daysBefore (year : Nat) : Nat :=
  let y := year - 1
  365 * y + y / 4 - y / 100 + y / 400

/-- Year, month and day of a day, which is counted from 1970. Years are counted from a March. -/
def civil (days : Nat) : Nat × Nat × Nat :=
  let z := days + 719468
  let era := z / 146097
  let e := z % 146097
  let y := (e - e / 1460 + e / 36524 - e / 146096) / 365
  let d := e - (365 * y + y / 4 - y / 100)
  let m := (5 * d + 2) / 153
  let month := if m < 10 then m + 3 else m - 9
  (y + era * 400 + (if month ≤ 2 then 1 else 0), month, d - (153 * m + 2) / 5 + 1)

/-- The moment so many nanoseconds after the start of 1970. -/
def ofNanoseconds (n : Nat) : Moment :=
  let seconds := n / 1000000000
  let days := seconds / 86400
  let rest := seconds % 86400
  let (year, month, day) := civil days
  { year, month, day
    yearDay := days + 719162 - daysBefore year
    weekDay := (days + 4) % 7
    hour := rest / 3600
    minute := rest / 60 % 60
    second := rest % 60
    nanosecond := n % 1000000000
    timestamp := seconds }

/-- Year and week by the rule that a week belongs to the year of its Thursday. -/
def isoWeek (t : Moment) : Nat × Nat :=
  let monday := (t.weekDay + 6) % 7
  let thursday : Int := (t.yearDay : Int) + 3 - monday
  if thursday < 0 then
    (t.year - 1, (thursday.toNat + (if isLeap (t.year - 1) then 366 else 365) - (-thursday).toNat) / 7 + 1)
  else
    let length := if isLeap t.year then 366 else 365
    if length ≤ thursday.toNat then (t.year + 1, 1) else (t.year, thursday.toNat / 7 + 1)

def hour12 (t : Moment) : Nat := if t.hour % 12 = 0 then 12 else t.hour % 12

end Moment

/-! ## Parts -/

def weekDays : List String :=
  ["Sunday", "Monday", "Tuesday", "Wednesday", "Thursday", "Friday", "Saturday"]

def months : List String :=
  ["January", "February", "March", "April", "May", "June", "July", "August", "September",
   "October", "November", "December"]

/-- How a number is filled up to its width. -/
inductive Fill where
  | none | space | zero

def filled (fill : Fill) (width n : Nat) : String :=
  let s := toString n
  match fill with
  | .none => s
  | .space => String.ofList (List.replicate (width - s.length) ' ') ++ s
  | .zero => String.ofList (List.replicate (width - s.length) '0') ++ s

/-- A number with its width and how it is filled up unless the format says otherwise. -/
def numberPart (t : Moment) : Char → Option (Nat × Nat × Fill)
  | 'Y' => some (t.year, 4, .zero)
  | 'C' => some (t.year / 100, 2, .zero)
  | 'y' => some (t.year % 100, 2, .zero)
  | 'G' => some (t.isoWeek.1, 4, .zero)
  | 'g' => some (t.isoWeek.1 % 100, 2, .zero)
  | 'V' => some (t.isoWeek.2, 2, .zero)
  | 'm' => some (t.month, 2, .zero)
  | 'd' => some (t.day, 2, .zero)
  | 'e' => some (t.day, 2, .space)
  | 'w' => some (t.weekDay, 1, .zero)
  | 'u' => some ((t.weekDay + 6) % 7 + 1, 1, .zero)
  | 'U' => some ((t.yearDay + 7 - t.weekDay) / 7, 2, .zero)
  | 'W' => some ((t.yearDay + 7 - (t.weekDay + 6) % 7) / 7, 2, .zero)
  | 'j' => some (t.yearDay + 1, 3, .zero)
  | 'H' => some (t.hour, 2, .zero)
  | 'k' => some (t.hour, 2, .space)
  | 'I' => some (t.hour12, 2, .zero)
  | 'l' => some (t.hour12, 2, .space)
  | 'M' => some (t.minute, 2, .zero)
  | 'S' => some (t.second, 2, .zero)
  | 'f' => some (t.nanosecond, 9, .zero)
  | 's' => some (t.timestamp, 1, .zero)
  | _ => none

/-- The first digits of the fraction of a second. -/
def fraction (t : Moment) (digits : Nat) : String :=
  filled .zero digits (t.nanosecond / Nat.pow 10 (9 - digits))

/-- The fraction with its point, in as few groups of three digits as are needed. -/
def shortFraction (t : Moment) : String :=
  if t.nanosecond = 0 then ""
  else if t.nanosecond % 1000000 = 0 then "." ++ fraction t 3
  else if t.nanosecond % 1000 = 0 then "." ++ fraction t 6
  else "." ++ fraction t 9

def wordPart (t : Moment) : Char → Option String
  | 'a' => some (((weekDays[t.weekDay]?.getD "").take 3).toString)
  | 'A' => some (weekDays[t.weekDay]?.getD "")
  | 'b' | 'h' => some (((months[t.month - 1]?.getD "").take 3).toString)
  | 'B' => some (months[t.month - 1]?.getD "")
  | 'p' => some (if t.hour < 12 then "AM" else "PM")
  | 'P' => some (if t.hour < 12 then "am" else "pm")
  | 'z' => some "+0000"
  | 'Z' => some "+00:00"
  | 'n' => some "\n"
  | 't' => some "\t"
  | '%' => some "%"
  | _ => none

/-- A part given by one letter. -/
def part (t : Moment) (c : Char) : Option String :=
  match numberPart t c with
  | some (n, width, fill) => some (filled fill width n)
  | none => wordPart t c

/-- A text in which each percent sign is followed by the letter of a part. -/
def fillIn (t : Moment) : List Char → String
  | '%' :: c :: cs => (part t c).getD "" ++ fillIn t cs
  | c :: cs => c.toString ++ fillIn t cs
  | [] => ""

/-- The letters that stand for several parts. -/
def combination : Char → Option String
  | 'D' | 'x' => some "%m/%d/%y"
  | 'F' => some "%Y-%m-%d"
  | 'R' => some "%H:%M"
  | 'T' | 'X' => some "%H:%M:%S"
  | 'r' => some "%I:%M:%S %p"
  | 'c' => some "%a %b %e %H:%M:%S %Y"
  | 'v' => some "%e-%b-%Y"
  | _ => none

/-- What stands behind a percent sign: its text and the rest of the format. -/
def specifier (t : Moment) : List Char → Option (String × List Char)
  | ':' :: ':' :: ':' :: 'z' :: cs => some ("+00", cs)
  | ':' :: ':' :: 'z' :: cs => some ("+00:00:00", cs)
  | ':' :: 'z' :: cs => some ("+00:00", cs)
  | '.' :: 'f' :: cs => some (shortFraction t, cs)
  | '.' :: '3' :: 'f' :: cs => some ("." ++ fraction t 3, cs)
  | '.' :: '6' :: 'f' :: cs => some ("." ++ fraction t 6, cs)
  | '.' :: '9' :: 'f' :: cs => some ("." ++ fraction t 9, cs)
  | '3' :: 'f' :: cs => some (fraction t 3, cs)
  | '6' :: 'f' :: cs => some (fraction t 6, cs)
  | '9' :: 'f' :: cs => some (fraction t 9, cs)
  | '+' :: cs => some (fillIn t "%Y-%m-%dT%H:%M:%S".toList ++ shortFraction t ++ "+00:00", cs)
  | '-' :: c :: cs => (numberPart t c).map fun (n, width, _) => (filled .none width n, cs)
  | '_' :: c :: cs => (numberPart t c).map fun (n, width, _) => (filled .space width n, cs)
  | '0' :: c :: cs => (numberPart t c).map fun (n, width, _) => (filled .zero width n, cs)
  | c :: cs => match combination c with
    | some s => some (fillIn t s.toList, cs)
    | none => (part t c).map fun s => (s, cs)
  | [] => none

/-- The text of a moment by a format, if that is valid; `fuel` is at least its length. -/
def formatFrom (t : Moment) : Nat → List Char → Option String
  | _, [] => some ""
  | 0, _ :: _ => none
  | fuel + 1, '%' :: cs => do
    let (s, rest) ← specifier t cs
    let tail ← formatFrom t fuel rest
    return s ++ tail
  | fuel + 1, c :: cs => (formatFrom t fuel cs).map fun tail => c.toString ++ tail

def Moment.format (t : Moment) (format : String) : Option String :=
  formatFrom t format.length format.toList

end Ember.Library
