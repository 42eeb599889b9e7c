import AppBroker.Text.Digit

/-!
# Dates and moments

A date is a day of the proleptic Gregorian calendar between the years 1 and 9999. A moment is a
date, a time of day to the millionth of a second and, unless it is local, an offset from
universal time. Moments are read from ISO 8601 text and from counts of seconds or milliseconds
since 1970, and written as ISO 8601.
-/

namespace AppBroker

/-- A calendar day. -/
structure Date where
  year : Nat
  month : Nat
  day : Nat
  deriving DecidableEq, Repr

namespace Date

/-- Whether February has 29 days. -/
def isLeap (year : Nat) : Bool := (year % 4 = 0 && year % 100 ≠ 0) || year % 400 = 0

/-- The number of days of a month. -/
def daysIn (year month : Nat) : Nat :=
  if month = 2 then (if isLeap year then 29 else 28)
  else if month = 4 || month = 6 || month = 9 || month = 11 then 30 else 31

/-- A day that exists. -/
def make? (year month day : Nat) : Option Date :=
  if 1 ≤ year ∧ year ≤ 9999 ∧ 1 ≤ month ∧ month ≤ 12 ∧ 1 ≤ day ∧ day ≤ daysIn year month then
    some ⟨year, month, day⟩
  else none

/-- Days before a year, counted from the first day of year 1. -/
def daysBeforeYear (year : Nat) : Nat :=
  let y := year - 1
  365 * y + y / 4 - y / 100 + y / 400

/-- Days of a year before a month. -/
def daysBeforeMonth (year month : Nat) : Nat :=
  (List.range (month - 1)).foldl (fun n i => n + daysIn year (i + 1)) 0

/-- The place of a day in the calendar, the first day of year 1 being 0. -/
def toOrdinal (d : Date) : Nat :=
  daysBeforeYear d.year + daysBeforeMonth d.year d.month + (d.day - 1)

/-- Cuts the days of a year into months. -/
def splitMonths (year : Nat) : Nat → Nat → Nat → Nat × Nat
  | 0, month, days => (month, days)
  | left + 1, month, days =>
    if days < daysIn year month then (month, days)
    else splitMonths year left (month + 1) (days - daysIn year month)

/-- The day at a place of the calendar. -/
def ofOrdinal? (n : Nat) : Option Date :=
  let guess := n / 366 + 1
  let candidates := (List.range 32).map (guess + ·)
  let year := candidates.foldl (fun y c => if daysBeforeYear c ≤ n then c else y) guess
  let (month, days) := splitMonths year 11 1 (n - daysBeforeYear year)
  make? year month (days + 1)

/-- The place of 1970-01-01. -/
def epoch : Nat := daysBeforeYear 1970

end Date

/-- A point in time, local when there is no offset; the offset is in seconds. -/
structure Moment where
  date : Date
  hour : Nat
  minute : Nat
  second : Nat
  micro : Nat
  offset : Option Int
  deriving DecidableEq, Repr

namespace Moment

/-- A number with leading zeros. -/
def padded (width n : Nat) : String :=
  let digits := Nat.toDigits 10 n
  String.ofList (List.replicate (width - digits.length) '0' ++ digits)

/-- The day of a moment as `YYYY-MM-DD`. -/
def dateText (m : Moment) : String :=
  padded 4 m.date.year ++ "-" ++ padded 2 m.date.month ++ "-" ++ padded 2 m.date.day

/-- The time of a moment as `HH:MM`. -/
def minuteText (m : Moment) : String :=
  padded 2 m.hour ++ ":" ++ padded 2 m.minute

/-- The time of a moment as `HH:MM:SS`. -/
def secondText (m : Moment) : String :=
  m.minuteText ++ ":" ++ padded 2 m.second

/-- An offset as `Z` or `+HH:MM`. -/
def offsetText (offset : Int) : String :=
  if offset = 0 then "Z"
  else
    let minutes := offset.natAbs / 60
    (if offset < 0 then "-" else "+") ++ padded 2 (minutes / 60) ++ ":" ++ padded 2 (minutes % 60)

/-- Millionths of a second as six fraction digits, or nothing for none. -/
def fractionText (micro : Nat) : String := if micro = 0 then "" else "." ++ padded 6 micro

/-- An offset, or nothing for local time. -/
def zoneText : Option Int → String
  | none => ""
  | some offset => offsetText offset

/-- ISO 8601 with six fraction digits or none, and the offset unless local. -/
def toText (m : Moment) : String :=
  m.dateText ++ "T" ++ m.secondText ++ fractionText m.micro ++ zoneText m.offset

/-- Midnight of a day, local. -/
def ofDate (d : Date) : Moment := ⟨d, 0, 0, 0, 0, none⟩

/-- The value of an ASCII digit. -/
def digit? (c : Char) : Option Nat :=
  if '0' ≤ c ∧ c ≤ '9' then some (c.toNat - 48) else none

/-- Reads two digits. -/
def twoDigits? : List Char → Option (Nat × List Char)
  | a :: b :: rest => do
    let a ← digit? a
    let b ← digit? b
    return (10 * a + b, rest)
  | _ => none

/-- Reads `YYYY-MM-DD`. -/
def readDate? (cs : List Char) : Option (Date × List Char) := do
  let (high, cs) ← twoDigits? cs
  let (low, cs) ← twoDigits? cs
  let '-' :: cs := cs | none
  let (month, cs) ← twoDigits? cs
  let '-' :: cs := cs | none
  let (day, cs) ← twoDigits? cs
  let date ← Date.make? (100 * high + low) month day
  return (date, cs)

/-- Reads the fraction of a second; digits after the sixth are dropped. -/
def readFraction? (cs : List Char) : Option (Nat × List Char) :=
  match cs with
  | c :: rest =>
    if c = '.' || c = ',' then
      let digits := rest.takeWhile fun c => (digit? c).isSome
      if digits.isEmpty then none
      else
        let six := (digits ++ List.replicate 6 '0').take 6
        some (Text.ofDigits (six.filterMap digit?), rest.dropWhile fun c => (digit? c).isSome)
    else some (0, cs)
  | [] => some (0, [])

/-- Reads the time of day: hour and minute, and optionally second and fraction. -/
def readTime? (cs : List Char) : Option (Nat × Nat × Nat × Nat × List Char) := do
  let (hour, cs) ← twoDigits? cs
  let ':' :: cs := cs | none
  let (minute, cs) ← twoDigits? cs
  if 23 < hour || 59 < minute then none
  match cs with
  | ':' :: rest =>
    let (second, rest) ← twoDigits? rest
    if 59 < second then none
    let (micro, rest) ← readFraction? rest
    return (hour, minute, second, micro, rest)
  | rest => return (hour, minute, 0, 0, rest)

/-- Reads an offset: nothing, `Z`, or a sign, hours and minutes. -/
def readOffset? (cs : List Char) : Option (Option Int) :=
  let signed (sign : Int) (cs : List Char) : Option (Option Int) := do
    let (hour, cs) ← twoDigits? cs
    let cs := match cs with
      | ':' :: rest => rest
      | rest => rest
    let (minute, rest) ← twoDigits? cs
    if 23 < hour || 59 < minute || !rest.isEmpty then none
    return some (sign * ((hour * 3600 + minute * 60 : Nat) : Int))
  match cs with
  | [] => some none
  | ['Z'] | ['z'] => some (some 0)
  | '+' :: rest => signed 1 rest
  | '-' :: rest => signed (-1) rest
  | '−' :: rest => signed (-1) rest
  | _ => none

/-- Reads a date, a separator, a time and an offset. -/
def readIso? (cs : List Char) : Option Moment := do
  let (date, cs) ← readDate? cs
  let separator :: cs := cs | none
  if separator ≠ 'T' ∧ separator ≠ 't' ∧ separator ≠ ' ' ∧ separator ≠ '_' then none
  let (hour, minute, second, micro, cs) ← readTime? cs
  let offset ← readOffset? cs
  return ⟨date, hour, minute, second, micro, offset⟩

/-- Counts above this are milliseconds. -/
def millisecondLimit : Nat := 20000000000

/-- The moment a number of seconds, or of milliseconds if it is large, and of millionths after
1970, in universal time. -/
def ofUnix? (count : Int) (micros : Nat) : Option Moment :=
  let (seconds, extra) :=
    if count.natAbs ≤ millisecondLimit then (count, 0)
    else (Int.fdiv count 1000, (Int.fmod count 1000).toNat * 1000)
  let micros := micros + extra
  let seconds := seconds + (micros / 1000000 : Nat)
  let day := Int.fdiv seconds 86400 + Date.epoch
  let inDay := (Int.fmod seconds 86400).toNat
  if day < 0 then none
  else (Date.ofOrdinal? day.toNat).map fun date =>
    ⟨date, inDay / 3600, inDay / 60 % 60, inDay % 60, micros % 1000000, some 0⟩

/-- Seconds since the first day of year 1, the offset left out. -/
def toSeconds (m : Moment) : Nat :=
  m.date.toOrdinal * 86400 + m.hour * 3600 + m.minute * 60 + m.second

/-- A moment some seconds later, at the same offset. -/
def addSeconds (m : Moment) (seconds : Nat) : Moment :=
  let total := m.toSeconds + seconds
  match Date.ofOrdinal? (total / 86400) with
  | none => m
  | some date =>
    { m with
      date
      hour := total % 86400 / 3600
      minute := total / 60 % 60
      second := total % 60 }

end Moment

end AppBroker
