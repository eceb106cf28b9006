import RouteCatalog.Decimal.Layout

/-! Calendar dates and moments as they occur in documents, with their plain text and the form in
which they stand inside a printed value. -/

namespace RouteCatalog

open Decimal

structure Date where
  year : Nat
  month : Nat
  day : Nat
  deriving DecidableEq, Repr

/-- A moment on the clock; `offset` counts the minutes by which its zone is ahead of universal
time. -/
structure Moment where
  date : Date
  hour : Nat
  minute : Nat
  second : Nat
  microsecond : Nat
  offset : Option Int
  deriving DecidableEq, Repr

namespace Date

def isLeap (year : Nat) : Bool := year % 4 == 0 && (year % 100 != 0 || year % 400 == 0)

def daysInMonth (year month : Nat) : Nat :=
  if month = 2 then if isLeap year then 29 else 28
  else if month ∈ [4, 6, 9, 11] then 30 else 31

def IsValid (d : Date) : Prop :=
  1 ≤ d.year ∧ 1 ≤ d.month ∧ d.month ≤ 12 ∧ 1 ≤ d.day ∧ d.day ≤ daysInMonth d.year d.month

instance (d : Date) : Decidable d.IsValid := inferInstanceAs (Decidable (_ ∧ _))

/-- The number of days from the start of year one. -/
def dayNumber (d : Date) : Nat :=
  let past := d.year - 1
  let months := (List.range (d.month - 1)).foldl (fun n m => n + daysInMonth d.year (m + 1)) 0
  past * 365 + past / 4 - past / 100 + past / 400 + months + d.day

def text (d : Date) : String :=
  padded 4 d.year ++ "-" ++ padded 2 d.month ++ "-" ++ padded 2 d.day

def fields (d : Date) : List Nat := [d.year, d.month, d.day]

/-- The form inside a printed value. -/
def literal (d : Date) : String :=
  "datetime.date(" ++ ", ".intercalate (d.fields.map natText) ++ ")"

end Date

namespace Moment

def IsValid (m : Moment) : Prop :=
  m.date.IsValid ∧ m.hour < 24 ∧ m.minute < 60 ∧ m.second < 60

instance (m : Moment) : Decidable m.IsValid := inferInstanceAs (Decidable (_ ∧ _))

/-- Microseconds since the start of year one, in universal time if the zone is known. -/
def instant (m : Moment) : Int :=
  let minutes : Int := (m.date.dayNumber * 24 + m.hour) * 60 + m.minute - m.offset.getD 0
  (minutes * 60 + m.second) * 1000000 + m.microsecond

/-- Two moments are the same if neither has a zone or both have, and their instants agree. -/
def same (a b : Moment) : Bool :=
  a.offset.isSome == b.offset.isSome && a.instant == b.instant

def offsetText (minutes : Int) : String :=
  (if minutes < 0 then "-" else "+") ++ padded 2 (minutes.natAbs / 60) ++ ":" ++
    padded 2 (minutes.natAbs % 60)

def text (m : Moment) : String :=
  let fraction := if m.microsecond = 0 then "" else "." ++ padded 6 m.microsecond
  m.date.text ++ " " ++ padded 2 m.hour ++ ":" ++ padded 2 m.minute ++ ":" ++ padded 2 m.second ++
    fraction ++ (m.offset.map offsetText).getD ""

/-- A zone ahead of universal time is given by its seconds, one behind by a negative day and the
seconds back from it. -/
def zoneLiteral (minutes : Int) : String :=
  if minutes = 0 then "datetime.timezone.utc"
  else
    let days := if minutes < 0 then "days=-1, " else ""
    let seconds := if minutes < 0 then (minutes + 24 * 60) * 60 else minutes * 60
    "datetime.timezone(datetime.timedelta(" ++ days ++ "seconds=" ++ intText seconds ++ "))"

/-- The form inside a printed value: zero microseconds are left out, and then zero seconds. -/
def literal (m : Moment) : String :=
  let seconds :=
    if m.microsecond ≠ 0 then [m.second, m.microsecond]
    else if m.second ≠ 0 then [m.second] else []
  let fields := m.date.fields ++ [m.hour, m.minute] ++ seconds
  let zone := (m.offset.map fun o => ", tzinfo=" ++ zoneLiteral o).getD ""
  "datetime.datetime(" ++ ", ".intercalate (fields.map natText) ++ zone ++ ")"

end Moment

end RouteCatalog
