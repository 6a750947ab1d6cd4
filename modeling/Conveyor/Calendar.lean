/-!
Dates and moments of the Gregorian calendar, as a definition file may hold them.
-/

namespace Conveyor

/-- `n` in base ten, with zeros in front up to the width. -/
def padded (width n : Nat) : String :=
  let s := toString n
  String.ofList (List.replicate (width - s.length) '0') ++ s

structure Date where
  year : Nat
  month : Nat
  day : Nat
  deriving DecidableEq, Repr

/-- A date with a time of day. The offset from universal time is in seconds, where it is known. -/
structure Moment where
  date : Date
  hour : Nat
  minute : Nat
  second : Nat
  micro : Nat
  offset : Option Int
  deriving DecidableEq, Repr

def isLeapYear (y : Nat) : Bool := y % 4 = 0 && (y % 100 ≠ 0 || y % 400 = 0)

def daysInMonth (y m : Nat) : Nat :=
  if m = 2 then if isLeapYear y then 29 else 28
  else if m ∈ [4, 6, 9, 11] then 30
  else if 1 ≤ m && m ≤ 12 then 31 else 0

namespace Date

def IsValid (d : Date) : Prop :=
  1 ≤ d.year ∧ d.year ≤ 9999 ∧ 1 ≤ d.day ∧ d.day ≤ daysInMonth d.year d.month

instance (d : Date) : Decidable d.IsValid := inferInstanceAs (Decidable (_ ∧ _))

def text (d : Date) : String := padded 4 d.year ++ "-" ++ padded 2 d.month ++ "-" ++ padded 2 d.day

/-- How a date is shown inside a list. -/
def shown (d : Date) : String :=
  "datetime.date(" ++ ", ".intercalate ([d.year, d.month, d.day].map toString) ++ ")"

end Date

namespace Moment

/-- The offset stays below one day on both sides. -/
def IsValid (t : Moment) : Prop :=
  t.date.IsValid ∧ t.hour ≤ 23 ∧ t.minute ≤ 59 ∧ t.second ≤ 59 ∧
    ∀ o ∈ t.offset, -86400 < o ∧ o < 86400

instance (t : Moment) : Decidable t.IsValid := inferInstanceAs (Decidable (_ ∧ _))

def offsetText (seconds : Int) : String :=
  let n := seconds.natAbs
  (if seconds < 0 then "-" else "+") ++ padded 2 (n / 3600) ++ ":" ++ padded 2 (n / 60 % 60)

def text (t : Moment) : String :=
  t.date.text ++ " " ++ padded 2 t.hour ++ ":" ++ padded 2 t.minute ++ ":" ++ padded 2 t.second ++
    (if t.micro = 0 then "" else "." ++ padded 6 t.micro) ++ (t.offset.map offsetText).getD ""

/-- How an offset is shown; a negative one counts forward from the day before. -/
def offsetShown (seconds : Int) : String :=
  if seconds = 0 then "datetime.timezone.utc"
  else
    let span :=
      if seconds < 0 then "days=-1, seconds=" ++ toString (seconds + 86400)
      else "seconds=" ++ toString seconds
    "datetime.timezone(datetime.timedelta(" ++ span ++ "))"

/-- How a moment is shown inside a list: seconds and fractions only where they are not zero. -/
def shown (t : Moment) : String :=
  let tail :=
    if t.micro ≠ 0 then [t.second, t.micro] else if t.second ≠ 0 then [t.second] else []
  let fields := [t.date.year, t.date.month, t.date.day, t.hour, t.minute] ++ tail
  let zone := (t.offset.map fun o => ", tzinfo=" ++ offsetShown o).getD ""
  "datetime.datetime(" ++ ", ".intercalate (fields.map toString) ++ zone ++ ")"

end Moment

end Conveyor
