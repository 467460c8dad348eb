import Records.Number.Written

/-!
Days of the Gregorian calendar, extended to the years 1 to 9999, and their number counted from the
first of January of the year 1.
-/
namespace Records.Calendar

open Records.Number (leftZeros)

def isLeap (year : Nat) : Bool :=
  year % 4 == 0 && (year % 100 != 0 || year % 400 == 0)

def daysInMonth (year month : Nat) : Nat :=
  if month = 2 then (if isLeap year then 29 else 28)
  else if month ∈ [4, 6, 9, 11] then 30
  else 31

def ValidDate (year month day : Nat) : Prop :=
  1 ≤ year ∧ year ≤ 9999 ∧ 1 ≤ month ∧ month ≤ 12 ∧ 1 ≤ day ∧ day ≤ daysInMonth year month

instance (year month day : Nat) : Decidable (ValidDate year month day) :=
  inferInstanceAs (Decidable (_ ∧ _ ∧ _ ∧ _ ∧ _ ∧ _))

structure Date where
  year : Nat
  month : Nat
  day : Nat
  valid : ValidDate year month day
deriving DecidableEq

namespace Date

def make? (year month day : Nat) : Option Date :=
  if h : ValidDate year month day then some ⟨year, month, day, h⟩ else none

def first : Date := ⟨1, 1, 1, by decide⟩

instance : Inhabited Date := ⟨first⟩

def text (d : Date) : String :=
  leftZeros 4 (toString d.year) ++ "-" ++ leftZeros 2 (toString d.month) ++ "-" ++
    leftZeros 2 (toString d.day)

end Date

/-- Days before the first of January of a year. -/
def daysBeforeYear (year : Nat) : Nat :=
  let y := year - 1
  365 * y + y / 4 - y / 100 + y / 400

/-- Days of a year before the first of a month. -/
def daysBeforeMonth (year month : Nat) : Nat :=
  ((List.range month).filter (1 ≤ ·)).foldl (fun n m => n + daysInMonth year m) 0

/-- The number of a day, the first of January of the year 1 being 1. -/
def dayNumber (year month day : Nat) : Nat :=
  daysBeforeYear year + daysBeforeMonth year month + day

def Date.number (d : Date) : Nat := dayNumber d.year d.month d.day

/-- Days since Monday. -/
def weekday (dayNumber : Nat) : Nat := (dayNumber + 6) % 7

/-- The month and day of a day of the year counted from zero. -/
def monthAndDay (year : Nat) : Nat → Nat → Nat → Nat × Nat
  | 0, month, day => (month, day + 1)
  | fuel + 1, month, day =>
    if day < daysInMonth year month then (month, day + 1)
    else monthAndDay year fuel (month + 1) (day - daysInMonth year month)

/-- The year a day number falls in, and the day of that year from zero. -/
def yearAndDay (number : Nat) : Nat × Nat :=
  let n := number - 1
  let guess := n / 366 + 1
  let year := ((List.range (n / 365 + 2 - guess)).map (guess + ·)).foldl
    (fun best y => if daysBeforeYear y ≤ n then y else best) guess
  (year, n - daysBeforeYear year)

/-- The day with a number, none past the last year. -/
def Date.ofNumber? (number : Nat) : Option Date :=
  if number = 0 then none
  else
    let (year, day) := yearAndDay number
    let (month, day) := monthAndDay year 11 1 day
    Date.make? year month day

/-- The number of the Monday that begins the first week of a year: the week of its first
Thursday. -/
def firstMonday (year : Nat) : Int :=
  let first := dayNumber year 1 1
  let back := weekday first
  let monday : Int := (first : Int) - back
  if back > 3 then monday + 7 else monday

/-- Whether a year has a fifty-third week. -/
def hasLongWeekYear (year : Nat) : Bool :=
  let first := weekday (dayNumber year 1 1)
  first == 3 || (first == 2 && isLeap year)

/-- The day named by a year, a week and a day of the week. -/
def Date.ofWeek? (year week day : Nat) : Option Date :=
  if 1 ≤ year ∧ 1 ≤ week ∧ (week ≤ 52 ∨ (week = 53 ∧ hasLongWeekYear year)) ∧ 1 ≤ day ∧ day ≤ 7 then
    let number := firstMonday year + ((week - 1) * 7 + day - 1 : Nat)
    Date.ofNumber? number.toNat
  else none

end Records.Calendar
