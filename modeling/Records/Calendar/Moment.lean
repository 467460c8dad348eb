import Records.Calendar.Date

/-!
A day with a time to the microsecond and, for some, an offset from universal time.
-/
namespace Records.Calendar

open Records.Number (leftZeros)

structure TimeOfDay where
  hour : Fin 24
  minute : Fin 60
  second : Fin 60
  micro : Fin 1000000
deriving DecidableEq

def TimeOfDay.midnight : TimeOfDay := ⟨0, 0, 0, 0⟩

def microsPerDay : Int := 86400000000

/-- An offset from universal time, in microseconds, shorter than a day. -/
structure Offset where
  micros : Int
  lt_day : -microsPerDay < micros ∧ micros < microsPerDay
deriving DecidableEq

structure Moment where
  date : Date
  time : TimeOfDay
  offset : Option Offset
deriving DecidableEq

def TimeOfDay.make? (hour minute second micro : Nat) : Option TimeOfDay :=
  if h : hour < 24 ∧ minute < 60 ∧ second < 60 ∧ micro < 1000000 then
    some ⟨⟨hour, h.1⟩, ⟨minute, h.2.1⟩, ⟨second, h.2.2.1⟩, ⟨micro, h.2.2.2⟩⟩
  else none

def Offset.make? (micros : Int) : Option Offset :=
  if h : -microsPerDay < micros ∧ micros < microsPerDay then some ⟨micros, h⟩ else none

def two (n : Nat) : String := leftZeros 2 (toString n)

/-- A fraction of a second, left out when it is zero. -/
def fractionText (micro : Nat) : String :=
  if micro = 0 then "" else "." ++ leftZeros 6 (toString micro)

namespace TimeOfDay

def seconds (t : TimeOfDay) : String :=
  two t.hour ++ ":" ++ two t.minute ++ ":" ++ two t.second

def text (t : TimeOfDay) : String := t.seconds ++ fractionText t.micro

def micros (t : TimeOfDay) : Nat :=
  ((t.hour.val * 60 + t.minute.val) * 60 + t.second.val) * 1000000 + t.micro.val

end TimeOfDay

/-- An offset as `±HH:MM`, with seconds and a fraction only when they are not zero. -/
def Offset.text (o : Offset) : String :=
  let n := o.micros.natAbs
  let seconds := n / 1000000 % 60
  let micro := n % 1000000
  (if o.micros < 0 then "-" else "+") ++ two (n / 3600000000) ++ ":" ++ two (n / 60000000 % 60) ++
    (if seconds = 0 ∧ micro = 0 then "" else ":" ++ two seconds ++ fractionText micro)

namespace Moment

def ofDate (d : Date) : Moment := ⟨d, .midnight, none⟩

/-- The day and time with a separator between, the offset last. -/
def textWith (separator : String) (m : Moment) : String :=
  m.date.text ++ separator ++ m.time.text ++ (m.offset.map Offset.text).getD ""

def iso (m : Moment) : String := m.textWith "T"

def spaced (m : Moment) : String := m.textWith " "

/-- The form a table keeps: six places always, and the offset dropped. -/
def stored (m : Moment) : String :=
  m.date.text ++ " " ++ m.time.seconds ++ "." ++ leftZeros 6 (toString m.time.micro)

/-- Microseconds since the beginning of the calendar, in universal time where an offset is known. -/
def instant (m : Moment) : Int :=
  (m.date.number : Int) * microsPerDay + m.time.micros - (m.offset.map Offset.micros).getD 0

/-- Two moments are the same when both or neither have an offset and the instants agree. -/
def same (a b : Moment) : Bool :=
  a.offset.isSome == b.offset.isSome && a.instant == b.instant

/-- A moment without an offset, some seconds later. -/
def addSeconds (m : Moment) (seconds : Nat) : Moment :=
  let total := m.time.micros + seconds * 1000000
  let day := total / 86400000000
  let rest := total % 86400000000
  let time := TimeOfDay.make? (rest / 3600000000) (rest / 60000000 % 60) (rest / 1000000 % 60)
    (rest % 1000000)
  match Date.ofNumber? (m.date.number + day), time with
  | some date, some time => ⟨date, time, m.offset⟩
  | _, _ => m

end Moment

end Records.Calendar
