import Records.Calendar.Moment
import Records.Text.Utf

/-!
Reading dates and moments from their international forms: calendar and week dates with or without
hyphens, any single character before the time, fractions of any length cut to six places, and
offsets. The text is read octet by octet, so a character past ASCII is several.
-/
namespace Records.Calendar

open Records.Text (utf8)

/-- The octets of a text, each as the character with its number. -/
def octets (s : String) : List Char := (utf8 s).map fun b => Char.ofNat b.toNat

/-- What stands past the end of the octets. -/
def pastEnd : Char := '\x00'

def headOrEnd (cs : List Char) : Char := cs.headD pastEnd

/-- A number of exactly `n` digits, and what follows. -/
def takeDigits (n : Nat) (cs : List Char) : Option (Nat × List Char) :=
  let ds := cs.take n
  if ds.length = n ∧ ds.all Char.isDigit then
    some (ds.foldl (fun v c => v * 10 + (c.toNat - 48)) 0, cs.drop n)
  else none

/-- Drops a hyphen when one is wanted; fails when it is missing. -/
def takeHyphen (wanted : Bool) (cs : List Char) : Option (List Char) :=
  if wanted then (if cs.head? = some '-' then some cs.tail else none) else some cs

/-- A week date whose text ends after `length` octets; a missing day is the Monday. -/
def readWeek (year : Nat) (hyphens : Bool) (length : Int) (cs : List Char) : Option Date := do
  let (week, rest) ← takeDigits 2 cs
  let consumed : Int := if hyphens then 8 else 7
  if consumed < length ∨ length < 0 then
    let rest ← takeHyphen hyphens rest
    let (day, _) ← takeDigits 1 rest
    Date.ofWeek? year week day
  else Date.ofWeek? year week 1

/-- The date in the first `length` octets. Only a week date looks at the length. -/
def readDateIn (length : Int) (cs : List Char) : Option Date := do
  let (year, rest) ← takeDigits 4 cs
  let hyphens := headOrEnd rest == '-'
  let rest := if hyphens then rest.tail else rest
  if headOrEnd rest = 'W' then readWeek year hyphens length rest.tail
  else
    let (month, rest) ← takeDigits 2 rest
    let rest ← takeHyphen hyphens rest
    let (day, _) ← takeDigits 2 rest
    Date.make? year month day

/-- How many octets the date of a moment takes. Four digits and a hyphen or a week mark tell the
forms apart; a digit run after a bare week decides by its parity whether a day belongs to it. -/
def dateLength (cs : List Char) : Int :=
  let length := cs.length
  let octet (i : Nat) : Char := cs.getD i pastEnd
  if length = 7 then 7
  else if octet 4 = '-' then
    if octet 5 = 'W' then
      if length < 8 then -1
      else if length > 8 ∧ octet 8 = '-' then
        if length = 9 then -1
        else if length > 10 ∧ (octet 10).isDigit then 8
        else 10
      else 8
    else 10
  else if octet 4 = 'W' then
    let stop := 7 + ((cs.drop 7).takeWhile Char.isDigit).length
    if stop < 9 then stop else if stop % 2 = 0 then 7 else 8
  else 8

/-- Parts of a time: hours, minutes and seconds as far as they are given, the microseconds, and
whether octets are left. -/
structure Clock where
  fields : List Nat
  micro : Nat
  more : Bool

def readFraction (after cs : List Char) : Option Clock := do
  let places := min 6 cs.length
  let (n, rest) ← takeDigits places cs
  let rest := (rest ++ after).dropWhile Char.isDigit
  some ⟨[], n * Nat.pow 10 (6 - places), headOrEnd rest != pastEnd⟩

/-- The time in `cs`, which `after` follows. Colons between the parts are all or none; a point or a
comma ends them. -/
def readClock (after : List Char) : Nat → Option Bool → List Char → Option Clock
  | 0, _, cs => readFraction after cs
  | n + 1, colons, cs => do
    let (v, rest) ← takeDigits 2 cs
    let c := headOrEnd (rest ++ after)
    let colons := colons.getD (c == ':')
    match rest with
    | [] => some ⟨[v], 0, c != pastEnd⟩
    | [_] => some ⟨[v], 0, c != pastEnd⟩
    | _ :: next =>
      let tail ←
        if colons ∧ c = ':' then readClock after n (some colons) next
        else if c = '.' ∨ c = ',' then readFraction after next
        else if ¬ colons then readClock after n (some colons) rest
        else none
      some { tail with fields := v :: tail.fields }

def Clock.hour (c : Clock) : Nat := c.fields.getD 0 0
def Clock.minute (c : Clock) : Nat := c.fields.getD 1 0
def Clock.second (c : Clock) : Nat := c.fields.getD 2 0

def Clock.time? (c : Clock) : Option TimeOfDay :=
  TimeOfDay.make? c.hour c.minute c.second c.micro

def startsOffset (c : Char) : Bool := c == '+' || c == '-' || c == 'Z'

/-- The time of a moment and its offset. A fraction of a second alone is no offset. -/
def readTime (cs : List Char) : Option (TimeOfDay × Option Offset) := do
  let body := cs.takeWhile (!startsOffset ·)
  let zone := cs.dropWhile (!startsOffset ·)
  let clock ← readClock zone 3 none body
  let time ← clock.time?
  match zone with
  | [] => if clock.more then none else some (time, none)
  | 'Z' :: rest =>
    if headOrEnd rest = pastEnd then some (time, ← Offset.make? 0) else none
  | sign :: rest =>
    let away ← readClock [] 3 none rest
    if away.more then none
    else
      let seconds := away.hour * 3600 + away.minute * 60 + away.second
      let micros : Int := if seconds = 0 then 0 else (seconds * 1000000 + away.micro : Nat)
      some (time, ← Offset.make? (if sign = '-' then -micros else micros))

/-- The moment a text is in one of the international forms. -/
def readMoment? (s : String) : Option Moment := do
  let cs := octets s
  if cs.length < 7 then none
  else
    let length := dateLength cs
    let date ← readDateIn length cs
    let rest := if length < 0 then cs else cs.drop length.toNat
    match rest with
    | [] => some (.ofDate date)
    | separator :: rest =>
      let extra := if separator.toNat < 0x80 then 0
        else if separator.toNat / 16 = 0xE then 2
        else if separator.toNat / 16 = 0xF then 3
        else 1
      let (time, offset) ← readTime (rest.drop extra)
      some ⟨date, time, offset⟩

/-- The date a text is. -/
def readDate? (s : String) : Option Date :=
  let cs := octets s
  if cs.length ∈ [7, 8, 10] then readDateIn cs.length cs else none

end Records.Calendar
