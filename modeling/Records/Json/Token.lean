import Records.Number.Numeral
import Records.Text.Quoted
import Records.Text.Utf
import Records.Value

/-!
Tokens of a JSON text. A character that begins no token ends the list with `bad`, so an error is
met where a reader from left to right meets it.
-/
namespace Records.Json

open Records.Number (Double ofDigits)
open Records.Text (asciiDigit? hexValue? charsOfUnits)

inductive Token
  | openList
  | closeList
  | openObject
  | closeObject
  | comma
  | colon
  | text (s : String)
  | scalar (v : Value)
  | bad
deriving DecidableEq

/-- What a reader puts up with; an open limit bounds nothing. -/
structure Limits where
  /-- The digits of an integer. -/
  digits : Option Nat
  /-- How deep collections nest. -/
  depth : Option Nat

def Limits.unbounded : Limits := ⟨none, none⟩

def Limits.allowDigits (limits : Limits) (count : Nat) : Bool := limits.digits.all (count ≤ ·)

/-- Whether a collection may begin inside a number of others. -/
def Limits.allowInside (limits : Limits) (depth : Nat) : Bool := limits.depth.all (depth < ·)

def isSpace (c : Char) : Bool := c == ' ' || c == '\n' || c == '\t' || c == '\r'

/-- What follows a word, if the characters begin with it. -/
def afterWord? : List Char → List Char → Option (List Char)
  | [], cs => some cs
  | _ :: _, [] => none
  | w :: ws, c :: cs => if w = c then afterWord? ws cs else none

def hex4? (a b c d : Char) : Option Nat := do
  return ((← hexValue? a) * 16 + (← hexValue? b)) * 256 + (← hexValue? c) * 16 + (← hexValue? d)

/-- The character a short escape stands for. -/
def shortEscape? (c : Char) : Option Nat :=
  if c = '"' ∨ c = '\\' ∨ c = '/' then some c.toNat
  else if c = 'b' then some 8
  else if c = 'f' then some 12
  else if c = 'n' then some 10
  else if c = 'r' then some 13
  else if c = 't' then some 9
  else none

/-- The units of a text up to its closing quote, and what follows it. -/
def readUnits : List Char → Option (List Nat × List Char)
  | [] => none
  | '"' :: cs => some ([], cs)
  | '\\' :: 'u' :: a :: b :: c :: d :: cs => do
    let n ← hex4? a b c d
    let (units, rest) ← readUnits cs
    return (n :: units, rest)
  | '\\' :: c :: cs => do
    let n ← shortEscape? c
    let (units, rest) ← readUnits cs
    return (n :: units, rest)
  | c :: cs =>
    if c = '\\' ∨ c.toNat < 0x20 then none
    else do
      let (units, rest) ← readUnits cs
      return (c.toNat :: units, rest)

/-- The digits of a whole part: a zero alone, or a run that begins with another digit. -/
def readWhole : List Char → List Char × List Char
  | '0' :: cs => (['0'], cs)
  | cs => (cs.takeWhile Char.isDigit, cs.dropWhile Char.isDigit)

/-- A point and at least one digit, or nothing. -/
def readFraction : List Char → List Char × List Char
  | '.' :: cs =>
    if (cs.takeWhile Char.isDigit).isEmpty then ([], '.' :: cs)
    else (cs.takeWhile Char.isDigit, cs.dropWhile Char.isDigit)
  | cs => ([], cs)

/-- The sign and digits of an exponent, or nothing. -/
def readExponent : List Char → Option (Bool × List Char) × List Char
  | c :: cs =>
    if c = 'e' ∨ c = 'E' then
      let negative := cs.head? = some '-'
      let digits := if cs.head? = some '-' ∨ cs.head? = some '+' then cs.tail else cs
      if (digits.takeWhile Char.isDigit).isEmpty then (none, c :: cs)
      else (some (negative, digits.takeWhile Char.isDigit), digits.dropWhile Char.isDigit)
    else (none, c :: cs)
  | [] => (none, [])

def naturalOf (cs : List Char) : Nat := ofDigits (cs.filterMap asciiDigit?)

/-- The value of a number from its parts; a longer integer than can be read is none. -/
def numberValue? (limits : Limits) (negative : Bool) (whole fraction : List Char)
    (exponent : Option (Bool × List Char)) :
    Option Value :=
  if fraction.isEmpty ∧ exponent.isNone then
    if limits.allowDigits whole.length then
      some (.int (if negative then -(naturalOf whole : Int) else naturalOf whole))
    else none
  else
    let power : Int := match exponent with
      | some (true, ds) => -(naturalOf ds : Int)
      | some (false, ds) => naturalOf ds
      | none => 0
    some (.float (Double.ofDecimal negative (naturalOf (whole ++ fraction))
      (power - (fraction.length : Int))))

def readNumber (limits : Limits) (negative : Bool) (cs : List Char) : Token × List Char :=
  let (whole, rest) := readWhole cs
  let (fraction, rest) := readFraction rest
  let (exponent, rest) := readExponent rest
  if whole.isEmpty then (.bad, [])
  else match numberValue? limits negative whole fraction exponent with
    | some v => (.scalar v, rest)
    | none => (.bad, [])

def readWord (word : String) (v : Value) (cs : List Char) : Token × List Char :=
  match afterWord? word.toList cs with
  | some rest => (.scalar v, rest)
  | none => (.bad, [])

/-- The token that begins with `c`, and what follows it. -/
def readToken (limits : Limits) (c : Char) (cs : List Char) : Token × List Char :=
  match c with
  | '[' => (.openList, cs)
  | ']' => (.closeList, cs)
  | '\x7b' => (.openObject, cs)
  | '\x7d' => (.closeObject, cs)
  | ',' => (.comma, cs)
  | ':' => (.colon, cs)
  | '"' =>
    match readUnits cs with
    | some (units, rest) => (.text (String.ofList (charsOfUnits units)), rest)
    | none => (.bad, [])
  | 'n' => readWord "ull" .null cs
  | 't' => readWord "rue" (.bool true) cs
  | 'f' => readWord "alse" (.bool false) cs
  | 'N' => readWord "aN" (.float .nan) cs
  | 'I' => readWord "nfinity" (.float (.infinite false)) cs
  | '-' =>
    if cs.head? = some 'I' then readWord "Infinity" (.float (.infinite true)) cs
    else readNumber limits true cs
  | c => if c.isDigit then readNumber limits false (c :: cs) else (.bad, [])

theorem length_afterWord? {ws cs rest : List Char} (h : afterWord? ws cs = some rest) :
    rest.length ≤ cs.length := by
  induction ws generalizing cs with
  | nil => simp_all [afterWord?]
  | cons w ws ih =>
    cases cs with
    | nil => simp [afterWord?] at h
    | cons c cs =>
      simp only [afterWord?] at h
      split at h
      · exact Nat.le_succ_of_le (ih h)
      · simp at h

theorem length_readUnits {cs rest : List Char} {units : List Nat}
    (h : readUnits cs = some (units, rest)) : rest.length < cs.length := by
  fun_induction readUnits cs generalizing units rest with
  | case1 => simp at h
  | case2 => simp_all
  | case3 a b c d cs ih =>
    simp only [Option.bind_eq_bind, Option.bind_eq_some_iff, Option.pure_def, Option.some.injEq,
      Prod.exists] at h
    obtain ⟨n, _, us, r, hr, he⟩ := h
    have hl := ih hr
    simp only [Prod.mk.injEq] at he
    simp only [← he.2, List.length_cons]
    omega
  | case4 c cs _ ih =>
    simp only [Option.bind_eq_bind, Option.bind_eq_some_iff, Option.pure_def, Option.some.injEq,
      Prod.exists] at h
    obtain ⟨n, _, us, r, hr, he⟩ := h
    have hl := ih hr
    simp only [Prod.mk.injEq] at he
    simp only [← he.2, List.length_cons]
    omega
  | case5 => simp at h
  | case6 c cs _ _ _ _ ih =>
    simp only [Option.bind_eq_bind, Option.bind_eq_some_iff, Option.pure_def, Option.some.injEq,
      Prod.exists] at h
    obtain ⟨us, r, hr, he⟩ := h
    have hl := ih hr
    simp only [Prod.mk.injEq] at he
    simp only [← he.2, List.length_cons]
    omega

theorem length_digitRun (cs : List Char) :
    (cs.takeWhile Char.isDigit).length + (cs.dropWhile Char.isDigit).length = cs.length := by
  rw [← List.length_append, List.takeWhile_append_dropWhile]

theorem length_readWhole (cs : List Char) :
    (readWhole cs).1.length + (readWhole cs).2.length = cs.length := by
  fun_cases readWhole cs with
  | case1 => simp [Nat.add_comm]
  | case2 => exact length_digitRun cs

theorem length_readFraction (cs : List Char) : (readFraction cs).2.length ≤ cs.length := by
  fun_cases readFraction cs with
  | case1 => simp
  | case2 cs _ =>
    have h := length_digitRun cs
    simp only [List.length_cons]
    omega
  | case3 => simp

theorem length_readExponent (cs : List Char) : (readExponent cs).2.length ≤ cs.length := by
  fun_cases readExponent cs with
  | case1 => simp
  | case2 c cs _ _ digits _ =>
    have h := length_digitRun digits
    have hd : digits.length ≤ cs.length := by
      simp only [digits]
      split <;> simp
    simp only [List.length_cons]
    omega
  | case3 => simp
  | case4 => simp

theorem length_readNumber (limits : Limits) (negative : Bool) (cs : List Char) :
    (readNumber limits negative cs).2.length ≤ cs.length - 1 := by
  have hw := length_readWhole cs
  have hf := length_readFraction (readWhole cs).2
  have he := length_readExponent (readFraction (readWhole cs).2).2
  simp only [readNumber]
  split
  · simp
  · rename_i h
    have hp : 0 < (readWhole cs).1.length := by
      cases hc : (readWhole cs).1 <;> simp_all
    split
    · simp only
      omega
    · simp

theorem length_readWord (word : String) (v : Value) (cs : List Char) :
    (readWord word v cs).2.length ≤ cs.length := by
  simp only [readWord]
  split
  · exact length_afterWord? ‹_›
  · simp

theorem length_readToken (limits : Limits) (c : Char) (cs : List Char) :
    (readToken limits c cs).2.length ≤ cs.length := by
  unfold readToken
  split
  any_goals exact Nat.le_refl _
  any_goals exact length_readWord _ _ _
  · split
    · exact Nat.le_of_lt (length_readUnits ‹_›)
    · simp
  · split
    · exact length_readWord _ _ _
    · exact Nat.le_trans (length_readNumber _ _ _) (Nat.sub_le _ _)
  · split
    · exact length_readNumber _ _ _
    · simp

/-- The tokens of a text, up to the first that is bad. -/
def tokens (limits : Limits) : List Char → List Token
  | [] => []
  | c :: cs =>
    if isSpace c then tokens limits cs
    else
      have := length_readToken limits c cs
      match _h : readToken limits c cs with
      | (.bad, _) => [.bad]
      | (t, rest) => t :: tokens limits rest
termination_by cs => cs.length
decreasing_by
  · simp
  · simp_all only [List.length_cons]
    omega

end Records.Json
