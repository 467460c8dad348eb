import Records.Text.Printable

/-!
Quoted text: the literal form of a text or of a run of bytes. Single quotes enclose it unless it
holds a single quote and no double quote.
-/
namespace Records.Text

def hexDigit (n : Nat) : Char := Nat.digitChar (n % 16)

/-- The low `width` hexadecimal digits of a number. -/
def hexDigits : Nat → Nat → List Char
  | 0, _ => []
  | width + 1, n => hexDigits width (n / 16) ++ [hexDigit n]

def escapeUnprintable (c : Char) : List Char :=
  let n := c.toNat
  if n < 0x100 then '\\' :: 'x' :: hexDigits 2 n
  else if n < 0x10000 then '\\' :: 'u' :: hexDigits 4 n
  else '\\' :: 'U' :: hexDigits 8 n

def quoteChar (mark : Char) (c : Char) : List Char :=
  if c = mark ∨ c = '\\' then ['\\', c]
  else if c = '\n' then ['\\', 'n']
  else if c = '\r' then ['\\', 'r']
  else if c = '\t' then ['\\', 't']
  else if isPrintable c then [c]
  else escapeUnprintable c

/-- The quotation mark that needs the fewest escapes, the single one if in doubt. -/
def quotationMark (cs : List Char) : Char :=
  if cs.contains '\'' && !cs.contains '"' then '"' else '\''

def quotedChars (cs : List Char) : List Char :=
  let mark := quotationMark cs
  mark :: cs.flatMap (quoteChar mark) ++ [mark]

def quoted (s : String) : String := String.ofList (quotedChars s.toList)

def quoteByte (mark : Char) (b : UInt8) : List Char :=
  let c := Char.ofNat b.toNat
  if b < 0x80 then quoteChar mark c else '\\' :: 'x' :: hexDigits 2 b.toNat

/-- Bytes as ASCII text with hexadecimal escapes. -/
def quotedBytes (bytes : List UInt8) : String :=
  let mark := quotationMark (bytes.map fun b => Char.ofNat b.toNat)
  "b" ++ String.ofList (mark :: bytes.flatMap (quoteByte mark) ++ [mark])

/-- Bytes as pairs of hexadecimal digits. -/
def hex (bytes : List UInt8) : String :=
  String.ofList (bytes.flatMap fun b => hexDigits 2 b.toNat)

def hexValue? (c : Char) : Option Nat :=
  if c.isDigit then some (c.toNat - 48)
  else if 'a' ≤ c ∧ c ≤ 'f' then some (c.toNat - 87)
  else if 'A' ≤ c ∧ c ≤ 'F' then some (c.toNat - 55)
  else none

/-- The bytes written as pairs of hexadecimal digits. -/
def ofHexChars? : List Char → Option (List UInt8)
  | [] => some []
  | [_] => none
  | a :: b :: rest => do
    let high ← hexValue? a
    let low ← hexValue? b
    return UInt8.ofNat (16 * high + low) :: (← ofHexChars? rest)

end Records.Text
