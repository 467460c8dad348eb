/-!
Encodings of text in octets. Decoding yields one piece for each character and one for each maximal
ill-formed run, so that strict and replacing readers share it.
-/
namespace Records.Text

def utf8Char (c : Char) : List UInt8 :=
  let n := c.toNat
  if n < 0x80 then [UInt8.ofNat n]
  else if n < 0x800 then [UInt8.ofNat (0xC0 + n / 64), UInt8.ofNat (0x80 + n % 64)]
  else if n < 0x10000 then
    [UInt8.ofNat (0xE0 + n / 4096), UInt8.ofNat (0x80 + n / 64 % 64), UInt8.ofNat (0x80 + n % 64)]
  else
    [UInt8.ofNat (0xF0 + n / 262144), UInt8.ofNat (0x80 + n / 4096 % 64),
      UInt8.ofNat (0x80 + n / 64 % 64), UInt8.ofNat (0x80 + n % 64)]

def utf8 (s : String) : List UInt8 := s.toList.flatMap utf8Char

/-- The character that stands for what text cannot hold. -/
def replacement : Char := '\uFFFD'

def charOrReplacement (n : Nat) : Char :=
  if n.isValidChar then Char.ofNat n else replacement

/-- A character begun: how many octets are owed, the bounds of the next one, and the bits so
far. -/
structure Begun where
  owed : Nat
  low : Nat
  high : Nat
  bits : Nat

/-- What the first octet of a character says. -/
inductive Lead
  | complete (c : Char)
  | begun (b : Begun)
  | refused

/-- `surrogates` admits the three octets of a surrogate, which become the replacement character. -/
def lead (surrogates : Bool) (b : UInt8) : Lead :=
  let n := b.toNat
  if n < 0x80 then .complete (Char.ofNat n)
  else if 0xC2 ≤ n ∧ n ≤ 0xDF then .begun ⟨1, 0x80, 0xBF, n % 32⟩
  else if n = 0xE0 then .begun ⟨2, 0xA0, 0xBF, 0⟩
  else if n = 0xED then .begun ⟨2, 0x80, if surrogates then 0xBF else 0x9F, 13⟩
  else if 0xE1 ≤ n ∧ n ≤ 0xEF then .begun ⟨2, 0x80, 0xBF, n % 16⟩
  else if n = 0xF0 then .begun ⟨3, 0x90, 0xBF, 0⟩
  else if 0xF1 ≤ n ∧ n ≤ 0xF3 then .begun ⟨3, 0x80, 0xBF, n % 8⟩
  else if n = 0xF4 then .begun ⟨3, 0x80, 0x8F, 4⟩
  else .refused

def Begun.accepts (p : Begun) (b : UInt8) : Bool := p.low ≤ b.toNat && b.toNat ≤ p.high

def utf8Pieces (surrogates : Bool) : Option Begun → List UInt8 → List (Option Char)
  | none, [] => []
  | some _, [] => [none]
  | pending, b :: bs =>
    let restart := match lead surrogates b with
      | .complete c => some c :: utf8Pieces surrogates none bs
      | .begun p => utf8Pieces surrogates (some p) bs
      | .refused => none :: utf8Pieces surrogates none bs
    match pending with
    | none => restart
    | some p =>
      if p.accepts b then
        let bits := p.bits * 64 + b.toNat % 64
        if p.owed ≤ 1 then some (charOrReplacement bits) :: utf8Pieces surrogates none bs
        else utf8Pieces surrogates (some ⟨p.owed - 1, 0x80, 0xBF, bits⟩) bs
      else none :: restart

/-- The text when every piece is a character. -/
def ofPieces? (pieces : List (Option Char)) : Option String :=
  (pieces.mapM id).map String.ofList

/-- Octets as text, each ill-formed run replaced. -/
def decodeLossy (bytes : List UInt8) : String :=
  String.ofList ((utf8Pieces false none bytes).map (·.getD replacement))

/-- Sixteen-bit units, none when an octet is left over. -/
def units16? (big : Bool) : List UInt8 → Option (List Nat)
  | [] => some []
  | [_] => none
  | a :: b :: rest =>
    let n := if big then a.toNat * 256 + b.toNat else b.toNat * 256 + a.toNat
    (units16? big rest).map (n :: ·)

/-- Characters of sixteen-bit units; a lone surrogate becomes the replacement character. -/
def charsOfUnits : List Nat → List Char
  | [] => []
  | [n] => [charOrReplacement n]
  | m :: n :: rest =>
    if 0xD800 ≤ m ∧ m < 0xDC00 ∧ 0xDC00 ≤ n ∧ n < 0xE000 then
      charOrReplacement (0x10000 + (m - 0xD800) * 1024 + (n - 0xDC00)) :: charsOfUnits rest
    else charOrReplacement m :: charsOfUnits (n :: rest)

/-- Characters of thirty-two-bit units. -/
def chars32? (big : Bool) : List UInt8 → Option (List Char)
  | [] => some []
  | a :: b :: c :: d :: rest =>
    let (a, b, c, d) := if big then (a, b, c, d) else (d, c, b, a)
    let n := ((a.toNat * 256 + b.toNat) * 256 + c.toNat) * 256 + d.toNat
    if n ≤ 0x10FFFF then (chars32? big rest).map (charOrReplacement n :: ·) else none
  | _ => none

inductive Encoding
  | utf8
  | utf16 (big : Bool)
  | utf32 (big : Bool)

/-- The encoding that a byte order mark or the place of zero octets tells, and the octets after
the mark. -/
def detectEncoding (bytes : List UInt8) : Encoding × List UInt8 :=
  match bytes with
  | 0x00 :: 0x00 :: 0xFE :: 0xFF :: rest => (.utf32 true, rest)
  | 0xFF :: 0xFE :: 0x00 :: 0x00 :: rest => (.utf32 false, rest)
  | 0xFE :: 0xFF :: rest => (.utf16 true, rest)
  | 0xFF :: 0xFE :: rest => (.utf16 false, rest)
  | 0xEF :: 0xBB :: 0xBF :: rest => (.utf8, rest)
  | a :: b :: c :: d :: _ =>
    if a = 0 then (if b = 0 then .utf32 true else .utf16 true, bytes)
    else if b = 0 then (if c = 0 ∧ d = 0 then .utf32 false else .utf16 false, bytes)
    else (.utf8, bytes)
  | [a, b] => (if a = 0 then .utf16 true else if b = 0 then .utf16 false else .utf8, bytes)
  | _ => (.utf8, bytes)

/-- Octets of a document as text, in the encoding they show. -/
def decodeDocument? (bytes : List UInt8) : Option String :=
  match detectEncoding bytes with
  | (.utf8, rest) => ofPieces? (utf8Pieces true none rest)
  | (.utf16 big, rest) => (units16? big rest).map fun us => String.ofList (charsOfUnits us)
  | (.utf32 big, rest) => (chars32? big rest).map String.ofList

end Records.Text
