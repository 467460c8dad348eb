import Records.Value.Written

/-!
Writing a value as JSON on one line. Characters past ASCII and controls are escaped in sixteen-bit
units; a value JSON cannot write is written as its display text.
-/
namespace Records.Json

open Records.Text (hexDigits)

def escapeUnit (n : Nat) : List Char := '\\' :: 'u' :: hexDigits 4 n

def escapeChar (c : Char) : List Char :=
  if c = '"' then ['\\', '"']
  else if c = '\\' then ['\\', '\\']
  else if c = '\n' then ['\\', 'n']
  else if c = '\r' then ['\\', 'r']
  else if c = '\t' then ['\\', 't']
  else if c = '\x08' then ['\\', 'b']
  else if c = '\x0c' then ['\\', 'f']
  else if ' ' ≤ c ∧ c ≤ '~' then [c]
  else if c.toNat < 0x10000 then escapeUnit c.toNat
  else
    let n := c.toNat - 0x10000
    escapeUnit (0xD800 + n / 1024) ++ escapeUnit (0xDC00 + n % 1024)

def textChars (s : String) : List Char := '"' :: s.toList.flatMap escapeChar ++ ['"']

/-- Pieces with a comma and a space between. -/
def separated : List (List Char) → List Char
  | [] => []
  | [piece] => piece
  | piece :: pieces => piece ++ ',' :: ' ' :: separated pieces

mutual

def chars : Value → List Char
  | .null => "null".toList
  | .bool b => (if b then "true" else "false").toList
  | .int n => (toString n).toList
  | .float x => x.document.toList
  | .text s => textChars s
  | .bytes b => textChars (Value.bytes b).display
  | .date d => textChars (Value.date d).display
  | .moment m => textChars (Value.moment m).display
  | .list xs => '[' :: separated (itemChars xs) ++ [']']
  | .tuple xs => '[' :: separated (itemChars xs) ++ [']']
  | .object es => '\x7b' :: separated (entryChars es) ++ ['\x7d']

def itemChars : List Value → List (List Char)
  | [] => []
  | x :: xs => chars x :: itemChars xs

def entryChars : List (String × Value) → List (List Char)
  | [] => []
  | (k, x) :: es => (textChars k ++ ':' :: ' ' :: chars x) :: entryChars es

end

def write (v : Value) : String := String.ofList (chars v)

end Records.Json
