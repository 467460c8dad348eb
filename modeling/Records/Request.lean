import Records.Listing.Page
import Records.Settings.Field
import Records.Text.Quoted

/-!
Requests for a listing: the query of an address as names and values, and the parameters of a listing
among them.
-/
namespace Records.Request

open Records.Settings (FieldError readInt)

/-- The octets that percent escapes and plus signs stand for. -/
def unescape : List Char → List UInt8
  | '%' :: a :: b :: cs =>
    match Text.hexValue? a, Text.hexValue? b with
    | some high, some low => UInt8.ofNat (16 * high + low) :: unescape cs
    | _, _ => 37 :: unescape (a :: b :: cs)
  | c :: cs => Text.utf8Char c ++ unescape cs
  | [] => []

/-- The text of a part of a query, in which a plus sign is a blank. -/
def decodePart (cs : List Char) : String :=
  Text.decodeLossy (unescape (cs.map fun c => if c = '+' then ' ' else c))

/-- The pieces between a separator. -/
def splitAt (separator : Char) : List Char → List (List Char)
  | [] => [[]]
  | c :: cs =>
    if c = separator then [] :: splitAt separator cs
    else match splitAt separator cs with
      | piece :: pieces => (c :: piece) :: pieces
      | [] => [[c]]

/-- A name and a value with an equals sign between; a missing value is empty. -/
def pairOf (cs : List Char) : String × String :=
  (decodePart (cs.takeWhile (· != '=')), decodePart (cs.dropWhile (· != '=')).tail)

/-- The pairs of a query, up to a number sign. -/
def pairs (query : String) : List (String × String) :=
  ((splitAt '&' (query.toList.takeWhile (· != '#'))).filter fun cs => !cs.isEmpty).map pairOf

/-- The value of a name that may be repeated; the last one counts. -/
def value? (ps : List (String × String)) (name : String) : Option String :=
  (ps.reverse.find? (·.1 == name)).map (·.2)

def atLeast (low : Int) (n : Int) : Except FieldError Int :=
  if n < low then .error .tooSmall else .ok n

def atMost (high : Int) (n : Int) : Except FieldError Int :=
  if high < n then .error .tooLarge else .ok n

def limitOf : Option String → Except FieldError Int
  | none => .ok Listing.defaultLimit
  | some s => do atMost Listing.maxLimit (← atLeast 1 (← readInt s))

def pageOf : Option String → Except FieldError Int
  | none => .ok Listing.firstPage
  | some s => do atLeast 1 (← readInt s)

/-- A text parameter, left out when it is absent or empty. -/
def textEntry (ps : List (String × String)) (name : String) : List (String × Value) :=
  match value? ps name with
  | some s => if s = "" then [] else [(name, .text s)]
  | none => []

def errorOf {α : Type} (name : String) : Except FieldError α → List (String × FieldError)
  | .ok _ => []
  | .error e => [(name, e)]

/-- The listing parameters of a request, or the parameters that are refused. -/
def params (ps : List (String × String)) :
    Except (List (String × FieldError)) (List (String × Value)) :=
  match limitOf (value? ps "limit"), pageOf (value? ps "page") with
  | .ok limit, .ok page =>
    .ok ([("limit", .int limit), ("page", .int page)] ++ textEntry ps "filter" ++
      textEntry ps "sort")
  | limit, page => .error (errorOf "limit" limit ++ errorOf "page" page)

end Records.Request
