import Records.Json.Reader
import Records.Listing.Page
import Records.Log
import Records.Number.Numeral
import Records.Query
import Records.Text.Blank
import Records.Text.LowerCase

/-!
The parameters of a listing: a filter, a sort, a page size and a page number. Values that cannot be
used are dropped, and those of the filter and the sort are reported.
-/
namespace Records.Listing

inductive ParamsError
  /-- The filter is a document that nests too deep. -/
  | tooDeep (object : Bool)
  | infiniteNumber
  /-- The parameters are no mapping. -/
  | notMapping (v : Value)
deriving DecidableEq

def ParamsError.message : ParamsError → String
  | .tooDeep object => (Json.ReadError.tooDeep object).message
  | .infiniteNumber => "cannot convert float infinity to integer"
  | .notMapping v => "'" ++ v.typeName ++ "' object has no attribute 'get'"

structure SortSpec where
  field : String
  direction : Direction
deriving DecidableEq

structure Params where
  filters : List (String × Value) := []
  sort : Option SortSpec := none
  limit : Int := defaultLimit
  page : Int := firstPage

def report {ε : Type} (level : Level) (message : String) (data : List (String × Value)) :
    Reported ε Unit :=
  Reported.entry ⟨level, .listing, message, data⟩

/-- The filter a document holds. -/
def filterOfDocument (raw : Value) (document : Except Json.ReadError Value) :
    Reported ParamsError (List (String × Value)) :=
  match document with
  | .ok (.object es) => pure es
  | .ok _ => do
    report .warning "Filter parameter is not an object, ignored" [("filter", raw.truncated)]
    return []
  | .error .malformed => do
    report .warning "Malformed filter parameter ignored" [("filter", raw.truncated)]
    return []
  | .error (.tooDeep object) => .fail (.tooDeep object)

/-- The entries of a filter, as an object or as the document of one. -/
def readFilter (raw : Value) : Reported ParamsError (List (String × Value)) :=
  if !raw.isTruthy then pure []
  else match raw with
    | .object es => pure es
    | .text s => filterOfDocument raw (Json.read s)
    | .bytes b => filterOfDocument raw (Json.readBytes b)
    | v => filterOfDocument raw (.ok v)

def Direction.ofWord? (word : String) : Option Direction :=
  if word = "asc" then some .ascending else if word = "desc" then some .descending else none

/-- The parts of a text between bars. -/
def barParts : List Char → List (List Char)
  | [] => [[]]
  | c :: cs =>
    if c = '|' then [] :: barParts cs
    else match barParts cs with
      | part :: parts => (c :: part) :: parts
      | [] => [[c]]

/-- A sort written as a field and a direction with a bar between, blanks around either aside. -/
def parseSort? (s : String) : Option SortSpec :=
  match barParts s.toList with
  | [field, direction] =>
    let field := Text.trim (String.ofList field)
    match Direction.ofWord? (Text.lower (Text.trim (String.ofList direction))) with
    | some d => if field = "" then none else some ⟨field, d⟩
    | none => none
  | _ => none

def readSort {ε : Type} (raw : Value) : Reported ε (Option SortSpec) :=
  match raw with
  | .text s =>
    if s = "" then pure none
    else match parseSort? s with
      | some sort => pure (some sort)
      | none => do
        report .debug "Sort parameter ignored" [("sort", raw.truncated)]
        return none
  | _ => pure none

/-- The integer a run of octets spells in ASCII. -/
def integerOfBytes? (b : List UInt8) : Option Int :=
  if b.all (· < 0x80) then
    Number.readInteger? (String.ofList (b.map fun x => Char.ofNat x.toNat))
  else none

/-- The integer a value stands for, none when it stands for none; infinity is an error. -/
def integerOf : Value → Except ParamsError (Option Int)
  | .int n => .ok (some n)
  | .bool b => .ok (some b.toInt)
  | .text s => .ok (Number.readInteger? s)
  | .bytes b => .ok (integerOfBytes? b)
  | .float (.infinite _) => .error .infiniteNumber
  | .float x => .ok x.truncate?
  | _ => .ok none

/-- A positive integer, or the default. -/
def positiveOr (default : Int) (raw : Value) : Except ParamsError Int := do
  match ← integerOf raw with
  | some n => return if 0 < n then n else default
  | none => return default

def paramsOf (es : List (String × Value)) : Reported ParamsError Params := do
  let get (key : String) : Value := (Value.lookup? key es).getD .null
  let filters ← readFilter (get "filter")
  let sort ← readSort (get "sort")
  let limit ← .ofExcept (positiveOr defaultLimit (get "limit"))
  let page ← .ofExcept (positiveOr firstPage (get "page"))
  return ⟨filters, sort, min limit maxLimit, page⟩

/-- The parameters in a mapping; nothing at all gives the defaults. -/
def readParams (raw : Value) : Reported ParamsError Params :=
  if !raw.isTruthy then pure {}
  else match raw with
    | .object es => paramsOf es
    | v => .fail (.notMapping v)

/-- The query with its rows in the order of a sort; a field that names no column leaves them. -/
def applySort {ε : Type} (q : Query) (sort : Option SortSpec) : Reported ε Query :=
  match sort with
  | none => pure q
  | some sort =>
    match q.model.column? sort.field with
    | some c => pure { q with sort := some (c, sort.direction) }
    | none => do
      report .warning "Unknown sort column skipped"
        [("model", .text q.model.name), ("field", .text sort.field)]
      return q

end Records.Listing
