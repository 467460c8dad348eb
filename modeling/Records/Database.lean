import Records.Request
import Records.Settings

/-!
Where a database is: the parts of its address, the address written without the password, and the
pool of connections that settings ask for.
-/
namespace Records

structure Address where
  driver : String
  username : Option String := none
  password : Option String := none
  host : Option String := none
  port : Option Int := none
  database : Option String := none
  query : List (String × String) := []
deriving DecidableEq

namespace Address

inductive AddressError
  | unreadable
  | portNotNumber (port : String)
deriving DecidableEq

def AddressError.message : AddressError → String
  | .unreadable => "Could not parse SQLAlchemy URL from given URL string"
  | .portNotNumber port => "invalid literal for int() with base 10: " ++ Text.quoted port

def unquote (cs : List Char) : String := Text.decodeLossy (Request.unescape cs)

/-- What precedes `://` and what follows it. -/
def schemeOf : List Char → Option (List Char × List Char)
  | ':' :: '/' :: '/' :: rest => some ([], rest)
  | c :: cs =>
    if c.isAlphanum || c == '_' || c == '+' then
      (schemeOf cs).map fun (scheme, rest) => (c :: scheme, rest)
    else none
  | [] => none

/-- A name and perhaps a password before an at sign. -/
def userOf (cs : List Char) : Option (List Char × Option (List Char)) × List Char :=
  let stop := fun c => c == ':' || c == '/'
  let name := cs.takeWhile (!stop ·)
  let rest := cs.dropWhile (!stop ·)
  let password := rest.tail.takeWhile (· != '@')
  let after := rest.tail.dropWhile (· != '@')
  if rest.head? = some ':' ∧ ¬ after.isEmpty then (some (name, some password), after.tail)
  else if name.contains '@' then
    let host := (name.reverse.takeWhile (· != '@')).reverse
    (some (name.take (name.length - host.length - 1), none), host ++ rest)
  else (none, cs)

def hostOf (cs : List Char) : Option (List Char) × List Char :=
  match cs with
  | '[' :: inner =>
    let host := inner.takeWhile (· != ']')
    let rest := inner.dropWhile (· != ']')
    if host.isEmpty ∨ rest.isEmpty then (none, cs) else (some host, rest.tail)
  | cs =>
    let stop := fun c => c == ':' || c == '/' || c == '?'
    let host := cs.takeWhile (!stop ·)
    (if host.isEmpty then none else some host, cs.dropWhile (!stop ·))

/-- The part behind a mark, up to a stop. -/
def partAfter (mark : Char) (stop : Char → Bool) (cs : List Char) :
    Option (List Char) × List Char :=
  match cs with
  | c :: rest =>
    if c = mark then (some (rest.takeWhile (!stop ·)), rest.dropWhile (!stop ·)) else (none, cs)
  | [] => (none, [])

def portOf : Option (List Char) → Except AddressError (Option Int)
  | none => .ok none
  | some [] => .ok none
  | some cs =>
    match Number.readInteger? (String.ofList cs) with
    | some n => .ok (some n)
    | none => .error (.portNotNumber (String.ofList cs))

def read (url : String) : Except AddressError Address := do
  let some (scheme, rest) := schemeOf url.toList | throw .unreadable
  if scheme.isEmpty then throw .unreadable
  let (user, rest) := userOf rest
  let (host, rest) := hostOf rest
  let (port, rest) := partAfter ':' (fun c => c == '/' || c == '?') rest
  let (database, rest) := partAfter '/' (· == '?') rest
  let (query, _) := partAfter '?' (· == '\n') rest
  return {
    driver := String.ofList scheme
    username := user.map fun u => unquote u.1
    password := user.bind fun u => u.2.map unquote
    host := host.map String.ofList
    port := ← portOf port
    database := database.map unquote
    query := (Request.pairs (String.ofList (query.getD []))).filter fun p => p.2 != "" }

def isUnreserved (b : UInt8) : Bool :=
  let c := Char.ofNat b.toNat
  c.isAlphanum || c == '_' || c == '.' || c == '-' || c == '~'

/-- A text with all but unreserved and some safe characters escaped. -/
def quoteWith (safe : List Char) (s : String) : String :=
  String.ofList ((Text.utf8 s).flatMap fun b =>
    let c := Char.ofNat b.toNat
    if isUnreserved b || (b < 0x80 && safe.contains c) then [c]
    else '%' :: (Text.hexDigits 2 b.toNat).map Char.toUpper)

def quoteQuery (s : String) : String :=
  String.ofList ((quoteWith [' '] s).toList.map fun c => if c = ' ' then '+' else c)

/-- The address with stars in place of the password; the query is sorted by name. -/
def text (a : Address) : String :=
  let user := match a.username with
    | none => ""
    | some name =>
      quoteWith [' ', '+'] name ++ (if a.password.isSome then ":***" else "") ++ "@"
  let host := match a.host with
    | none => ""
    | some h => if h.contains ':' then "[" ++ h ++ "]" else h
  let query := a.query.mergeSort fun p q => p.1 ≤ q.1
  a.driver ++ "://" ++ user ++ host ++
    ((a.port.map fun n => ":" ++ toString n).getD "") ++
    ((a.database.map fun d => "/" ++ quoteWith [' ', '+', '/'] d).getD "") ++
    (if query.isEmpty then ""
      else "?" ++ "&".intercalate (query.map fun p => quoteQuery p.1 ++ "=" ++ quoteQuery p.2))

/-- The kind of database and the driver for it, the usual one where none is named. -/
def dialect (a : Address) : String × String :=
  match Request.splitAt '+' a.driver.toList with
  | [kind] =>
    let kind := String.ofList kind
    (kind, if kind = "sqlite" then "pysqlite" else if kind = "postgresql" then "psycopg" else kind)
  | kind :: driver => (String.ofList kind, String.ofList (driver.flatten))
  | [] => ("", "")

end Address

/-- Connections that are kept: how many, how many more at need, how long to wait for one and how
long it lives, and whether it is tried before use. -/
structure Pool where
  size : Int
  overflow : Int
  timeout : Int
  recycle : Int
  tried : Bool
deriving DecidableEq

/-- The pool that settings ask for; without a size it has no bound. -/
def Settings.pool (s : Settings) : Pool :=
  ⟨s.poolSize, if s.poolSize = 0 then -1 else s.maxOverflow, s.poolTimeout, s.poolRecycle, true⟩

end Records
