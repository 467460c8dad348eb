import Records.Json.Writer
import Records.Log.Template

/-!
Log lines. A structured line is one JSON object; a development line is coloured text with the data
as `key=value` pairs behind it.
-/
namespace Records

open Records.Calendar (Moment)

/-- Where a record was made. -/
structure CallSite where
  path : String
  line : Value
  function : Value
deriving DecidableEq

structure LogRecord where
  logger : String
  level : Int
  message : String
  data : List (String × Value) := []
  /-- The text of the exception the record tells of. -/
  exception : Option String := none
  time : Moment

namespace Level

def number : Level → Int
  | debug => 10
  | info => 20
  | warning => 30
  | error => 40
  | critical => 50

def name : Level → String
  | debug => "DEBUG"
  | info => "INFO"
  | warning => "WARNING"
  | error => "ERROR"
  | critical => "CRITICAL"

def all : List Level := [debug, info, warning, error, critical]

/-- The name of a level by its number; a number between the levels is named by itself. -/
def nameOf (n : Int) : String :=
  match all.find? (·.number == n) with
  | some level => level.name
  | none => if n = 0 then "NOTSET" else "Level " ++ toString n

/-- The terminal colour of a level by its number. -/
def colour (n : Int) : String :=
  let code := match all.find? (·.number == n) with
    | some .debug => "36"
    | some .info => "32"
    | some .warning => "33"
    | some .error => "31"
    | some .critical => "35"
    | none => "0"
  "\x1b[" ++ code ++ "m"

end Level

namespace LogRecord

def fields (r : LogRecord) (site : Option CallSite) : List (String × Value) :=
  [("timestamp", .text (r.time.iso ++ "+00:00")), ("level", .text (Level.nameOf r.level)),
    ("logger", .text r.logger), ("message", .text r.message)] ++
  (if r.data.isEmpty then [] else [("data", .object r.data)]) ++
  (r.exception.map fun e => ("exception", Value.text e)).toList ++
  (site.map fun s => ("source",
    Value.text (s.path ++ ":" ++ s.line.display ++ " in " ++ s.function.display))).toList

/-- One JSON object; the call site is told while debugging. -/
def structured (r : LogRecord) (site : Option CallSite) : String :=
  Json.write (.object (r.fields site))

def padded (width : Nat) (s : String) : String := s ++ "".pushn ' ' (width - s.length)

/-- One line of coloured text, unless an exception follows it. -/
def development (r : LogRecord) : String :=
  let line := Level.colour r.level ++ r.time.time.seconds ++ " " ++
    padded 8 (Level.nameOf r.level) ++ "\x1b[0m " ++ r.logger ++ ": " ++ r.message
  let data := if r.data.isEmpty then ""
    else "  " ++ " ".intercalate (r.data.map fun (k, v) => k ++ "=" ++ v.display)
  line ++ data ++ (r.exception.map ("\n" ++ ·)).getD ""

end LogRecord

/-- The logger of a part of the library. -/
def Reporter.logger : Reporter → String
  | .filters => "resource_service.services.crud.filters"
  | .listing => "resource_service.services.crud.query_params"
  | .repository => "resource_service.services.crud.repository"
  | .service => "resource_service.services.base_service"
  | .problems => "shared.utils.exceptions"

/-- The record an entry becomes. -/
def LogEntry.record (e : LogEntry) (time : Moment) : LogRecord where
  logger := e.reporter.logger
  level := e.level.number
  message := e.message
  data := e.data
  time := time

end Records
